import Barium.Sched.AgingPass

/-!
# Handing the CPU to a thread

`sched_handoff` puts its target in front of the highest ready queue and yields.
Whether the target runs next is up to `sched_reschedule`.
-/

namespace Barium
namespace Sched

open Foundation
open Function
open LinkedList
open TransitionSystem

/-!
# The call
-/

/-- The search through `n` CPUs from CPU `i` on. -/
def findThread (tid : Nat) :
    Nat -> Nat -> SchedState -> Option (Option Nat × SchedState)
  | 0, _, s => some (none, s)
  | n + 1, i, s => do
      let (target, s) <- findOnCpu i tid (maxPriority + 1) s
      match target with
      | some t => some (some t, s)
      | none => findThread tid n (i + 1) s

/-- `sched_handoff` on CPU `c`, up to the `sched_yield` that follows if there
is a target. -/
def schedHandoff (s : SchedState) (c tid : Nat) :
    Option (Option Nat × SchedState) :=
  if tid = 0 then
    some (none, s)
  else do
    let (target, s) <- findThread tid s.cpuCount 0 s
    match target with
    | some t => some (some t, takeOver s c t)
    | none => some (none, s)

section Search

variable {s s' : SchedState} {tid : Nat}

theorem findInQueue_result {l : Loc} {fuel prev curr : Nat}
    {found : Option Nat}
    (hrun : findInQueue l tid fuel s prev curr = some (found, s')) :
    (found = none ∧ s' = s) ∨
      exists t before, found = some t ∧ s' = unlink s l before t := by
  induction fuel generalizing prev curr with
  | zero => cases hrun
  | succ fuel ih =>
      unfold findInQueue at hrun
      split at hrun
      case isTrue =>
          cases hrun
          exact Or.inl ⟨rfl, rfl⟩
      case isFalse =>
          split at hrun
          case isTrue =>
              cases hrun
              exact Or.inr ⟨curr, prev, rfl, rfl⟩
          case isFalse => exact ih hrun

theorem findInQueue_misses {l : Loc} {fuel prev curr : Nat} {rest : List Nat}
    (hchain : Chain 0 s.next curr rest)
    (hrun : findInQueue l tid fuel s prev curr = some (none, s')) {t : Nat}
    (ht : t ∈ rest) : (s.threads t).tid ≠ tid := by
  induction fuel generalizing prev curr rest with
  | zero => cases hrun
  | succ fuel ih =>
      cases rest with
      | nil => cases ht
      | cons u after =>
          rcases hchain with ⟨hcurr, hne, hafter⟩
          unfold findInQueue at hrun
          rw [hcurr, if_neg hne] at hrun
          split at hrun
          case isTrue => cases hrun
          case isFalse hother =>
              rcases List.mem_cons.mp ht with heq | hmem
              · rw [heq]
                exact hother
              · exact ih hafter hrun hmem

theorem findOnCpu_result {i n : Nat} {found : Option Nat}
    (hrun : findOnCpu i tid n s = some (found, s')) :
    (found = none ∧ s' = s) ∨
      exists l t before, found = some t ∧ s' = unlink s l before t := by
  induction n with
  | zero =>
      cases hrun
      exact Or.inl ⟨rfl, rfl⟩
  | succ p ih =>
      unfold findOnCpu at hrun
      rcases Option.bind_eq_some_iff.mp hrun with ⟨⟨here, s1⟩, hqueue, hrest⟩
      rcases findInQueue_result hqueue with ⟨hnone, hsame⟩ |
        ⟨t, before, hsome, hunlink⟩
      · subst hnone hsame
        exact ih hrest
      · subst hsome
        cases hrest
        exact Or.inr ⟨_, t, before, rfl, hunlink⟩

theorem findOnCpu_misses {lists : Loc -> List Nat} {i n : Nat}
    (hchain : forall p, p < n -> Chain 0 s.next
      (queueHead s (i, Queue.ready p)) (lists (i, Queue.ready p)))
    (hrun : findOnCpu i tid n s = some (none, s')) {p t : Nat} (hp : p < n)
    (ht : t ∈ lists (i, Queue.ready p)) : (s.threads t).tid ≠ tid := by
  induction n with
  | zero => cases hp
  | succ q ih =>
      unfold findOnCpu at hrun
      rcases Option.bind_eq_some_iff.mp hrun with ⟨⟨here, s1⟩, hqueue, hrest⟩
      rcases findInQueue_result hqueue with ⟨hnone, hsame⟩ |
        ⟨_, _, hsome, _⟩
      · subst hnone hsame
        rcases Nat.lt_succ_iff_lt_or_eq.mp hp with hlt | heq
        · exact ih (fun p hp => hchain p (Nat.lt_succ_of_lt hp)) hrest hlt
        · rw [heq] at ht
          exact findInQueue_misses (hchain q (Nat.lt_succ_self q)) hqueue ht
      · subst hsome
        cases hrest

theorem findThread_result {n i : Nat} {found : Option Nat}
    (hrun : findThread tid n i s = some (found, s')) :
    (found = none ∧ s' = s) ∨
      exists l t before, found = some t ∧ s' = unlink s l before t := by
  induction n generalizing i with
  | zero =>
      cases hrun
      exact Or.inl ⟨rfl, rfl⟩
  | succ n ih =>
      unfold findThread at hrun
      rcases Option.bind_eq_some_iff.mp hrun with ⟨⟨here, s1⟩, hhere, hrest⟩
      rcases findOnCpu_result hhere with ⟨hnone, hsame⟩ |
        ⟨l, t, before, hsome, hunlink⟩
      · subst hnone hsame
        exact ih hrest
      · subst hsome
        cases hrest
        exact Or.inr ⟨l, t, before, rfl, hunlink⟩

theorem findThread_lastAge {n i : Nat} {found : Option Nat}
    (hrun : findThread tid n i s = some (found, s')) (id : Nat) :
    (s'.extras id).lastAgeTick = (s.extras id).lastAgeTick := by
  rcases findThread_result hrun with ⟨_, hsame⟩ | ⟨l, t, before, _, hunlink⟩
  · rw [hsame]
  · rw [hunlink]
    exact unlink_lastAge l before t id

variable {holds : Nat -> Option Nat} {spawned : Nat -> Prop}
  {place : Nat -> Option Place} {lists : Loc -> List Nat}

/-- The search ends.  If it fails, none of the queues has the thread. -/
theorem findThread_spec {n i : Nat} (h : Placed s holds spawned place lists)
    (hn : i + n <= s.cpuCount) :
    exists found s', findThread tid n i s = some (found, s') ∧
      Search s holds spawned place tid (found, s') ∧
      (found = none -> forall j p t, i <= j -> j < i + n ->
        p <= maxPriority -> t ∈ lists (j, Queue.ready p) ->
        (s.threads t).tid ≠ tid) := by
  induction n generalizing i with
  | zero =>
      refine ⟨none, s, rfl, Search.missing, ?_⟩
      intro _ j p t hle hlt
      exact absurd hlt (by lia)
  | succ n ih =>
      have hi : i < s.cpuCount := by lia
      rcases findOnCpu_spec h hi (Nat.le_refl _) with
        ⟨⟨here, s1⟩, hhere, hsearch⟩
      unfold findThread
      rw [hhere]
      rcases findOnCpu_result hhere with ⟨hnone, hsame⟩ | ⟨l, t, _, hsome, _⟩
      · subst hnone hsame
        rcases ih (i := i + 1) (by lia) with
          ⟨found, s', hrun, hfound, hmisses⟩
        refine ⟨found, s', hrun, hfound, ?_⟩
        intro hnone j p t hle hlt hp ht
        rcases Nat.eq_or_lt_of_le hle with heq | hgt
        · rw [← heq] at ht
          exact findOnCpu_misses
            (fun q hq => h.chain _ (locValid_ready hi (Nat.le_of_lt_succ hq)))
            hhere (Nat.lt_succ_of_le hp) ht
        · exact hmisses hnone j p t hgt (by lia) hp ht
      · subst hsome
        exact ⟨some t, s1, rfl, hsearch, fun hnone => by cases hnone⟩

end Search

/-!
# The call as steps of a run
-/

def SchedRun.handing (r : SchedRun) (c : Nat) (sched : SchedState)
    (state : HandoffState) : SchedRun :=
  { r with
    sched := sched
    handoff := update r.handoff c state }

section Runs

variable {cpuCount : Nat} {ids : Nat -> Nat} {r : SchedRun} {c tid t : Nat}
  {sched : SchedState}

theorem handing_handing (s s' : SchedState) (state state' : HandoffState) :
    (r.handing c s state).handing c s' state' = r.handing c s' state' := by
  unfold SchedRun.handing
  simp only [update_idem]

theorem findThread_runs {n i : Nat} (hc : c < r.sched.cpuCount)
    (hscan : r.handoff c = HandoffState.scanning tid i)
    (hn : i + n <= r.sched.cpuCount)
    (hrun : findThread tid n i r.sched = some (some t, sched)) :
    exists m, Runs (schedSystem cpuCount ids) r
      (List.replicate m (SchedEvent.handoff c))
      (r.handing c sched (HandoffState.holding t)) := by
  induction n generalizing r i with
  | zero => cases hrun
  | succ n ih =>
      have hi : i < r.sched.cpuCount := by lia
      unfold findThread at hrun
      rcases Option.bind_eq_some_iff.mp hrun with ⟨⟨here, s1⟩, hhere, hrest⟩
      rcases findOnCpu_result hhere with ⟨hnone, hsame⟩ |
        ⟨l, u, before, hsome, hunlink⟩
      · subst hnone hsame
        have hmiss : SchedStep r (SchedEvent.handoff c)
            (r.handing c r.sched (HandoffState.scanning tid (i + 1))) :=
          SchedStep.handoffMiss hc hscan hi hhere
        have hnext : (r.handing c r.sched (HandoffState.scanning tid
            (i + 1))).handoff c = HandoffState.scanning tid (i + 1) :=
          update_self _ _ _
        have hleft : i + 1 + n <= r.sched.cpuCount := by lia
        rcases ih (r := r.handing c r.sched
          (HandoffState.scanning tid (i + 1))) hc hnext hleft hrest with
          ⟨m, hruns⟩
        rw [handing_handing] at hruns
        exists m + 1
        rw [List.replicate_succ]
        exact runs_append (runs_single hmiss) hruns
      · subst hsome
        cases hrest
        exact ⟨1, runs_single (SchedStep.handoffFind hc hscan hi hhere)⟩

/-- A call that finds its target is a number of steps of CPU `c`. -/
theorem schedHandoff_runs (hc : c < r.sched.cpuCount)
    (hidle : r.handoff c = HandoffState.idle)
    (hrun : schedHandoff r.sched c tid = some (some t, sched)) :
    exists m, Runs (schedSystem cpuCount ids) r
      (List.replicate m (SchedEvent.handoff c)) { r with sched := sched } := by
  unfold schedHandoff at hrun
  split at hrun
  case isTrue => cases hrun
  case isFalse htid =>
      rcases Option.bind_eq_some_iff.mp hrun with
        ⟨⟨found, s1⟩, hfind, hrest⟩
      cases found with
      | none => cases hrest
      | some u =>
          cases hrest
          have hstart : SchedStep r (SchedEvent.handoff c)
              (r.handing c r.sched (HandoffState.scanning tid 0)) :=
            SchedStep.handoffStart hc htid hidle
          have hsearch : exists m, Runs (schedSystem cpuCount ids)
              (r.handing c r.sched (HandoffState.scanning tid 0))
              (List.replicate m (SchedEvent.handoff c))
              (r.handing c s1 (HandoffState.holding t)) := by
            rw [← handing_handing r.sched s1 (HandoffState.scanning tid 0)]
            exact findThread_runs hc (update_self _ _ _)
              (Nat.le_of_eq (Nat.zero_add _)) hfind
          rcases hsearch with ⟨m, hsearch⟩
          have hc1 : c < s1.cpuCount := by
            rcases findThread_result hfind with ⟨hnone, _⟩ |
              ⟨l, u, before, _, hunlink⟩
            · cases hnone
            · rw [hunlink, (unlink_links r.sched l before u).count]
              exact hc
          have hput : SchedStep (r.handing c s1 (HandoffState.holding t))
              (SchedEvent.handoff c)
              ((r.handing c s1 (HandoffState.holding t)).handing c
                (takeOver s1 c t) HandoffState.idle) :=
            SchedStep.handoffPlace hc1 (update_self _ _ _)
          have hdone : (r.handing c s1 (HandoffState.holding t)).handing c
              (takeOver s1 c t) HandoffState.idle =
              { r with sched := takeOver s1 c t } := by
            rw [handing_handing]
            unfold SchedRun.handing
            rw [← hidle, update_eq_self]
          rw [hdone] at hput
          exists 1 + (m + 1)
          rw [List.replicate_add, List.replicate_succ' (n := m)]
          exact runs_append (runs_single hstart) (Runs.snoc hsearch hput)

end Runs

/-!
# Who comes first

The threads that a tick puts in front of the highest ready queue: sleepers that
wake up and threads that have grown old in the queue below.
-/

def AwakeIn (s : SchedState) (lists : Loc -> List Nat) (c tick q t : Nat) :
    Prop :=
  t ∈ lists (c, Queue.ready q) ∨
    (t ∈ lists (c, Queue.sleep) ∧ (s.threads t).wakeupTick <= tick ∧
      (s.threads t).priority = q)

def AgedUp (s : SchedState) (lists : Loc -> List Nat)
    (c tick ageTick t : Nat) : Prop :=
  AgeDue s c ageTick ∧ GrownOld (s.threads t) ∧
    exists q, q < maxPriority ∧ AwakeIn s lists c tick q t

/-- The target is the first choice of the next `sched_reschedule`: the caller
must give way, and nobody gets in front of the target. -/
structure TargetFirst (s : SchedState) (lists : Loc -> List Nat)
    (c target tick ageTick : Nat) : Prop where
  caller : (s.threads (s.cpus c).schedThread).priority < maxPriority ∨
    (s.threads (s.cpus c).schedThread).ticksRemaining <= 1
  sleepers : forall t, t ∈ lists (c, Queue.sleep) ->
    (s.threads t).wakeupTick <= tick -> (s.threads t).priority ≠ maxPriority
  promoted : AgeDue s c ageTick -> forall t, t ≠ target ->
    AwakeIn s lists c tick 30 t -> ¬ GrownOld (s.threads t)

def newcomers (s : SchedState) (c tick ageTick : Nat)
    (lists : Loc -> List Nat) : List Nat :=
  (if AgeDue s c ageTick then
    ((afterWaking s c tick lists (Queue.ready 30)).filter
      (fun t => GrownOld (s.threads t))).reverse
  else []) ++
    ((lists (c, Queue.sleep)).filter (fun t =>
      (s.threads t).wakeupTick <= tick ∧
        (s.threads t).priority = maxPriority)).reverse

section Front

variable {s : SchedState} {lists : Loc -> List Nat} {c tick ageTick : Nat}

theorem mem_afterWaking {q t : Nat} :
    t ∈ afterWaking s c tick lists (Queue.ready q) <->
      AwakeIn s lists c tick q t := by
  unfold afterWaking AwakeIn
  simp only [wokenLists, List.mem_append, List.mem_reverse, List.mem_filter,
    decide_eq_true_iff]
  rw [or_comm]

theorem afterTick_highest :
    afterTick s c tick ageTick lists (Queue.ready maxPriority) =
      newcomers s c tick ageTick lists ++
        lists (c, Queue.ready maxPriority) := by
  have hwoken : afterWaking s c tick lists (Queue.ready maxPriority) =
      ((lists (c, Queue.sleep)).filter (fun t =>
        (s.threads t).wakeupTick <= tick ∧
          (s.threads t).priority = maxPriority)).reverse ++
        lists (c, Queue.ready maxPriority) := rfl
  unfold afterTick newcomers
  by_cases hdue : AgeDue s c ageTick
  · rw [if_pos hdue, if_pos hdue, List.append_assoc, ← hwoken]
    exact passLists_highest (q := 30) (Nat.zero_le 30) rfl
  · rw [if_neg hdue, if_neg hdue, List.nil_append, hwoken]

theorem newcomers_eq_nil :
    newcomers s c tick ageTick lists = [] <->
      (forall t, t ∈ lists (c, Queue.sleep) ->
        (s.threads t).wakeupTick <= tick ->
        (s.threads t).priority ≠ maxPriority) ∧
      (AgeDue s c ageTick -> forall t, AwakeIn s lists c tick 30 t ->
        ¬ GrownOld (s.threads t)) := by
  unfold newcomers
  rw [List.append_eq_nil_iff, List.reverse_eq_nil_iff,
    List.filter_eq_nil_iff, and_comm]
  simp only [decide_eq_true_iff, not_and]
  apply and_congr_right
  intro _
  by_cases hdue : AgeDue s c ageTick
  · rw [if_pos hdue, List.reverse_eq_nil_iff, List.filter_eq_nil_iff]
    simp only [mem_afterWaking, decide_eq_true_iff, hdue, true_implies]
  · simp [hdue]

end Front

/-!
# The call of `sched_reschedule`
-/

section Choice

variable {s : SchedState} {holds : Nat -> Option Nat} {spawned : Nat -> Prop}
  {place : Nat -> Option Place} {lists : Loc -> List Nat}
  {c tick ageTick : Nat}

theorem grownOld_woken (s : SchedState) (asleep : List Nat) (tick t : Nat) :
    GrownOld (wokenRecord s asleep tick t) <-> GrownOld (s.threads t) := by
  unfold GrownOld
  rw [wokenRecord_field Thread.tid (fun _ => rfl) (fun _ => rfl),
    wokenRecord_field Thread.totalTicks (fun _ => rfl) (fun _ => rfl)]

/-- A tick raises the priorities of the threads that the aging pass promotes,
and no others. -/
theorem Serves.priority {current : Nat} {s1 : SchedState}
    {lists1 : Loc -> List Nat}
    (h : Serves s lists c current tick ageTick s1 lists1) {t : Nat}
    (hne : t ≠ current) :
    (AgedUp s lists c tick ageTick t ->
      (s1.threads t).priority = (s.threads t).priority + 1) ∧
    (¬ AgedUp s lists c tick ageTick t ->
      (s1.threads t).priority = (s.threads t).priority) := by
  have hwoken : (wokenRecord s (lists (c, Queue.sleep)) tick t).priority =
      (s.threads t).priority :=
    wokenRecord_field Thread.priority (fun _ => rfl) (fun _ => rfl) _ _ _
  have hold := grownOld_woken s (lists (c, Queue.sleep)) tick t
  constructor
  · rintro ⟨hdue, hgrown, q, hq, hawake⟩
    have hcontent := h.aged hdue q t hq (mem_afterWaking.mpr hawake)
    rw [← hwoken, ← passRecord_priority (hold.mpr hgrown) q, ← hcontent]
    rfl
  · intro hnot
    rw [← hwoken]
    by_cases hpassed : AgeDue s c ageTick ∧ exists q, q < maxPriority ∧
        AwakeIn s lists c tick q t
    · rcases hpassed with ⟨hdue, q, hq, hawake⟩
      have hyoung : ¬ GrownOld (wokenRecord s (lists (c, Queue.sleep)) tick
          t) := fun hgrown => hnot ⟨hdue, hold.mp hgrown, q, hq, hawake⟩
      have hcontent := h.aged hdue q t hq (mem_afterWaking.mpr hawake)
      rw [passRecord_of_young hyoung] at hcontent
      rw [← visited_keeps hyoung, ← hcontent]
      rfl
    · rw [← h.kept t hne (fun hdue q hq hmem =>
        hpassed ⟨hdue, q, hq, mem_afterWaking.mp hmem⟩)]
      rfl

theorem Placed.not_agedUp (h : Placed s holds spawned place lists) {t : Nat}
    (ht : forall l, place t ≠ some (Place.queue l)) :
    ¬ AgedUp s lists c tick ageTick t := by
  rintro ⟨_, _, q, _, hmem | ⟨hmem, _⟩⟩
  · exact h.not_mem ht _ hmem
  · exact h.not_mem ht _ hmem

theorem schedReschedule_highest {target : Nat} {rest : List Nat}
    (rsp tick ageTick : Nat) (h : Placed s holds spawned place lists)
    (hcurrent : place (s.cpus c).schedThread = some (Place.running c))
    (hrunning : (s.threads (s.cpus c).schedThread).state =
      ThreadState.running)
    (hfirst : lists (c, Queue.ready maxPriority) = target :: rest) :
    exists r, schedReschedule s c rsp tick ageTick = some r ∧
      ((r.state.cpus c).schedThread = target <->
        newcomers s c tick ageTick lists = [] ∧
          ((s.threads (s.cpus c).schedThread).priority < maxPriority ∨
            (s.threads (s.cpus c).schedThread).ticksRemaining <= 1)) ∧
      forall t,
        (AgedUp s lists c tick ageTick t ->
          (r.state.threads t).priority = (s.threads t).priority + 1) ∧
        (¬ AgedUp s lists c tick ageTick t ->
          (r.state.threads t).priority = (s.threads t).priority) := by
  have hc : c < s.cpuCount := h.cpu_lt _ _ hcurrent
  have hqueued : place target = some (Place.queue
      (c, Queue.ready maxPriority)) := by
    rw [← h.mem_iff, hfirst]
    exact List.mem_cons_self
  have hne : (s.cpus c).schedThread ≠ target := by
    intro heq
    rw [heq, hqueued] at hcurrent
    cases hcurrent
  have hpriority := (h.fits _ _ hcurrent).right.left
  rcases schedReschedule_exact rsp tick ageTick h hcurrent with
    ⟨s1, place1, lists1, r, place', lists', _, hplaced1, hserved, hserves,
      hrecord, hrun, _, _, houtcome⟩
  have hlist : lists1 (c, Queue.ready maxPriority) =
      newcomers s c tick ageTick lists ++ target :: rest := by
    rw [hserves.queues _ (Nat.le_refl _), afterTick_highest, hfirst]
  have hhighest : Highest lists1 c maxPriority := by
    refine ⟨Nat.le_refl _, ?_, ?_⟩
    · rw [hlist]
      simp
    · intro q hlt hle
      exact absurd hlt (Nat.not_lt_of_le hle)
  have hc1 : c < s1.cpuCount := by
    rw [hserved.frame.count]
    exact hc
  have htop := (hplaced1.topQueue_iff hc1 maxPriority).mpr hhighest
  have hdue : SwitchDue (s1.threads (s.cpus c).schedThread) maxPriority <->
      (s.threads (s.cpus c).schedThread).priority < maxPriority ∨
        (s.threads (s.cpus c).schedThread).ticksRemaining <= 1 := by
    rw [hrecord]
    unfold SwitchDue ticked
    simp only [hrunning, ne_eq, not_true_eq_false, or_false]
    generalize (s.threads (s.cpus c).schedThread).priority = p at hpriority
    generalize (s.threads (s.cpus c).schedThread).ticksRemaining = n
    lia
  refine ⟨r, hrun, ?_, ?_⟩
  · cases houtcome with
    | stay hno =>
        constructor
        · intro heq
          exact absurd ((hserved.frame.running c).symm.trans heq) hne
        · rintro ⟨_, hgives⟩
          exact absurd (hdue.mpr hgives) (hno _ htop)
    | switch htop' hdue' hqueues =>
        rw [htop] at htop'
        cases htop'
        rcases hqueues.queue with ⟨after, hafter, _⟩
        have hnodup := hplaced1.nodup (c, Queue.ready maxPriority)
        rw [hlist] at hafter hnodup
        cases hnew : newcomers s c tick ageTick lists with
        | nil =>
            rw [hnew] at hafter
            cases hafter
            exact ⟨fun _ => ⟨rfl, hdue.mp hdue'⟩, fun _ => rfl⟩
        | cons t others =>
            rw [hnew] at hafter hnodup
            cases hafter
            constructor
            · intro heq
              rw [heq] at hnodup
              exact absurd hnodup (by simp)
            · rintro ⟨hempty, _⟩
              cases hempty
  · intro t
    rw [houtcome.field Thread.priority (fun _ _ => rfl) (fun _ => rfl)
      (fun _ => rfl)]
    by_cases hsame : t = (s.cpus c).schedThread
    · have hnot : ¬ AgedUp s lists c tick ageTick t := by
        apply h.not_agedUp
        rw [hsame, hcurrent]
        simp
      refine ⟨fun haged => absurd haged hnot, fun _ => ?_⟩
      rw [hsame, hrecord]
      rfl
    · exact hserves.priority hsame

end Choice

/-!
# What the call leaves to `sched_reschedule`
-/

def InReady (s : SchedState) (lists : Loc -> List Nat) (tid : Nat) : Prop :=
  exists i p t, i < s.cpuCount ∧ p <= maxPriority ∧
    t ∈ lists (i, Queue.ready p) ∧ (s.threads t).tid = tid

/-- The target has gone in front of the highest ready queue of CPU `c`; all
other threads are where they were. -/
structure HandedOff (s : SchedState) (lists : Loc -> List Nat)
    (c target : Nat) (s' : SchedState) (lists' : Loc -> List Nat) :
    Prop where
  first : exists rest, lists' (c, Queue.ready maxPriority) = target :: rest
  others : forall q t, q.Valid -> t ≠ target ->
    (t ∈ lists' (c, q) <-> t ∈ lists (c, q))
  gone : forall q, q ≠ Queue.ready maxPriority -> target ∉ lists' (c, q)
  awake : target ∉ lists (c, Queue.sleep)
  records : forall t, t ≠ target ->
    (s'.threads t).content = (s.threads t).content
  age : forall tick, AgeDue s' c tick <-> AgeDue s c tick
  running : (s'.cpus c).schedThread = (s.cpus c).schedThread

theorem takeOver_lastAge (s : SchedState) (c target id : Nat) :
    ((takeOver s c target).extras id).lastAgeTick =
      (s.extras id).lastAgeTick := by
  unfold takeOver push
  rw [setQueueHead_lastAge]
  rfl

theorem takeOver_content (s : SchedState) (c : Nat) {target t : Nat}
    (ht : t ≠ target) :
    ((takeOver s c target).threads t).content = (s.threads t).content := by
  unfold takeOver
  rw [(push_links _ _ _).content, modThread_other _ _ _ ht]

section Handing

variable {s : SchedState} {holds : Nat -> Option Nat} {spawned : Nat -> Prop}
  {place : Nat -> Option Place} {lists lists0 : Loc -> List Nat} {c tid : Nat}

theorem schedHandoff_spec (h : Placed s holds spawned place lists0)
    (hqueues : QueuesHold s lists) (hc : c < s.cpuCount) (htid : tid ≠ 0)
    (hin : InReady s lists tid) :
    exists target s' place' lists',
      schedHandoff s c tid = some (some target, s') ∧
      (s.threads target).tid = tid ∧
      Placed s' holds spawned place' lists' ∧
      (forall t, (forall l, place t ≠ some (Place.queue l)) ->
        t ≠ target ∧ place' t = place t) ∧
      HandedOff s lists c target s' lists' := by
  have hsame : forall l, LocValid s l -> lists l = lists0 l :=
    fun l hl => chain_unique (hqueues l hl) (h.chain l hl)
  rcases findThread_spec h (Nat.le_of_eq (Nat.zero_add s.cpuCount)) with
    ⟨found, s1, hfind, hsearch, hmisses⟩
  cases hsearch with
  | missing =>
      rcases hin with ⟨i, p, t, hi, hp, ht, heq⟩
      rw [hsame (i, Queue.ready p) ⟨hi, hp⟩] at ht
      exact absurd heq (hmisses rfl i p t (Nat.zero_le i) (by lia) hp ht)
  | @found target l _ lists1 hplace hfound hfits hready hplaced hlinks =>
      have hrun : schedHandoff s c tid =
          some (some target, takeOver s1 c target) := by
        unfold schedHandoff
        rw [if_neg htid, hfind]
        rfl
      have hne : forall t, (forall l, place t ≠ some (Place.queue l)) ->
          t ≠ target := by
        intro t ht heq
        rw [heq] at ht
        exact ht l hplace
      have hstate : (s1.threads target).state = ThreadState.ready := by
        rw [content_field (hlinks.content target) Thread.state (fun _ => rfl)]
        rcases l with ⟨d, q⟩
        rcases hready with ⟨p, hq⟩
        cases hq
        exact hfits.left
      have hput := hplaced.takeOver (hlinks.count ▸ hc)
        (h.address target _ hplace) hstate
      refine ⟨target, takeOver s1 c target, _, _, hrun, hfound, hput, ?_, ?_⟩
      · intro t ht
        exact ⟨hne t ht, update_of_ne (hne t ht) _ _⟩
      · constructor
        · rw [update_self]
          exact ⟨_, rfl⟩
        · intro q t hq ht
          rw [hput.mem_iff, update_of_ne ht,
            hsame (c, q) ⟨hc, hq⟩, h.mem_iff]
        · intro q hq
          rw [hput.mem_iff, update_self]
          intro heq
          cases heq
          exact hq rfl
        · rw [hsame (c, Queue.sleep) ⟨hc, trivial⟩, h.mem_iff, hplace]
          rcases hready with ⟨p, hp⟩
          intro heq
          cases heq
          cases hp
        · intro t ht
          rw [takeOver_content s1 c ht, hlinks.content]
        · intro tick
          unfold AgeDue
          rw [takeOver_lastAge, findThread_lastAge hfind,
            show ((takeOver s1 c target).cpus c).cpuId = (s.cpus c).cpuId from
              ((push_links _ _ _).ids c).trans (hlinks.ids c)]
        · exact ((push_links _ _ _).running c).trans (hlinks.running c)

section Handed

variable {target : Nat} {s' : SchedState} {lists' : Loc -> List Nat}

theorem HandedOff.awakeIn_iff (h : HandedOff s lists c target s' lists')
    {tick q t : Nat} (hq : q <= maxPriority) (ht : t ≠ target) :
    AwakeIn s' lists' c tick q t <-> AwakeIn s lists c tick q t := by
  unfold AwakeIn
  rw [h.others (Queue.ready q) t hq ht, h.others Queue.sleep t trivial ht,
    content_field (h.records t ht) Thread.wakeupTick (fun _ => rfl),
    content_field (h.records t ht) Thread.priority (fun _ => rfl)]

theorem HandedOff.agedUp_iff (h : HandedOff s lists c target s' lists')
    {tick ageTick t : Nat} (ht : t ≠ target) :
    AgedUp s' lists' c tick ageTick t <-> AgedUp s lists c tick ageTick t := by
  unfold AgedUp
  rw [h.age, grownOld_content (h.records t ht)]
  apply and_congr_right
  intro _
  apply and_congr_right
  intro _
  apply exists_congr
  intro q
  apply and_congr_right
  intro hq
  exact h.awakeIn_iff (Nat.le_of_lt hq) ht

theorem HandedOff.targetFirst_iff (h : HandedOff s lists c target s' lists')
    (hcaller : (s.cpus c).schedThread ≠ target) (tick ageTick : Nat) :
    TargetFirst s lists c target tick ageTick <->
      newcomers s' c tick ageTick lists' = [] ∧
        ((s'.threads (s'.cpus c).schedThread).priority < maxPriority ∨
          (s'.threads (s'.cpus c).schedThread).ticksRemaining <= 1) := by
  have hrecord := h.records _ hcaller
  have hasleep : forall t, t ∈ lists' (c, Queue.sleep) <->
      t ∈ lists (c, Queue.sleep) := by
    intro t
    by_cases hsame : t = target
    · rw [hsame]
      exact iff_of_false (h.gone _ (by simp)) h.awake
    · exact h.others _ t trivial hsame
  have hne : forall t, t ∈ lists (c, Queue.sleep) -> t ≠ target := by
    intro t ht heq
    rw [heq] at ht
    exact h.awake ht
  rw [newcomers_eq_nil, h.running,
    content_field hrecord Thread.priority (fun _ => rfl),
    content_field hrecord Thread.ticksRemaining (fun _ => rfl), h.age]
  constructor
  · intro hfirst
    refine ⟨⟨?_, ?_⟩, hfirst.caller⟩
    · intro t ht hwake
      have hmem := (hasleep t).mp ht
      rw [content_field (h.records t (hne t hmem)) Thread.wakeupTick
        (fun _ => rfl)] at hwake
      rw [content_field (h.records t (hne t hmem)) Thread.priority
        (fun _ => rfl)]
      exact hfirst.sleepers t hmem hwake
    · intro hdue t hawake
      have htne : t ≠ target := by
        intro heq
        rw [heq] at hawake
        rcases hawake with hmem | ⟨hmem, _⟩
        · exact h.gone _ (by decide) hmem
        · exact h.gone _ (by simp) hmem
      rw [grownOld_content (h.records t htne)]
      exact hfirst.promoted hdue t htne
        ((h.awakeIn_iff (by decide) htne).mp hawake)
  · rintro ⟨⟨hsleepers, hpromoted⟩, hgives⟩
    constructor
    · exact hgives
    · intro t ht hwake
      have hkept := hsleepers t ((hasleep t).mpr ht)
      rw [content_field (h.records t (hne t ht)) Thread.wakeupTick
        (fun _ => rfl), content_field (h.records t (hne t ht))
        Thread.priority (fun _ => rfl)] at hkept
      exact hkept hwake
    · intro hdue t htne hawake
      rw [← grownOld_content (h.records t htne)]
      exact hpromoted hdue t ((h.awakeIn_iff (by decide) htne).mpr hawake)

end Handed

end Handing

/-- The thread that `sched_handoff` finds runs next if and only if the caller
has to give way and nobody comes before the target.  The other threads keep
their priorities, unless they are aged. -/
theorem schedHandoff_next_iff {cpuCount : Nat} {ids : Nat -> Nat}
    {r : SchedRun} {lists : Loc -> List Nat} {c tid : Nat}
    (rsp tick ageTick : Nat)
    (hids : ValidIds cpuCount ids) (hpos : 0 < cpuCount)
    (hreach : (schedSystem cpuCount ids).Reachable r)
    (hqueues : QueuesHold r.sched lists) (hc : c < r.sched.cpuCount)
    (hidle : r.handoff c = HandoffState.idle)
    (hrunning : (r.sched.threads (r.sched.cpus c).schedThread).state =
      ThreadState.running)
    (htid : tid ≠ 0) (hin : InReady r.sched lists tid) :
    exists target sched result,
      schedHandoff r.sched c tid = some (some target, sched) ∧
      (r.sched.threads target).tid = tid ∧
      (exists m, Runs (schedSystem cpuCount ids) r
        (List.replicate m (SchedEvent.handoff c)) { r with sched := sched }) ∧
      schedReschedule sched c rsp tick ageTick = some result ∧
      ((result.state.cpus c).schedThread = target <->
        TargetFirst r.sched lists c target tick ageTick) ∧
      forall t, t ≠ target ->
        (AgedUp r.sched lists c tick ageTick t ->
          (result.state.threads t).priority =
            (r.sched.threads t).priority + 1) ∧
        (¬ AgedUp r.sched lists c tick ageTick t ->
          (result.state.threads t).priority =
            (r.sched.threads t).priority) := by
  rcases sched_reachable_invariant hids hpos hreach with ⟨place, lists0, hinv⟩
  have hplace := hinv.running c hc
  rcases schedHandoff_spec hinv.placed hqueues hc htid hin with
    ⟨target, sched, place', lists', hrun, hfound, hplaced, hkept, hhanded⟩
  rcases hkept (r.sched.cpus c).schedThread (by rw [hplace]; simp) with
    ⟨hcaller, hsame⟩
  rcases hhanded.first with ⟨rest, hfirst⟩
  have hcurrent : place' (sched.cpus c).schedThread =
      some (Place.running c) := by
    rw [hhanded.running, hsame, hplace]
  have hstate : (sched.threads (sched.cpus c).schedThread).state =
      ThreadState.running := by
    rw [hhanded.running, content_field (hhanded.records _ hcaller)
      Thread.state (fun _ => rfl)]
    exact hrunning
  rcases schedReschedule_highest rsp tick ageTick hplaced hcurrent hstate hfirst
    with ⟨result, hcall, hnext, hpriority⟩
  refine ⟨target, sched, result, hrun, hfound,
    schedHandoff_runs hc hidle hrun, hcall, ?_, ?_⟩
  · rw [hnext, hhanded.targetFirst_iff hcaller]
  · intro t ht
    have hkeeps := hpriority t
    rw [hhanded.agedUp_iff ht, content_field (hhanded.records t ht)
      Thread.priority (fun _ => rfl)] at hkeeps
    exact hkeeps

/-!
# A caller and its server
-/

def serverBorn (p : Nat) : SchedRun :=
  let caller := schedSpawn oneCpu.sched 0x5000 0x6000 0x100000 p none
  let r := oneCpu.born caller.state 0x5000 caller.ret true
  let server := schedSpawn r.sched 0x7000 0x8000 0x100000 5 none
  r.born server.state 0x7000 server.ret true

def callerRuns (p : Nat) : SchedRun := (serverBorn p).rescheduled 0 0x9000 1

theorem serverBorn_reachable (p : Nat) :
    (schedSystem 1 (fun _ => 0)).Reachable (serverBorn p) := by
  have hname : NameFits none := by
    intro bytes hbytes
    cases hbytes
  have hcaller := oneCpu_resting.alone 0x5000 (by decide)
  have hserver := oneCpu_resting.alone 0x7000 (by decide)
  apply reachable_step (reachable_step oneCpu_reachable
    (SchedStep.spawn ⟨by decide, by decide, hcaller⟩ hname))
  apply SchedStep.spawn _ hname
  refine ⟨by decide, by decide, ?_⟩
  exact (born_alive_other _ _ _ (by decide)).trans hserver

theorem callerRuns_reachable (p : Nat) :
    (schedSystem 1 (fun _ => 0)).Reachable (callerRuns p) :=
  SchedRun.rescheduled_reachable Nat.one_pos (serverBorn_reachable p)

theorem callerRuns_handoff (p : Nat) :
    (callerRuns p).handoff 0 = HandoffState.idle :=
  congrFun SchedRun.rescheduled_handoff 0

theorem callerRuns_queues {p : Nat}
    (hcpu : (callerRuns p).sched.cpuCount = 1)
    (hhead : queueHead (callerRuns p).sched (0, Queue.ready 5) = 0x7000)
    (hasleep : queueHead (callerRuns p).sched (0, Queue.sleep) = 0)
    (htid : ((callerRuns p).sched.threads 0x7000).tid = 3) :
    exists lists, QueuesHold (callerRuns p).sched lists ∧
      InReady (callerRuns p).sched lists 3 ∧ lists (0, Queue.sleep) = [] := by
  rcases sched_reachable_invariant oneCpu_ids (by decide)
    (callerRuns_reachable p) with ⟨place, lists, hinv⟩
  have hc : 0 < (callerRuns p).sched.cpuCount := by
    rw [hcpu]
    decide
  have hready := hinv.placed.chain (0, Queue.ready 5)
    (locValid_ready hc (by decide))
  have hsleep := hinv.placed.chain (0, Queue.sleep) ⟨hc, trivial⟩
  rw [hhead] at hready
  rw [hasleep] at hsleep
  refine ⟨lists, hinv.placed.chain, ⟨0, 5, 0x7000, hc, by decide, ?_, htid⟩,
    chain_null hsleep⟩
  cases hlist : lists (0, Queue.ready 5) with
  | nil =>
      rw [hlist] at hready
      cases hready
  | cons t after =>
      rw [hlist] at hready
      rw [hready.left]
      exact List.mem_cons_self

theorem schedHandoff_next_iff_server :
    exists target sched result,
      schedHandoff (callerRuns 10).sched 0 3 = some (some target, sched) ∧
      ((callerRuns 10).sched.threads target).tid = 3 ∧
      schedReschedule sched 0 0x9000 2 2 = some result ∧
      (result.state.cpus 0).schedThread = target := by
  rcases callerRuns_queues (p := 10) (by decide +kernel) (by decide +kernel)
    (by decide +kernel) (by decide +kernel) with ⟨lists, hqueues, hin, hasleep⟩
  have hyoung : ¬ AgeDue (callerRuns 10).sched 0 2 := by decide +kernel
  rcases schedHandoff_next_iff (c := 0) 0x9000 2 2 oneCpu_ids (by decide)
    (callerRuns_reachable 10) hqueues (by decide +kernel)
    (callerRuns_handoff 10) (by decide +kernel) (by decide) hin with
    ⟨target, sched, result, hrun, htid, _, hcall, hnext, _⟩
  refine ⟨target, sched, result, hrun, htid, hcall, hnext.mpr ⟨?_, ?_, ?_⟩⟩
  · left
    decide +kernel
  · intro t ht
    rw [hasleep] at ht
    cases ht
  · intro hdue
    exact absurd hdue hyoung

/-- A caller of the highest priority keeps the CPU while it has ticks left. -/
theorem schedHandoff_caller_goes_on :
    (schedSystem 1 (fun _ => 0)).Reachable (callerRuns 31) ∧
      (callerRuns 31).handoff 0 = HandoffState.idle ∧
      ((callerRuns 31).sched.threads
        ((callerRuns 31).sched.cpus 0).schedThread).state =
        ThreadState.running ∧
      (exists lists, QueuesHold (callerRuns 31).sched lists ∧
        InReady (callerRuns 31).sched lists 3) ∧
      exists sched result,
        schedHandoff (callerRuns 31).sched 0 3 = some (some 0x7000, sched) ∧
        schedReschedule sched 0 0x9000 2 2 = some result ∧
        (result.state.threads (result.state.cpus 0).schedThread).tid = 2 := by
  refine ⟨callerRuns_reachable 31, callerRuns_handoff 31, by decide +kernel,
    ?_, ?_⟩
  · rcases callerRuns_queues (p := 31) (by decide +kernel) (by decide +kernel)
      (by decide +kernel) (by decide +kernel) with ⟨lists, hqueues, hin, _⟩
    exact ⟨lists, hqueues, hin⟩
  · have hcalls : ((schedHandoff (callerRuns 31).sched 0 3).bind
        (fun handed => (schedReschedule handed.2 0 0x9000 2 2).map
          (fun result => (handed.1, (result.state.threads
            (result.state.cpus 0).schedThread).tid)))) =
        some (some 0x7000, 2) := by decide +kernel
    rcases Option.bind_eq_some_iff.mp hcalls with
      ⟨⟨found, sched⟩, hrun, hrest⟩
    rcases Option.map_eq_some_iff.mp hrest with ⟨result, hcall, hend⟩
    rcases Prod.mk.inj hend with ⟨hfound, htid⟩
    rw [show found = some 0x7000 from hfound] at hrun
    exact ⟨sched, result, hrun, hcall, htid⟩

end Sched
end Barium
