import Barium.Sched.Idle
import Barium.Sched.Sleep
import Barium.Sched.Handoff

/-!
# Sleepers and the tick counter

Which threads a call of `sched_reschedule` wakes, and that no call wakes a
thread too early.
-/

namespace Barium
namespace Sched

open Foundation
open LinkedList
open TransitionSystem

/-!
# The runs
-/

/-- An event; of a call of `sched_reschedule` also the tick at which it looks
for threads to wake. -/
inductive TimedEvent where
  | reschedule (cpu tick : Nat)
  | other (event : SchedEvent)

inductive TimedStep : SchedRun -> TimedEvent -> SchedRun -> Prop where
  | reschedule {r : SchedRun} {c rsp tick ageTick : Nat}
      {result : RescheduleResult} :
      c < r.sched.cpuCount ->
      schedReschedule r.sched c rsp tick ageTick = some result ->
      TimedStep r (TimedEvent.reschedule c tick)
        { r with
          sched := result.state
          alive := r.aliveAfter c result.state }
  | other {r r' : SchedRun} {event : SchedEvent} :
      (forall c, event ≠ SchedEvent.reschedule c) -> SchedStep r event r' ->
      TimedStep r (TimedEvent.other event) r'

def TimedEvent.Calls (event : TimedEvent) (c : Nat) : Prop :=
  event = TimedEvent.other (SchedEvent.sleep c) ∨
    event = TimedEvent.other (SchedEvent.exit c)

def SchedRun.Idle (r : SchedRun) (t : Nat) : Prop :=
  exists b, r.alive t = some b ∧ b.spawned = false

/-- No idle thread sleeps, exits or is handed off in the step. -/
structure IdleStays (r : SchedRun) (event : TimedEvent) (r' : SchedRun) :
    Prop where
  calls : forall c, event.Calls c -> ¬ r.Idle (r.sched.cpus c).schedThread
  held : forall c t, r'.holds c = some t -> ¬ r'.Idle t

def wakeSystem (cpuCount : Nat) (ids : Nat -> Nat) :
    TransitionSystem SchedRun TimedEvent where
  Init := (schedSystem cpuCount ids).Init
  Step := fun r event r' => TimedStep r event r' ∧ IdleStays r event r'

theorem TimedStep.step {r r' : SchedRun} {event : TimedEvent}
    (h : TimedStep r event r') : exists event', SchedStep r event' r' := by
  cases h with
  | reschedule hc hrun => exact ⟨_, SchedStep.reschedule hc hrun⟩
  | other _ hstep => exact ⟨_, hstep⟩

/-!
# Who is woken
-/

def suspended (s : SchedState) (c : Nat) (s' : SchedState) : List Nat :=
  if (s'.cpus c).schedThread ≠ (s.cpus c).schedThread ∧
      (s.threads (s.cpus c).schedThread).state = ThreadState.sleeping then
    [(s.cpus c).schedThread]
  else []

/-- A call at `tick` has woken the threads whose time has come, and has left
the others in their order. -/
structure WokenUp (s : SchedState) (lists : Loc -> List Nat) (c tick : Nat)
    (s' : SchedState) (lists' : Loc -> List Nat) : Prop where
  queue : lists' (c, Queue.sleep) = suspended s c s' ++
    (lists (c, Queue.sleep)).filter
      (fun t => tick < (s.threads t).wakeupTick)
  later : forall t, t ∈ lists' (c, Queue.sleep) -> t ∉ suspended s c s' ->
    tick < (s'.threads t).wakeupTick
  woken : forall t, t ∈ lists (c, Queue.sleep) ->
    t ∉ lists' (c, Queue.sleep) ->
    (s.threads t).wakeupTick <= tick ∧
      (((s'.threads t).state = ThreadState.ready ∧
          t ∈ lists' (c, Queue.ready (s'.threads t).priority)) ∨
        (s'.cpus c).schedThread = t)

theorem retiredLists_sleep (lists : Loc -> List Nat) (th : Thread)
    (c current : Nat) :
    retiredLists lists th c current (c, Queue.sleep) =
      (if th.state = ThreadState.sleeping then [current] else []) ++
        lists (c, Queue.sleep) := by
  unfold retiredLists
  cases hcase : th.state with
  | running => exact Function.update_of_ne (by simp) _ _
  | sleeping => exact Function.update_self _ _ _
  | ready => rfl
  | dead => rfl

theorem afterTick_sleep (s : SchedState) (c tick ageTick : Nat)
    (lists : Loc -> List Nat) :
    afterTick s c tick ageTick lists Queue.sleep =
      (lists (c, Queue.sleep)).filter
        (fun t => tick < (s.threads t).wakeupTick) := by
  unfold afterTick
  split
  case isTrue => rfl
  case isFalse => rfl

section Woken

variable {r : SchedRun} {place : Nat -> Option Place}
  {lists : Loc -> List Nat} {c : Nat}

theorem schedReschedule_wakes (rsp tick ageTick : Nat)
    (h : SchedInvariant r place lists) (hc : c < r.sched.cpuCount) :
    exists result lists',
      schedReschedule r.sched c rsp tick ageTick = some result ∧
      QueuesHold result.state lists' ∧
      WokenUp r.sched lists c tick result.state lists' := by
  have hcurrent := h.running c hc
  have hplaced := h.placed
  rcases schedReschedule_exact rsp tick ageTick hplaced hcurrent with
    ⟨s1, place1, lists1, result, place', lists', _, hplaced1, hserved, hserves,
      hrecord, hrun, hplaced', hdone, houtcome⟩
  have hne : forall t, t ∈ lists (c, Queue.sleep) ->
      t ≠ (r.sched.cpus c).schedThread :=
    fun t ht => hplaced.ne_running hcurrent ht
  have hqueue : lists' (c, Queue.sleep) = suspended r.sched c result.state ++
      (lists (c, Queue.sleep)).filter
        (fun t => tick < (r.sched.threads t).wakeupTick) := by
    rw [← afterTick_sleep r.sched c tick ageTick lists,
      ← hserves.queues Queue.sleep trivial]
    unfold suspended
    cases houtcome with
    | stay _ =>
        have hsame : (s1.cpus c).schedThread = (r.sched.cpus c).schedThread :=
          hserved.frame.running c
        rw [if_neg (fun hleft => hleft.left hsame), List.nil_append]
    | switch _ _ hqueues =>
        rcases hqueues.queue with ⟨after, _, hlists'⟩
        have hnew := hqueues.ne hplaced1
          (hserved.running hcurrent)
        rw [hlists', retiredLists_sleep, hserved.state,
          Function.update_of_ne (by simp)]
        simp only [hnew, ne_eq, not_false_eq_true, true_and]
  refine ⟨result, lists', hrun, hplaced'.chain, hqueue, ?_, ?_⟩
  · intro t ht hout
    rw [hqueue, List.mem_append, List.mem_filter, decide_eq_true_iff] at ht
    rcases ht with ht | ⟨ht, hlater⟩
    · exact absurd ht hout
    · have hasleep := (hplaced.fits t _ ((hplaced.mem_iff _ t).mp ht)).left
      rw [(schedReschedule_sleeper hplaced hcurrent hrun (hne t ht)
        hasleep).left]
      exact hlater
  · intro t ht hout
    have hplace := (hplaced.mem_iff _ t).mp ht
    constructor
    · apply Nat.le_of_not_lt
      intro hlater
      apply hout
      rw [hqueue]
      exact List.mem_append_right _
        (List.mem_filter.mpr ⟨ht, decide_eq_true hlater⟩)
    · cases hnow : place' t with
      | none =>
          rw [(hdone.others t (hne t ht)).mp hnow] at hplace
          cases hplace
      | some pl =>
          have hhome := hdone.home t _ pl hplace hnow
          have hfits := hplaced'.fits t pl hnow
          rcases pl with d | ⟨d, q⟩ | d
          · cases hhome
            exact Or.inr (hplaced'.running t c hnow)
          · cases hhome
            cases q with
            | ready p =>
                left
                refine ⟨hfits.left, ?_⟩
                rw [hfits.right.left, hplaced'.mem_iff]
                exact hnow
            | sleep => exact absurd ((hplaced'.mem_iff _ t).mpr hnow) hout
          · have hheld := h.holding d t (hplaced'.held t d hnow)
            rw [hplace] at hheld
            cases hheld

end Woken

/-!
# The idle thread is at hand
-/

def Awake (th : Thread) : Prop :=
  th.state = ThreadState.ready ∨ th.state = ThreadState.running

theorem Awake.ne_sleeping {th : Thread} (h : Awake th) :
    th.state ≠ ThreadState.sleeping := by
  intro hasleep
  rcases h with heq | heq
  · rw [heq] at hasleep
    cases hasleep
  · rw [heq] at hasleep
    cases hasleep

theorem Awake.ne_dead {th : Thread} (h : Awake th) :
    th.state ≠ ThreadState.dead := by
  intro hdead
  rcases h with heq | heq
  · rw [heq] at hdead
    cases hdead
  · rw [heq] at hdead
    cases hdead

/-- Every CPU has an idle thread, which is awake and not on its way to another
CPU. -/
structure IdleAtHand (r : SchedRun) (place : Nat -> Option Place) : Prop where
  home : forall c, c < r.sched.cpuCount ->
    exists t pl, r.Idle t ∧ place t = some pl ∧ pl.cpu = c
  awake : forall t, r.Idle t -> Awake (r.sched.threads t)
  free : forall c t, r.holds c = some t -> ¬ r.Idle t

theorem awake_rule (tick : Nat) :
    RecordRule tick (fun th th' => Awake th -> Awake th') := by
  constructor
  · intro th h
    exact h
  · intro th th' th'' h h' hawake
    exact h' (h hawake)
  · intro th n h
    exact h
  · intro th _ _
    exact Or.inl rfl
  · intro th n _ h
    exact h
  · intro th _ h
    exact h

section Idle

variable {r r' : SchedRun} {place : Nat -> Option Place}
  {lists : Loc -> List Nat} {c : Nat}

theorem IdleAtHand.waits (h : IdleAtHand r place)
    (hinv : SchedInvariant r place lists) (hc : c < r.sched.cpuCount) :
    exists t, r.Idle t ∧ ((r.sched.cpus c).schedThread = t ∨
      exists p, place t = some (Place.queue (c, Queue.ready p))) := by
  rcases h.home c hc with ⟨t, pl, hidle, hplace, hcpu⟩
  refine ⟨t, hidle, ?_⟩
  rcases pl with d | ⟨d, q⟩ | d
  · cases hcpu
    exact Or.inl (hinv.placed.running t d hplace)
  · cases hcpu
    cases q with
    | ready p => exact Or.inr ⟨p, hplace⟩
    | sleep =>
        exact absurd (hinv.placed.fits t _ hplace).left
          (h.awake t hidle).ne_sleeping
  · exact absurd hidle (h.free d t (hinv.placed.held t d hplace))

theorem schedReschedule_leaves {rsp tick ageTick : Nat}
    {result : RescheduleResult} (h : IdleAtHand r place)
    (hinv : SchedInvariant r place lists) (hc : c < r.sched.cpuCount)
    (hstate : (r.sched.threads (r.sched.cpus c).schedThread).state ≠
      ThreadState.running)
    (hrun : schedReschedule r.sched c rsp tick ageTick = some result) :
    (result.state.cpus c).schedThread ≠ (r.sched.cpus c).schedThread := by
  have hcurrent := hinv.running c hc
  rcases h.waits hinv hc with ⟨t, hidle, hrunning | ⟨p, hplace⟩⟩
  · -- the idle thread itself runs
    have hready := (hinv.placed.fits _ _ hcurrent).left
    rw [hrunning] at hstate hready
    rcases h.awake t hidle with heq | heq
    · exact absurd heq hready
    · exact absurd heq hstate
  · rcases schedReschedule_outcome rsp tick ageTick hinv.placed hcurrent with
      ⟨s1, place1, lists1, result', _, _, hserve, hplaced1, hserved, _, hrun', _,
        _, houtcome⟩
    rw [hrun] at hrun'
    cases hrun'
    have hc1 : c < s1.cpuCount := by
      rw [hserved.frame.count]
      exact hc
    have hne : t ≠ (r.sched.cpus c).schedThread := by
      intro heq
      rw [← heq, hplace] at hcurrent
      cases hcurrent
    have hawake := serveTick_records (awake_rule tick) hserve hne
      (h.awake t hidle)
    rcases hserved.queued t _ hplace with ⟨q, hplace1⟩
    have hfits := hplaced1.fits t _ hplace1
    have hwaits : exists p, p <= maxPriority ∧
        lists1 (c, Queue.ready p) ≠ [] := by
      cases q with
      | sleep => exact absurd hfits.left hawake.ne_sleeping
      | ready p =>
          refine ⟨p, hfits.right.right.left, ?_⟩
          exact List.ne_nil_of_mem ((hplaced1.mem_iff _ t).mpr hplace1)
    cases houtcome with
    | switch _ _ hqueues =>
        exact hqueues.ne hplaced1
          (hserved.running hcurrent)
    | stay hno =>
        rcases hwaits with ⟨p, hp, hwaits⟩
        cases htop : topQueue s1 c (maxPriority + 1) with
        | none =>
            exact absurd (topQueue_none htop p (Nat.lt_succ_of_le hp))
              ((hplaced1.head_ne_zero (locValid_ready hc1 hp)).mpr hwaits)
        | some q =>
            apply absurd _ (hno q htop)
            right
            right
            rw [hserved.state]
            exact hstate

/-!
# Steps
-/

theorem still_step {event : SchedEvent} {t : Nat} {b : Birth}
    (hstep : SchedStep r event r')
    (hevent : forall c, event ≠ SchedEvent.reschedule c)
    (hcalls : forall c, event = SchedEvent.sleep c ∨
      event = SchedEvent.exit c -> t ≠ (r.sched.cpus c).schedThread)
    (ht : r.alive t = some b) :
    r'.alive t = some b ∧
      (r'.sched.threads t).state = (r.sched.threads t).state ∧
      (r'.sched.threads t).wakeupTick = (r.sched.threads t).wakeupTick := by
  have hspawn : forall thread stack userLimit userTop priority name frame tid,
      FreshThread r thread ->
      (r.born (spawnThread r.sched thread stack userLimit userTop priority name
        frame).state thread tid true).alive t = some b ∧
      ((spawnThread r.sched thread stack userLimit userTop priority name
        frame).state.threads t).state = (r.sched.threads t).state ∧
      ((spawnThread r.sched thread stack userLimit userTop priority name
        frame).state.threads t).wakeupTick =
        (r.sched.threads t).wakeupTick := by
    intro thread stack userLimit userTop priority name frame tid hfresh
    have hne : t ≠ thread := by
      intro heq
      rw [heq, hfresh.unused] at ht
      cases ht
    rcases spawnThread_other r.sched thread stack userLimit userTop priority
      name frame hne with ⟨n, hn⟩
    rw [born_alive_other _ _ _ hne, hn]
    exact ⟨ht, rfl, rfl⟩
  cases hstep with
  | spawn hfresh _ => exact hspawn _ _ _ _ _ _ _ _ hfresh
  | spawnUser hfresh _ => exact hspawn _ _ _ _ _ _ _ _ hfresh
  | reschedule _ _ => exact absurd rfl (hevent _)
  | @sleep c ms tick _ =>
      rw [show (schedSleep r.sched c ms tick).threads t = r.sched.threads t from
        schedSleep_other ms tick (hcalls c (Or.inl rfl))]
      exact ⟨ht, rfl, rfl⟩
  | @exit c _ =>
      rw [show (schedExit r.sched c).threads t = r.sched.threads t from
        schedExit_other (hcalls c (Or.inr rfl))]
      exact ⟨ht, rfl, rfl⟩
  | handoffStart _ _ _ => exact ⟨ht, rfl, rfl⟩
  | handoffMiss _ _ _ hrun =>
      rcases findOnCpu_result hrun with ⟨_, hsame⟩ | ⟨_, _, _, hsome, _⟩
      · rw [hsame]
        exact ⟨ht, rfl, rfl⟩
      · cases hsome
  | handoffFind _ _ _ hrun =>
      rcases findOnCpu_result hrun with ⟨hnone, _⟩ | ⟨l, u, before, _, hunlink⟩
      · cases hnone
      · have hcontent := (unlink_links r.sched l before u).content t
        rw [← hunlink] at hcontent
        exact ⟨ht, content_field hcontent Thread.state (fun _ => rfl),
          content_field hcontent Thread.wakeupTick (fun _ => rfl)⟩
  | handoffNone _ _ _ => exact ⟨ht, rfl, rfl⟩
  | @handoffPlace c target _ _ =>
      have hcontent := (push_links (modThread r.sched target
        (promoted (r.sched.cpus c).cpuId)) (c, Queue.ready maxPriority)
        target).content t
      have hstate := content_field hcontent Thread.state (fun _ => rfl)
      have hwakeup := content_field hcontent Thread.wakeupTick (fun _ => rfl)
      refine ⟨ht, hstate.trans ?_, hwakeup.trans ?_⟩
      · by_cases hhere : t = target
        · rw [hhere, modThread_self]
          rfl
        · rw [modThread_other _ _ _ hhere]
      · by_cases hcase : t = target
        · rw [hcase, modThread_self]
          rfl
        · rw [modThread_other _ _ _ hcase]

theorem idle_before {event : SchedEvent} (hstep : SchedStep r event r')
    {t : Nat} (h : r'.Idle t) : r.Idle t := by
  rcases h with ⟨b, hb, hidle⟩
  cases hstep with
  | spawn _ _ =>
      rcases born_cases hb with ⟨_, heq⟩ | ⟨_, hold⟩
      · rw [heq] at hidle
        cases hidle
      · exact ⟨b, hold, hidle⟩
  | spawnUser _ _ =>
      rcases born_cases hb with ⟨_, heq⟩ | ⟨_, hold⟩
      · rw [heq] at hidle
        cases hidle
      · exact ⟨b, hold, hidle⟩
  | reschedule _ _ => exact ⟨b, aliveAfter_some hb, hidle⟩
  | sleep _ => exact ⟨b, hb, hidle⟩
  | exit _ => exact ⟨b, hb, hidle⟩
  | handoffStart _ _ _ => exact ⟨b, hb, hidle⟩
  | handoffMiss _ _ _ _ => exact ⟨b, hb, hidle⟩
  | handoffFind _ _ _ _ => exact ⟨b, hb, hidle⟩
  | handoffNone _ _ _ => exact ⟨b, hb, hidle⟩
  | handoffPlace _ _ => exact ⟨b, hb, hidle⟩

theorem schedReschedule_awake {rsp tick ageTick : Nat}
    {result : RescheduleResult} {t : Nat}
    (hinv : SchedInvariant r place lists) (hc : c < r.sched.cpuCount)
    (hrun : schedReschedule r.sched c rsp tick ageTick = some result)
    (h : Awake (r.sched.threads t)) : Awake (result.state.threads t) := by
  by_cases hsame : t = (r.sched.cpus c).schedThread
  · rcases schedReschedule_current hinv.placed (hinv.running c hc) hrun with
      ⟨th, n, hth, hn⟩
    rw [hsame, hn]
    rw [hsame] at h
    rcases hth with hth | hth
    · rw [hth]
      exact h
    · rw [hth]
      unfold retired
      split
      case h_1 => exact Or.inl rfl
      case h_2 => exact h
  · rcases schedReschedule_waiting (awake_rule tick) hinv.placed
      (hinv.running c hc) hrun hsame with ⟨th, n, hth, hn | ⟨_, hn⟩⟩
    · rw [hn]
      exact hth h
    · rw [hn]
      exact Or.inr rfl

theorem aliveAfter_awake {sched : SchedState} {t : Nat}
    (h : (r.sched.threads t).state ≠ ThreadState.dead) :
    r.aliveAfter c sched t = r.alive t := by
  by_cases hsame : t = (r.sched.cpus c).schedThread
  · rw [hsame] at h
    rw [aliveAfter_stays c sched h]
  · exact aliveAfter_other sched hsame

/-- In these runs the idle threads stay where they are needed. -/
theorem idleAtHand_step {event : TimedEvent} (h : IdleAtHand r place)
    (hinv : SchedInvariant r place lists)
    (hstep : TimedStep r event r') (hstays : IdleStays r event r') :
    exists place' lists', SchedInvariant r' place' lists' ∧
      IdleAtHand r' place' := by
  -- an idle thread is alive and awake after the step as well
  have hkeeps : forall t, r.Idle t ->
      r'.Idle t ∧ Awake (r'.sched.threads t) := by
    intro t hidle
    have hawake := h.awake t hidle
    rcases hidle with ⟨b, hb, hspawned⟩
    cases hstep with
    | reschedule hc hrun =>
        refine ⟨⟨b, ?_, hspawned⟩, schedReschedule_awake hinv hc hrun hawake⟩
        exact (aliveAfter_awake hawake.ne_dead).trans hb
    | other hevent hother =>
        rcases still_step hother hevent (by
            rintro c (hcall | hcall) heq
            · rw [heq] at hb
              exact hstays.calls c (Or.inl (by rw [hcall])) ⟨b, hb, hspawned⟩
            · rw [heq] at hb
              exact hstays.calls c (Or.inr (by rw [hcall])) ⟨b, hb, hspawned⟩)
          hb with ⟨halive, hstate, _⟩
        refine ⟨⟨b, halive, hspawned⟩, ?_⟩
        unfold Awake
        rw [hstate]
        exact hawake
  rcases hstep.step with ⟨event', hother⟩
  rcases schedInvariant_stepFrame hinv hother with
    ⟨place', lists', hinv', hframe⟩
  refine ⟨place', lists', hinv', ?_, ?_, hstays.held⟩
  · intro c hc
    rw [hframe.count] at hc
    rcases h.home c hc with ⟨t, pl, hidle, hplace, hcpu⟩
    have hidle' := (hkeeps t hidle).left
    cases hplace' : place' t with
    | none =>
        rcases hidle' with ⟨b, hb, _⟩
        rw [(hinv'.alive_iff t).mpr hplace'] at hb
        cases hb
    | some pl' =>
        refine ⟨t, pl', hidle', hplace', ?_⟩
        rcases hframe.home t pl pl' hplace hplace' with hsame | ⟨d, _, hheld⟩
        · exact hsame.trans hcpu
        · rw [hheld] at hplace'
          exact absurd hidle'
            (hstays.held d t (hinv'.placed.held t d hplace'))
  · intro t hidle
    exact (hkeeps t (idle_before hother hidle)).right

theorem initCpu_idle (calls : List InitCall)
    (h : forall t b, r.alive t = some b -> b.spawned = false ∧
      (r.sched.threads t).state = ThreadState.running) :
    forall t b, (calls.foldl initCpu r).alive t = some b ->
      b.spawned = false ∧ ((calls.foldl initCpu r).sched.threads t).state =
        ThreadState.running := by
  refine initCpus_records (P := fun b th => b.spawned = false ∧
    th.state = ThreadState.running) ?_ calls h
  intro s c idle stack _
  exact ⟨rfl, (schedInit_done s c idle stack).idle_record.right.left⟩

theorem idleAtHand_init {cpuCount : Nat} {ids : Nat -> Nat}
    (hinv : SchedInvariant r place lists)
    (hinit : (schedSystem cpuCount ids).Init r) : IdleAtHand r place := by
  rcases hinit with ⟨threads, calls, _, heq⟩
  have hall : forall t b, r.alive t = some b -> b.spawned = false ∧
      (r.sched.threads t).state = ThreadState.running := by
    rw [heq]
    apply initCpu_idle
    intro t b hb
    cases hb
  constructor
  · intro c hc
    have hplace := hinv.running c hc
    cases halive : r.alive (r.sched.cpus c).schedThread with
    | none =>
        rw [(hinv.alive_iff _).mp halive] at hplace
        cases hplace
    | some b =>
        exact ⟨_, _, ⟨b, halive, (hall _ b halive).left⟩, hplace, rfl⟩
  · rintro t ⟨b, hb, _⟩
    exact Or.inr (hall t b hb).right
  · intro c t hholds
    unfold SchedRun.holds at hholds
    rw [heq, initCpu_handoff] at hholds
    cases hholds

theorem wake_reachable_invariant {cpuCount : Nat} {ids : Nat -> Nat}
    (hids : ValidIds cpuCount ids) (hpos : 0 < cpuCount)
    (hreach : (wakeSystem cpuCount ids).Reachable r) :
    exists place lists, SchedInvariant r place lists ∧ IdleAtHand r place := by
  apply reachable_invariant
    (P := fun r => exists place lists, SchedInvariant r place lists ∧
      IdleAtHand r place) _ _ hreach
  · intro s hinit
    rcases schedInvariant_init hids hpos hinit with ⟨place, lists, hinv⟩
    exact ⟨place, lists, hinv, idleAtHand_init hinv hinit⟩
  · intro s event s' hs hstep
    rcases hs with ⟨place, lists, hinv, hidle⟩
    exact idleAtHand_step hidle hinv hstep.left hstep.right

/-!
# A thread that sleeps
-/

structure Sleeps (r : SchedRun) (t wakeup : Nat) : Prop where
  alive : exists b, r.alive t = some b
  state : (r.sched.threads t).state = ThreadState.sleeping
  wakeup : (r.sched.threads t).wakeupTick = wakeup

def silentSystem (cpuCount : Nat) (ids : Nat -> Nat) (t : Nat) :
    TransitionSystem SchedRun TimedEvent where
  Init := (wakeSystem cpuCount ids).Init
  Step := fun r event r' => (wakeSystem cpuCount ids).Step r event r' ∧
    forall c, event.Calls c -> (r.sched.cpus c).schedThread ≠ t

theorem sleeps_start (hinv : SchedInvariant r place lists)
    (hstep : TimedStep r (TimedEvent.other (SchedEvent.sleep c)) r') :
    Sleeps r' (r.sched.cpus c).schedThread
      (r'.sched.threads (r.sched.cpus c).schedThread).wakeupTick := by
  cases hstep with
  | other _ hstep =>
      cases hstep with
      | @sleep _ ms tick hc =>
          have hplace := hinv.running c hc
          have hrecord := schedSleep_self (hinv.placed.address _ _ hplace).left
            ms tick
          refine ⟨?_, congrArg Thread.state hrecord, rfl⟩
          apply Option.ne_none_iff_exists'.mp
          intro hnone
          rw [(hinv.alive_iff _).mp hnone] at hplace
          cases hplace

theorem sleeps_step {event : TimedEvent} {t wakeup : Nat}
    (h : Sleeps r t wakeup) (hinv : SchedInvariant r place lists)
    (hidle : IdleAtHand r place) (hstep : TimedStep r event r')
    (hsilent : forall c, event.Calls c -> (r.sched.cpus c).schedThread ≠ t)
    (hearly : forall c tick, event = TimedEvent.reschedule c tick ->
      tick < wakeup) :
    Sleeps r' t wakeup ∧ forall c tick,
      event = TimedEvent.reschedule c tick ->
      (r'.sched.cpus c).schedThread ≠ t := by
  rcases h.alive with ⟨b, hb⟩
  cases hstep with
  | @reschedule d rsp tick' ageTick result hc hrun =>
      have hcurrent := hinv.running d hc
      have hlater := hearly d tick' rfl
      have halive : r.aliveAfter d result.state t = some b := by
        rw [aliveAfter_awake (by rw [h.state]; simp)]
        exact hb
      by_cases hcase : t = (r.sched.cpus d).schedThread
      · -- it has not given way yet
        have hstate := h.state
        have hwakeup := h.wakeup
        rw [hcase] at hstate hwakeup
        have hleaves := schedReschedule_leaves hidle hinv hc
          (by rw [hstate]; simp) hrun
        rcases schedReschedule_drowsy hinv.placed hcurrent hrun hstate with
          ⟨hsame, hasleep⟩
        rw [← hcase] at hsame hasleep hwakeup hleaves
        refine ⟨⟨⟨b, halive⟩, hasleep, hsame.trans hwakeup⟩, ?_⟩
        intro c tick hevent
        cases hevent
        exact hleaves
      · rcases schedReschedule_sleeper hinv.placed hcurrent hrun hcase
          h.state with ⟨hsame, ⟨hasleep, hother⟩ | ⟨_, hdue⟩⟩
        · refine ⟨⟨⟨b, halive⟩, hasleep, hsame.trans h.wakeup⟩, ?_⟩
          intro c tick hevent
          cases hevent
          exact hother.symm
        · rw [h.wakeup] at hdue
          exact absurd hlater (Nat.not_lt_of_le hdue)
  | other hevent hother =>
      rcases still_step hother hevent (by
          rintro c (hcall | hcall) heq
          · exact hsilent c (Or.inl (by rw [hcall])) heq.symm
          · exact hsilent c (Or.inr (by rw [hcall])) heq.symm) hb with
        ⟨halive, hstate, hwakeup⟩
      refine ⟨⟨⟨b, halive⟩, hstate.trans h.state, hwakeup.trans h.wakeup⟩, ?_⟩
      intro c tick heq
      cases heq

/-- A thread that sleeps goes on sleeping while the ticks are early. -/
theorem sleeps_runs {cpuCount : Nat} {ids : Nat -> Nat} {t wakeup : Nat}
    {trace : List TimedEvent} (h : Sleeps r t wakeup)
    (hinv : SchedInvariant r place lists) (hidle : IdleAtHand r place)
    (hruns : Runs (silentSystem cpuCount ids t) r trace r')
    (hearly : forall c tick, TimedEvent.reschedule c tick ∈ trace ->
      tick < wakeup) :
    Sleeps r' t wakeup ∧ exists place' lists',
      SchedInvariant r' place' lists' ∧ IdleAtHand r' place' := by
  have hall := runs_history_invariant
    (P := fun trace r' => (exists place' lists',
      SchedInvariant r' place' lists' ∧ IdleAtHand r' place') ∧
      ((forall c tick, TimedEvent.reschedule c tick ∈ trace ->
        tick < wakeup) -> Sleeps r' t wakeup))
    ⟨⟨place, lists, hinv, hidle⟩, fun _ => h⟩ (by
      intro trace r1 event r2 hsofar hstep
      rcases hsofar with ⟨⟨place1, lists1, hinv1, hidle1⟩, hsleeps⟩
      rcases hstep with ⟨⟨htimed, hstays⟩, hsilent⟩
      refine ⟨idleAtHand_step hidle1 hinv1 htimed hstays, ?_⟩
      intro hticks
      have hbefore := hsleeps (fun c tick hmem =>
        hticks c tick (List.mem_append_left _ hmem))
      apply (sleeps_step hbefore hinv1 hidle1 htimed hsilent _).left
      intro c tick heq
      apply hticks c tick
      rw [heq]
      simp) hruns
  exact ⟨hall.right hearly, hall.left⟩

end Idle

/-- Calls of `sched_reschedule` wake exactly the threads whose time has come,
and a thread that has called `sched_sleep` is not resumed before. -/
theorem schedReschedule_wakeups {cpuCount : Nat} {ids : Nat -> Nat}
    (hids : ValidIds cpuCount ids) (hpos : 0 < cpuCount) :
    (forall r c rsp tick ageTick, (wakeSystem cpuCount ids).Reachable r ->
      c < r.sched.cpuCount ->
      exists lists result lists', QueuesHold r.sched lists ∧
        schedReschedule r.sched c rsp tick ageTick = some result ∧
        QueuesHold result.state lists' ∧
        WokenUp r.sched lists c tick result.state lists') ∧
    forall r r1 r2 r3 c d tick trace, (wakeSystem cpuCount ids).Reachable r ->
      (wakeSystem cpuCount ids).Step r
        (TimedEvent.other (SchedEvent.sleep c)) r1 ->
      Runs (silentSystem cpuCount ids (r.sched.cpus c).schedThread) r1 trace
        r2 ->
      (wakeSystem cpuCount ids).Step r2 (TimedEvent.reschedule d tick) r3 ->
      (forall e tick', TimedEvent.reschedule e tick' ∈ trace ->
        tick' <= tick) ->
      tick < (r1.sched.threads (r.sched.cpus c).schedThread).wakeupTick ->
      (r3.sched.cpus d).schedThread ≠ (r.sched.cpus c).schedThread ∧
        (r3.sched.threads (r.sched.cpus c).schedThread).state =
          ThreadState.sleeping := by
  constructor
  · intro r c rsp tick ageTick hreach hc
    rcases wake_reachable_invariant hids hpos hreach with
      ⟨place, lists, hinv, _⟩
    rcases schedReschedule_wakes rsp tick ageTick hinv hc with
      ⟨result, lists', hrun, hqueues, hwoken⟩
    exact ⟨lists, result, lists', hinv.placed.chain, hrun, hqueues, hwoken⟩
  · intro r r1 r2 r3 c d tick trace hreach hsleep hruns hlast hticks hearly
    rcases wake_reachable_invariant hids hpos hreach with
      ⟨place, lists, hinv, hidle⟩
    rcases idleAtHand_step hidle hinv hsleep.left hsleep.right with
      ⟨place1, lists1, hinv1, hidle1⟩
    have hsleeps := sleeps_start hinv hsleep.left
    rcases sleeps_runs hsleeps hinv1 hidle1 hruns (fun e tick' hmem =>
      Nat.lt_of_le_of_lt (hticks e tick' hmem) hearly) with
      ⟨hsleeps2, place2, lists2, hinv2, hidle2⟩
    rcases sleeps_step hsleeps2 hinv2 hidle2 hlast.left (by
        rintro e (hcall | hcall)
        · cases hcall
        · cases hcall) (by
        intro e tick' heq
        cases heq
        exact hearly) with ⟨hsleeps3, hnot⟩
    exact ⟨hnot d tick rfl, hsleeps3.state⟩

/-!
# A run
-/

def threadRuns : SchedRun := oneThread.rescheduled 0 0x9000 1

theorem threadRuns_handoff :
    threadRuns.handoff = fun _ => HandoffState.idle :=
  SchedRun.rescheduled_handoff

theorem idleStays_quiet {r r' : SchedRun} {event : TimedEvent}
    (hcalls : forall c, event.Calls c ->
      ¬ r.Idle (r.sched.cpus c).schedThread)
    (hhandoff : r'.handoff = fun _ => HandoffState.idle) :
    IdleStays r event r' := by
  refine ⟨hcalls, ?_⟩
  intro c t hholds
  unfold SchedRun.holds at hholds
  rw [hhandoff] at hholds
  cases hholds

theorem threadRuns_reachable :
    (wakeSystem 1 (fun _ => 0)).Reachable threadRuns := by
  have hspawn : (wakeSystem 1 (fun _ => 0)).Step oneCpu
      (TimedEvent.other (SchedEvent.spawn 0x5000)) oneThread := by
    refine ⟨TimedStep.other (fun c heq => by cases heq) oneThread_step,
      idleStays_quiet ?_ rfl⟩
    rintro c (hcall | hcall)
    · cases hcall
    · cases hcall
  have hborn : (wakeSystem 1 (fun _ => 0)).Reachable oneThread :=
    ⟨oneCpu, _, oneCpu_init, runs_single hspawn⟩
  unfold threadRuns SchedRun.rescheduled
  split
  case h_1 result hrun =>
      apply reachable_step hborn (l := TimedEvent.reschedule 0 1)
      refine ⟨TimedStep.reschedule Nat.one_pos hrun, idleStays_quiet ?_ rfl⟩
      rintro c (hcall | hcall)
      · cases hcall
      · cases hcall
  case h_2 => exact hborn

theorem schedReschedule_wakeups_thread :
    exists result,
      schedReschedule (schedSleep threadRuns.sched 0 100 1) 0 0x9000 2 2 =
        some result ∧
      (result.state.cpus 0).schedThread ≠ 0x5000 ∧
      (result.state.threads 0x5000).state = ThreadState.sleeping := by
  have hcurrent : (threadRuns.sched.cpus 0).schedThread = 0x5000 := by
    decide +kernel
  have hspawned : (threadRuns.alive 0x5000).map Birth.spawned =
      some true := by decide +kernel
  have hc : 0 < threadRuns.sched.cpuCount := by decide +kernel
  have hsleep : (wakeSystem 1 (fun _ => 0)).Step threadRuns
      (TimedEvent.other (SchedEvent.sleep 0))
      { threadRuns with sched := schedSleep threadRuns.sched 0 100 1 } := by
    refine ⟨TimedStep.other (fun c heq => by cases heq)
      (SchedStep.sleep hc), idleStays_quiet ?_ threadRuns_handoff⟩
    rintro c (hcall | hcall)
    · cases hcall
      rintro ⟨b, hb, hidle⟩
      rw [hcurrent] at hb
      rw [hb] at hspawned
      cases hspawned.symm.trans (congrArg some hidle)
    · cases hcall
  have hparts := schedReschedule_wakeups oneCpu_ids (by decide)
  rcases hparts.left _ 0 0x9000 2 2 (reachable_step threadRuns_reachable hsleep)
    (by decide +kernel) with ⟨_, result, _, _, hrun, _, _⟩
  have hlast : (wakeSystem 1 (fun _ => 0)).Step
      { threadRuns with sched := schedSleep threadRuns.sched 0 100 1 }
      (TimedEvent.reschedule 0 2) _ :=
    ⟨TimedStep.reschedule (by decide +kernel) hrun, idleStays_quiet (by
      rintro c (hcall | hcall)
      · cases hcall
      · cases hcall) threadRuns_handoff⟩
  have hasleep := hparts.right _ _ _ _ 0 0 2 [] threadRuns_reachable hsleep
    (Runs.nil _) hlast (by
      intro e tick' hmem
      cases hmem) (by decide +kernel)
  rw [hcurrent] at hasleep
  exact ⟨result, hrun, hasleep⟩

end Sched
end Barium
