import Barium.Sched.Serving
import Barium.Sched.Dominance

/-!
# One pass of aging

`sched_age_threads` takes threads out of the queue it walks along and puts them
in front of the queue it walks along next.  They are met again, but their ticks
have just been cleared.
-/

namespace Barium
namespace Sched

open Foundation
open LinkedList

def onReady (lists : Nat -> List Nat) : Queue -> List Nat
  | .ready p => lists p
  | .sleep => []

/-- The 32 ready queues of CPU `c`: the threads in queue `p` have priority `p`
and at most 19 ticks. -/
structure ReadyQueues (s : SchedState) (c : Nat) (lists : Nat -> List Nat) :
    Prop where
  queued : Queued Queue.Ready s c (onReady lists)
  priority : forall p t, p <= maxPriority -> t ∈ lists p ->
    (s.threads t).priority = p
  ticks : forall p t, p <= maxPriority -> t ∈ lists p ->
    (s.threads t).totalTicks <= 19

def Promotes (s : SchedState) (p t : Nat) : Prop :=
  p < maxPriority ∧ (s.threads t).tid ≠ 1 ∧ 19 <= (s.threads t).totalTicks

instance (s : SchedState) (p t : Nat) : Decidable (Promotes s p t) := by
  unfold Promotes
  infer_instance

/-- The threads that a pass puts into queue `p`, in the order in which they
were. -/
def arrivals (s : SchedState) (lists : Nat -> List Nat) : Nat -> List Nat
  | 0 => []
  | p + 1 => (lists p).filter (fun t => Promotes s p t)

structure PromotesOnce (s : SchedState) (lists : Nat -> List Nat) (c : Nat)
    (s' : SchedState) (lists' : Nat -> List Nat) : Prop where
  queued : Queued Queue.Ready s' c (onReady lists')
  perm : ((List.range (maxPriority + 1)).flatMap lists').Perm
    ((List.range (maxPriority + 1)).flatMap lists)
  promoted : forall p t, t ∈ lists p -> Promotes s p t ->
    t ∈ lists' (p + 1) ∧ (s'.threads t).priority = p + 1
  stayed : forall p t, p <= maxPriority -> t ∈ lists p -> ¬ Promotes s p t ->
    t ∈ lists' p ∧ (s'.threads t).priority = p ∧
      (s'.threads t).totalTicks =
        if p < maxPriority ∧ (s.threads t).tid ≠ 1 then
          (s.threads t).totalTicks + 1
        else (s.threads t).totalTicks
  order : forall p, p <= maxPriority ->
    lists' p = (arrivals s lists p).reverse ++
      (lists p).filter (fun t => ¬ Promotes s p t)

/-!
# The queues
-/

theorem flatMap_shift_perm {alpha : Type} {f f' up stay : Nat -> List alpha}
    (hparts : forall p, (f p).Perm (up p ++ stay p)) (hzero : f' 0 = stay 0)
    (n : Nat) (hsucc : forall p, p < n ->
      f' (p + 1) = (up p).reverse ++ stay (p + 1)) :
    ((List.range (n + 1)).flatMap f' ++ up n).Perm
      ((List.range (n + 1)).flatMap f) := by
  induction n with
  | zero =>
      simp only [Nat.zero_add, List.range_one, List.flatMap_cons,
        List.flatMap_nil, List.append_nil]
      rw [hzero]
      exact List.perm_append_comm.trans (hparts 0).symm
  | succ n ih =>
      have hshift := ih (fun p hp => hsucc p (Nat.lt_succ_of_lt hp))
      rw [List.range_succ, List.flatMap_append, List.flatMap_append]
      simp only [List.flatMap_cons, List.flatMap_nil, List.append_nil]
      rw [hsucc n (Nat.lt_succ_self n)]
      calc (List.range (n + 1)).flatMap f' ++
            ((up n).reverse ++ stay (n + 1)) ++ up (n + 1)
          = ((List.range (n + 1)).flatMap f' ++ (up n).reverse) ++
            (stay (n + 1) ++ up (n + 1)) := by
              simp only [List.append_assoc]
        List.Perm _ (((List.range (n + 1)).flatMap f' ++ up n) ++
            (up (n + 1) ++ stay (n + 1))) :=
          ((List.reverse_perm (up n)).append_left _).append
            List.perm_append_comm
        List.Perm _ _ := hshift.append (hparts (n + 1)).symm

section Pass

variable {s s' : SchedState} {c : Nat} {lists : Nat -> List Nat}

theorem grownOld_iff {p t : Nat} (h : ReadyQueues s c lists)
    (hp : p < maxPriority) (ht : t ∈ lists p) :
    GrownOld (s.threads t) <-> Promotes s p t := by
  have hticks := h.ticks p t (Nat.le_of_lt hp) ht
  unfold GrownOld Promotes
  rw [Word.add_of_lt (Nat.lt_of_le_of_lt (Nat.succ_le_succ hticks)
    (by decide))]
  constructor
  · rintro ⟨htid, hlt⟩
    exact ⟨hp, htid, Nat.le_of_lt_succ hlt⟩
  · rintro ⟨_, htid, hle⟩
    exact ⟨htid, Nat.lt_succ_of_le hle⟩

theorem passLists_order (h : ReadyQueues s c lists) {p : Nat}
    (hp : p <= maxPriority) :
    passLists s.threads (onReady lists) 0 maxPriority (Queue.ready p) =
      (arrivals s lists p).reverse ++
        (lists p).filter (fun t => ¬ Promotes s p t) := by
  have hstay : forall q, q < maxPriority ->
      (lists q).filter (fun t => ¬ GrownOld (s.threads t)) =
        (lists q).filter (fun t => ¬ Promotes s q t) := by
    intro q hq
    apply List.filter_congr
    intro t ht
    rw [decide_eq_decide, grownOld_iff h hq ht]
  have hup : forall q, q < maxPriority ->
      (lists q).filter (fun t => GrownOld (s.threads t)) =
        (lists q).filter (fun t => Promotes s q t) := by
    intro q hq
    apply List.filter_congr
    intro t ht
    rw [decide_eq_decide, grownOld_iff h hq ht]
  cases p with
  | zero =>
      rw [passLists_lowest (by decide)]
      exact hstay 0 (by decide)
  | succ p =>
      rcases Nat.eq_or_lt_of_le hp with heq | hlt
      · -- the highest queue is not walked along
        have hall : (lists (p + 1)).filter
            (fun t => ¬ Promotes s (p + 1) t) = lists (p + 1) := by
          rw [List.filter_eq_self]
          intro t _
          rw [decide_eq_true_iff]
          intro hpromotes
          exact absurd hpromotes.left (by lia)
        rw [passLists_highest (Nat.zero_le p) (by lia), hall]
        exact congrArg (fun xs => xs.reverse ++ lists (p + 1)) (hup p hp)
      · rw [passLists_inside (Nat.zero_le p) (by lia)]
        show ((lists p).filter _).reverse ++ (lists (p + 1)).filter _ = _
        rw [hup p hp, hstay (p + 1) hlt]
        rfl

theorem visited_keeps {th : Thread} (h : ¬ GrownOld th) :
    (visited th).priority = th.priority := by
  unfold visited
  split
  case isTrue => rfl
  case isFalse htid => rw [if_neg (fun hmany => h ⟨htid, hmany⟩)]

theorem passRecord_priority {th : Thread} (h : GrownOld th) (q : Nat) :
    (passRecord q th).priority = th.priority + 1 := by
  unfold passRecord
  split
  case isTrue => rw [visited_keeps (visited_young h), visited_priority h]
  case isFalse => exact visited_priority h

theorem passRecord_of_young {th : Thread} (h : ¬ GrownOld th) (q : Nat) :
    passRecord q th = visited th :=
  if_neg (fun hold => h hold.left)

theorem visited_counts {th : Thread} (h : ¬ GrownOld th)
    (hticks : th.totalTicks <= 19) :
    (visited th).totalTicks =
      if th.tid ≠ 1 then th.totalTicks + 1 else th.totalTicks := by
  unfold visited
  by_cases hsame : th.tid = 1
  · rw [if_pos hsame, if_neg (fun hne => hne hsame)]
  · rw [if_neg hsame, if_neg (fun hmany => h ⟨hsame, hmany⟩), if_pos hsame]
    exact Word.add_of_lt (Nat.lt_of_le_of_lt (Nat.succ_le_succ hticks)
      (by decide))

theorem schedAgeThreads_pass {tick : Nat} (h : ReadyQueues s c lists)
    (hdue : AgeDue s c tick) :
    exists s' lists', schedAgeThreads s c tick = some s' ∧
      PromotesOnce s lists c s' lists' := by
  rcases schedAgeThreads_lists h.queued (fun q hq => hq)
    (fun q t hq ht => h.priority q t (Nat.le_of_lt hq) ht) hdue with
    ⟨s', hrun, hqueued, hvisited, hothers⟩
  have horder := fun p (hp : p <= maxPriority) => passLists_order h hp
  generalize hlists' : (fun p => passLists s.threads (onReady lists) 0
    maxPriority (Queue.ready p)) = lists'
  have hsame : forall p, passLists s.threads (onReady lists) 0 maxPriority
      (Queue.ready p) = lists' p := by
    intro p
    rw [← hlists']
  simp only [hsame] at horder
  refine ⟨s', lists', hrun, ?_, ?_, ?_, ?_, horder⟩
  · apply hqueued.congr
    intro q hq
    cases q with
    | ready p => exact (hsame p).symm
    | sleep => exact absurd hq (fun hfalse => hfalse)
  · have hempty : (lists maxPriority).filter
        (fun t => Promotes s maxPriority t) = [] := by
      rw [List.filter_eq_nil_iff]
      intro t _
      rw [decide_eq_true_iff]
      intro hpromotes
      exact absurd hpromotes.left (Nat.lt_irrefl _)
    have hparts : forall p, (lists p).Perm
        ((lists p).filter (fun t => Promotes s p t) ++
          (lists p).filter (fun t => ¬ Promotes s p t)) := by
      intro p
      have hsplit := List.filter_append_perm
        (fun t => decide (Promotes s p t)) (lists p)
      simpa using hsplit.symm
    have hperm := flatMap_shift_perm hparts (horder 0 (Nat.zero_le _))
      maxPriority (fun p hp => horder (p + 1) hp)
    rw [hempty, List.append_nil] at hperm
    exact hperm
  · intro p t ht hpromotes
    have hp := hpromotes.left
    have hold := (grownOld_iff h hp ht).mpr hpromotes
    constructor
    · rw [horder (p + 1) hp, List.mem_append, List.mem_reverse]
      left
      exact List.mem_filter.mpr ⟨ht, decide_eq_true hpromotes⟩
    · have hcontent := congrArg Thread.priority (hvisited p t hp ht)
      rw [passRecord_priority (show GrownOld (s.threads t).content from hold)]
        at hcontent
      rw [show (s'.threads t).priority = (s.threads t).priority + 1 from
        hcontent, h.priority p t (Nat.le_of_lt hp) ht]
  · intro p t hp ht hstays
    constructor
    · rw [horder p hp, List.mem_append]
      right
      exact List.mem_filter.mpr ⟨ht, decide_eq_true hstays⟩
    · rcases Nat.eq_or_lt_of_le hp with heq | hlt
      · have hout : forall q, q < maxPriority -> t ∉ onReady lists
            (Queue.ready q) := by
          intro q hq hmem
          exact h.queued.ready_apart (Nat.le_of_lt hq) hp (by lia) hmem ht
        have hcontent := hothers t hout
        rw [content_field hcontent Thread.priority (fun _ => rfl),
          content_field hcontent Thread.totalTicks (fun _ => rfl),
          if_neg (fun hlow => absurd hlow.left (by lia))]
        exact ⟨h.priority p t hp ht, rfl⟩
      · have hyoung : ¬ GrownOld (s.threads t).content :=
          fun hold => hstays ((grownOld_iff h hlt ht).mp hold)
        have hcontent := hvisited p t hlt ht
        rw [passRecord_of_young hyoung] at hcontent
        have hpriority := visited_keeps hyoung
        have hticks := visited_counts hyoung (h.ticks p t hp ht)
        rw [← hcontent] at hpriority hticks
        constructor
        · rw [← h.priority p t hp ht]
          exact hpriority
        · simp only [hlt, true_and]
          exact hticks

end Pass

/-!
# The ticks of the threads in a run
-/

theorem visited_ticks {th : Thread} (h : th.totalTicks <= 19) :
    (visited th).totalTicks <= 19 := by
  unfold visited
  split
  case isTrue => exact h
  case isFalse =>
      split
      case isTrue => exact Nat.zero_le 19
      case isFalse hfew => exact Nat.le_of_not_lt hfew

theorem passRecord_ticks {th : Thread} (h : th.totalTicks <= 19) (q : Nat) :
    (passRecord q th).totalTicks <= 19 := by
  unfold passRecord
  split
  case isTrue => exact visited_ticks (visited_ticks h)
  case isFalse => exact visited_ticks h

/-- The threads that are alive have been passed over at most 19 times since
they last moved up. -/
def FewTicks (r : SchedRun) : Prop :=
  forall t b, r.alive t = some b -> (r.sched.threads t).totalTicks <= 19

section Ticks

variable {s : SchedState} {holds : Nat -> Option Nat} {spawned : Nat -> Prop}
  {place : Nat -> Option Place} {lists : Loc -> List Nat} {c : Nat}

theorem Serves.ticks {current tick ageTick : Nat} {s1 : SchedState}
    {lists1 : Loc -> List Nat}
    (h : Serves s lists c current tick ageTick s1 lists1) {t : Nat}
    (hne : t ≠ current) (ht : (s.threads t).totalTicks <= 19) :
    (s1.threads t).totalTicks <= 19 := by
  have hwoken : (wokenRecord s (lists (c, Queue.sleep)) tick t).totalTicks <=
      19 := by
    rw [wokenRecord_field Thread.totalTicks (fun _ => rfl) (fun _ => rfl)]
    exact ht
  show (s1.threads t).content.totalTicks <= 19
  by_cases hpassed : AgeDue s c ageTick ∧ exists q, q < maxPriority ∧
      t ∈ afterWaking s c tick lists (Queue.ready q)
  · rcases hpassed with ⟨hdue, q, hq, hmem⟩
    rw [h.aged hdue q t hq hmem]
    exact passRecord_ticks hwoken q
  · rw [h.kept t hne (fun hdue q hq hmem => hpassed ⟨hdue, q, hq, hmem⟩)]
    exact hwoken

theorem schedReschedule_ticks {rsp tick ageTick : Nat} {r : RescheduleResult}
    (h : Placed s holds spawned place lists)
    (hcurrent : place (s.cpus c).schedThread = some (Place.running c))
    (hrun : schedReschedule s c rsp tick ageTick = some r) {t : Nat}
    (ht : (s.threads t).totalTicks <= 19) :
    (r.state.threads t).totalTicks <= 19 := by
  rcases schedReschedule_exact rsp tick ageTick h hcurrent with
    ⟨s1, _, lists1, r', _, lists', _, _, _, hserves, hrecord, hrun', _, _,
      houtcome⟩
  rw [hrun] at hrun'
  cases hrun'
  have hserved : (s1.threads t).totalTicks <= 19 := by
    by_cases hsame : t = (s.cpus c).schedThread
    · rw [hsame] at ht ⊢
      rw [hrecord]
      exact ht
    · exact hserves.ticks hsame ht
  rw [houtcome.field Thread.totalTicks (fun _ _ => rfl) (fun _ => rfl)
    (fun _ => rfl)]
  exact hserved

end Ticks

section Steps

variable {r r' : SchedRun} {place : Nat -> Option Place}
  {lists : Loc -> List Nat}

theorem Links.ticks {s s' : SchedState} (h : Links s s') (t : Nat) :
    (s'.threads t).totalTicks = (s.threads t).totalTicks :=
  content_field (h.content t) Thread.totalTicks (fun _ => rfl)

theorem modThread_ticks {s : SchedState} {t : Nat} {f : Thread -> Thread}
    (hf : (f (s.threads t)).totalTicks = (s.threads t).totalTicks) (u : Nat) :
    ((modThread s t f).threads u).totalTicks = (s.threads u).totalTicks := by
  by_cases hut : u = t
  · rw [hut, modThread_self, hf]
  · rw [modThread_other _ _ _ hut]

theorem fewTicks_spawn (h : FewTicks r) (thread stack userLimit userTop
    priority : Nat) (name : Option (List UInt8)) (frame : List Nat)
    (tid : Nat) :
    FewTicks (r.born (spawnThread r.sched thread stack userLimit userTop
      priority name frame).state thread tid true) := by
  intro t b ht
  show ((spawnThread r.sched thread stack userLimit userTop priority name
    frame).state.threads t).totalTicks <= 19
  rcases born_cases ht with ⟨heq, _⟩ | ⟨hne, hold⟩
  · rcases spawnThread_self r.sched thread stack userLimit userTop priority name
      frame with ⟨n, hn⟩
    rw [heq, hn]
    exact Nat.zero_le 19
  · rcases spawnThread_other r.sched thread stack userLimit userTop priority
      name frame hne with ⟨n, hn⟩
    rw [hn]
    exact h t b hold

theorem fewTicks_step {event : SchedEvent} (h : FewTicks r)
    (hinv : SchedInvariant r place lists) (hstep : SchedStep r event r') :
    FewTicks r' := by
  cases hstep with
  | spawn _ _ => exact fewTicks_spawn h _ _ _ _ _ _ _ _
  | spawnUser _ _ => exact fewTicks_spawn h _ _ _ _ _ _ _ _
  | reschedule hc hrun =>
      intro t b ht
      exact schedReschedule_ticks hinv.placed (hinv.running _ hc) hrun
        (h t b (aliveAfter_some ht))
  | @sleep c ms tick hc =>
      intro t b ht
      show ((schedSleep r.sched c ms tick).threads t).totalTicks <= 19
      unfold schedSleep
      split
      case isTrue =>
          rw [modThread_ticks]
          · exact h t b ht
          · rfl
      case isFalse => exact h t b ht
  | @exit c hc =>
      intro t b ht
      show ((schedExit r.sched c).threads t).totalTicks <= 19
      unfold schedExit
      split
      case isTrue =>
          rw [modThread_ticks]
          · exact h t b ht
          · rfl
      case isFalse => exact h t b ht
  | handoffStart _ _ _ => exact h
  | handoffMiss _ _ hi hrun =>
      rcases findOnCpu_spec hinv.placed hi (Nat.le_refl _) with
        ⟨found, hrun', hsearch⟩
      rw [hrun] at hrun'
      cases hrun'
      cases hsearch
      exact h
  | handoffFind _ _ hi hrun =>
      rcases findOnCpu_spec hinv.placed hi (Nat.le_refl _) with
        ⟨found, hrun', hsearch⟩
      rw [hrun] at hrun'
      cases hrun'
      cases hsearch with
      | found _ _ _ _ _ hlinks =>
          intro t b ht
          exact (hlinks.ticks t).symm ▸ h t b ht
  | handoffNone _ _ _ => exact h
  | @handoffPlace c target _ _ =>
      intro t b ht
      show ((takeOver r.sched c target).threads t).totalTicks <= 19
      unfold takeOver
      rw [(push_links _ _ _).ticks, modThread_ticks]
      · exact h t b ht
      · rfl

theorem schedInit_ticks (s : SchedState) (c idle stack : Nat) :
    ((schedInit s c idle stack).threads idle).totalTicks = 0 := by
  unfold schedInit modExtra modCpu
  simp only [Function.update_self]
  rfl

theorem fewTicks_init (calls : List InitCall) (h : FewTicks r) :
    FewTicks (calls.foldl initCpu r) := by
  refine initCpus_records (P := fun _ th => th.totalTicks <= 19) ?_ calls h
  intro s c idle stack _
  rw [schedInit_ticks]
  exact Nat.zero_le 19

theorem sched_reachable_readyQueues {cpuCount : Nat} {ids : Nat -> Nat}
    (hids : ValidIds cpuCount ids) (hpos : 0 < cpuCount)
    (hreach : (schedSystem cpuCount ids).Reachable r) {c : Nat}
    (hc : c < r.sched.cpuCount) :
    exists lists, ReadyQueues r.sched c lists := by
  have hall : (exists place lists, SchedInvariant r place lists) ∧
      FewTicks r := by
    apply TransitionSystem.reachable_invariant
      (P := fun r => (exists place lists, SchedInvariant r place lists) ∧
        FewTicks r) _ _ hreach
    · intro s hinit
      refine ⟨schedInvariant_init hids hpos hinit, ?_⟩
      rcases hinit with ⟨threads, calls, _, heq⟩
      rw [heq]
      apply fewTicks_init
      intro t b ht
      cases ht
    · intro s event s' hs hstep
      rcases hs with ⟨⟨place, lists, hinv⟩, hfew⟩
      exact ⟨schedInvariant_step hinv hstep, fewTicks_step hfew hinv hstep⟩
  rcases hall with ⟨⟨place, lists, hinv⟩, hfew⟩
  refine ⟨fun p => lists (c, Queue.ready p), ?_, ?_, ?_⟩
  · apply ((hinv.placed.queued hc).of_valid
      (fun q hq => Queue.Ready.valid hq)).congr
    intro q hq
    cases q with
    | ready p => rfl
    | sleep => exact absurd hq (fun hfalse => hfalse)
  · intro p t _ ht
    exact (hinv.placed.fits t _
      ((hinv.placed.mem_iff _ t).mp ht)).right.left
  · intro p t _ ht
    have hplace := (hinv.placed.mem_iff _ t).mp ht
    cases halive : r.alive t with
    | none =>
        rw [(hinv.alive_iff t).mp halive] at hplace
        cases hplace
    | some b => exact hfew t b halive

end Steps

/-- A pass of aging moves every thread that has waited long enough up by one
queue.  Every reachable state has the queues that this is about. -/
theorem schedAgeThreads_promotes :
    (forall s c lists tick, ReadyQueues s c lists -> AgeDue s c tick ->
      exists s' lists', schedAgeThreads s c tick = some s' ∧
        PromotesOnce s lists c s' lists') ∧
    forall cpuCount ids r c, ValidIds cpuCount ids -> 0 < cpuCount ->
      (schedSystem cpuCount ids).Reachable r -> c < r.sched.cpuCount ->
      exists lists, ReadyQueues r.sched c lists := by
  constructor
  · intro s c lists tick h hdue
    exact schedAgeThreads_pass h hdue
  · intro cpuCount ids r c hids hpos hreach hc
    exact sched_reachable_readyQueues hids hpos hreach hc

def longWaiting : SchedState :=
  modThread oneThread.sched 0x5000 (fun th => { th with totalTicks := 19 })

theorem longWaiting_queues :
    ReadyQueues longWaiting 0 (fun p => if p = 5 then [0x5000] else []) := by
  have hmem : forall p t, t ∈ (if p = 5 then [0x5000] else []) ->
      p = 5 ∧ t = 0x5000 := by
    intro p t ht
    by_cases hsame : p = 5
    · rw [if_pos hsame] at ht
      exact ⟨hsame, List.mem_singleton.mp ht⟩
    · rw [if_neg hsame] at ht
      cases ht
  constructor
  · constructor
    · constructor
      · intro q hq
        cases q with
        | sleep => exact absurd hq (fun hfalse => hfalse)
        | ready p =>
            show Chain 0 longWaiting.next
              (queueHead longWaiting (0, Queue.ready p))
              (if p = 5 then [0x5000] else [])
            by_cases hp5 : p = 5
            · rw [if_pos hp5, hp5]
              exact ⟨rfl, by decide, rfl⟩
            · rw [if_neg hp5]
              exact Function.update_of_ne hp5 _ _
      · intro q hq
        cases q with
        | sleep => exact List.nodup_nil
        | ready p =>
            show (if p = 5 then [0x5000] else []).Nodup
            split
            case isTrue => exact List.nodup_singleton _
            case isFalse => exact List.nodup_nil
      · intro q q' t hq hq' ht ht'
        cases q with
        | sleep => cases ht
        | ready p =>
            cases q' with
            | sleep => cases ht'
            | ready p' => rw [(hmem p t ht).left, (hmem p' t ht').left]
    · intro q t hq ht
      cases q with
      | sleep => cases ht
      | ready p =>
          rw [(hmem p t ht).right]
          decide
  · intro p t _ ht
    rw [(hmem p t ht).left, (hmem p t ht).right]
    rfl
  · intro p t _ ht
    rw [(hmem p t ht).right]
    decide

theorem schedAgeThreads_promotes_longWaiting :
    exists s' lists', schedAgeThreads longWaiting 0 20 = some s' ∧
      (s'.threads 0x5000).priority = 6 ∧ lists' 6 = [0x5000] ∧
      Queued Queue.Ready s' 0 (onReady lists') := by
  rcases schedAgeThreads_promotes.left longWaiting 0 _ 20
    longWaiting_queues (by decide) with ⟨s', lists', hrun, hpass⟩
  have hpromotes : Promotes longWaiting 5 0x5000 := by decide
  refine ⟨s', lists', hrun, ?_, ?_, hpass.queued⟩
  · exact (hpass.promoted 5 0x5000 List.mem_cons_self hpromotes).right
  · rw [hpass.order 6 (by decide)]
    decide

end Sched
end Barium
