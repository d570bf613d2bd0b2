import Barium.Sched.CpuQueues
import Barium.Sched.Reschedule

/-!
# What a tick leaves in the queues

The first half of `sched_reschedule`, from which all that follows about waking,
aging and the choice of the next thread can be read off.
-/

namespace Barium
namespace Sched

open Foundation
open LinkedList

def AgeDue (s : SchedState) (c tick : Nat) : Prop :=
  ¬ Word.sub tick (s.extras (s.cpus c).cpuId).lastAgeTick < 20

instance (s : SchedState) (c tick : Nat) : Decidable (AgeDue s c tick) := by
  unfold AgeDue
  infer_instance

def afterWaking (s : SchedState) (c tick : Nat) (lists : Loc -> List Nat) :
    Queue -> List Nat :=
  wokenLists s.threads tick [] (lists (c, Queue.sleep)) (fun q => lists (c, q))

def afterTick (s : SchedState) (c tick ageTick : Nat)
    (lists : Loc -> List Nat) : Queue -> List Nat :=
  if AgeDue s c ageTick then
    passLists s.threads (afterWaking s c tick lists) 0 maxPriority
  else afterWaking s c tick lists

def wokenRecord (s : SchedState) (asleep : List Nat) (tick t : Nat) : Thread :=
  if t ∈ asleep then awoken tick (s.threads t).content
  else (s.threads t).content

/-- What the first half of `sched_reschedule` leaves in the queues of CPU `c`
and in the records of the threads that do not run there. -/
structure Serves (s : SchedState) (lists : Loc -> List Nat)
    (c current tick ageTick : Nat) (s1 : SchedState)
    (lists1 : Loc -> List Nat) : Prop where
  queues : forall q, q.Valid ->
    lists1 (c, q) = afterTick s c tick ageTick lists q
  aged : AgeDue s c ageTick -> forall q t, q < maxPriority ->
    t ∈ afterWaking s c tick lists (Queue.ready q) ->
    (s1.threads t).content =
      passRecord q (wokenRecord s (lists (c, Queue.sleep)) tick t)
  kept : forall t, t ≠ current ->
    (AgeDue s c ageTick -> forall q, q < maxPriority ->
      t ∉ afterWaking s c tick lists (Queue.ready q)) ->
    (s1.threads t).content =
      wokenRecord s (lists (c, Queue.sleep)) tick t

/-!
# The tick of the last aging
-/

section LastAge

variable {s s' : SchedState}

theorem setQueueHead_lastAge (l : Loc) (t id : Nat) :
    ((setQueueHead s l t).extras id).lastAgeTick =
      (s.extras id).lastAgeTick := by
  rcases l with ⟨c, q⟩
  cases q with
  | ready p => rfl
  | sleep =>
      show (Function.update s.extras (s.cpus c).cpuId _ id).lastAgeTick = _
      by_cases hsame : id = (s.cpus c).cpuId
      · rw [hsame, Function.update_self]
      · rw [Function.update_of_ne hsame]

theorem unlink_lastAge (l : Loc) (prev curr id : Nat) :
    ((unlink s l prev curr).extras id).lastAgeTick =
      (s.extras id).lastAgeTick := by
  unfold unlink
  split
  case isTrue => rfl
  case isFalse => exact setQueueHead_lastAge l _ id

theorem wakeLoop_lastAge {c tick fuel prev curr : Nat}
    (hrun : wakeLoop c tick fuel s prev curr = some s') (id : Nat) :
    (s'.extras id).lastAgeTick = (s.extras id).lastAgeTick := by
  induction fuel generalizing s prev curr with
  | zero => cases hrun
  | succ fuel ih =>
      unfold wakeLoop at hrun
      split at hrun
      case isTrue =>
          cases hrun
          rfl
      case isFalse =>
          split at hrun
          case isTrue =>
              rw [ih hrun]
              unfold wakeThread push
              rw [setQueueHead_lastAge]
              exact unlink_lastAge _ _ _ id
          case isFalse => exact ih hrun

end LastAge

/-!
# What the choice of the next thread leaves alone
-/

theorem Outcome.field {alpha : Type} {s : SchedState}
    {lists lists' : Loc -> List Nat} {c current : Nat} {r : RescheduleResult}
    (h : Outcome s lists c current r lists') (f : Thread -> alpha)
    (hnext : forall (th : Thread) n, f { th with next := n } = f th)
    (hstarted : forall th, f (started th) = f th)
    (hpreempted : forall th, f (preempted th) = f th) (t : Nat) :
    f (r.state.threads t) = f (s.threads t) := by
  cases h with
  | stay _ => rfl
  | switch _ _ hqueues =>
      by_cases hcase : t = current
      · rcases hqueues.left with ⟨n, hn⟩
        rw [hcase, hn, hnext]
        unfold retired
        split
        case h_1 => exact hpreempted _
        case h_2 => rfl
      · by_cases hsame : t = (r.state.cpus c).schedThread
        · rcases hqueues.entered with ⟨n, hn⟩
          rw [← hsame] at hn
          rw [hn, hnext, hstarted]
        · rcases hqueues.others t hcase hsame with ⟨n, hn⟩
          rw [hn, hnext]

section Serve

variable {s : SchedState} {holds : Nat -> Option Nat} {spawned : Nat -> Prop}
  {place : Nat -> Option Place} {lists : Loc -> List Nat} {c : Nat}

theorem wokenRecord_field {alpha : Type} (f : Thread -> alpha)
    (hf : forall th : Thread, f th.content = f th)
    (hstate : forall th : Thread,
      f { th with state := ThreadState.ready } = f th)
    (asleep : List Nat) (tick t : Nat) :
    f (wokenRecord s asleep tick t) = f (s.threads t) := by
  unfold wokenRecord awoken
  split
  case isTrue =>
      split
      case isTrue => rw [hstate, hf]
      case isFalse => exact hf _
  case isFalse => exact hf _

theorem visited_field {alpha : Type} (f : Thread -> alpha)
    (hticks : forall (th : Thread) n, f { th with totalTicks := n } = f th)
    (hraise : forall (th : Thread) n, f { th with priority := n } = f th)
    (th : Thread) : f (visited th) = f th := by
  unfold visited
  split
  case isTrue => rfl
  case isFalse =>
      split
      case isTrue =>
          exact (hraise { th with totalTicks := 0 } _).trans (hticks th 0)
      case isFalse => exact hticks th _

/-- A tick leaves every field of a thread that does not run alone, but for the
state, the priority, the ticks that are counted and the pointer. -/
theorem Serves.field {alpha : Type} {current tick ageTick : Nat}
    {s1 : SchedState} {lists1 : Loc -> List Nat}
    (h : Serves s lists c current tick ageTick s1 lists1)
    (f : Thread -> alpha) (hf : forall th : Thread, f th.content = f th)
    (hstate : forall th : Thread,
      f { th with state := ThreadState.ready } = f th)
    (hticks : forall (th : Thread) n, f { th with totalTicks := n } = f th)
    (hraise : forall (th : Thread) n, f { th with priority := n } = f th)
    {t : Nat} (ht : t ≠ current) :
    f (s1.threads t) = f (s.threads t) := by
  have hpass : forall q th, f (passRecord q th) = f th := by
    intro q th
    unfold passRecord
    split
    case isTrue =>
        rw [visited_field f hticks hraise, visited_field f hticks hraise]
    case isFalse => exact visited_field f hticks hraise th
  rw [← hf (s1.threads t),
    ← wokenRecord_field f hf hstate (lists (c, Queue.sleep)) tick t]
  by_cases hpassed : AgeDue s c ageTick ∧ exists q, q < maxPriority ∧
      t ∈ afterWaking s c tick lists (Queue.ready q)
  · rcases hpassed with ⟨hdue, q, hq, hmem⟩
    rw [h.aged hdue q t hq hmem, hpass]
  · rw [h.kept t ht (fun hdue q hq hmem => hpassed ⟨hdue, q, hq, hmem⟩)]

theorem afterWaking_priority (h : Placed s holds spawned place lists)
    {tick q t : Nat} (ht : t ∈ afterWaking s c tick lists (Queue.ready q)) :
    (s.threads t).priority = q ∧
      (t ∈ lists (c, Queue.sleep) ∨ t ∈ lists (c, Queue.ready q)) := by
  unfold afterWaking at ht
  simp only [wokenLists, List.mem_append, List.mem_reverse, List.mem_filter,
    decide_eq_true_iff] at ht
  rcases ht with ⟨hmem, _, hpriority⟩ | hmem
  · exact ⟨hpriority, Or.inl hmem⟩
  · have hfits := h.fits t _ ((h.mem_iff _ t).mp hmem)
    exact ⟨hfits.right.left, Or.inr hmem⟩

structure Woken (s : SchedState) (lists : Loc -> List Nat)
    (c current tick : Nat) (sc : SchedState) : Prop where
  queued : Queued Queue.Valid sc c (afterWaking s c tick lists)
  records : forall t, t ≠ current -> (sc.threads t).content =
    wokenRecord s (lists (c, Queue.sleep)) tick t
  age : forall ageTick, AgeDue sc c ageTick <-> AgeDue s c ageTick

theorem serveTick_woken {current rsp tick ageTick : Nat} {s1 : SchedState}
    (h : Placed s holds spawned place lists)
    (hcurrent : place current = some (Place.running c))
    (hserve : serveTick s c current rsp tick ageTick = some s1) :
    exists sc, Woken s lists c current tick sc ∧
      schedAgeThreads sc c ageTick = some s1 := by
  have hc : c < s.cpuCount := h.cpu_lt current _ hcurrent
  unfold serveTick at hserve
  rcases Option.bind_eq_some_iff.mp hserve with ⟨sw, hwake, hage⟩
  have hsaved := h.touch (t := current)
    (f := fun th => { th with rsp := rsp }) rfl rfl rfl rfl
  have hids : (sw.cpus c).cpuId = (s.cpus c).cpuId := by
    have hhead := chain_first (hsaved.chain (c, Queue.sleep) ⟨hc, trivial⟩)
    rcases wakeLoop_spec tick hsaved hc
      (show lists (c, Queue.sleep) = [] ++ lists (c, Queue.sleep) from rfl)
      (hsaved.length_lt _) with ⟨s', _, _, hwake', _, hmoves⟩
    rw [← hhead] at hwake'
    rw [show last 0 ([] : List Nat) = 0 from rfl, hwake] at hwake'
    cases hwake'
    exact hmoves.frame.ids c
  have hlast : forall id, (sw.extras id).lastAgeTick =
      (s.extras id).lastAgeTick := by
    intro id
    have hsame := wakeLoop_lastAge hwake id
    exact hsame
  have hothers : forall t, t ≠ current -> (modThread s current
      (fun th => { th with rsp := rsp })).threads t = s.threads t :=
    fun t ht => modThread_other _ _ _ ht
  have hqueued0 := hsaved.queued hc
  have hpriority : forall t, t ∈ lists (c, Queue.sleep) ->
      ((modThread s current (fun th => { th with rsp := rsp })).threads
        t).priority <= maxPriority := by
    intro t ht
    have hfits := hsaved.fits t _ ((hsaved.mem_iff _ t).mp ht)
    exact hfits.right.left
  generalize modThread s current (fun th => { th with rsp := rsp }) = s0
    at hwake hothers hqueued0 hpriority
  have hwoken : wokenLists s0.threads tick [] (lists (c, Queue.sleep))
      (fun q => lists (c, q)) = afterWaking s c tick lists := by
    apply wokenLists_congr
    intro t ht
    rw [hothers t (h.ne_running hcurrent ht)]
    exact ⟨rfl, rfl⟩
  rcases wakeLoop_lists tick hqueued0
    (show (fun q => lists (c, q)) Queue.sleep =
      [] ++ lists (c, Queue.sleep) from rfl) hpriority
    (hqueued0.length_lt trivial) with ⟨s', hwake', hwalked⟩
  rw [← chain_first (hqueued0.family.chain Queue.sleep trivial),
    show last 0 ([] : List Nat) = 0 from rfl, hwake] at hwake'
  cases hwake'
  have hqueuedw := hwalked.queued
  rw [hwoken] at hqueuedw
  refine ⟨_, ⟨hqueuedw.touch rfl, ?_, ?_⟩, hage⟩
  · intro t ht
    rw [modThread_other _ _ _ ht, hwalked.records t, hothers t ht]
    rfl
  · intro ageTick
    show ¬ Word.sub ageTick (sw.extras (sw.cpus c).cpuId).lastAgeTick < 20 <-> _
    rw [hlast, hids]
    rfl

theorem Woken.waiting {current tick q t : Nat} {sc : SchedState}
    (h : Woken s lists c current tick sc)
    (hplaced : Placed s holds spawned place lists)
    (hcurrent : place current = some (Place.running c))
    (ht : t ∈ afterWaking s c tick lists (Queue.ready q)) :
    t ≠ current ∧ (sc.threads t).priority = q ∧
      (GrownOld (sc.threads t) <-> GrownOld (s.threads t)) := by
  rcases afterWaking_priority hplaced ht with ⟨hq, hmem⟩
  have hne : t ≠ current := by
    rcases hmem with hmem | hmem
    · exact hplaced.ne_running hcurrent hmem
    · exact hplaced.ne_running hcurrent hmem
  have hfield : forall {alpha : Type} (f : Thread -> alpha),
      (forall th : Thread, f th.content = f th) ->
      (forall th : Thread, f { th with state := ThreadState.ready } = f th) ->
      f (sc.threads t) = f (s.threads t) := by
    intro alpha f hf hstate
    rw [← hf, h.records t hne, wokenRecord_field f hf hstate]
  have htid := hfield Thread.tid (fun _ => rfl) (fun _ => rfl)
  have hticks := hfield Thread.totalTicks (fun _ => rfl) (fun _ => rfl)
  refine ⟨hne, ?_, ?_⟩
  · rw [hfield Thread.priority (fun _ => rfl) (fun _ => rfl)]
    exact hq
  · unfold GrownOld
    rw [htid, hticks]

theorem Woken.serves {current tick ageTick : Nat} {sc s1 : SchedState}
    {lists1 : Loc -> List Nat} (h : Woken s lists c current tick sc)
    (hplaced : Placed s holds spawned place lists)
    (hcurrent : place current = some (Place.running c))
    (hage : schedAgeThreads sc c ageTick = some s1)
    (hqueued1 : Queued Queue.Valid s1 c (fun q => lists1 (c, q))) :
    Serves s lists c current tick ageTick s1 lists1 := by
  by_cases hsame : AgeDue s c ageTick
  · have hwaiting := fun q t
        (ht : t ∈ afterWaking s c tick lists (Queue.ready q)) =>
      h.waiting hplaced hcurrent ht
    rcases schedAgeThreads_lists h.queued (fun q hq => hq)
      (fun q t _ ht => (hwaiting q t ht).right.left)
      ((h.age ageTick).mpr hsame) with
      ⟨s', hage', hqueued', hvisited, hkept⟩
    rw [hage] at hage'
    cases hage'
    rw [passLists_congr (fun q t ht => (hwaiting q t ht).right.right)]
      at hqueued'
    constructor
    · intro q hq
      unfold afterTick
      rw [if_pos hsame]
      exact hqueued1.unique hqueued' hq
    · intro _ q t hq ht
      rw [hvisited q t hq ht, h.records t (hwaiting q t ht).left]
    · intro t ht hout
      rw [hkept t (hout hsame), h.records t ht]
  · have hsoon : Word.sub ageTick
        (sc.extras (sc.cpus c).cpuId).lastAgeTick < 20 :=
      not_not.mp (fun hlate => hsame ((h.age ageTick).mp hlate))
    unfold schedAgeThreads at hage
    rw [if_pos hsoon] at hage
    cases hage
    constructor
    · intro q hq
      unfold afterTick
      rw [if_neg hsame]
      exact hqueued1.unique h.queued hq
    · intro hyes
      exact absurd hyes hsame
    · intro t ht _
      exact h.records t ht

/-- A call of `sched_reschedule`, with all that its first half leaves. -/
theorem schedReschedule_exact (rsp tick ageTick : Nat)
    (h : Placed s holds spawned place lists)
    (hcurrent : place (s.cpus c).schedThread = some (Place.running c)) :
    exists s1 place1 lists1 r place' lists',
      serveTick s c (s.cpus c).schedThread rsp tick ageTick = some s1 ∧
      Placed s1 holds spawned place1 lists1 ∧
      Served s place (s.cpus c).schedThread rsp s1 place1 ∧
      Serves s lists c (s.cpus c).schedThread tick ageTick s1 lists1 ∧
      s1.threads (s.cpus c).schedThread =
        ticked rsp (s.threads (s.cpus c).schedThread) ∧
      schedReschedule s c rsp tick ageTick = some r ∧
      Placed r.state holds spawned place' lists' ∧
      Rescheduled s place c rsp r place' ∧
      Outcome s1 lists1 c (s.cpus c).schedThread r lists' := by
  rcases schedReschedule_outcome rsp tick ageTick h hcurrent with
    ⟨s1, place1, lists1, r, place', lists', hserve, hplaced1, hserved, hrecord,
      hrun, hplaced', hdone, houtcome⟩
  rcases serveTick_woken h hcurrent hserve with ⟨sc, hwoken, hage⟩
  have hc : c < s1.cpuCount := by
    rw [hserved.frame.count]
    exact h.cpu_lt _ _ hcurrent
  exact ⟨s1, place1, lists1, r, place', lists', hserve, hplaced1, hserved,
    hwoken.serves h hcurrent hage (hplaced1.queued hc), hrecord, hrun, hplaced',
    hdone, houtcome⟩

end Serve

end Sched
end Barium
