import Barium.Sched.Reschedule

/-!
# The records of waiting threads

A relation between the records of a thread that holds for each change the loops
make to a waiting thread holds for a whole call of `sched_reschedule`.
-/

namespace Barium
namespace Sched

open Foundation

/-- The relation allows what happens to threads that wait, up to `tick`. -/
structure RecordRule (tick : Nat) (R : Thread -> Thread -> Prop) : Prop where
  refl : forall th, R th th
  trans : forall th th' th'', R th th' -> R th' th'' -> R th th''
  next : forall th n, R th { th with next := n }
  wake : forall th, th.wakeupTick <= tick ->
    R th { th with state := ThreadState.ready }
  count : forall th n, th.tid ≠ 1 -> R th { th with totalTicks := n }
  age : forall th, th.tid ≠ 1 -> R th { th with priority := th.priority + 1 }

section Records

variable {s s' : SchedState} {tick : Nat} {R : Thread -> Thread -> Prop}

theorem RecordRule.modThread (h : RecordRule tick R) {t : Nat}
    {f : Thread -> Thread} (hf : R (s.threads t) (f (s.threads t))) (u : Nat) :
    R (s.threads u) ((modThread s t f).threads u) := by
  by_cases hut : u = t
  · rw [hut, modThread_self]
    exact hf
  · rw [modThread_other _ _ _ hut]
    exact h.refl _

theorem RecordRule.links (h : RecordRule tick R) (hlinks : Links s s')
    (u : Nat) : R (s.threads u) (s'.threads u) := by
  rcases hlinks.threads u with ⟨n, hn⟩
  rw [hn]
  exact h.next _ n

theorem RecordRule.wakeThread (h : RecordRule tick R) {c t : Nat}
    (ht : (s.threads t).wakeupTick <= tick) (u : Nat) :
    R (s.threads u) ((wakeThread s c t).threads u) :=
  h.trans _ _ _ (h.modThread (h.wake _ ht) u) (h.links (push_links _ _ _) u)

theorem wakeLoop_records (h : RecordRule tick R) {c fuel prev curr : Nat}
    (hrun : wakeLoop c tick fuel s prev curr = some s') (u : Nat) :
    R (s.threads u) (s'.threads u) := by
  induction fuel generalizing s prev curr with
  | zero => cases hrun
  | succ fuel ih =>
      unfold wakeLoop at hrun
      split at hrun
      case isTrue =>
          cases hrun
          exact h.refl _
      case isFalse =>
          split at hrun
          case isTrue hdue =>
              have hlinks := unlink_links s (c, Queue.sleep) prev curr
              have hdue' : ((unlink s (c, Queue.sleep) prev curr).threads
                  curr).wakeupTick <= tick := by
                rcases hlinks.threads curr with ⟨n, hn⟩
                rw [hn]
                exact hdue
              exact h.trans _ _ _ (h.links hlinks u)
                (h.trans _ _ _ (h.wakeThread hdue' u) (ih hrun))
          case isFalse => exact ih hrun

theorem RecordRule.ageThread (h : RecordRule tick R) {c t : Nat}
    (ht : (s.threads t).tid ≠ 1) (u : Nat) :
    R (s.threads u) ((ageThread s c t).threads u) := by
  refine h.trans _ _ _ (h.modThread ?_ u) (h.links (push_links _ _ _) u)
  split
  case isTrue => exact h.age _ ht
  case isFalse => exact h.refl _

theorem ageLoop_records (h : RecordRule tick R) {c p fuel prev curr : Nat}
    (hrun : ageLoop c p fuel s prev curr = some s') (u : Nat) :
    R (s.threads u) (s'.threads u) := by
  induction fuel generalizing s prev curr with
  | zero => cases hrun
  | succ fuel ih =>
      unfold ageLoop at hrun
      split at hrun
      case isTrue =>
          cases hrun
          exact h.refl _
      case isFalse =>
          split at hrun
          case isTrue => exact ih hrun
          case isFalse hother =>
              have hcount := h.modThread (s := s) (t := curr)
                (f := fun th =>
                  { th with totalTicks := Word.add th.totalTicks 1 })
                (h.count _ _ hother) u
              have htid : ((Sched.modThread s curr (fun th => { th with
                  totalTicks := Word.add th.totalTicks 1 })).threads
                  curr).tid ≠ 1 := by
                rw [modThread_self]
                exact hother
              generalize Sched.modThread s curr (fun th => { th with
                totalTicks := Word.add th.totalTicks 1 }) = s1
                at hrun hcount htid
              dsimp only at hrun
              split at hrun
              case isFalse => exact h.trans _ _ _ hcount (ih hrun)
              case isTrue =>
                  have hreset := h.modThread (s := s1) (t := curr)
                    (f := fun th => { th with totalTicks := 0 })
                    (h.count _ _ htid) u
                  have htid2 : ((Sched.modThread s1 curr (fun th => { th with
                      totalTicks := 0 })).threads curr).tid ≠ 1 := by
                    rw [modThread_self]
                    exact htid
                  generalize Sched.modThread s1 curr (fun th => { th with
                    totalTicks := 0 }) = s2 at hrun hreset htid2
                  have hlinks := unlink_links s2 (c, Queue.ready p) prev curr
                  have htid3 : ((unlink s2 (c, Queue.ready p) prev
                      curr).threads curr).tid ≠ 1 := by
                    rw [hlinks.toFrame.tid]
                    exact htid2
                  exact h.trans _ _ _ hcount (h.trans _ _ _ hreset
                    (h.trans _ _ _ (h.links hlinks u)
                      (h.trans _ _ _ (h.ageThread htid3 u) (ih hrun))))

theorem ageQueues_records (h : RecordRule tick R) {c n p : Nat}
    (hrun : ageQueues c n s p = some s') (u : Nat) :
    R (s.threads u) (s'.threads u) := by
  induction n generalizing s p with
  | zero =>
      cases hrun
      exact h.refl _
  | succ n ih =>
      unfold ageQueues at hrun
      rcases Option.bind_eq_some_iff.mp hrun with ⟨s1, hloop, hrest⟩
      exact h.trans _ _ _ (ageLoop_records h hloop u) (ih hrest)

theorem schedAgeThreads_records (h : RecordRule tick R) {c ageTick : Nat}
    (hrun : schedAgeThreads s c ageTick = some s') (u : Nat) :
    R (s.threads u) (s'.threads u) := by
  unfold schedAgeThreads at hrun
  split at hrun
  case isTrue =>
      cases hrun
      exact h.refl _
  case isFalse => exact ageQueues_records h hrun u

theorem serveTick_records (h : RecordRule tick R)
    {c current rsp ageTick : Nat}
    (hrun : serveTick s c current rsp tick ageTick = some s') {u : Nat}
    (hu : u ≠ current) : R (s.threads u) (s'.threads u) := by
  unfold serveTick at hrun
  rcases Option.bind_eq_some_iff.mp hrun with ⟨s1, hwake, hage⟩
  have hwoken := wakeLoop_records h hwake u
  have haged := schedAgeThreads_records h hage u
  rw [modThread_other _ _ _ hu] at hwoken haged
  exact h.trans _ _ _ hwoken haged

/-!
# The whole function
-/

/-- The record of a thread that did not run before the call: it has waited, and
perhaps it has been chosen. -/
theorem schedReschedule_waiting (hR : RecordRule tick R) {c rsp ageTick : Nat}
    {holds : Nat -> Option Nat} {spawned : Nat -> Prop}
    {place : Nat -> Option Place} {lists : Loc -> List Nat}
    {r : RescheduleResult} (h : Placed s holds spawned place lists)
    (hcurrent : place (s.cpus c).schedThread = some (Place.running c))
    (hrun : schedReschedule s c rsp tick ageTick = some r) {u : Nat}
    (hu : u ≠ (s.cpus c).schedThread) :
    exists th n, R (s.threads u) th ∧
      (r.state.threads u = { th with next := n } ∨
        (u = (r.state.cpus c).schedThread ∧
          r.state.threads u = { started th with next := n })) := by
  rcases schedReschedule_outcome rsp tick ageTick h hcurrent with
    ⟨s1, _, lists1, r', _, lists', hserve, _, _, _, hrun', _, _, houtcome⟩
  rw [hrun] at hrun'
  cases hrun'
  have hrecord := serveTick_records hR hserve hu
  exists s1.threads u
  cases houtcome with
  | stay _ => exact ⟨(s1.threads u).next, hrecord, Or.inl rfl⟩
  | switch _ _ hqueues =>
      by_cases hsame : u = (r.state.cpus c).schedThread
      · rcases hqueues.entered with ⟨n, hn⟩
        rw [← hsame] at hn
        exact ⟨n, hrecord, Or.inr ⟨hsame, hn⟩⟩
      · rcases hqueues.others u hu hsame with ⟨n, hn⟩
        exact ⟨n, hrecord, Or.inl hn⟩

theorem schedReschedule_current {c rsp ageTick : Nat}
    {holds : Nat -> Option Nat} {spawned : Nat -> Prop}
    {place : Nat -> Option Place} {lists : Loc -> List Nat}
    {r : RescheduleResult} (h : Placed s holds spawned place lists)
    (hcurrent : place (s.cpus c).schedThread = some (Place.running c))
    (hrun : schedReschedule s c rsp tick ageTick = some r) :
    exists th n,
      (th = ticked rsp (s.threads (s.cpus c).schedThread) ∨
        th = retired (ticked rsp (s.threads (s.cpus c).schedThread))) ∧
      r.state.threads (s.cpus c).schedThread = { th with next := n } := by
  rcases schedReschedule_outcome rsp tick ageTick h hcurrent with
    ⟨s1, _, lists1, r', _, lists', _, _, _, hrecord, hrun', _, _, houtcome⟩
  rw [hrun] at hrun'
  cases hrun'
  rw [← hrecord]
  cases houtcome with
  | stay _ => exact ⟨_, _, Or.inl rfl, rfl⟩
  | switch _ _ hqueues =>
      rcases hqueues.left with ⟨n, hn⟩
      exact ⟨_, n, Or.inr rfl, hn⟩

theorem retired_priority (th : Thread) : (retired th).priority = th.priority := by
  unfold retired
  split
  case h_1 => rfl
  case h_2 => rfl

end Records

/-!
# The other changes of a running thread
-/

section Current

variable {s : SchedState} {c u : Nat}

theorem schedSleep_self (hc : (s.cpus c).schedThread ≠ 0) (ms tick : Nat) :
    (schedSleep s c ms tick).threads (s.cpus c).schedThread =
      { s.threads (s.cpus c).schedThread with
        state := ThreadState.sleeping
        wakeupTick := Word.add tick (ms / 10) } := by
  unfold schedSleep
  rw [if_pos hc, modThread_self]

theorem schedSleep_other (ms tick : Nat) (hu : u ≠ (s.cpus c).schedThread) :
    (schedSleep s c ms tick).threads u = s.threads u := by
  unfold schedSleep
  split
  case isTrue => exact modThread_other _ _ _ hu
  case isFalse => rfl

theorem schedSleep_cpus (s : SchedState) (c ms tick : Nat) :
    (schedSleep s c ms tick).cpus = s.cpus := by
  unfold schedSleep
  split
  case isTrue => rfl
  case isFalse => rfl

theorem schedExit_other (hu : u ≠ (s.cpus c).schedThread) :
    (schedExit s c).threads u = s.threads u := by
  unfold schedExit
  split
  case isTrue => exact modThread_other _ _ _ hu
  case isFalse => rfl

theorem schedExit_cpus (s : SchedState) (c : Nat) :
    (schedExit s c).cpus = s.cpus := by
  unfold schedExit
  split
  case isTrue => rfl
  case isFalse => rfl

end Current

end Sched
end Barium
