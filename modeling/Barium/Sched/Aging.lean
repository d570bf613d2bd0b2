import Barium.Sched.CpuQueues
import Barium.Sched.Records
import Barium.Sched.Cycle

/-!
# A thread that waits grows older

On CPU 0 a thread of the highest priority runs while another thread waits in
the lowest ready queue.  After twenty rounds of aging the thread that waits has
a higher priority, unless it is the thread with id 1.
-/

namespace Barium
namespace Sched

open Foundation
open Function

section Empty

variable {s : SchedState} {c : Nat}

theorem ageLoop_empty (c p prev : Nat) (s : SchedState) :
    ageLoop c p queueFuel s prev 0 = some s := by
  have hfuel : queueFuel = (queueFuel - 1) + 1 := by decide
  rw [hfuel]
  rfl

theorem ageQueues_empty {n p : Nat}
    (h : forall q, p <= q -> q < p + n ->
      queueHead s (c, Queue.ready q) = 0) : ageQueues c n s p = some s := by
  induction n generalizing p with
  | zero => rfl
  | succ n ih =>
      unfold ageQueues
      rw [h p (Nat.le_refl p) (by lia), ageLoop_empty]
      exact ih (fun q hle hlt => h q (by lia) (by lia))

end Empty

theorem ageQueues_succ (c n p : Nat) (s : SchedState) :
    ageQueues c (n + 1) s p =
      (ageLoop c p queueFuel s 0 (queueHead s (c, Queue.ready p))).bind
        (fun s' => ageQueues c n s' (p + 1)) :=
  rfl

theorem priority_rule (tick : Nat) :
    RecordRule tick (fun th th' => th.priority <= th'.priority) := by
  constructor
  · intro th
    exact Nat.le_refl _
  · intro th th' th'' h h'
    exact Nat.le_trans h h'
  · intro th n
    exact Nat.le_refl _
  · intro th _
    exact Nat.le_refl _
  · intro th n _
    exact Nat.le_refl _
  · intro th _
    exact Nat.le_succ _

/-- CPU 0 runs `busy`; `idle`, which does not have id 1, has waited through `k`
rounds of aging, the last one at tick `20 * k`. -/
structure Waits (s : SchedState) (idle busy k : Nat) : Prop where
  running : (s.cpus 0).schedThread = busy
  queues : (s.cpus 0).readyQueues = update (fun _ => 0) 0 idle
  extras : s.extras (s.cpus 0).cpuId =
    { sleepQueue := 0, lastAgeTick := 20 * k }
  tid : (s.threads idle).tid ≠ 1
  record : (s.threads idle).priority = 0 ∧ (s.threads idle).next = 0 ∧
    (s.threads idle).totalTicks = k
  busy : (s.threads busy).state = ThreadState.running ∧
    (s.threads busy).priority = 31

section Waiting

variable {s : SchedState} {idle busy k : Nat}

theorem ageLoop_young (hidle : idle ≠ 0) (htid : (s.threads idle).tid ≠ 1)
    (hnext : (s.threads idle).next = 0) (hk : (s.threads idle).totalTicks < 19)
    (p : Nat) :
    ageLoop 0 p queueFuel s 0 idle = some (modThread s idle counted) := by
  have hfuel : queueFuel = (queueFuel - 2) + 1 + 1 := by decide
  have hticks : Word.add (s.threads idle).totalTicks 1 =
      (s.threads idle).totalTicks + 1 := Word.add_of_lt (by lia)
  have hyoung : ¬ 19 < Word.add (s.threads idle).totalTicks 1 := by
    rw [hticks]
    lia
  rw [hfuel]
  generalize queueFuel - 2 = fuel
  simp [ageLoop, hidle, htid, hyoung, hnext, modThread, counted]

theorem ageLoop_old (hidle : idle ≠ 0) (htid : (s.threads idle).tid ≠ 1)
    (hpriority : (s.threads idle).priority = 0)
    (hnext : (s.threads idle).next = 0)
    (hk : (s.threads idle).totalTicks = 19) {p : Nat} {s' : SchedState}
    (hrun : ageLoop 0 p queueFuel s 0 idle = some s') :
    (s'.threads idle).priority = 1 := by
  have hfuel : queueFuel = (queueFuel - 2) + 1 + 1 := by decide
  have hold : 19 < Word.add (s.threads idle).totalTicks 1 := by
    rw [hk]
    decide
  rw [hfuel] at hrun
  generalize queueFuel - 2 = fuel at hrun
  simp [ageLoop, hidle, htid, hold, hnext, modThread, unlink] at hrun
  rw [← hrun]
  simp [ageThread, hpriority, push, modThread, maxPriority]

def roundStart (s : SchedState) (busy k : Nat) : SchedState :=
  modExtra (modThread s busy (ticked 0)) (s.cpus 0).cpuId
    (fun extra => { extra with lastAgeTick := 20 * (k + 1) })

theorem serveTick_waits (h : Waits s idle busy k) (hk : k < 20)
    (s' : SchedState) :
    serveTick s 0 busy 0 (20 * (k + 1)) (20 * (k + 1)) = some s' <->
      exists s1, ageLoop 0 0 queueFuel (roundStart s busy k) 0 idle =
        some s1 ∧ ageQueues 0 30 s1 1 = some s' := by
  have hwake : wakeLoop 0 (20 * (k + 1)) queueFuel
      (modThread s busy (fun th => { th with rsp := 0 })) 0
      (s.extras (s.cpus 0).cpuId).sleepQueue =
      some (modThread s busy (fun th => { th with rsp := 0 })) := by
    rw [h.extras]
    exact wakeLoop_nobody 0 _ 0 _
  have hdue : ¬ Word.sub (20 * (k + 1))
      ((modThread s busy (ticked 0)).extras
        ((modThread s busy (ticked 0)).cpus 0).cpuId).lastAgeTick < 20 := by
    show ¬ Word.sub _ (s.extras (s.cpus 0).cpuId).lastAgeTick < 20
    have hsmall : 20 * (k + 1) < 2 ^ 64 :=
      Nat.lt_of_lt_of_le (show 20 * (k + 1) < 401 by lia) (by decide)
    rw [h.extras, Word.sub_of_le hsmall (by lia)]
    lia
  have hhead : queueHead (roundStart s busy k) (0, Queue.ready 0) = idle := by
    show (s.cpus 0).readyQueues 0 = idle
    rw [h.queues, update_self]
  have hbody : schedAgeThreads (modThread s busy (ticked 0)) 0
      (20 * (k + 1)) = ageQueues 0 (30 + 1) (roundStart s busy k) 0 := by
    unfold schedAgeThreads
    rw [if_neg hdue]
    rfl
  rw [serveTick_of_wake hwake, modThread_ticked, hbody, ageQueues_succ, hhead,
    Option.bind_eq_some_iff]

theorem waits_round (h : Waits s idle busy k) (hk : k < 19)
    (hidle : idle ≠ 0) (hbusy : busy ≠ 0) (hne : idle ≠ busy) :
    exists result,
      schedReschedule s 0 0 (20 * (k + 1)) (20 * (k + 1)) = some result ∧
      Waits result.state idle busy (k + 1) ∧
      result.state.cpuCount = s.cpuCount := by
  rcases h.record with ⟨hpriority, hnext, hticks⟩
  have hrecord : (roundStart s busy k).threads idle = s.threads idle :=
    modThread_other s busy (ticked 0) hne
  have hloop := ageLoop_young (s := roundStart s busy k) hidle
    (by rw [hrecord]; exact h.tid) (by rw [hrecord]; exact hnext)
    (by rw [hrecord, hticks]; exact hk) 0
  have hrest : ageQueues 0 30 (modThread (roundStart s busy k) idle counted) 1 =
      some (modThread (roundStart s busy k) idle counted) := by
    apply ageQueues_empty
    intro q hle _
    show (s.cpus 0).readyQueues q = 0
    rw [h.queues, update_of_ne (by lia)]
  have hserve := (serveTick_waits h (by lia) _).mpr ⟨_, hloop, hrest⟩
  have htop : topQueue (modThread (roundStart s busy k) idle counted) 0
      (maxPriority + 1) = some 0 := by
    apply topQueue_eq (by decide)
    · show (s.cpus 0).readyQueues 0 ≠ 0
      rw [h.queues, update_self]
      exact hidle
    · intro q hlt _
      show (s.cpus 0).readyQueues q = 0
      rw [h.queues, update_of_ne (by lia)]
  have hrunning : (modThread (roundStart s busy k) idle counted).threads busy =
      ticked 0 (s.threads busy) := by
    rw [modThread_other _ _ _ hne.symm]
    exact modThread_self s busy (ticked 0)
  refine ⟨{ ret := (ticked 0 (s.threads busy)).rsp
            state := modThread (roundStart s busy k) idle counted
            freed := [] }, ?_, ?_, rfl⟩
  · unfold schedReschedule
    rw [h.running]
    simp only [if_neg hbusy]
    rw [hserve]
    simp only [Option.bind_eq_bind, Option.bind_some, htop, hrunning]
    rw [if_neg]
    intro hdue
    rcases hdue with hlt | ⟨hsame, _⟩ | hstate
    · cases hlt
    · rw [show (ticked 0 (s.threads busy)).priority = 31 from h.busy.right]
        at hsame
      cases hsame
    · exact hstate h.busy.left
  · constructor
    · exact h.running
    · exact h.queues
    · show update s.extras (s.cpus 0).cpuId _ (s.cpus 0).cpuId = _
      rw [update_self]
      show CpuExtra.mk (s.extras (s.cpus 0).cpuId).sleepQueue _ = _
      rw [h.extras]
    · rw [modThread_self, hrecord]
      exact h.tid
    · rw [modThread_self, hrecord]
      refine ⟨hpriority, hnext, ?_⟩
      show Word.add (s.threads idle).totalTicks 1 = k + 1
      rw [hticks]
      exact Word.add_of_lt (Nat.lt_of_lt_of_le (show k + 1 < 20 by lia)
        (by decide))
    · rw [hrunning]
      exact h.busy

/-- The twentieth round raises the priority. -/
theorem waits_raised (h : Waits s idle busy 19) (hidle : idle ≠ 0)
    (hne : idle ≠ busy) {s' : SchedState}
    (hserve : serveTick s 0 busy 0 400 400 = some s') :
    0 < (s'.threads idle).priority := by
  rcases h.record with ⟨hpriority, hnext, hticks⟩
  have hrecord : (roundStart s busy 19).threads idle = s.threads idle :=
    modThread_other s busy (ticked 0) hne
  rcases (serveTick_waits h (by decide) s').mp hserve with ⟨s1, hloop, hrest⟩
  have hraised := ageLoop_old hidle (by rw [hrecord]; exact h.tid)
    (by rw [hrecord]; exact hpriority) (by rw [hrecord]; exact hnext)
    (by rw [hrecord]; exact hticks) hloop
  have hkept := ageQueues_records (priority_rule 0) hrest idle
  rw [hraised] at hkept
  exact hkept

end Waiting

end Sched
end Barium
