import Barium.Sched.Runs

/-!
# Threads that come and go

On a CPU where nobody sleeps and no aging is due, `sched_reschedule` goes over
to its highest ready queue.  A thread that is created there, runs and exits
leaves everything as it was, but for the thread id that it has used up.
-/

namespace Barium
namespace Sched

open Foundation
open Function
open TransitionSystem

section Quiet

variable {s : SchedState} {c current : Nat}

def Quiet (s : SchedState) (c : Nat) : Prop :=
  s.extras (s.cpus c).cpuId = { sleepQueue := 0, lastAgeTick := 0 }

theorem wakeLoop_nobody (c tick prev : Nat) (s : SchedState) :
    wakeLoop c tick queueFuel s prev 0 = some s := by
  have hfuel : queueFuel = (queueFuel - 1) + 1 := by decide
  rw [hfuel]
  rfl

theorem modThread_ticked (s : SchedState) (t rsp : Nat) :
    modThread (modThread s t (fun th => { th with rsp := rsp })) t
      (fun th => { th with ticksRemaining := th.ticksRemaining - 1 }) =
      modThread s t (ticked rsp) := by
  unfold modThread ticked
  simp only [update_self, update_idem]

theorem serveTick_of_wake {s s1 s' : SchedState}
    {c current rsp tick ageTick : Nat}
    (h : wakeLoop c tick queueFuel
      (modThread s current (fun th => { th with rsp := rsp })) 0
      (s.extras (s.cpus c).cpuId).sleepQueue = some s1) :
    serveTick s c current rsp tick ageTick = some s' <->
      schedAgeThreads (modThread s1 current (fun th =>
        { th with ticksRemaining := th.ticksRemaining - 1 })) c ageTick =
        some s' := by
  unfold serveTick
  constructor
  · intro hrun
    rcases Option.bind_eq_some_iff.mp hrun with ⟨s2, hwake, hage⟩
    have hsame : s2 = s1 := Option.some.inj (hwake.symm.trans h)
    rw [hsame] at hage
    exact hage
  · intro hage
    exact Option.bind_eq_some_iff.mpr ⟨s1, h, hage⟩

theorem serveTick_quiet (h : Quiet s c) (current rsp : Nat) :
    serveTick s c current rsp 0 0 =
      some (modThread s current (ticked rsp)) := by
  have hwake : wakeLoop c 0 queueFuel
      (modThread s current (fun th => { th with rsp := rsp })) 0
      (s.extras (s.cpus c).cpuId).sleepQueue =
      some (modThread s current (fun th => { th with rsp := rsp })) := by
    rw [h]
    exact wakeLoop_nobody c 0 0 _
  have hage : forall s', s'.extras (s'.cpus c).cpuId =
      s.extras (s.cpus c).cpuId -> schedAgeThreads s' c 0 = some s' := by
    intro s' hs'
    unfold schedAgeThreads
    rw [hs', h]
    rfl
  rw [serveTick_of_wake hwake, modThread_ticked]
  exact hage _ rfl

theorem schedReschedule_quiet {p : Nat} (h : Quiet s c)
    (hcurrent : (s.cpus c).schedThread = current) (hne : current ≠ 0)
    (hp : p <= maxPriority) (hhead : queueHead s (c, Queue.ready p) ≠ 0)
    (habove : forall q, p < q -> q < maxPriority + 1 ->
      queueHead s (c, Queue.ready q) = 0)
    (hdue : (s.threads current).priority < p ∨
      (s.threads current).state ≠ ThreadState.running) (rsp : Nat) :
    schedReschedule s c rsp 0 0 =
      switchTo (modThread s current (ticked rsp)) c current p := by
  have htop : topQueue (modThread s current (ticked rsp)) c
      (maxPriority + 1) = some p :=
    topQueue_eq (Nat.lt_succ_of_le hp) hhead habove
  have hrecord := modThread_self s current (ticked rsp)
  unfold schedReschedule
  rw [hcurrent]
  simp only [if_neg hne]
  rw [serveTick_quiet h]
  simp only [Option.bind_eq_bind, Option.bind_some, htop, hrecord]
  rw [if_pos]
  rcases hdue with hlt | hstate
  · exact Or.inl hlt
  · exact Or.inr (Or.inr hstate)

end Quiet

/-!
# One life

CPU 0, its idle thread and one more thread.
-/

/-- The counters, and the parts of a state that the next switch of CPU 0
depends on. -/
structure Looks (s : SchedState) (running : Nat) (queues : Nat -> Nat)
    (count nextTid nextCpu : Nat) : Prop where
  count : s.cpuCount = count
  running : (s.cpus 0).schedThread = running
  queues : (s.cpus 0).readyQueues = queues
  quiet : s.extras (s.cpus 0).cpuId = { sleepQueue := 0, lastAgeTick := 0 }
  next_tid : s.nextTid = nextTid
  next_cpu : s.nextCpuIndex = nextCpu

section Life

variable {s : SchedState} {idle t count n k : Nat}

theorem Looks.modThread {running : Nat} {queues : Nat -> Nat}
    (h : Looks s running queues count n k) (u : Nat) (f : Thread -> Thread) :
    Looks (modThread s u f) running queues count n k :=
  ⟨h.count, h.running, h.queues, h.quiet, h.next_tid, h.next_cpu⟩

theorem schedSpawn_looks (h : Looks s idle (fun _ => 0) count n 0)
    (hne : idle ≠ t) :
    Looks (schedSpawn s t 0 0 31 none).state idle
      (update (fun _ => 0) 31 t) count (Word.add n 1)
      (1 % count) ∧
    (schedSpawn s t 0 0 31 none).state.threads idle = s.threads idle ∧
    ((schedSpawn s t 0 0 31 none).state.threads t).tid = n ∧
    ((schedSpawn s t 0 0 31 none).state.threads t).priority = 31 ∧
    ((schedSpawn s t 0 0 31 none).state.threads t).next = 0 := by
  refine ⟨⟨?_, ?_, ?_, ?_, ?_, ?_⟩, ?_, ?_, ?_, ?_⟩ <;>
    simp [schedSpawn, spawnThread, clampPriority, maxPriority, newThread,
      push, Sched.modThread, setQueueHead, queueHead, modCpu, h.next_cpu,
      h.count, h.queues, h.running, h.next_tid, h.quiet, hne]

theorem switchTo_looks_first
    (h : Looks s idle (update (fun _ => 0) 31 t) count n k)
    (hne : idle ≠ t)
    (hidle : (s.threads idle).state = ThreadState.running ∧
      (s.threads idle).priority = 0)
    (ht : (s.threads t).next = 0) :
    exists r, switchTo s 0 idle 31 = some r ∧
      Looks r.state t (update (fun _ => 0) 0 idle) count n k ∧
      r.state.threads idle = preempted (s.threads idle) ∧
      r.state.threads t = started (s.threads t) := by
  have hrun : switchTo s 0 idle 31 = some (resume
      (setQueueHead
        (modThread (setQueueHead s (0, Queue.ready 31) 0) idle preempted)
        (0, Queue.ready 0) idle) 0 t []) := by
    simp [switchTo, retire, append, queueHead, setQueueHead, modThread,
      modCpu, h.queues, ht, hidle]
  refine ⟨_, hrun, ⟨?_, ?_, ?_, ?_, ?_, ?_⟩, ?_, ?_⟩ <;>
    simp [resume, runThread, setQueueHead, modThread, modCpu, h.queues,
      h.count, h.next_cpu, h.next_tid, h.quiet, hne, Ne.symm hne]

theorem switchTo_looks_back
    (h : Looks s t (update (fun _ => 0) 0 idle) count n k)
    (ht : (s.threads t).state = ThreadState.dead ∧
      (s.threads t).priority = 31)
    (hidle : (s.threads idle).next = 0) :
    exists r, switchTo s 0 t 0 = some r ∧
      Looks r.state idle (fun _ => 0) count n k ∧
      r.state.threads idle = started (s.threads idle) := by
  have hrun : exists freed, switchTo s 0 t 0 = some
      (resume (setQueueHead s (0, Queue.ready 0) 0) 0 idle freed) := by
    simp [switchTo, retire, queueHead, setQueueHead, modCpu, h.queues, ht,
      hidle]
  rcases hrun with ⟨freed, hrun⟩
  refine ⟨_, hrun, ⟨?_, ?_, ?_, ?_, ?_, ?_⟩, ?_⟩ <;>
    simp [resume, runThread, setQueueHead, modThread, modCpu, h.queues,
      h.count, h.next_cpu, h.next_tid, h.quiet]

end Life

/-- One CPU runs its idle thread, all queues are empty, no other thread is
alive, and `n` is the next thread id. -/
structure Resting (idle n : Nat) (r : SchedRun) : Prop where
  looks : Looks r.sched idle (fun _ => 0) 1 n 0
  tid : (r.sched.threads idle).tid = 1
  record : (r.sched.threads idle).state = ThreadState.running ∧
    (r.sched.threads idle).priority = 0
  alive : r.alive idle ≠ none
  alone : forall t, t ≠ idle -> r.alive t = none

section Cycle

variable {r : SchedRun} {idle t n : Nat} {ids : Nat -> Nat}

theorem Resting.fresh (h : Resting idle n r) (hne : t ≠ idle)
    (ht : t ≠ 0 ∧ t < 2 ^ 64) : FreshThread r t :=
  ⟨ht.left, ht.right, h.alone t hne⟩

theorem Resting.spawn (h : Resting idle n r) (hne : t ≠ idle)
    (ht : t ≠ 0 ∧ t < 2 ^ 64) (ids : Nat -> Nat) :
    (schedSystem 1 ids).Step r (SchedEvent.spawn t)
      (r.born (schedSpawn r.sched t 0 0 31 none).state t
        (schedSpawn r.sched t 0 0 31 none).ret true) := by
  apply SchedStep.spawn (h.fresh hne ht)
  intro bytes hbytes
  cases hbytes

theorem aliveAfter_stays (c : Nat) (s' : SchedState)
    (h : (r.sched.threads (r.sched.cpus c).schedThread).state ≠
      ThreadState.dead) : r.aliveAfter c s' = r.alive := by
  unfold SchedRun.aliveAfter
  rw [if_neg (fun hgone => h hgone.right)]

theorem aliveAfter_gone (c : Nat) (s' : SchedState)
    (hne : (s'.cpus c).schedThread ≠ (r.sched.cpus c).schedThread)
    (h : (r.sched.threads (r.sched.cpus c).schedThread).state =
      ThreadState.dead) :
    r.aliveAfter c s' =
      update r.alive (r.sched.cpus c).schedThread none := by
  unfold SchedRun.aliveAfter
  rw [if_pos ⟨hne, h⟩]

structure Started (r : SchedRun) (idle t count n : Nat) (r' : SchedRun) :
    Prop where
  looks : Looks r'.sched t (update (fun _ => 0) 0 idle) count
    (Word.add n 1) (1 % count)
  idle : r'.sched.threads idle = preempted (ticked 0 (r.sched.threads idle))
  thread : (r'.sched.threads t).state = ThreadState.running ∧
    (r'.sched.threads t).priority = 31
  alive : forall u, u ≠ t -> r'.alive u = r.alive u
  handoff : r'.handoff = r.handoff

theorem spawn_started {count : Nat}
    (h : Looks r.sched idle (fun _ => 0) count n 0)
    (hrecord : (r.sched.threads idle).state = ThreadState.running ∧
      (r.sched.threads idle).priority = 0)
    (hidle : idle ≠ 0) (hne : t ≠ idle) (hfresh : FreshThread r t)
    (hcount : 0 < count) :
    exists r1 r', SchedStep r (SchedEvent.spawn t) r1 ∧
      r1.handoff = r.handoff ∧ SchedStep r1 (SchedEvent.reschedule 0) r' ∧
      Started r idle t count n r' := by
  have hspawn : SchedStep r (SchedEvent.spawn t)
      (r.born (schedSpawn r.sched t 0 0 31 none).state t
        (schedSpawn r.sched t 0 0 31 none).ret true) := by
    apply SchedStep.spawn hfresh
    intro bytes hbytes
    cases hbytes
  rcases schedSpawn_looks h hne.symm with
    ⟨hlooks1, hrecord1, _, hpriority1, hnext1⟩
  generalize (schedSpawn r.sched t 0 0 31 none).state = s1
    at hspawn hlooks1 hrecord1 hpriority1 hnext1
  generalize (schedSpawn r.sched t 0 0 31 none).ret = tid at hspawn
  -- the new thread has the higher priority
  have hrun := schedReschedule_quiet (p := 31) hlooks1.quiet hlooks1.running
    hidle (Nat.le_refl _)
    (by simp [queueHead, hlooks1.queues, hfresh.ne_zero])
    (fun q hlt hq => absurd hq (Nat.not_lt_of_le hlt))
    (by rw [hrecord1, hrecord.right]; left; decide) 0
  rcases switchTo_looks_first (hlooks1.modThread idle (ticked 0)) hne.symm
    (by rw [modThread_self, hrecord1]; exact hrecord)
    (by rw [modThread_other _ _ _ hne]; exact hnext1) with
    ⟨result, hswitch, hlooks, hidle2, hrecord2⟩
  rw [modThread_self, hrecord1] at hidle2
  rw [modThread_other _ _ _ hne] at hrecord2
  rw [hswitch] at hrun
  have halive := aliveAfter_stays 0 result.state
    (r := r.born s1 t tid true)
    (by
      show (s1.threads (s1.cpus 0).schedThread).state ≠ ThreadState.dead
      rw [hlooks1.running, hrecord1, hrecord.left]
      decide)
  refine ⟨_, _, hspawn, rfl,
    SchedStep.reschedule (by rw [← hlooks1.count] at hcount; exact hcount)
      hrun, hlooks, hidle2, ?_, ?_, rfl⟩
  · show (result.state.threads t).state = _ ∧
      (result.state.threads t).priority = _
    rw [hrecord2]
    exact ⟨rfl, hpriority1⟩
  · intro u hu
    show SchedRun.aliveAfter _ 0 result.state u = r.alive u
    rw [halive, born_alive_other _ _ _ hu]

structure Busy (idle t n : Nat) (r : SchedRun) : Prop where
  looks : Looks r.sched t (update (fun _ => 0) 0 idle) 1 n 0
  tid : (r.sched.threads idle).tid = 1
  record : (r.sched.threads idle).priority = 0 ∧
    (r.sched.threads idle).next = 0
  priority : (r.sched.threads t).priority = 31
  alive : r.alive idle ≠ none
  alone : forall u, u ≠ t -> u ≠ idle -> r.alive u = none

theorem resting_busy (h : Resting idle n r) (hidle : idle ≠ 0)
    (hne : t ≠ idle) (ht : t ≠ 0 ∧ t < 2 ^ 64) (ids : Nat -> Nat) :
    exists trace r', (schedSystem 1 ids).Runs r trace r' ∧
      Busy idle t (Word.add n 1) r' := by
  rcases spawn_started h.looks h.record hidle hne (h.fresh hne ht)
    Nat.one_pos with ⟨r1, r', hspawn, _, hrun, hstarted⟩
  refine ⟨_, r', Runs.snoc (runs_single hspawn) hrun, hstarted.looks, ?_, ?_,
    hstarted.thread.right, ?_, ?_⟩
  · rw [hstarted.idle]
    exact h.tid
  · rw [hstarted.idle]
    exact ⟨h.record.right, rfl⟩
  · rw [hstarted.alive idle hne.symm]
    exact h.alive
  · intro u hut hui
    rw [hstarted.alive u hut]
    exact h.alone u hui

theorem busy_resting (h : Busy idle t n r) (hidle : idle ≠ 0)
    (hne : t ≠ idle) (ht : t ≠ 0) (ids : Nat -> Nat) :
    exists trace r', (schedSystem 1 ids).Runs r trace r' ∧
      Resting idle n r' := by
  have hcount : 0 < r.sched.cpuCount := by
    rw [h.looks.count]
    decide
  have hexit : (schedSystem 1 ids).Step r (SchedEvent.exit 0)
      { r with sched := schedExit r.sched 0 } := SchedStep.exit hcount
  have hbody : schedExit r.sched 0 = modThread r.sched t (fun th =>
      { th with state := ThreadState.dead }) := by
    unfold schedExit
    rw [h.looks.running, if_pos ht]
  have hlooks1 := h.looks.modThread t (fun th =>
    { th with state := ThreadState.dead })
  have hdead1 := modThread_self r.sched t (fun th =>
    { th with state := ThreadState.dead })
  have hidle1 := modThread_other r.sched t (fun th =>
    { th with state := ThreadState.dead }) hne.symm
  rw [hbody] at hexit
  generalize modThread r.sched t (fun th =>
    { th with state := ThreadState.dead }) = s1
    at hexit hlooks1 hdead1 hidle1
  have hrun := schedReschedule_quiet (p := 0) hlooks1.quiet hlooks1.running ht
    (Nat.zero_le _) (by simp [queueHead, hlooks1.queues, hidle])
    (fun q hlt _ => by
      simp [queueHead, hlooks1.queues, Nat.ne_of_gt hlt])
    (by rw [hdead1]; right; simp) 0
  rcases switchTo_looks_back (hlooks1.modThread t (ticked 0))
    (by rw [modThread_self, hdead1]; exact ⟨rfl, h.priority⟩)
    (by rw [modThread_other _ _ _ hne.symm, hidle1]; exact h.record.right)
    with ⟨result, hswitch, hlooks, hidle2⟩
  rw [modThread_other _ _ _ hne.symm, hidle1] at hidle2
  rw [hswitch] at hrun
  have halive := aliveAfter_gone 0 result.state
    (r := { r with sched := s1 })
    (by
      show (result.state.cpus 0).schedThread ≠ (s1.cpus 0).schedThread
      rw [hlooks.running, hlooks1.running]
      exact hne.symm)
    (by
      show (s1.threads (s1.cpus 0).schedThread).state = ThreadState.dead
      rw [hlooks1.running, hdead1])
  rw [show (SchedRun.sched { r with sched := s1 }) = s1 from rfl,
    hlooks1.running] at halive
  refine ⟨_, _, Runs.snoc (runs_single hexit)
    (SchedStep.reschedule (r := { r with sched := s1 })
      (by rw [hlooks1.count]; decide) hrun), hlooks, ?_, ?_, ?_, ?_⟩
  · show (result.state.threads idle).tid = 1
    rw [hidle2]
    exact h.tid
  · show (result.state.threads idle).state = ThreadState.running ∧
      (result.state.threads idle).priority = 0
    rw [hidle2]
    exact ⟨rfl, h.record.left⟩
  · show SchedRun.aliveAfter _ 0 result.state idle ≠ none
    rw [halive, update_of_ne hne.symm]
    exact h.alive
  · intro u hui
    show SchedRun.aliveAfter _ 0 result.state u = none
    rw [halive]
    by_cases hsame : u = t
    · rw [hsame, update_self]
    · rw [update_of_ne hsame]
      exact h.alone u hsame hui

/-- Any number of threads may have come and gone. -/
theorem resting_count (h : Resting idle n r) (hidle : idle ≠ 0)
    (hne : t ≠ idle) (ht : t ≠ 0 ∧ t < 2 ^ 64) (hn : n < 2 ^ 64)
    (hreach : (schedSystem 1 ids).Reachable r) (k : Nat) :
    exists r', (schedSystem 1 ids).Reachable r' ∧
      Resting idle (Word.add n k) r' := by
  induction k with
  | zero =>
      rw [Word.add_zero hn]
      exact ⟨r, hreach, h⟩
  | succ k ih =>
      rcases ih with ⟨r1, hreach1, hrest1⟩
      rcases resting_busy hrest1 hidle hne ht ids with ⟨_, r2, hrun, hbusy⟩
      rcases busy_resting hbusy hidle hne ht.left ids with
        ⟨_, r3, hrun', hrest3⟩
      rcases hreach1 with ⟨r0, trace, hinit, hstart⟩
      rw [Word.add_add] at hrest3
      exact ⟨r3, ⟨r0, _, hinit, runs_append hstart (runs_append hrun hrun')⟩,
        hrest3⟩

end Cycle

end Sched
end Barium
