import Barium.Sched.Loops

/-!
# Rescheduling

`sched_reschedule` always returns.  It keeps every thread in one place, but for
a thread that has called `sched_exit`: switching away from it takes it away.
-/

namespace Barium
namespace Sched

open Foundation
open Function
open LinkedList

section Reschedule

variable {s : SchedState} {holds : Nat -> Option Nat} {spawned : Nat -> Prop}
  {place : Nat -> Option Place} {lists : Loc -> List Nat}

/-!
# Before the switch
-/

structure Served (s : SchedState) (place : Nat -> Option Place)
    (current rsp : Nat) (s' : SchedState) (place' : Nat -> Option Place) :
    Prop where
  frame : Frame (modThread s current (fun th => { th with rsp := rsp })) s'
  state : (s'.threads current).state = (s.threads current).state
  same : forall t, (forall l, place t ≠ some (Place.queue l)) ->
    place' t = place t
  queued : forall t l, place t = some (Place.queue l) ->
    exists q, place' t = some (Place.queue (l.1, q))

theorem Served.home {current rsp : Nat} {s' : SchedState}
    {place' : Nat -> Option Place}
    (h : Served s place current rsp s' place') (t : Nat) (pl pl' : Place)
    (hpl : place t = some pl) (hpl' : place' t = some pl') :
    pl'.cpu = pl.cpu := by
  by_cases hqueued : exists l, place t = some (Place.queue l)
  · rcases hqueued with ⟨l, hl⟩
    rcases h.queued t l hl with ⟨q, hq⟩
    rw [hl] at hpl
    rw [hq] at hpl'
    cases hpl
    cases hpl'
    rfl
  · rw [h.same t (fun l hl => hqueued ⟨l, hl⟩), hpl] at hpl'
    cases hpl'
    rfl

theorem Served.running {current rsp t c : Nat} {s' : SchedState}
    {place' : Nat -> Option Place}
    (h : Served s place current rsp s' place')
    (hrunning : place t = some (Place.running c)) :
    place' t = some (Place.running c) := by
  rw [h.same t (by rw [hrunning]; simp)]
  exact hrunning

def ticked (rsp : Nat) (th : Thread) : Thread :=
  { th with rsp := rsp, ticksRemaining := th.ticksRemaining - 1 }

theorem serveTick_spec {c current : Nat} (rsp tick ageTick : Nat)
    (h : Placed s holds spawned place lists)
    (hcurrent : place current = some (Place.running c)) :
    exists s' place' lists',
      serveTick s c current rsp tick ageTick = some s' ∧
      Placed s' holds spawned place' lists' ∧
      Served s place current rsp s' place' ∧
      s'.threads current = ticked rsp (s.threads current) := by
  have hc : c < s.cpuCount := h.cpu_lt current _ hcurrent
  have hout : forall l, place current ≠ some (Place.queue l) := by
    intro l hl
    rw [hcurrent] at hl
    cases hl
  have hsaved := h.touch (t := current)
    (f := fun th => { th with rsp := rsp }) rfl rfl rfl rfl
  have hhead := chain_first (hsaved.chain (c, Queue.sleep) ⟨hc, trivial⟩)
  rcases wakeLoop_spec tick hsaved hc
    (show lists (c, Queue.sleep) = [] ++ lists (c, Queue.sleep) from rfl)
    (hsaved.length_lt _) with ⟨s1, place1, lists1, hwake, hplaced1, hmoves1⟩
  rw [← hhead] at hwake
  rcases hmoves1.same current hout with ⟨hrecord1, hplace1⟩
  have hcounted := hplaced1.touch (t := current)
    (f := fun th => { th with ticksRemaining := th.ticksRemaining - 1 })
    rfl rfl rfl rfl
  have hc1 : c < s1.cpuCount := hmoves1.frame.count ▸ hc
  rcases schedAgeThreads_spec ageTick hcounted hc1 with
    ⟨s2, place2, lists2, hage, hplaced2, hmoves2⟩
  have hout1 : forall l, place1 current ≠ some (Place.queue l) := by
    rw [hplace1]
    exact hout
  rcases hmoves2.same current hout1 with ⟨hrecord2, _⟩
  have hrecord : s2.threads current = ticked rsp (s.threads current) := by
    rw [hrecord2, modThread_self, hrecord1, modThread_self]
    rfl
  refine ⟨s2, place2, lists2, ?_, hplaced2, ?_, hrecord⟩
  · unfold serveTick
    exact Option.bind_eq_some_iff.mpr ⟨s1, hwake, hage⟩
  · constructor
    · exact (hmoves1.frame.trans (modThread_frame s1 current _ rfl)).trans
        hmoves2.frame
    · rw [hrecord]
      rfl
    · intro t ht
      have ht1 := (hmoves1.same t ht).right
      rw [← ht1]
      apply (hmoves2.same t _).right
      rw [ht1]
      exact ht
    · intro t l ht
      rcases hmoves1.queued t l ht with ⟨q, hq⟩
      exact hmoves2.queued t (l.1, q) hq

theorem topQueue_spec {c n p : Nat} (h : topQueue s c n = some p) :
    p < n ∧ queueHead s (c, Queue.ready p) ≠ 0 ∧
      forall q, p < q -> q < n -> queueHead s (c, Queue.ready q) = 0 := by
  induction n with
  | zero => cases h
  | succ n ih =>
      unfold topQueue at h
      by_cases hne : queueHead s (c, Queue.ready n) ≠ 0
      · rw [if_pos hne] at h
        cases h
        exact ⟨Nat.lt_succ_self _, hne, fun q hlt hq => by lia⟩
      · rw [if_neg hne] at h
        rcases ih h with ⟨hlt, hhead, habove⟩
        refine ⟨Nat.lt_succ_of_lt hlt, hhead, ?_⟩
        intro q hpq hq
        by_cases hqn : q = n
        · rw [hqn]
          exact not_not.mp hne
        · exact habove q hpq (by lia)

theorem topQueue_eq {c p n : Nat} (hp : p < n)
    (hhead : queueHead s (c, Queue.ready p) ≠ 0)
    (habove : forall q, p < q -> q < n ->
      queueHead s (c, Queue.ready q) = 0) :
    topQueue s c n = some p := by
  induction n with
  | zero => cases hp
  | succ n ih =>
      unfold topQueue
      by_cases hpn : p = n
      · rw [← hpn, if_pos hhead]
      · have hlt : p < n := by lia
        have hempty := habove n hlt (Nat.lt_succ_self n)
        rw [if_neg (fun hhead => hhead hempty)]
        apply ih hlt
        intro q hpq hq
        exact habove q hpq (Nat.lt_succ_of_lt hq)

theorem topQueue_none {c n : Nat} (h : topQueue s c n = none) :
    forall q, q < n -> queueHead s (c, Queue.ready q) = 0 := by
  induction n with
  | zero =>
      intro q hq
      cases hq
  | succ n ih =>
      unfold topQueue at h
      by_cases hne : queueHead s (c, Queue.ready n) ≠ 0
      · rw [if_pos hne] at h
        cases h
      · rw [if_neg hne] at h
        intro q hq
        by_cases hqn : q = n
        · rw [hqn]
          exact not_not.mp hne
        · exact ih h q (by lia)

/-!
# The thread that is switched away from
-/

/-- A thread that has just been taken off its CPU gets a place in one of the
CPU's queues, unless it is dead. -/
structure Retired (s : SchedState) (place : Nat -> Option Place)
    (c current : Nat) (s' : SchedState) (place' : Nat -> Option Place) :
    Prop where
  frame : Frame s s'
  others : forall u, u ≠ current ->
    (exists n, s'.threads u = { s.threads u with next := n }) ∧
      place' u = place u
  dead_iff : place' current = none <->
    (s.threads current).state = ThreadState.dead
  queue : forall pl, place' current = some pl ->
    exists q, pl = Place.queue (c, q)

/-- The record of a thread that is switched away from. -/
def retired (th : Thread) : Thread :=
  match th.state with
  | .running => preempted th
  | _ => th

theorem retired_of_ne {th : Thread} (h : th.state ≠ ThreadState.running) :
    retired th = th := by
  unfold retired
  split
  case h_1 hrunning => exact absurd hrunning h
  case h_2 => rfl

/-- The queues after a thread has been switched away from: a running thread is
the last one of its ready queue, a sleeping one the first one that sleeps. -/
def retiredLists (lists : Loc -> List Nat) (th : Thread) (c current : Nat) :
    Loc -> List Nat :=
  match th.state with
  | .running =>
      update lists (c, Queue.ready th.priority)
        (lists (c, Queue.ready th.priority) ++ [current])
  | .sleeping =>
      update lists (c, Queue.sleep)
        (current :: lists (c, Queue.sleep))
  | _ => lists

def threadBlocks (th : Thread) (t : Nat) : List Nat :=
  (if th.userStackLimit ≠ 0 then [th.userStackLimit] else []) ++
    [th.stackLimit, t]

/-- The blocks of a thread that are given back to the heap. -/
def freedBlocks (th : Thread) (current : Nat) : List Nat :=
  if th.state = ThreadState.dead ∧ th.priority ≠ 0 then
    threadBlocks th current
  else []

theorem retire_spec {c current : Nat}
    (h : Placed s holds spawned place lists) (hc : c < s.cpuCount)
    (hfree : place current = none)
    (haddress : current ≠ 0 ∧ current < 2 ^ 64)
    (hfits : Fits (s.threads current) (s.cpus c).cpuId (spawned current)
      (Place.running c)) :
    exists s' place',
      retire s c current =
        some (s', freedBlocks (s.threads current) current) ∧
      Placed s' holds spawned place'
        (retiredLists lists (s.threads current) c current) ∧
      Retired s place c current s' place' ∧
      exists n, s'.threads current =
        { retired (s.threads current) with next := n } := by
  rcases hfits with ⟨hstate, hpriority, haffinity⟩
  unfold retire
  cases hcase : (s.threads current).state with
  | ready => exact absurd hcase hstate
  | running =>
      simp only [hcase, retired, retiredLists, freedBlocks]
      have hchanged := h.modThread_free hfree preempted
      have hrecord := modThread_self s current preempted
      have hframe := modThread_frame s current preempted rfl
      have hother : forall u, u ≠ current ->
          (modThread s current preempted).threads u = s.threads u :=
        fun u hu => modThread_other s current preempted hu
      generalize modThread s current preempted = s1
        at hchanged hrecord hframe hother ⊢
      have hl : LocValid s1 (c, Queue.ready (s.threads current).priority) :=
        hframe.locValid ⟨hc, hpriority⟩
      have hfits : Fits (s1.threads current) (s1.cpus c).cpuId
          (spawned current) (Place.queue
            (c, Queue.ready (s.threads current).priority)) := by
        rw [hrecord, hframe.ids]
        exact ⟨rfl, rfl, hpriority, haffinity⟩
      have hnull : (s1.threads current).next = 0 := by
        rw [hrecord]
        rfl
      rcases hchanged.append hfree haddress hl hfits hnull with
        ⟨s2, happend, hlinks, hplaced⟩
      refine ⟨s2, _, ?_, hplaced, ?_, ?_⟩
      · exact Option.bind_eq_some_iff.mpr ⟨s2, happend, rfl⟩
      · constructor
        · exact hframe.trans hlinks.toFrame
        · intro u hu
          constructor
          · rcases hlinks.threads u with ⟨n, hn⟩
            exists n
            rw [hn, hother u hu]
          · exact update_of_ne hu _ _
        · rw [update_self, hcase]
          simp
        · intro pl hpl
          rw [update_self] at hpl
          cases hpl
          exact ⟨_, rfl⟩
      · rcases hlinks.threads current with ⟨n, hn⟩
        exists n
        rw [hn, hrecord]
  | sleeping =>
      have hl : LocValid s (c, Queue.sleep) := ⟨hc, trivial⟩
      have hplaced := h.push hfree haddress hl ⟨hcase, hpriority, haffinity⟩
      have hlinks := push_links s (c, Queue.sleep) current
      refine ⟨push s (c, Queue.sleep) current,
        update place current (some (Place.queue (c, Queue.sleep))),
        ?_, ?_, ?_, ?_⟩
      · simp [hcase, freedBlocks]
      · simp only [retiredLists, hcase]
        exact hplaced
      · constructor
        · exact hlinks.toFrame
        · intro u hu
          exact ⟨hlinks.threads u, update_of_ne hu _ _⟩
        · rw [update_self, hcase]
          simp
        · intro pl hpl
          rw [update_self] at hpl
          cases hpl
          exact ⟨_, rfl⟩
      · rw [retired_of_ne (by rw [hcase]; decide)]
        exact hlinks.threads current
  | dead =>
      have hretired : Retired s place c current s place := by
        constructor
        · exact Frame.refl s
        · intro u _
          exact ⟨⟨(s.threads u).next, rfl⟩, rfl⟩
        · exact ⟨fun _ => hcase, fun _ => hfree⟩
        · intro pl hpl
          rw [hfree] at hpl
          cases hpl
      refine ⟨s, place, ?_, ?_, hretired, (s.threads current).next, ?_⟩
      · simp only [hcase, freedBlocks, threadBlocks, true_and]
        by_cases hne : (s.threads current).priority ≠ 0
        · rw [if_pos hne, if_pos hne]
        · rw [if_neg hne, if_neg hne]
      · simp only [retiredLists, hcase]
        exact h
      · rw [retired_of_ne (by rw [hcase]; decide)]

/-!
# The switch
-/

structure Switched (s : SchedState) (place : Nat -> Option Place)
    (c current : Nat) (r : RescheduleResult) (place' : Nat -> Option Place) :
    Prop where
  count : r.state.cpuCount = s.cpuCount
  ids : forall d, (r.state.cpus d).cpuId = (s.cpus d).cpuId
  next_tid : r.state.nextTid = s.nextTid
  next_cpu : r.state.nextCpuIndex = s.nextCpuIndex
  identity : forall t, (r.state.threads t).identity = (s.threads t).identity
  running_other : forall d, d ≠ c ->
    (r.state.cpus d).schedThread = (s.cpus d).schedThread
  waited : exists q, place (r.state.cpus c).schedThread =
    some (Place.queue (c, q))
  now : place' (r.state.cpus c).schedThread = some (Place.running c)
  others : forall t, t ≠ current -> (place' t = none <-> place t = none)
  kept : forall t, t ≠ current -> t ≠ (r.state.cpus c).schedThread ->
    place' t = place t
  queue : forall pl, place' current = some pl ->
    exists q, pl = Place.queue (c, q)
  dead_iff : place' current = none <->
    (s.threads current).state = ThreadState.dead
  ret : r.ret = (r.state.threads (r.state.cpus c).schedThread).rsp
  stack_tops :
    (r.state.cpus c).kernelStack =
      (r.state.threads (r.state.cpus c).schedThread).stackTop ∧
    (r.state.cpus c).tssRsp0 =
      (r.state.threads (r.state.cpus c).schedThread).stackTop

theorem resume_fields (s : SchedState) (c next : Nat) (freed : List Nat) :
    (resume s c next freed).state.cpus c =
      runThread next (s.threads next).stackTop (s.cpus c) ∧
    (resume s c next freed).state.threads next = started (s.threads next) ∧
    (resume s c next freed).ret = (s.threads next).rsp ∧
    (forall t, t ≠ next ->
      (resume s c next freed).state.threads t = s.threads t) ∧
    (forall d, d ≠ c ->
      (resume s c next freed).state.cpus d = s.cpus d) := by
  have hrecord := modThread_self s next started
  refine ⟨?_, hrecord, ?_, ?_, ?_⟩
  · show update s.cpus c
      (runThread next ((modThread s next started).threads next).stackTop
        (s.cpus c)) c = _
    rw [update_self, hrecord]
    rfl
  · show ((modThread s next started).threads next).rsp = _
    rw [hrecord]
    rfl
  · intro t ht
    exact modThread_other s next started ht
  · intro d hd
    exact update_of_ne hd _ s.cpus

theorem resume_schedThread (s : SchedState) (c next : Nat)
    (freed : List Nat) :
    ((resume s c next freed).state.cpus c).schedThread = next := by
  rw [(resume_fields s c next freed).left]
  rfl

theorem Placed.resume {c next : Nat}
    (h : Placed s holds spawned place lists) (hc : c < s.cpuCount)
    (hfree : place next = none) (haddress : next ≠ 0 ∧ next < 2 ^ 64)
    (hpriority : (s.threads next).priority <= maxPriority)
    (haffinity : spawned next ->
      (s.threads next).coreAffinity = (s.cpus c).cpuId % 2 ^ 8)
    (hvacant : forall u, place u ≠ some (Place.running c))
    (freed : List Nat) :
    Placed (Sched.resume s c next freed).state holds spawned
      (update place next (some (Place.running c))) lists := by
  have hstarted := h.modThread_free hfree started
  have hfits : Fits ((Sched.modThread s next started).threads next)
      (s.cpus c).cpuId (spawned next) (Place.running c) := by
    rw [modThread_self]
    refine ⟨?_, hpriority, haffinity⟩
    intro hready
    cases hready
  exact hstarted.run hfree haddress hc hfits hvacant rfl rfl rfl

/-- The queues and the records after the switch to the first thread of ready
queue `p`. -/
structure Requeued (s : SchedState) (lists : Loc -> List Nat)
    (c current p : Nat) (r : RescheduleResult) (lists' : Loc -> List Nat) :
    Prop where
  queue : exists after, lists (c, Queue.ready p) =
      (r.state.cpus c).schedThread :: after ∧
    lists' = retiredLists (update lists (c, Queue.ready p) after)
      (s.threads current) c current
  left : exists n, r.state.threads current =
    { retired (s.threads current) with next := n }
  entered : exists n, r.state.threads (r.state.cpus c).schedThread =
    { started (s.threads (r.state.cpus c).schedThread) with next := n }
  others : forall t, t ≠ current -> t ≠ (r.state.cpus c).schedThread ->
    exists n, r.state.threads t = { s.threads t with next := n }
  freed : r.freed = freedBlocks (s.threads current) current

theorem Requeued.ne {c current p : Nat} {r : RescheduleResult}
    {lists' : Loc -> List Nat} (h : Requeued s lists c current p r lists')
    (hplaced : Placed s holds spawned place lists)
    (hcurrent : place current = some (Place.running c)) :
    (r.state.cpus c).schedThread ≠ current := by
  rcases h.queue with ⟨after, hlist, _⟩
  have hmem : (r.state.cpus c).schedThread ∈ lists (c, Queue.ready p) := by
    rw [hlist]
    exact List.mem_cons_self
  exact hplaced.ne_running hcurrent hmem

section Switching

variable {s2 : SchedState} {place2 : Nat -> Option Place}
  {c current next p : Nat}

/-- The first thread of the queue is taken out of it, and the running thread
leaves its place. -/
theorem retire_first {after : List Nat}
    (h : Placed s holds spawned place lists)
    (hcurrent : place current = some (Place.running c))
    (hp : p <= maxPriority) (hlist : lists (c, Queue.ready p) = next :: after)
    (hne : current ≠ next) :
    exists s2 place2,
      retire (setQueueHead s (c, Queue.ready p) (s.threads next).next) c
        current = some (s2, freedBlocks (s.threads current) current) ∧
      Placed s2 holds spawned place2
        (retiredLists (update lists (c, Queue.ready p) after)
          (s.threads current) c current) ∧
      Retired s (update place next none) c current s2 place2 ∧
      exists n, s2.threads current =
        { retired (s.threads current) with next := n } := by
  have hc : c < s.cpuCount := h.cpu_lt current _ hcurrent
  have htaken : Placed (setQueueHead s (c, Queue.ready p)
      (s.threads next).next) holds spawned (update place next none)
      (update lists (c, Queue.ready p) after) :=
    h.unlink (show LocValid s (c, Queue.ready p) from ⟨hc, hp⟩)
      (show lists (c, Queue.ready p) = [] ++ next :: after from hlist)
  have hlinks := setQueueHead_links s (c, Queue.ready p) (s.threads next).next
  have hrecords := setQueueHead_threads s (s.threads next).next
    (c, Queue.ready p)
  generalize setQueueHead s (c, Queue.ready p) (s.threads next).next = s1
    at htaken hlinks hrecords ⊢
  have hstill : update place next none current =
      some (Place.running c) := by
    rw [update_of_ne hne]
    exact hcurrent
  have hleft := htaken.forget (t := current) (by
    intro l hl
    rw [hstill] at hl
    cases hl)
  rcases retire_spec hleft (hlinks.count ▸ hc) (update_self _ _ _)
    (h.address current _ hcurrent) (htaken.fits current _ hstill) with
    ⟨s2, place2, hretire, hplaced2, hretired, hleave⟩
  rw [hrecords] at hretire hplaced2 hleave
  refine ⟨s2, place2, hretire, hplaced2, ⟨?_, ?_, ?_, hretired.queue⟩, hleave⟩
  · exact hlinks.toFrame.trans hretired.frame
  · intro u hu
    rw [← hrecords, (hretired.others u hu).right, update_of_ne hu]
    exact ⟨(hretired.others u hu).left, rfl⟩
  · rw [hretired.dead_iff, hrecords]

theorem Retired.vacant
    (h : Retired s (update place next none) c current s2 place2)
    (hplaced : Placed s holds spawned place lists)
    (hcurrent : place current = some (Place.running c)) (u : Nat) :
    place2 u ≠ some (Place.running c) := by
  intro hu
  by_cases hcase : u = current
  · rw [hcase] at hu
    rcases h.queue _ hu with ⟨q, hq⟩
    cases hq
  · rw [(h.others u hcase).right] at hu
    by_cases hsame : u = next
    · rw [hsame, update_self] at hu
      cases hu
    · rw [update_of_ne hsame] at hu
      exact hcase ((hplaced.running u c hu).symm.trans
        (hplaced.running current c hcurrent))

theorem Retired.switched {l : Loc}
    (h : Retired s (update place next none) c current s2 place2)
    (hwaited : place next = some (Place.queue l)) (hl : l.1 = c)
    (hne : current ≠ next) (freed : List Nat) :
    Switched s place c current (resume s2 c next freed)
      (update place2 next (some (Place.running c))) := by
  rcases resume_fields s2 c next freed with
    ⟨hcpu, hrecord, hret, hothers, hcpus⟩
  have hthread := resume_schedThread s2 c next freed
  have hplace2 : forall t, t ≠ current -> t ≠ next ->
      place2 t = place t := by
    intro t ht htn
    rw [(h.others t ht).right, update_of_ne htn]
  constructor
  · exact h.frame.count
  · intro d
    rw [← h.frame.ids d]
    by_cases hhere : d = c
    · rw [hhere, hcpu]
      rfl
    · rw [hcpus d hhere]
  · exact h.frame.next_tid
  · exact h.frame.next_cpu
  · intro t
    rw [← h.frame.identity t]
    by_cases hcase : t = next
    · rw [hcase, hrecord]
      rfl
    · rw [hothers t hcase]
  · intro d hd
    rw [hcpus d hd, h.frame.running]
  · rw [hthread, ← hl]
    exact ⟨_, hwaited⟩
  · rw [hthread, update_self]
  · intro t ht
    by_cases hsame : t = next
    · rw [hsame, update_self, hwaited]
      simp
    · rw [update_of_ne hsame, hplace2 t ht hsame]
  · intro t ht htn
    rw [hthread] at htn
    rw [update_of_ne htn, hplace2 t ht htn]
  · rw [update_of_ne hne]
    exact h.queue
  · rw [update_of_ne hne]
    exact h.dead_iff
  · rw [hthread, hret, hrecord]
    rfl
  · rw [hthread, hrecord, hcpu]
    exact ⟨rfl, rfl⟩

theorem Retired.requeued {after : List Nat}
    (h : Retired s (update place next none) c current s2 place2)
    (hlist : lists (c, Queue.ready p) = next :: after) (hne : current ≠ next)
    (hleave : exists n, s2.threads current =
      { retired (s.threads current) with next := n }) :
    Requeued s lists c current p
      (resume s2 c next (freedBlocks (s.threads current) current))
      (retiredLists (update lists (c, Queue.ready p) after)
        (s.threads current) c current) := by
  rcases resume_fields s2 c next (freedBlocks (s.threads current) current) with
    ⟨_, hrecord, _, hothers, _⟩
  have hthread := resume_schedThread s2 c next
    (freedBlocks (s.threads current) current)
  constructor
  · rw [hthread]
    exact ⟨after, hlist, rfl⟩
  · rw [hothers current hne]
    exact hleave
  · rcases (h.others next hne.symm).left with ⟨n, hn⟩
    exists n
    rw [hthread, hrecord, hn]
    rfl
  · intro t ht htn
    rw [hthread] at htn
    rw [hothers t htn]
    exact (h.others t ht).left
  · rfl

theorem switchTo_spec (h : Placed s holds spawned place lists)
    (hcurrent : place current = some (Place.running c))
    (hp : p <= maxPriority) (hhead : queueHead s (c, Queue.ready p) ≠ 0) :
    exists r place' lists', switchTo s c current p = some r ∧
      Placed r.state holds spawned place' lists' ∧
      Switched s place c current r place' ∧
      Requeued s lists c current p r lists' := by
  have hc : c < s.cpuCount := h.cpu_lt current _ hcurrent
  have hchain := h.chain (c, Queue.ready p) ⟨hc, hp⟩
  rcases hlist : lists (c, Queue.ready p) with _ | ⟨next, after⟩
  · rw [hlist] at hchain
    exact absurd hchain hhead
  rw [hlist] at hchain
  have hnext : queueHead s (c, Queue.ready p) = next := hchain.left
  have hwaited : place next = some (Place.queue (c, Queue.ready p)) := by
    rw [← h.mem_iff, hlist]
    exact List.mem_cons_self
  have hne : current ≠ next := by
    intro heq
    rw [heq, hwaited] at hcurrent
    cases hcurrent
  rcases h.fits next _ hwaited with ⟨_, hpriority, hle, haffinity⟩
  rcases retire_first h hcurrent hp hlist hne with
    ⟨s2, place2, hretire, hplaced2, hretired, hleave⟩
  rcases hretired.others next hne.symm with ⟨⟨n, hn⟩, hfree⟩
  rw [update_self] at hfree
  have hresumed := hplaced2.resume (hretired.frame.count ▸ hc) hfree
    (h.address next _ hwaited)
    (by rw [hn]; exact hpriority ▸ hle)
    (by rw [hn, hretired.frame.ids]; exact haffinity)
    (hretired.vacant h hcurrent) (freedBlocks (s.threads current) current)
  refine ⟨_, _, _, ?_, hresumed, hretired.switched hwaited rfl hne _,
    hretired.requeued hlist hne hleave⟩
  unfold switchTo
  simp only [hnext]
  exact Option.bind_eq_some_iff.mpr ⟨_, hretire, rfl⟩

end Switching

/-!
# The whole function
-/

structure Rescheduled (s : SchedState) (place : Nat -> Option Place)
    (c rsp : Nat) (r : RescheduleResult) (place' : Nat -> Option Place) :
    Prop where
  count : r.state.cpuCount = s.cpuCount
  ids : forall d, (r.state.cpus d).cpuId = (s.cpus d).cpuId
  next_tid : r.state.nextTid = s.nextTid
  next_cpu : r.state.nextCpuIndex = s.nextCpuIndex
  identity : forall t, (r.state.threads t).identity =
    ((modThread s (s.cpus c).schedThread
      (fun th => { th with rsp := rsp })).threads t).identity
  running_other : forall d, d ≠ c ->
    (r.state.cpus d).schedThread = (s.cpus d).schedThread
  now : place' (r.state.cpus c).schedThread = some (Place.running c)
  others : forall t, t ≠ (s.cpus c).schedThread ->
    (place' t = none <-> place t = none)
  kept : forall t, t ≠ (s.cpus c).schedThread ->
    (forall l, place t ≠ some (Place.queue l)) -> place' t = place t
  home : forall t pl pl', place t = some pl -> place' t = some pl' ->
    pl'.cpu = pl.cpu
  gone_iff : place' (s.cpus c).schedThread = none <->
    (r.state.cpus c).schedThread ≠ (s.cpus c).schedThread ∧
      (s.threads (s.cpus c).schedThread).state = ThreadState.dead
  ret : r.ret = (r.state.threads (r.state.cpus c).schedThread).rsp
  stack_tops :
    ((r.state.cpus c).schedThread = (s.cpus c).schedThread ∧
      (r.state.cpus c).kernelStack = (s.cpus c).kernelStack ∧
      (r.state.cpus c).tssRsp0 = (s.cpus c).tssRsp0) ∨
    ((r.state.cpus c).kernelStack =
        (r.state.threads (r.state.cpus c).schedThread).stackTop ∧
      (r.state.cpus c).tssRsp0 =
        (r.state.threads (r.state.cpus c).schedThread).stackTop)

theorem rescheduled_stay {c rsp : Nat} {s' : SchedState}
    {place' : Nat -> Option Place}
    (hcurrent : place (s.cpus c).schedThread = some (Place.running c))
    (hserved : Served s place (s.cpus c).schedThread rsp s' place')
    (freed : List Nat) :
    Rescheduled s place c rsp
      { ret := (s'.threads (s.cpus c).schedThread).rsp
        state := s'
        freed := freed } place' := by
  have hframe := hserved.frame
  have hrunning : forall d, (s'.cpus d).schedThread =
      (s.cpus d).schedThread := hframe.running
  have hplace' : place' (s.cpus c).schedThread = some (Place.running c) :=
    hserved.running hcurrent
  constructor
  · exact hframe.count
  · exact hframe.ids
  · exact hframe.next_tid
  · exact hframe.next_cpu
  · exact hframe.identity
  · intro d _
    exact hrunning d
  · show place' (s'.cpus c).schedThread = _
    rw [hrunning c, hplace']
  · intro t _
    by_cases hqueued : exists l, place t = some (Place.queue l)
    · rcases hqueued with ⟨l, hl⟩
      rcases hserved.queued t l hl with ⟨m, hm⟩
      rw [hl, hm]
      simp
    · rw [hserved.same t (fun l hl => hqueued ⟨l, hl⟩)]
  · intro t _ hout
    exact hserved.same t hout
  · exact hserved.home
  · show place' (s.cpus c).schedThread = none <->
      (s'.cpus c).schedThread ≠ _ ∧ _
    rw [hrunning c, hplace']
    simp
  · show (s'.threads (s.cpus c).schedThread).rsp =
      (s'.threads (s'.cpus c).schedThread).rsp
    rw [hrunning c]
  · left
    exact ⟨hrunning c, hframe.stack_tops c⟩

theorem rescheduled_switch {c rsp : Nat} {s1 : SchedState}
    {r : RescheduleResult} {place1 place' : Nat -> Option Place}
    (hcurrent : place (s.cpus c).schedThread = some (Place.running c))
    (hserved : Served s place (s.cpus c).schedThread rsp s1 place1)
    (hswitched : Switched s1 place1 c (s.cpus c).schedThread r place') :
    Rescheduled s place c rsp r place' := by
  have hframe := hserved.frame
  have hplace1 : place1 (s.cpus c).schedThread = some (Place.running c) :=
    hserved.running hcurrent
  have hchanged : (r.state.cpus c).schedThread ≠ (s.cpus c).schedThread := by
    intro heq
    rcases hswitched.waited with ⟨l, hl⟩
    rw [heq, hplace1] at hl
    cases hl
  constructor
  · exact hswitched.count.trans hframe.count
  · intro d
    exact (hswitched.ids d).trans (hframe.ids d)
  · exact hswitched.next_tid.trans hframe.next_tid
  · exact hswitched.next_cpu.trans hframe.next_cpu
  · intro t
    exact (hswitched.identity t).trans (hframe.identity t)
  · intro d hd
    exact (hswitched.running_other d hd).trans (hframe.running d)
  · exact hswitched.now
  · intro t ht
    rw [hswitched.others t ht]
    by_cases hqueued : exists l, place t = some (Place.queue l)
    · rcases hqueued with ⟨l, hl⟩
      rcases hserved.queued t l hl with ⟨m, hm⟩
      rw [hl, hm]
      simp
    · rw [hserved.same t (fun l hl => hqueued ⟨l, hl⟩)]
  · intro t ht hout
    have hsame := hserved.same t hout
    have hnext : t ≠ (r.state.cpus c).schedThread := by
      intro heq
      rcases hswitched.waited with ⟨q, hq⟩
      rw [← heq, hsame] at hq
      exact hout _ hq
    rw [hswitched.kept t ht hnext, hsame]
  · intro t pl pl' hpl hpl'
    by_cases hhere : t = (s.cpus c).schedThread
    · rw [hhere] at hpl hpl'
      rw [hcurrent] at hpl
      cases hpl
      rcases hswitched.queue pl' hpl' with ⟨q, hq⟩
      rw [hq]
      rfl
    · by_cases hcase : t = (r.state.cpus c).schedThread
      · have hnow := hswitched.now
        rcases hswitched.waited with ⟨q, hq⟩
        rw [← hcase] at hnow hq
        rw [hnow] at hpl'
        cases hpl'
        exact hserved.home t pl (Place.queue (c, q)) hpl hq
      · rw [hswitched.kept t hhere hcase] at hpl'
        exact hserved.home t pl pl' hpl hpl'
  · rw [hswitched.dead_iff, hserved.state]
    exact ⟨fun hdead => ⟨hchanged, hdead⟩, fun hdead => hdead.right⟩
  · exact hswitched.ret
  · right
    exact hswitched.stack_tops

theorem Rescheduled.tid {c rsp : Nat} {r : RescheduleResult}
    {place' : Nat -> Option Place} (h : Rescheduled s place c rsp r place')
    (t : Nat) : (r.state.threads t).tid = (s.threads t).tid := by
  have hid := congrArg Thread.tid (h.identity t)
  by_cases hsame : t = (s.cpus c).schedThread
  · rw [hsame, modThread_self] at hid
    rw [hsame]
    exact hid
  · rw [modThread_other _ _ _ hsame] at hid
    exact hid

def SwitchDue (th : Thread) (p : Nat) : Prop :=
  th.priority < p ∨ (p = th.priority ∧ th.ticksRemaining = 0) ∨
    th.state ≠ ThreadState.running

inductive Outcome (s : SchedState) (lists : Loc -> List Nat)
    (c current : Nat) : RescheduleResult -> (Loc -> List Nat) -> Prop where
  | stay :
      (forall p, topQueue s c (maxPriority + 1) = some p ->
        ¬ SwitchDue (s.threads current) p) ->
      Outcome s lists c current
        { ret := (s.threads current).rsp, state := s, freed := [] } lists
  | switch {p : Nat} {r : RescheduleResult} {lists' : Loc -> List Nat} :
      topQueue s c (maxPriority + 1) = some p ->
      SwitchDue (s.threads current) p ->
      Requeued s lists c current p r lists' ->
      Outcome s lists c current r lists'

theorem schedReschedule_outcome {c : Nat} (rsp tick ageTick : Nat)
    (h : Placed s holds spawned place lists)
    (hcurrent : place (s.cpus c).schedThread = some (Place.running c)) :
    exists s1 place1 lists1 r place' lists',
      serveTick s c (s.cpus c).schedThread rsp tick ageTick = some s1 ∧
      Placed s1 holds spawned place1 lists1 ∧
      Served s place (s.cpus c).schedThread rsp s1 place1 ∧
      s1.threads (s.cpus c).schedThread =
        ticked rsp (s.threads (s.cpus c).schedThread) ∧
      schedReschedule s c rsp tick ageTick = some r ∧
      Placed r.state holds spawned place' lists' ∧
      Rescheduled s place c rsp r place' ∧
      Outcome s1 lists1 c (s.cpus c).schedThread r lists' := by
  have haddress := h.address _ _ hcurrent
  rcases serveTick_spec rsp tick ageTick h hcurrent with
    ⟨s1, place1, lists1, hserve, hplaced1, hserved, hrecord⟩
  have hplace1 : place1 (s.cpus c).schedThread = some (Place.running c) :=
    hserved.running hcurrent
  have hstay := rescheduled_stay hcurrent hserved []
  unfold schedReschedule
  simp only [if_neg haddress.left]
  cases htop : topQueue s1 c (maxPriority + 1) with
  | none =>
      refine ⟨s1, place1, lists1, _, place1, lists1, hserve, hplaced1, hserved,
        hrecord, ?_, hplaced1, hstay, Outcome.stay ?_⟩
      · apply Option.bind_eq_some_iff.mpr
        exists s1
        constructor
        · exact hserve
        · simp only [htop]
      · intro p hp
        rw [htop] at hp
        cases hp
  | some p =>
      rcases topQueue_spec htop with ⟨hp, hhead, _⟩
      by_cases hyes : SwitchDue (s1.threads (s.cpus c).schedThread) p
      · rcases switchTo_spec hplaced1 hplace1 (Nat.le_of_lt_succ hp) hhead
          with ⟨r, place', lists', hswitch, hplaced', hswitched, hqueues⟩
        refine ⟨s1, place1, lists1, r, place', lists', hserve, hplaced1,
          hserved, hrecord, ?_, hplaced',
          rescheduled_switch hcurrent hserved hswitched,
          Outcome.switch htop hyes hqueues⟩
        apply Option.bind_eq_some_iff.mpr
        exists s1
        constructor
        · exact hserve
        · unfold SwitchDue at hyes
          simp only [htop, if_pos hyes]
          exact hswitch
      · refine ⟨s1, place1, lists1, _, place1, lists1, hserve, hplaced1,
          hserved, hrecord, ?_, hplaced1, hstay, Outcome.stay ?_⟩
        · apply Option.bind_eq_some_iff.mpr
          exists s1
          constructor
          · exact hserve
          · unfold SwitchDue at hyes
            simp only [htop, if_neg hyes]
        · intro q hq
          rw [htop] at hq
          cases hq
          exact hyes

theorem schedReschedule_spec {c : Nat} (rsp tick ageTick : Nat)
    (h : Placed s holds spawned place lists)
    (hcurrent : place (s.cpus c).schedThread = some (Place.running c)) :
    exists r place' lists', schedReschedule s c rsp tick ageTick = some r ∧
      Placed r.state holds spawned place' lists' ∧
      Rescheduled s place c rsp r place' := by
  rcases schedReschedule_outcome rsp tick ageTick h hcurrent with
    ⟨_, _, _, r, place', lists', _, _, _, _, hrun, hplaced, hdone, _⟩
  exact ⟨r, place', lists', hrun, hplaced, hdone⟩

end Reschedule

end Sched
end Barium
