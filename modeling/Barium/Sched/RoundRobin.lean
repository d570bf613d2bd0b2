import Mathlib.Data.List.Rotate
import Barium.Sched.Handoff

/-!
# Round robin

Threads of one priority take turns.  Each of them runs for its whole quantum,
and the one that has run goes behind the others.
-/

namespace Barium
namespace Sched

open Foundation
open LinkedList
open TransitionSystem

structure TimerCall where
  rsp : Nat
  tick : Nat
  ageTick : Nat

/-- The call wakes no thread of CPU `c` and promotes none. -/
structure QuietCall (s : SchedState) (c : Nat) (call : TimerCall) : Prop where
  asleep : forall xs t, Chain 0 s.next (queueHead s (c, Queue.sleep)) xs ->
    t ∈ xs -> call.tick < (s.threads t).wakeupTick
  young : AgeDue s c call.ageTick -> forall q xs t, q < maxPriority ->
    Chain 0 s.next (queueHead s (c, Queue.ready q)) xs -> t ∈ xs ->
    ¬ GrownOld (s.threads t)

def quietSystem (c : Nat) : TransitionSystem SchedState TimerCall where
  Init := fun _ => True
  Step := fun s call s' => QuietCall s c call ∧
    exists r, schedReschedule s c call.rsp call.tick call.ageTick = some r ∧
      s' = r.state

def quantum (p : Nat) : Nat := 2 * (32 - p)

/-- The running thread of CPU `c` and the threads of ready queue `p`, of which
there is one at least, have priority `p` and a full quantum; the higher queues
are empty. -/
structure RoundStart (s : SchedState) (lists : Loc -> List Nat) (c p : Nat) :
    Prop where
  running : (s.threads (s.cpus c).schedThread).state = ThreadState.running
  priority : (s.threads (s.cpus c).schedThread).priority = p
  left : (s.threads (s.cpus c).schedThread).ticksRemaining = quantum p
  waiting : lists (c, Queue.ready p) ≠ []
  full : forall t, t ∈ lists (c, Queue.ready p) ->
    (s.threads t).ticksRemaining = quantum p
  above : forall q, p < q -> q <= maxPriority ->
    lists (c, Queue.ready q) = []

/-- The situation after `k` calls; `order` is the running thread and the queue
at the start. -/
structure Turn (s : SchedState) (lists : Loc -> List Nat) (c p : Nat)
    (order : List Nat) (k : Nat) : Prop where
  running : (s.threads (s.cpus c).schedThread).state = ThreadState.running
  priority : (s.threads (s.cpus c).schedThread).priority = p
  left : (s.threads (s.cpus c).schedThread).ticksRemaining =
    quantum p - k % quantum p
  turn : (s.cpus c).schedThread :: lists (c, Queue.ready p) =
    order.rotate (k / quantum p)
  full : forall t, t ∈ lists (c, Queue.ready p) ->
    (s.threads t).ticksRemaining = quantum p
  above : forall q, p < q -> q <= maxPriority ->
    lists (c, Queue.ready q) = []

theorem RoundStart.turn {s : SchedState} {lists : Loc -> List Nat} {c p : Nat}
    (h : RoundStart s lists c p) :
    Turn s lists c p
      ((s.cpus c).schedThread :: lists (c, Queue.ready p)) 0 := by
  refine ⟨h.running, h.priority, ?_, ?_, h.full, h.above⟩
  · rw [Nat.zero_mod]
    exact h.left
  · rw [Nat.zero_div, List.rotate_zero]

/-!
# A quiet call
-/

theorem passLists_young {threads : Nat -> Thread} {lists : Queue -> List Nat}
    {p n q : Nat}
    (h : forall q t, q < p + n -> t ∈ lists (Queue.ready q) ->
      ¬ GrownOld (threads t)) :
    passLists threads lists p n (Queue.ready q) = lists (Queue.ready q) := by
  have hup : forall q, q < p + n -> (lists (Queue.ready q)).filter
      (fun t => GrownOld (threads t)) = [] := by
    intro q hq
    rw [List.filter_eq_nil_iff]
    intro t ht
    rw [decide_eq_true_iff]
    exact h q t hq ht
  have hstay : forall q, q < p + n -> (lists (Queue.ready q)).filter
      (fun t => ¬ GrownOld (threads t)) = lists (Queue.ready q) := by
    intro q hq
    rw [List.filter_eq_self]
    intro t ht
    rw [decide_eq_true_iff]
    exact h q t hq ht
  simp only [passLists]
  split
  case isTrue hfill =>
      rw [hup (q - 1) (by lia), List.reverse_nil, List.nil_append]
      split
      case isTrue hvisit => exact hstay q hvisit.right
      case isFalse => rfl
  case isFalse =>
      rw [List.nil_append]
      split
      case isTrue hvisit => exact hstay q hvisit.right
      case isFalse => rfl

section Quiet

variable {s : SchedState} {holds : Nat -> Option Nat} {spawned : Nat -> Prop}
  {place : Nat -> Option Place} {lists : Loc -> List Nat} {c : Nat}
  {call : TimerCall}

theorem afterWaking_quiet (h : Placed s holds spawned place lists)
    (hc : c < s.cpuCount) (hquiet : QuietCall s c call) (q : Nat) :
    afterWaking s c call.tick lists (Queue.ready q) =
      lists (c, Queue.ready q) := by
  have hnobody : (lists (c, Queue.sleep)).filter (fun t =>
      (s.threads t).wakeupTick <= call.tick ∧
        (s.threads t).priority = q) = [] := by
    rw [List.filter_eq_nil_iff]
    intro t ht
    rw [decide_eq_true_iff]
    rintro ⟨hdue, _⟩
    have hlater := hquiet.asleep _ t (h.chain (c, Queue.sleep) ⟨hc, trivial⟩) ht
    exact absurd hdue (Nat.not_le_of_lt hlater)
  unfold afterWaking
  simp only [wokenLists]
  rw [hnobody, List.reverse_nil, List.nil_append]

theorem afterTick_quiet (h : Placed s holds spawned place lists)
    (hc : c < s.cpuCount) (hquiet : QuietCall s c call) (q : Nat) :
    afterTick s c call.tick call.ageTick lists (Queue.ready q) =
      lists (c, Queue.ready q) := by
  unfold afterTick
  by_cases hdue : AgeDue s c call.ageTick
  · rw [if_pos hdue, passLists_young, afterWaking_quiet h hc hquiet]
    intro q t hq ht
    rw [afterWaking_quiet h hc hquiet] at ht
    rw [Nat.zero_add] at hq
    exact hquiet.young hdue q _ t hq
      (h.chain _ (locValid_ready hc (Nat.le_of_lt hq))) ht
  · rw [if_neg hdue, afterWaking_quiet h hc hquiet]

theorem quantum_pos {p : Nat} (hp : p <= maxPriority) : 0 < quantum p := by
  unfold maxPriority at hp
  unfold quantum
  lia

/-- One more call is the last one of a quantum or it is not. -/
theorem next_call {q : Nat} (hq : 0 < q) (k : Nat) :
    (k % q + 1 = q ∧ (k + 1) % q = 0 ∧ (k + 1) / q = k / q + 1) ∨
      (k % q + 1 < q ∧ (k + 1) % q = k % q + 1 ∧ (k + 1) / q = k / q) := by
  have hlt := Nat.mod_lt k hq
  have hk := Nat.mod_add_div k q
  rcases Nat.eq_or_lt_of_le (Nat.succ_le_of_lt hlt) with hlast | hmore
  · have hnext : k + 1 = q * (k / q + 1) := by
      rw [Nat.mul_add, Nat.mul_one]
      lia
    left
    refine ⟨hlast, ?_, ?_⟩
    · rw [hnext, Nat.mul_mod_right]
    · rw [hnext, Nat.mul_div_cancel_left _ hq]
  · have hnext : k + 1 = (k % q + 1) + q * (k / q) := by lia
    right
    refine ⟨hmore, ?_, ?_⟩
    · calc (k + 1) % q = ((k % q + 1) + q * (k / q)) % q := by rw [← hnext]
        _ = (k % q + 1) % q := Nat.add_mul_mod_self_left _ _ _
        _ = k % q + 1 := Nat.mod_eq_of_lt hmore
    · calc (k + 1) / q = ((k % q + 1) + q * (k / q)) / q := by rw [← hnext]
        _ = (k % q + 1) / q + k / q := Nat.add_mul_div_left _ _ hq
        _ = k / q := by rw [Nat.div_eq_of_lt hmore, Nat.zero_add]

/-- A turn when the call has counted the running thread's tick and has yet to
choose. -/
structure MidTurn (s : SchedState) (lists : Loc -> List Nat)
    (c p current : Nat) (order : List Nat) (k : Nat) : Prop where
  running : (s.threads current).state = ThreadState.running
  priority : (s.threads current).priority = p
  left : (s.threads current).ticksRemaining = quantum p - k % quantum p - 1
  turn : current :: lists (c, Queue.ready p) = order.rotate (k / quantum p)
  full : forall t, t ∈ lists (c, Queue.ready p) ->
    (s.threads t).ticksRemaining = quantum p
  above : forall q, p < q -> q <= maxPriority ->
    lists (c, Queue.ready q) = []

theorem Turn.served {p k : Nat} {order : List Nat} {s1 : SchedState}
    {lists1 : Loc -> List Nat} (hturn : Turn s lists c p order k)
    (h : Placed s holds spawned place lists)
    (hcurrent : place (s.cpus c).schedThread = some (Place.running c))
    (hp : p <= maxPriority) (hquiet : QuietCall s c call)
    (hserves : Serves s lists c (s.cpus c).schedThread call.tick call.ageTick
      s1 lists1)
    (hrecord : s1.threads (s.cpus c).schedThread =
      ticked call.rsp (s.threads (s.cpus c).schedThread)) :
    MidTurn s1 lists1 c p (s.cpus c).schedThread order k := by
  have hc : c < s.cpuCount := h.cpu_lt _ _ hcurrent
  have hlists : forall q, q <= maxPriority ->
      lists1 (c, Queue.ready q) = lists (c, Queue.ready q) := by
    intro q hq
    rw [hserves.queues (Queue.ready q) hq, afterTick_quiet h hc hquiet]
  constructor
  · rw [hrecord]
    exact hturn.running
  · rw [hrecord]
    exact hturn.priority
  · rw [hrecord, ← hturn.left]
    rfl
  · rw [hlists p hp]
    exact hturn.turn
  · intro t ht
    rw [hlists p hp] at ht
    rw [hserves.field Thread.ticksRemaining (fun _ => rfl) (fun _ => rfl)
      (fun _ _ => rfl) (fun _ _ => rfl) (h.ne_running hcurrent ht)]
    exact hturn.full t ht
  · intro q hlt hle
    rw [hlists q hle]
    exact hturn.above q hlt hle

theorem MidTurn.highest {p k current : Nat} {order : List Nat}
    (h : MidTurn s lists c p current order k) (hp : p <= maxPriority)
    (hlong : 2 <= order.length) : Highest lists c p := by
  refine ⟨hp, ?_, h.above⟩
  intro hempty
  have hlength := congrArg List.length h.turn
  rw [hempty, List.length_rotate, List.length_singleton] at hlength
  lia

theorem MidTurn.switchDue_iff {p k current : Nat} {order : List Nat}
    (h : MidTurn s lists c p current order k) (hp : p <= maxPriority) :
    SwitchDue (s.threads current) p <-> (k + 1) % quantum p = 0 := by
  have hnext := next_call (quantum_pos hp) k
  unfold SwitchDue
  simp only [h.running, h.priority, h.left, ne_eq, not_true_eq_false, or_false,
    Nat.lt_irrefl, false_or, true_and]
  lia

theorem MidTurn.stay {p k : Nat} {order : List Nat}
    (h : MidTurn s lists c p (s.cpus c).schedThread order k)
    (hp : p <= maxPriority) (hgoes : (k + 1) % quantum p ≠ 0) :
    Turn s lists c p order (k + 1) := by
  have hnext := next_call (quantum_pos hp) k
  have hround : (k + 1) / quantum p = k / quantum p := by lia
  refine ⟨h.running, h.priority, ?_, ?_, h.full, h.above⟩
  · rw [h.left]
    lia
  · rw [h.turn, hround]

/-- The quantum is used up: the first of the queue runs, and the thread goes
behind the others with a new quantum. -/
theorem MidTurn.switch {p k current : Nat} {order : List Nat}
    {r : RescheduleResult} {lists' : Loc -> List Nat}
    (h : MidTurn s lists c p current order k)
    (hplaced : Placed s holds spawned place lists)
    (hcurrent : place current = some (Place.running c))
    (hp : p <= maxPriority) (hends : (k + 1) % quantum p = 0)
    (hqueues : Requeued s lists c current p r lists') :
    Turn r.state lists' c p order (k + 1) := by
  have hnext := next_call (quantum_pos hp) k
  have hround : (k + 1) / quantum p = k / quantum p + 1 := by lia
  have hfirst := hplaced.nodup (c, Queue.ready p)
  rcases hqueues.queue with ⟨after, hafter, hlists'⟩
  rcases hqueues.entered with ⟨n, hentered⟩
  have hwaited : (r.state.cpus c).schedThread ∈ lists (c, Queue.ready p) := by
    rw [hafter]
    exact List.mem_cons_self
  rw [hafter] at hfirst
  have hqueue : lists' (c, Queue.ready p) = after ++ [current] := by
    rw [hlists', retiredLists_ready, if_pos ⟨h.running, h.priority.symm⟩,
      Function.update_self]
  constructor
  · rw [hentered]
    rfl
  · rw [hentered]
    exact (hplaced.fits _ _ ((hplaced.mem_iff _ _).mp hwaited)).right.left
  · rw [hentered, hends]
    exact h.full _ hwaited
  · rw [hqueue, hround, ← List.rotate_rotate, ← h.turn, hafter]
    rfl
  · intro t ht
    rw [hqueue, List.mem_append, List.mem_singleton] at ht
    rcases ht with ht | heq
    · have hmem : t ∈ lists (c, Queue.ready p) := by
        rw [hafter]
        exact List.mem_cons_of_mem _ ht
      have hother : t ≠ (r.state.cpus c).schedThread := by
        intro heq
        rw [heq] at ht
        exact (List.nodup_cons.mp hfirst).left ht
      rcases hqueues.others t (hplaced.ne_running hcurrent hmem) hother with
        ⟨m, hm⟩
      rw [hm]
      exact h.full t hmem
    · rcases hqueues.left with ⟨m, hm⟩
      rw [heq, hm]
      unfold retired
      rw [h.running]
      show timeSlice (s.threads current).priority = _
      rw [h.priority, timeSlice_eq hp]
      rfl
  · intro q hlt hle
    have hqp : q ≠ p := Nat.ne_of_gt hlt
    rw [hlists', retiredLists_ready, if_neg (fun hboth =>
      hqp (hboth.right.trans h.priority)), Function.update_of_ne
      (by simpa using hqp)]
    exact h.above q hlt hle

theorem turn_step {p k : Nat} {order : List Nat}
    (h : Placed s holds spawned place lists)
    (hcurrent : place (s.cpus c).schedThread = some (Place.running c))
    (hturn : Turn s lists c p order k) (hlong : 2 <= order.length)
    (hquiet : QuietCall s c call) :
    exists r place' lists',
      schedReschedule s c call.rsp call.tick call.ageTick = some r ∧
      Placed r.state holds spawned place' lists' ∧
      place' (r.state.cpus c).schedThread = some (Place.running c) ∧
      Turn r.state lists' c p order (k + 1) ∧
      ((r.state.cpus c).schedThread ≠ (s.cpus c).schedThread <->
        quantum p ∣ k + 1) := by
  have hc : c < s.cpuCount := h.cpu_lt _ _ hcurrent
  have hp : p <= maxPriority := by
    rw [← hturn.priority]
    exact (h.fits _ _ hcurrent).right.left
  rcases schedReschedule_exact call.rsp call.tick call.ageTick h hcurrent with
    ⟨s1, place1, lists1, r, place', lists', _, hplaced1, hserved, hserves,
      hrecord, hrun, hplaced', hdone, houtcome⟩
  have hc1 : c < s1.cpuCount := by
    rw [hserved.frame.count]
    exact hc
  have hcurrent1 : place1 (s.cpus c).schedThread = some (Place.running c) :=
    hserved.running hcurrent
  have hmid := hturn.served h hcurrent hp hquiet hserves hrecord
  have htop := (hplaced1.topQueue_iff hc1 p).mpr (hmid.highest hp hlong)
  refine ⟨r, place', lists', hrun, hplaced', hdone.now, ?_⟩
  rw [Nat.dvd_iff_mod_eq_zero]
  cases houtcome with
  | stay hno =>
      have hsame : (s1.cpus c).schedThread = (s.cpus c).schedThread :=
        hserved.frame.running c
      have hgoes : (k + 1) % quantum p ≠ 0 :=
        fun hzero => hno p htop ((hmid.switchDue_iff hp).mpr hzero)
      rw [← hsame] at hmid
      exact ⟨hmid.stay hp hgoes, iff_of_false (fun hne => hne hsame) hgoes⟩
  | switch htop' hdue hqueues =>
      rw [htop] at htop'
      cases htop'
      have hends := (hmid.switchDue_iff hp).mp hdue
      exact ⟨hmid.switch hplaced1 hcurrent1 hp hends hqueues,
        iff_of_true (hqueues.ne hplaced1 hcurrent1) hends⟩

/-!
# The schedule
-/

theorem quiet_runs {p : Nat} {calls : List TimerCall} {s' : SchedState}
    (h : Placed s holds spawned place lists)
    (hcurrent : place (s.cpus c).schedThread = some (Place.running c))
    (hstart : RoundStart s lists c p)
    (hruns : Runs (quietSystem c) s calls s') :
    exists place' lists', Placed s' holds spawned place' lists' ∧
      place' (s'.cpus c).schedThread = some (Place.running c) ∧
      Turn s' lists' c p
        ((s.cpus c).schedThread :: lists (c, Queue.ready p))
        calls.length := by
  have hlong : 2 <=
      ((s.cpus c).schedThread :: lists (c, Queue.ready p)).length := by
    have hwaiting := List.length_pos_of_ne_nil hstart.waiting
    rw [List.length_cons]
    lia
  apply runs_history_invariant (P := fun calls s' => exists place' lists',
    Placed s' holds spawned place' lists' ∧
      place' (s'.cpus c).schedThread = some (Place.running c) ∧
      Turn s' lists' c p
        ((s.cpus c).schedThread :: lists (c, Queue.ready p)) calls.length)
    _ _ hruns
  · exact ⟨place, lists, h, hcurrent, hstart.turn⟩
  · intro calls t call u hturn hstep
    rcases hturn with ⟨place1, lists1, hplaced, hrunning, hturn⟩
    rcases hstep with ⟨hquiet, r, hrun, hu⟩
    rcases turn_step hplaced hrunning hturn hlong hquiet with
      ⟨r', place', lists', hrun', hplaced', hrunning', hturn', _⟩
    rw [hrun] at hrun'
    cases hrun'
    rw [hu, List.length_append]
    exact ⟨place', lists', hplaced', hrunning', hturn'⟩

end Quiet

/-- Whatever the number of calls, the running thread and the queue are those of
the start, moved on by one place for every quantum. -/
theorem schedReschedule_roundRobin {s s' : SchedState}
    {holds : Nat -> Option Nat} {spawned : Nat -> Prop}
    {place : Nat -> Option Place} {lists : Loc -> List Nat} {c p : Nat}
    {calls : List TimerCall} (h : Placed s holds spawned place lists)
    (hcurrent : place (s.cpus c).schedThread = some (Place.running c))
    (hstart : RoundStart s lists c p)
    (hruns : Runs (quietSystem c) s calls s') :
    (exists queue,
      Chain 0 s'.next (queueHead s' (c, Queue.ready p)) queue ∧
      (s'.cpus c).schedThread :: queue =
        ((s.cpus c).schedThread :: lists (c, Queue.ready p)).rotate
          (calls.length / quantum p) ∧
      (calls.length =
          quantum p * ((lists (c, Queue.ready p)).length + 1) ->
        (s'.cpus c).schedThread = (s.cpus c).schedThread ∧
          queue = lists (c, Queue.ready p))) ∧
    forall call, QuietCall s' c call ->
      exists r, schedReschedule s' c call.rsp call.tick call.ageTick = some r ∧
        ((r.state.cpus c).schedThread ≠ (s'.cpus c).schedThread <->
          quantum p ∣ calls.length + 1) := by
  rcases quiet_runs h hcurrent hstart hruns with
    ⟨place', lists', hplaced, hrunning, hturn⟩
  have hc : c < s'.cpuCount := hplaced.cpu_lt _ _ hrunning
  have hp : p <= maxPriority := by
    rw [← hstart.priority]
    exact (h.fits _ _ hcurrent).right.left
  have hwaiting := List.length_pos_of_ne_nil hstart.waiting
  constructor
  · refine ⟨lists' (c, Queue.ready p),
      hplaced.chain _ (locValid_ready hc hp), hturn.turn, ?_⟩
    intro hrounds
    have hback := hturn.turn
    rw [hrounds, Nat.mul_div_cancel_left _ (quantum_pos hp),
      ← List.length_cons (a := (s.cpus c).schedThread),
      List.rotate_length] at hback
    exact List.cons.inj hback
  · intro call hquiet
    have hlong : 2 <=
        ((s.cpus c).schedThread :: lists (c, Queue.ready p)).length := by
      rw [List.length_cons]
      lia
    rcases turn_step hplaced hrunning hturn hlong hquiet with
      ⟨r, _, _, hrun, _, _, _, hchanges⟩
    exact ⟨r, hrun, hchanges⟩

theorem schedReschedule_roundRobin_two :
    exists r, schedReschedule (callerRuns 5).sched 0 0x9000 2 2 = some r ∧
      (r.state.cpus 0).schedThread = 0x7000 := by
  rcases sched_reachable_invariant oneCpu_ids (by decide)
    (callerRuns_reachable 5) with ⟨place, lists, hinv⟩
  have hc : 0 < (callerRuns 5).sched.cpuCount := by decide +kernel
  have hhead : queueHead (callerRuns 5).sched (0, Queue.ready 5) = 0x5000 := by
    decide +kernel
  have hend : ((callerRuns 5).sched.threads 0x5000).next = 0 := by
    decide +kernel
  have hqueue : lists (0, Queue.ready 5) = [0x5000] :=
    chain_unique (hinv.placed.chain _ (locValid_ready hc (by decide)))
      ⟨hhead, by decide, hend⟩
  have hhigher : forall q, q <= maxPriority -> 5 < q ->
      queueHead (callerRuns 5).sched (0, Queue.ready q) = 0 := by
    decide +kernel
  have hstart : RoundStart (callerRuns 5).sched lists 0 5 := by
    refine ⟨by decide +kernel, by decide +kernel, by decide +kernel, ?_, ?_, ?_⟩
    · rw [hqueue]
      simp
    · intro t ht
      rw [hqueue, List.mem_singleton] at ht
      rw [ht]
      decide +kernel
    · intro q hlt hle
      have hchain := hinv.placed.chain _ (locValid_ready hc hle)
      rw [hhigher q hle hlt] at hchain
      exact chain_null hchain
  have hasleep : queueHead (callerRuns 5).sched (0, Queue.sleep) = 0 := by
    decide +kernel
  have hyoung : ¬ AgeDue (callerRuns 5).sched 0 2 := by decide +kernel
  have hquiet : QuietCall (callerRuns 5).sched 0
      { rsp := 0x9000, tick := 2, ageTick := 2 } := by
    constructor
    · intro xs t hchain ht
      rw [hasleep] at hchain
      rw [chain_null hchain] at ht
      cases ht
    · intro hdue
      exact absurd hdue hyoung
  rcases (schedReschedule_roundRobin hinv.placed (hinv.running 0 hc) hstart
    (Runs.nil _)).right _ hquiet with ⟨r, hrun, _⟩
  rcases (schedReschedule_roundRobin hinv.placed (hinv.running 0 hc) hstart
    (runs_single ⟨hquiet, r, hrun, rfl⟩)).left with ⟨queue, _, hturn, _⟩
  have hfirst : ((callerRuns 5).sched.cpus 0).schedThread = 0x7000 := by
    decide +kernel
  refine ⟨r, hrun, ?_⟩
  rw [hfirst] at hturn
  exact (List.cons.inj hturn).left

end Sched
end Barium
