import Barium.Sched.Records
import Barium.Sched.Placement

/-!
# How long a sleep lasts

`interrupt_handler` advances the clock for every interrupt with vector 0x20.
That is the vector of the timer and of the `int $32` in `sched_yield`, which
`sched_sleep` uses too.
-/

namespace Barium
namespace Sched

open Foundation
open TransitionSystem

/-!
# One CPU with its clock
-/

/-- How far a call of `sched_sleep` is: its thread still has the CPU, or it is
in the sleep queue, or it has been taken out of it. -/
inductive SleepStage where
  | called
  | asleep
  | woken
  deriving DecidableEq, Repr

inductive TickSource where
  | timer
  | yield
  deriving DecidableEq, Repr

/-- A call of `sched_sleep`: the clock at the call, the ticks it asks for, the
interrupts since then, and whether its own `int $32` is done.  An `int $32`
counts until the thread is woken. -/
structure SleepCall where
  start : Nat
  asked : Nat
  hardware : Nat
  software : Nat
  stage : SleepStage
  yielded : Bool
  deriving DecidableEq, Repr

def SleepCall.count (call : SleepCall) : TickSource -> SleepCall
  | .timer => { call with hardware := call.hardware + 1 }
  | .yield =>
      if call.stage = SleepStage.woken then call
      else { call with software := call.software + 1 }

def SleepCall.stageAfter (call : SleepCall) (s : SchedState) (t : Nat) :
    SleepStage :=
  match call.stage with
  | .called =>
      if (s.cpus 0).schedThread = t then SleepStage.called
      else SleepStage.asleep
  | .asleep =>
      if (s.threads t).state = ThreadState.sleeping then SleepStage.asleep
      else SleepStage.woken
  | .woken => SleepStage.woken

def SleepCall.after (call : SleepCall) (source : TickSource) (s : SchedState)
    (t : Nat) (yields : Bool) : SleepCall :=
  { call.count source with
    stage := call.stageAfter s t
    yielded := call.yielded || yields }

/-- The scheduler of one CPU, `global_ticks`, and the calls of `sched_sleep`
that have not returned. -/
structure ClockRun where
  run : SchedRun
  ticks : Nat
  calls : Nat -> Option SleepCall

def ClockRun.current (h : ClockRun) : Nat :=
  (h.run.sched.cpus 0).schedThread

/-- The running thread is in its own code: neither in `sched_sleep` nor after
`sched_exit`. -/
def ClockRun.Free (h : ClockRun) : Prop :=
  h.calls h.current = none ∧
    (h.run.sched.threads h.current).state ≠ ThreadState.dead

/-- The running thread comes to an `int $32`, its own or the one in
`sched_sleep`. -/
def ClockRun.Yields (h : ClockRun) : Prop :=
  h.Free ∨ exists call, h.calls h.current = some call ∧ call.yielded = false

def ClockRun.callsAfter (h : ClockRun) (source : TickSource) (s : SchedState)
    (t : Nat) : Option SleepCall :=
  (h.calls t).map (fun call =>
    call.after source s t (source = TickSource.yield ∧ t = h.current))

def ClockRun.interrupted (h : ClockRun) (source : TickSource)
    (result : RescheduleResult) : ClockRun where
  run := { h.run with
    sched := result.state
    alive := h.run.aliveAfter 0 result.state }
  ticks := Word.add h.ticks 1
  calls := h.callsAfter source result.state

/-- The first half of `sched_sleep`, up to its `int $32`. -/
def ClockRun.sleeps (h : ClockRun) (ms : Nat) : ClockRun :=
  { h with
    run := { h.run with sched := schedSleep h.run.sched 0 ms h.ticks }
    calls := Function.update h.calls h.current
      (some
        { start := h.ticks
          asked := ms / 10
          hardware := 0
          software := 0
          stage := SleepStage.called
          yielded := false }) }

inductive ClockEvent where
  | interrupt (source : TickSource)
  | spawn (thread : Nat)
  | sleep (ms : Nat)
  | exit
  | returns (thread : Nat) (call : SleepCall)

inductive ClockStep : ClockRun -> ClockEvent -> ClockRun -> Prop where
  | interrupt {h : ClockRun} {source : TickSource} {rsp : Nat}
      {result : RescheduleResult} :
      (source = TickSource.yield -> h.Yields) ->
      schedReschedule h.run.sched 0 rsp (Word.add h.ticks 1)
        (Word.add h.ticks 1) = some result ->
      ClockStep h (ClockEvent.interrupt source) (h.interrupted source result)
  | spawn {h : ClockRun} {event : SchedEvent} {thread : Nat} {run : SchedRun} :
      h.Free -> SchedStep h.run event run -> event.Creates thread ->
      ClockStep h (ClockEvent.spawn thread)
        { h with
          run := run
          calls := Function.update h.calls thread none }
  | sleep {h : ClockRun} {ms : Nat} :
      h.Free -> ms < 2 ^ 64 ->
      ClockStep h (ClockEvent.sleep ms) (h.sleeps ms)
  | exit {h : ClockRun} :
      h.Free ->
      ClockStep h ClockEvent.exit
        { h with run := { h.run with sched := schedExit h.run.sched 0 } }
  -- `sched_sleep` returns
  | returns {h : ClockRun} {call : SleepCall} :
      h.calls h.current = some call -> call.yielded = true ->
      ClockStep h (ClockEvent.returns h.current call)
        { h with calls := Function.update h.calls h.current none }

def clockSystem (ids : Nat -> Nat) : TransitionSystem ClockRun ClockEvent where
  Init := fun h => (schedSystem 1 ids).Init h.run ∧ h.ticks < 2 ^ 64 ∧
    h.calls = fun _ => none
  Step := ClockStep

/-!
# Sleeping threads in `sched_reschedule`
-/

section Sleepers

variable {s : SchedState} {holds : Nat -> Option Nat} {spawned : Nat -> Prop}
  {place : Nat -> Option Place} {lists : Loc -> List Nat}
  {c rsp tick ageTick : Nat} {r : RescheduleResult}

def SleepsOn (tick : Nat) (th th' : Thread) : Prop :=
  th'.wakeupTick = th.wakeupTick ∧
    (th'.state = th.state ∨
      (th'.state = ThreadState.ready ∧ th.wakeupTick <= tick))

theorem sleepsOn_rule (tick : Nat) : RecordRule tick (SleepsOn tick) := by
  constructor
  · intro th
    exact ⟨rfl, Or.inl rfl⟩
  · intro th th' th'' h h'
    refine ⟨h'.left.trans h.left, ?_⟩
    rcases h'.right with hsame' | ⟨hready, hdue⟩
    · rcases h.right with hsame | ⟨hready, hdue⟩
      · exact Or.inl (hsame'.trans hsame)
      · exact Or.inr ⟨hsame'.trans hready, hdue⟩
    · rw [h.left] at hdue
      exact Or.inr ⟨hready, hdue⟩
  · intro th n
    exact ⟨rfl, Or.inl rfl⟩
  · intro th hdue
    exact ⟨rfl, Or.inr ⟨rfl, hdue⟩⟩
  · intro th n _
    exact ⟨rfl, Or.inl rfl⟩
  · intro th _
    exact ⟨rfl, Or.inl rfl⟩

/-- Only a thread whose time has come leaves the sleep queue. -/
theorem schedReschedule_sleeper (h : Placed s holds spawned place lists)
    (hcurrent : place (s.cpus c).schedThread = some (Place.running c))
    (hrun : schedReschedule s c rsp tick ageTick = some r) {u : Nat}
    (hu : u ≠ (s.cpus c).schedThread)
    (hsleep : (s.threads u).state = ThreadState.sleeping) :
    (r.state.threads u).wakeupTick = (s.threads u).wakeupTick ∧
    (((r.state.threads u).state = ThreadState.sleeping ∧
        u ≠ (r.state.cpus c).schedThread) ∨
      ((r.state.threads u).state ≠ ThreadState.sleeping ∧
        (s.threads u).wakeupTick <= tick)) := by
  have hawake : forall {th : Thread}, th.state = ThreadState.ready ->
      th.state ≠ ThreadState.sleeping := by
    intro th hready heq
    rw [hready] at heq
    cases heq
  rcases schedReschedule_outcome rsp tick ageTick h hcurrent with
    ⟨s1, _, lists1, r', _, lists', hserve, hplaced1, hserved, _, hrun', _, _,
      houtcome⟩
  rw [hrun] at hrun'
  cases hrun'
  rcases serveTick_records (sleepsOn_rule tick) hserve hu with ⟨hwakeup, hstate⟩
  cases houtcome with
  | stay _ =>
      refine ⟨hwakeup, ?_⟩
      rcases hstate with hsame | ⟨hready, hdue⟩
      · left
        refine ⟨hsame.trans hsleep, ?_⟩
        rw [hserved.frame.running]
        exact hu
      · exact Or.inr ⟨hawake hready, hdue⟩
  | @switch p _ _ _ _ hqueues =>
      by_cases hcase : u = (r.state.cpus c).schedThread
      · rcases hqueues.entered with ⟨n, hn⟩
        rw [← hcase] at hn
        rw [hn]
        refine ⟨hwakeup, ?_⟩
        rcases hstate with hsame | ⟨_, hdue⟩
        · -- the thread that takes over comes from a ready queue
          rcases hqueues.queue with ⟨after, hlist, _⟩
          have hmem : u ∈ lists1 (c, Queue.ready p) := by
            rw [hlist, ← hcase]
            exact List.mem_cons_self
          have hready := (hplaced1.fits _ _
            ((hplaced1.mem_iff _ _).mp hmem)).left
          exact absurd (hsame.trans hsleep) (hawake hready)
        · right
          refine ⟨?_, hdue⟩
          intro hstarted
          cases hstarted
      · rcases hqueues.others u hu hcase with ⟨n, hn⟩
        rw [hn]
        refine ⟨hwakeup, ?_⟩
        rcases hstate with hsame | ⟨hready, hdue⟩
        · exact Or.inl ⟨hsame.trans hsleep, hcase⟩
        · exact Or.inr ⟨hawake hready, hdue⟩

theorem schedReschedule_drowsy (h : Placed s holds spawned place lists)
    (hcurrent : place (s.cpus c).schedThread = some (Place.running c))
    (hrun : schedReschedule s c rsp tick ageTick = some r)
    (hsleep : (s.threads (s.cpus c).schedThread).state =
      ThreadState.sleeping) :
    (r.state.threads (s.cpus c).schedThread).wakeupTick =
      (s.threads (s.cpus c).schedThread).wakeupTick ∧
    (r.state.threads (s.cpus c).schedThread).state =
      ThreadState.sleeping := by
  rcases schedReschedule_current h hcurrent hrun with ⟨th, n, hth, hn⟩
  have hticked : (ticked rsp (s.threads (s.cpus c).schedThread)).state ≠
      ThreadState.running := by
    unfold ticked
    simp only [hsleep]
    exact fun heq => by cases heq
  rw [retired_of_ne hticked, or_self] at hth
  rw [hn, hth]
  exact ⟨rfl, hsleep⟩

end Sleepers

/-!
# The invariant
-/

/-- A call whose thread `t` has not been woken: the clock shows the interrupts
since the call. -/
structure Pending (h : ClockRun) (t : Nat) (call : SleepCall) : Prop where
  clock : h.ticks = Word.add call.start (call.hardware + call.software)
  state : (h.run.sched.threads t).state = ThreadState.sleeping
  wakeup : (h.run.sched.threads t).wakeupTick =
    Word.add call.start call.asked

def StageHolds (h : ClockRun) (t : Nat) (call : SleepCall) :
    SleepStage -> Prop
  | .called => Pending h t call ∧ t = h.current
  | .asleep =>
      Pending h t call ∧ t ≠ h.current ∧ 1 <= call.hardware + call.software
  | .woken =>
      2 <= call.hardware + call.software ∧
        (call.start + call.asked < 2 ^ 64 ->
          call.asked <= call.hardware + call.software)

structure ClockInvariant (h : ClockRun) : Prop where
  sched : exists place lists, SchedInvariant h.run place lists
  ticks : h.ticks < 2 ^ 64
  calls : forall t call, h.calls t = some call ->
    StageHolds h t call call.stage

section Steps

variable {h : ClockRun} {t : Nat} {call : SleepCall}

theorem count_asks (call : SleepCall) (source : TickSource) :
    (call.count source).start = call.start ∧
      (call.count source).asked = call.asked := by
  cases source with
  | timer => exact ⟨rfl, rfl⟩
  | yield =>
      show (if _ then call else _).start = _ ∧ (if _ then call else _).asked = _
      split
      case isTrue => exact ⟨rfl, rfl⟩
      case isFalse => exact ⟨rfl, rfl⟩

theorem count_sum (source : TickSource)
    (hstage : call.stage ≠ SleepStage.woken) :
    (call.count source).hardware + (call.count source).software =
      call.hardware + call.software + 1 := by
  cases source with
  | timer => exact Nat.add_right_comm call.hardware 1 call.software
  | yield =>
      unfold SleepCall.count
      simp only [if_neg hstage]
      rfl

theorem count_le (call : SleepCall) (source : TickSource) :
    call.hardware + call.software <=
      (call.count source).hardware + (call.count source).software := by
  by_cases hwoken : call.stage = SleepStage.woken
  · cases source with
    | timer => exact Nat.add_le_add_right (Nat.le_succ _) _
    | yield =>
        unfold SleepCall.count
        simp only [if_pos hwoken, Nat.le_refl]
  · rw [count_sum source hwoken]
    exact Nat.le_succ _

/-- The clock reaches the sum only after that many ticks. -/
theorem ticks_reached {start asked n : Nat}
    (hdue : Word.add start asked <= Word.add start n)
    (hfits : start + asked < 2 ^ 64) : asked <= n := by
  unfold Word.add at hdue
  rw [Nat.mod_eq_of_lt hfits] at hdue
  have hle := Nat.mod_le (start + n) (2 ^ 64)
  lia

section Interrupt

variable {source : TickSource} {rsp : Nat} {yields : Bool}
  {place : Nat -> Option Place} {lists : Loc -> List Nat}
  {result : RescheduleResult} {h' : ClockRun}

theorem pending_interrupt (hpending : Pending h t call)
    (hstage : call.stage ≠ SleepStage.woken)
    (hticks : h'.ticks = Word.add h.ticks 1)
    (hstate : (h'.run.sched.threads t).state = ThreadState.sleeping)
    (hwakeup : (h'.run.sched.threads t).wakeupTick =
      (h.run.sched.threads t).wakeupTick) :
    Pending h' t (call.after source result.state t yields) := by
  rcases count_asks call source with ⟨hstart, hasked⟩
  constructor
  · show h'.ticks = Word.add (call.count source).start
      ((call.count source).hardware + (call.count source).software)
    rw [hticks, hpending.clock, hstart, count_sum source hstage, Word.add_add]
  · exact hstate
  · show (h'.run.sched.threads t).wakeupTick =
      Word.add (call.count source).start (call.count source).asked
    rw [hwakeup, hpending.wakeup, hstart, hasked]

theorem stageHolds_interrupt (hinv : SchedInvariant h.run place lists)
    (hcall : StageHolds h t call call.stage)
    (hrun : schedReschedule h.run.sched 0 rsp (Word.add h.ticks 1)
      (Word.add h.ticks 1) = some result)
    (hsched : h'.run.sched = result.state)
    (hticks : h'.ticks = Word.add h.ticks 1) :
    StageHolds h' t (call.after source result.state t yields)
      (call.stageAfter result.state t) := by
  have hcurrent := hinv.running 0 (Nat.zero_lt_of_lt hinv.next_cpu)
  have hnow : h'.current = (result.state.cpus 0).schedThread := by
    unfold ClockRun.current
    rw [hsched]
  rcases count_asks call source with ⟨hstart, hasked⟩
  unfold SleepCall.stageAfter
  cases hstage : call.stage with
  | called =>
      have hnot : call.stage ≠ SleepStage.woken := by
        rw [hstage]
        exact fun heq => by cases heq
      rw [hstage] at hcall
      rcases hcall with ⟨hpending, ht⟩
      have hsleep := hpending.state
      rw [ht] at hsleep
      rcases schedReschedule_drowsy hinv.placed hcurrent hrun hsleep with
        ⟨hwakeup, hstate⟩
      have hpending' : Pending h' t
          (call.after source result.state t yields) := by
        apply pending_interrupt hpending hnot hticks
        · rw [hsched, ht]
          exact hstate
        · rw [hsched, ht]
          exact hwakeup
      simp only []
      split
      case isTrue heq => exact ⟨hpending', heq.symm.trans hnow.symm⟩
      case isFalse hne =>
          refine ⟨hpending', ?_, ?_⟩
          · rw [hnow]
            exact fun heq => hne heq.symm
          · show 1 <= (call.count source).hardware +
              (call.count source).software
            rw [count_sum source hnot]
            exact Nat.le_add_left _ _
  | asleep =>
      have hnot : call.stage ≠ SleepStage.woken := by
        rw [hstage]
        exact fun heq => by cases heq
      rw [hstage] at hcall
      rcases hcall with ⟨hpending, ht, hone⟩
      rcases schedReschedule_sleeper hinv.placed hcurrent hrun ht
        hpending.state with ⟨hwakeup, hcases⟩
      have hclock : Word.add h.ticks 1 = Word.add call.start
          ((call.count source).hardware + (call.count source).software) := by
        rw [count_sum source hnot, hpending.clock, Word.add_add]
      have htwo : 2 <= (call.count source).hardware +
          (call.count source).software := by
        rw [count_sum source hnot]
        exact Nat.succ_le_succ hone
      rcases hcases with ⟨hstate, hother⟩ | ⟨hawake, hdue⟩
      · simp only [if_pos hstate]
        refine ⟨?_, ?_, ?_⟩
        · apply pending_interrupt hpending hnot hticks
          · rw [hsched]
            exact hstate
          · rw [hsched]
            exact hwakeup
        · rw [hnow]
          exact hother
        · exact Nat.le_of_succ_le htwo
      · simp only [if_neg hawake]
        refine ⟨htwo, ?_⟩
        intro hfits
        show (call.count source).asked <= _
        have hfits' : call.start + call.asked < 2 ^ 64 := by
          rw [← hstart, ← hasked]
          exact hfits
        rw [hpending.wakeup, hclock] at hdue
        rw [hasked]
        exact ticks_reached hdue hfits'
  | woken =>
      rw [hstage] at hcall
      rcases hcall with ⟨htwo, hwoken⟩
      have hle := count_le call source
      refine ⟨Nat.le_trans htwo hle, ?_⟩
      intro hfits
      have hfits' : call.start + call.asked < 2 ^ 64 := by
        rw [← hstart, ← hasked]
        exact hfits
      show (call.count source).asked <= _
      rw [hasked]
      exact Nat.le_trans (hwoken hfits') hle

end Interrupt

theorem callsAfter_some {source : TickSource} {s : SchedState}
    (hcall : h.callsAfter source s t = some call) :
    exists call0 yields, h.calls t = some call0 ∧
      call = call0.after source s t yields := by
  unfold ClockRun.callsAfter at hcall
  rcases Option.map_eq_some_iff.mp hcall with ⟨call0, hcall0, heq⟩
  exact ⟨call0, _, hcall0, heq.symm⟩

/-- What a step that is no interrupt has to leave alone for a call. -/
theorem StageHolds.congr {h' : ClockRun} (hcall : StageHolds h t call call.stage)
    (hticks : h'.ticks = h.ticks) (hcurrent : h'.current = h.current)
    (hstate : (h'.run.sched.threads t).state = (h.run.sched.threads t).state)
    (hwakeup : (h'.run.sched.threads t).wakeupTick =
      (h.run.sched.threads t).wakeupTick) :
    StageHolds h' t call call.stage := by
  have hpending : Pending h t call -> Pending h' t call := fun hold =>
    ⟨hticks.trans hold.clock, hstate.trans hold.state,
      hwakeup.trans hold.wakeup⟩
  cases hstage : call.stage with
  | called =>
      rw [hstage] at hcall
      exact ⟨hpending hcall.left, hcall.right.trans hcurrent.symm⟩
  | asleep =>
      rw [hstage] at hcall
      refine ⟨hpending hcall.left, ?_, hcall.right.right⟩
      rw [hcurrent]
      exact hcall.right.left
  | woken =>
      rw [hstage] at hcall
      exact hcall

theorem creates_frame {r r' : SchedRun} {event : SchedEvent} {thread : Nat}
    (hstep : SchedStep r event r') (hnew : event.Creates thread) :
    (r'.sched.cpus 0).schedThread = (r.sched.cpus 0).schedThread ∧
    forall u, u ≠ thread -> exists n,
      r'.sched.threads u = { r.sched.threads u with next := n } := by
  cases hstep with
  | spawn _ _ =>
      cases hnew
      exact ⟨spawnThread_running _ _ _ _ _ _ _ _ _,
        fun u hu => spawnThread_other _ _ _ _ _ _ _ _ hu⟩
  | spawnUser _ _ =>
      cases hnew
      exact ⟨spawnThread_running _ _ _ _ _ _ _ _ _,
        fun u hu => spawnThread_other _ _ _ _ _ _ _ _ hu⟩
  | _ => cases hnew

theorem clockInvariant_init {ids : Nat -> Nat} (hids : ValidIds 1 ids)
    (hinit : (clockSystem ids).Init h) : ClockInvariant h := by
  rcases hinit with ⟨hrun, hticks, hcalls⟩
  refine ⟨schedInvariant_init hids Nat.one_pos hrun, hticks, ?_⟩
  intro t call hcall
  rw [hcalls] at hcall
  cases hcall

theorem clockInvariant_step {event : ClockEvent} {h' : ClockRun}
    (hinv : ClockInvariant h) (hstep : ClockStep h event h') :
    ClockInvariant h' := by
  rcases hinv.sched with ⟨place, lists, hsched⟩
  have hcpu : 0 < h.run.sched.cpuCount := Nat.zero_lt_of_lt hsched.next_cpu
  have hnonzero : h.current ≠ 0 :=
    (hsched.placed.address _ _ (hsched.running 0 hcpu)).left
  cases hstep with
  | interrupt _ hrun =>
      refine ⟨schedInvariant_step hsched (SchedStep.reschedule hcpu hrun),
        Nat.mod_lt _ (by decide), ?_⟩
      intro t call hcall
      rcases callsAfter_some hcall with ⟨call0, yields, hcall0, heq⟩
      rw [heq]
      exact stageHolds_interrupt hsched (hinv.calls t call0 hcall0) hrun rfl
        rfl
  | spawn _ hstep hnew =>
      refine ⟨schedInvariant_step hsched hstep, hinv.ticks, ?_⟩
      rcases creates_frame hstep hnew with ⟨hcurrent, hothers⟩
      intro t call hcall
      rcases update_some_cases hcall with ⟨_, hnone⟩ | ⟨hne, hold⟩
      · cases hnone
      · rcases hothers t hne with ⟨n, hn⟩
        exact (hinv.calls t call hold).congr rfl hcurrent (by rw [hn])
          (by rw [hn])
  | @sleep ms _ _ =>
      refine ⟨schedInvariant_step hsched (SchedStep.sleep hcpu), hinv.ticks,
        ?_⟩
      have hcpus := congrFun (schedSleep_cpus h.run.sched 0 ms h.ticks) 0
      have hcurrent := congrArg Cpu.schedThread hcpus
      intro t call hcall
      rcases update_some_cases hcall with ⟨heq, hnew⟩ | ⟨hne, hold⟩
      · cases hnew
        rw [heq]
        have hself := schedSleep_self hnonzero ms h.ticks
        exact ⟨⟨(Nat.mod_eq_of_lt hinv.ticks).symm,
          congrArg Thread.state hself, congrArg Thread.wakeupTick hself⟩,
          hcurrent.symm⟩
      · have hother := schedSleep_other ms h.ticks hne
        exact (hinv.calls t call hold).congr rfl hcurrent
          (congrArg Thread.state hother) (congrArg Thread.wakeupTick hother)
  | exit hfree =>
      refine ⟨schedInvariant_step hsched (SchedStep.exit hcpu), hinv.ticks, ?_⟩
      have hcpus := congrFun (schedExit_cpus h.run.sched 0) 0
      have hcurrent := congrArg Cpu.schedThread hcpus
      intro t call hcall
      have hne : t ≠ h.current := by
        intro heq
        rw [heq, hfree.left] at hcall
        cases hcall
      have hother := schedExit_other hne
      exact (hinv.calls t call hcall).congr rfl hcurrent
        (congrArg Thread.state hother) (congrArg Thread.wakeupTick hother)
  | returns _ _ =>
      refine ⟨⟨place, lists, hsched⟩, hinv.ticks, ?_⟩
      intro t call hcall
      rcases update_some_cases hcall with ⟨_, hnone⟩ | ⟨_, hold⟩
      · cases hnone
      · exact (hinv.calls t call hold).congr rfl rfl rfl rfl

end Steps

/-- A call of `sched_sleep` that is served as it should be: the thread leaves
the CPU, and no `int $32` up to its waking takes the place of a tick. -/
structure SleepCall.Undisturbed (call : SleepCall) : Prop where
  woken : call.stage = SleepStage.woken
  fits : call.start + call.asked < 2 ^ 64
  software : call.software = 0 ∨ call.asked + call.software <= 2

theorem schedSleep_lasts {ids : Nat -> Nat} {h h' : ClockRun} {t : Nat}
    {call : SleepCall} (hids : ValidIds 1 ids)
    (hreach : (clockSystem ids).Reachable h)
    (hreturn : ClockStep h (ClockEvent.returns t call) h') :
    (call.stage = SleepStage.woken -> call.start + call.asked < 2 ^ 64 ->
      call.asked <= call.hardware + call.software) ∧
    (call.Undisturbed -> call.asked <= call.hardware) := by
  have hinv : ClockInvariant h := reachable_invariant
    (fun _ hinit => clockInvariant_init hids hinit)
    (fun _ _ _ hinv hstep => clockInvariant_step hinv hstep) hreach
  cases hreturn with
  | returns hmem _ =>
      have hstage := hinv.calls _ call hmem
      constructor
      · intro hwoken hfits
        rw [hwoken] at hstage
        exact hstage.right hfits
      · intro hcall
        rw [hcall.woken] at hstage
        rcases hstage with ⟨htwo, hasked⟩
        have hle := hasked hcall.fits
        -- the interrupt that sends the thread to sleep does not wake it
        rcases hcall.software with hnone | hsmall
        · lia
        · lia

/-- An interrupt, computed. -/
def ClockRun.tick (h : ClockRun) (source : TickSource) : ClockRun :=
  h.interrupted source
    ((schedReschedule h.run.sched 0 0 (Word.add h.ticks 1)
      (Word.add h.ticks 1)).getD
        { ret := 0, state := h.run.sched, freed := [] })

theorem ClockRun.tick_step {h : ClockRun} {source : TickSource}
    (hyields : source = TickSource.yield -> h.Yields)
    (hends : (schedReschedule h.run.sched 0 0 (Word.add h.ticks 1)
      (Word.add h.ticks 1)).isSome = true) :
    ClockStep h (ClockEvent.interrupt source) (h.tick source) := by
  rcases Option.isSome_iff_exists.mp hends with ⟨result, hresult⟩
  have htick : h.tick source = h.interrupted source result := by
    unfold ClockRun.tick
    rw [hresult]
    rfl
  rw [htick]
  exact ClockStep.interrupt hyields hresult

theorem sleeps_reachable {ids : Nat -> Nat} {h : ClockRun} {ms : Nat}
    {call : SleepCall} (hreach : (clockSystem ids).Reachable h)
    (hfree : h.Free) (hms : ms < 2 ^ 64)
    (hcall : (h.sleeps ms).calls (h.sleeps ms).current = some call)
    (hyielded : call.yielded = false)
    (hends : (schedReschedule (h.sleeps ms).run.sched 0 0
      (Word.add h.ticks 1) (Word.add h.ticks 1)).isSome = true) :
    (clockSystem ids).Reachable ((h.sleeps ms).tick TickSource.yield) := by
  apply reachable_step (reachable_step hreach (ClockStep.sleep hfree hms))
  exact ClockRun.tick_step (fun _ => Or.inr ⟨call, hcall, hyielded⟩) hends

def aloneStart : ClockRun where
  run := oneCpu
  ticks := 0
  calls := fun _ => none

theorem aloneStart_reachable :
    (clockSystem (fun _ => 0)).Reachable aloneStart :=
  ⟨aloneStart, [], ⟨oneCpu_init, by decide, rfl⟩, Runs.nil _⟩

def aloneSleep : ClockRun :=
  (aloneStart.sleeps 1000).tick TickSource.yield

theorem aloneSleep_reachable :
    (clockSystem (fun _ => 0)).Reachable aloneSleep :=
  sleeps_reachable aloneStart_reachable ⟨rfl, by decide⟩ (by decide) rfl rfl
    (by decide)

def aloneCall : SleepCall where
  start := 0
  asked := 100
  hardware := 0
  software := 1
  stage := SleepStage.called
  yielded := true

def twoBorn : ClockRun :=
  { aloneStart with
    run := oneCpu.born
      (schedSpawn oneCpu.sched 0x5000 0x6000 0x100000 5 none).state 0x5000
      (schedSpawn oneCpu.sched 0x5000 0x6000 0x100000 5 none).ret true
    calls := Function.update aloneStart.calls 0x5000 none }

def twoStart : ClockRun :=
  twoBorn.tick TickSource.timer

theorem twoStart_reachable :
    (clockSystem (fun _ => 0)).Reachable twoStart := by
  have hspawn : ClockStep aloneStart (ClockEvent.spawn 0x5000) twoBorn := by
    apply ClockStep.spawn
    · exact ⟨rfl, by decide⟩
    · apply SchedStep.spawn
      · exact ⟨by decide, by decide, oneCpu_resting.alone _ (by decide)⟩
      · intro bytes hbytes
        cases hbytes
    · rfl
  apply reachable_step (reachable_step aloneStart_reachable hspawn)
  exact ClockRun.tick_step (fun heq => by cases heq) (by decide)

def twoSleep (ms : Nat) : ClockRun :=
  ((twoStart.sleeps ms).tick TickSource.yield).tick TickSource.timer

theorem twoSleep_reachable {ms : Nat} {call : SleepCall} (hms : ms < 2 ^ 64)
    (hcall : (twoStart.sleeps ms).calls (twoStart.sleeps ms).current =
      some call) (hyielded : call.yielded = false)
    (hends : (schedReschedule (twoStart.sleeps ms).run.sched 0 0
      (Word.add twoStart.ticks 1) (Word.add twoStart.ticks 1)).isSome = true)
    (hends' : (schedReschedule
      ((twoStart.sleeps ms).tick TickSource.yield).run.sched 0 0
      (Word.add ((twoStart.sleeps ms).tick TickSource.yield).ticks 1)
      (Word.add ((twoStart.sleeps ms).tick TickSource.yield).ticks
        1)).isSome = true) :
    (clockSystem (fun _ => 0)).Reachable (twoSleep ms) := by
  apply reachable_step (sleeps_reachable twoStart_reachable ⟨rfl, by decide⟩
    hms hcall hyielded hends)
  exact ClockRun.tick_step (fun heq => by cases heq) hends'

def wokenCall (asked : Nat) : SleepCall where
  start := 1
  asked := asked
  hardware := 1
  software := 1
  stage := SleepStage.woken
  yielded := true

theorem twoSleep_returns (ms : Nat)
    (hcurrent : (twoSleep ms).current = 0x5000)
    (hcall : (twoSleep ms).calls 0x5000 = some (wokenCall (ms / 10))) :
    exists h', ClockStep (twoSleep ms)
      (ClockEvent.returns 0x5000 (wokenCall (ms / 10))) h' := by
  rw [← hcurrent] at hcall ⊢
  exact ⟨_, ClockStep.returns hcall rfl⟩

theorem schedSleep_lasts_ten :
    (wokenCall 1).Undisturbed ∧
    (wokenCall 1).asked <= (wokenCall 1).hardware := by
  have hcall : (wokenCall 1).Undisturbed :=
    ⟨rfl, by decide, Or.inr (by decide)⟩
  have hreach : (clockSystem (fun _ => 0)).Reachable (twoSleep 10) :=
    twoSleep_reachable (by decide) rfl rfl (by decide +kernel)
      (by decide +kernel)
  rcases twoSleep_returns 10 (by decide +kernel) (by decide +kernel) with
    ⟨h', hreturn⟩
  exact ⟨hcall, (schedSleep_lasts oneCpu_ids hreach hreturn).right hcall⟩

/-- `sched_sleep(20)` returns after one timer interrupt; for the idle thread
alone `sched_sleep(1000)` returns without any. -/
theorem schedSleep_short :
    ((clockSystem (fun _ => 0)).Reachable (twoSleep 20) ∧
      (exists h', ClockStep (twoSleep 20)
        (ClockEvent.returns 0x5000 (wokenCall 2)) h') ∧
      (wokenCall 2).hardware < (wokenCall 2).asked) ∧
    ((clockSystem (fun _ => 0)).Reachable aloneSleep ∧
      (exists h', ClockStep aloneSleep
        (ClockEvent.returns aloneSleep.current aloneCall) h') ∧
      aloneCall.hardware < aloneCall.asked) := by
  constructor
  · refine ⟨?_, ?_, by decide⟩
    · exact twoSleep_reachable (by decide) rfl rfl (by decide +kernel)
        (by decide +kernel)
    · exact twoSleep_returns 20 (by decide +kernel) (by decide +kernel)
  · refine ⟨aloneSleep_reachable, ⟨_, ClockStep.returns ?_ rfl⟩, by decide⟩
    decide

end Sched
end Barium
