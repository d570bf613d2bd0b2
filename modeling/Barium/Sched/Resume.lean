import Barium.Sched.Switch

/-!
# Threads go on where they were interrupted

The frame of every thread that waits lies on its own stack and holds the
registers of the last time that the thread was interrupted, or the first ones.
-/

namespace Barium
namespace Sched

open Foundation
open Function
open ByteMemory
open TransitionSystem

/-!
# The history of a thread
-/

section History

variable {trace : List MachineEvent} {event : MachineEvent} {t : Nat}

theorem lastSeen_concat (trace : List MachineEvent) (event : MachineEvent)
    (t : Nat) :
    lastSeen (trace ++ [event]) t = (event.seen t).or (lastSeen trace t) := by
  unfold lastSeen
  rw [List.reverse_concat, List.findSome?_cons]
  cases event.seen t with
  | none => rfl
  | some seen => rfl

theorem lastSeen_silent (h : event.seen t = none) :
    lastSeen (trace ++ [event]) t = lastSeen trace t := by
  rw [lastSeen_concat, h]
  rfl

theorem lastSeen_self {seen : LastSeen} (h : event.seen t = some seen) :
    lastSeen (trace ++ [event]) t = some seen := by
  rw [lastSeen_concat, h]
  rfl

end History

/-!
# The layout of the stacks
-/

structure SameStack (r r' : SchedRun) (t : Nat) : Prop where
  alive : r'.alive t = r.alive t
  limit : (r'.sched.threads t).stackLimit = (r.sched.threads t).stackLimit
  top : (r'.sched.threads t).stackTop = (r.sched.threads t).stackTop

structure Layout (boot : StackArea) (r : SchedRun) : Prop where
  bound : forall t, r.alive t ≠ none -> (r.area boot t).high < 2 ^ 64
  top : forall t, r.Spawned t ->
    (r.sched.threads t).stackTop = (r.sched.threads t).stackLimit + 8192
  apart : forall t u, r.alive t ≠ none -> r.alive u ≠ none -> t ≠ u ->
    StackArea.Apart (r.area boot t) (r.area boot u)

section Layout

variable {boot : StackArea} {r r' : SchedRun} {t : Nat}

theorem SameStack.area (h : SameStack r r' t) (boot : StackArea) :
    r'.area boot t = r.area boot t := by
  unfold SchedRun.area
  rw [h.alive, h.limit, h.top]

theorem SameStack.spawned (h : SameStack r r' t) (hr : r'.Spawned t) :
    r.Spawned t := by
  rcases hr with ⟨b, hb, hspawned⟩
  rw [h.alive] at hb
  exact ⟨b, hb, hspawned⟩

theorem Spawned.alive (h : r.Spawned t) : r.alive t ≠ none := by
  rcases h with ⟨b, hb, _⟩
  rw [hb]
  exact Option.some_ne_none b

theorem area_spawned (h : r.Spawned t) :
    r.area boot t =
      { low := (r.sched.threads t).stackLimit
        high := (r.sched.threads t).stackTop } := by
  rcases h with ⟨⟨serial, spawned⟩, hb, hspawned⟩
  have hspawned : spawned = true := hspawned
  unfold SchedRun.area
  rw [hb, hspawned]

theorem area_unspawned (h : ¬ r.Spawned t) : r.area boot t = boot := by
  unfold SchedRun.area
  split
  case h_1 b serial halive => exact absurd ⟨_, halive, rfl⟩ h
  case h_2 => rfl

theorem StackArea.Apart.symm {a b : StackArea} (h : a.Apart b) :
    b.Apart a :=
  Or.symm h

theorem Layout.of_same (h : Layout boot r)
    (hsame : forall t, r'.alive t ≠ none -> SameStack r r' t) :
    Layout boot r' := by
  have halive : forall t, r'.alive t ≠ none -> r.alive t ≠ none := by
    intro t ht
    rw [← (hsame t ht).alive]
    exact ht
  constructor
  · intro t ht
    rw [(hsame t ht).area]
    exact h.bound t (halive t ht)
  · intro t ht
    have hs := hsame t (Spawned.alive ht)
    rw [hs.top, hs.limit]
    exact h.top t (hs.spawned ht)
  · intro t u ht hu hne
    rw [(hsame t ht).area, (hsame u hu).area]
    exact h.apart t u (halive t ht) (halive u hu) hne

theorem Layout.born {thread stack : Nat} (h : Layout boot r)
    (hstack : FreshStack boot r stack) (hnew : r'.Spawned thread)
    (hlimit : (r'.sched.threads thread).stackLimit = stack)
    (htop : (r'.sched.threads thread).stackTop = stack + 8192)
    (hsame : forall t, t ≠ thread -> SameStack r r' t) :
    Layout boot r' := by
  have harea : r'.area boot thread =
      { low := stack, high := stack + 8192 } := by
    rw [area_spawned hnew, hlimit, htop]
  have halive : forall t, t ≠ thread -> r'.alive t ≠ none ->
      r.alive t ≠ none := by
    intro t hne ht
    rw [← (hsame t hne).alive]
    exact ht
  have hfresh : forall t, t ≠ thread -> r'.alive t ≠ none ->
      StackArea.Apart (r'.area boot thread) (r'.area boot t) := by
    intro t hne ht
    rw [harea, (hsame t hne).area]
    exact hstack.apart t (halive t hne ht)
  constructor
  · intro t ht
    rcases Classical.em (t = thread) with heq | hne
    · rw [heq, harea]
      exact hstack.lt
    · rw [(hsame t hne).area]
      exact h.bound t (halive t hne ht)
  · intro t ht
    by_cases hcond : t = thread
    · rw [hcond, htop, hlimit]
    · rw [(hsame t hcond).top, (hsame t hcond).limit]
      exact h.top t ((hsame t hcond).spawned ht)
  · intro t u ht hu hne
    by_cases hhere : t = thread
    · rw [hhere]
      apply hfresh u _ hu
      rw [← hhere]
      exact Ne.symm hne
    · by_cases hcase : u = thread
      · rw [hcase]
        exact (hfresh t hhere ht).symm
      · rw [(hsame t hhere).area, (hsame u hcase).area]
        exact h.apart t u (halive t hhere ht) (halive u hcase hu) hne

end Layout

/-!
# The invariant
-/

/-- The frame of thread `t` lies on its stack and holds `regs`. -/
structure Waiting (boot : StackArea) (m : Machine) (t : Nat) (regs : Regs) :
    Prop where
  low : (m.run.area boot t).low <= (m.run.sched.threads t).rsp
  high : (m.run.sched.threads t).rsp + contextSize <=
    (m.run.area boot t).high
  regs : contextRegs m.mem (m.run.sched.threads t).rsp = regs

structure MachineInvariant (boot : StackArea) (trace : List MachineEvent)
    (m : Machine) : Prop where
  sched : exists place lists, SchedInvariant m.run place lists
  count : m.run.sched.cpuCount = 1
  layout : Layout boot m.run
  rsp0 : m.run.Spawned m.current ->
    m.rsp0 = (m.run.sched.threads m.current).stackTop
  waiting : forall t, m.run.alive t ≠ none -> t ≠ m.current ->
    exists seen, lastSeen trace t = some seen ∧ Waiting boot m t seen.regs

section Steps

variable {boot : StackArea} {trace : List MachineEvent} {m m' : Machine}
  {event : MachineEvent} {t : Nat}

theorem Waiting.keep {regs : Regs} (h : Waiting boot m t regs)
    (hsame : SameStack m.run m'.run t)
    (hrsp : (m'.run.sched.threads t).rsp = (m.run.sched.threads t).rsp)
    (hkeep : KeepsContext m.mem m'.mem (m.run.sched.threads t).rsp) :
    Waiting boot m' t regs := by
  constructor
  · rw [hsame.area, hrsp]
    exact h.low
  · rw [hsame.area, hrsp]
    exact h.high
  · rw [hrsp, contextRegs_congr hkeep]
    exact h.regs

theorem MachineInvariant.current_alive (h : MachineInvariant boot trace m) :
    m.run.alive m.current ≠ none := by
  rcases h.sched with ⟨place, lists, hsched⟩
  apply hsched.alive_of_placed
  apply hsched.running 0
  rw [h.count]
  exact Nat.one_pos

theorem MachineInvariant.keep (h : MachineInvariant boot trace m)
    (hsched : exists place lists, SchedInvariant m'.run place lists)
    (hcount : m'.run.sched.cpuCount = m.run.sched.cpuCount)
    (hsame : forall t, SameStack m.run m'.run t)
    (hrsp : forall t, (m'.run.sched.threads t).rsp =
      (m.run.sched.threads t).rsp)
    (hcurrent : m'.current = m.current) (hrsp0 : m'.rsp0 = m.rsp0)
    (hkeeps : KeepsFrames m m'.mem)
    (hseen : forall t, event.seen t = none) :
    MachineInvariant boot (trace ++ [event]) m' := by
  constructor
  · exact hsched
  · rw [hcount]
    exact h.count
  · exact h.layout.of_same (fun t _ => hsame t)
  · intro hspawned
    rw [hcurrent] at hspawned ⊢
    rw [hrsp0, (hsame m.current).top]
    exact h.rsp0 ((hsame m.current).spawned hspawned)
  · intro t ht hne
    rw [hcurrent] at hne
    rw [(hsame t).alive] at ht
    rcases h.waiting t ht hne with ⟨seen, hlast, hwait⟩
    exists seen
    rw [lastSeen_silent (hseen t)]
    exact ⟨hlast, hwait.keep (hsame t) (hrsp t) (hkeeps t ht hne)⟩

theorem machineInvariant_work {regs : Regs} {mem : ByteMemory}
    (h : MachineInvariant boot trace m) (hkeeps : KeepsFrames m mem) :
    MachineInvariant boot (trace ++ [MachineEvent.work])
      { m with regs := regs, mem := mem } := by
  apply h.keep
  · exact h.sched
  · rfl
  · exact fun t => ⟨rfl, rfl, rfl⟩
  · exact fun t => rfl
  · rfl
  · rfl
  · exact hkeeps
  · exact fun t => rfl

/-!
# The scheduler between interrupts
-/

structure SavedKept (s s' : SchedState) : Prop where
  rsp : forall t, (s'.threads t).rsp = (s.threads t).rsp
  rsp0 : forall c, (s'.cpus c).tssRsp0 = (s.cpus c).tssRsp0

theorem Frame.savedKept {s s' : SchedState} (h : Frame s s') :
    SavedKept s s' := by
  constructor
  · intro t
    have hrsp := congrArg Thread.rsp (h.identity t)
    exact hrsp
  · intro c
    exact (h.stack_tops c).right

theorem schedSleep_savedKept (s : SchedState) (c ms tick : Nat) :
    SavedKept s (schedSleep s c ms tick) := by
  unfold schedSleep
  split
  case isTrue => exact (modThread_frame s _ _ rfl).savedKept
  case isFalse => exact (Frame.refl s).savedKept

theorem schedExit_savedKept (s : SchedState) (c : Nat) :
    SavedKept s (schedExit s c) := by
  unfold schedExit
  split
  case isTrue => exact (modThread_frame s _ _ rfl).savedKept
  case isFalse => exact (Frame.refl s).savedKept

theorem takeOver_savedKept (s : SchedState) (c target : Nat) :
    SavedKept s (takeOver s c target) := by
  have hpush := (push_links
    (modThread s target (promoted (s.cpus c).cpuId))
    (c, Queue.ready maxPriority) target).toFrame.savedKept
  constructor
  · intro t
    refine (hpush.rsp t).trans ?_
    by_cases hsame : t = target
    · rw [hsame, modThread_self]
      rfl
    · rw [modThread_other _ _ _ hsame]
  · intro d
    exact hpush.rsp0 d

theorem quietStep_savedKept {r r' : SchedRun} {place : Nat -> Option Place}
    {lists : Loc -> List Nat} {event : SchedEvent}
    (h : SchedInvariant r place lists) (hstep : SchedStep r event r')
    (hquiet : ¬ event.UsesHeap) : SavedKept r.sched r'.sched := by
  cases hstep with
  | spawn _ _ => exact absurd trivial hquiet
  | spawnUser _ _ => exact absurd trivial hquiet
  | reschedule _ _ => exact absurd trivial hquiet
  | sleep _ => exact schedSleep_savedKept _ _ _ _
  | exit _ => exact schedExit_savedKept _ _
  | handoffStart _ _ _ => exact (Frame.refl _).savedKept
  | handoffMiss _ _ hi hrun =>
      exact (findOnCpu_links h.placed hi hrun).toFrame.savedKept
  | handoffFind _ _ hi hrun =>
      exact (findOnCpu_links h.placed hi hrun).toFrame.savedKept
  | handoffNone _ _ _ => exact (Frame.refl _).savedKept
  | handoffPlace _ _ => exact takeOver_savedKept _ _ _

theorem stepFrame_sameStack {r r' : SchedRun} {place place' : Nat -> Option Place}
    {event : SchedEvent} (h : StepFrame r event r' place place')
    (hnew : ¬ event.Creates t) (halive : r'.alive t = r.alive t) :
    SameStack r r' t := by
  have hlimit := congrArg Thread.stackLimit (h.owner t hnew)
  have htop := congrArg Thread.stackTop (h.owner t hnew)
  exact ⟨halive, hlimit, htop⟩

theorem machineInvariant_sched {schedEvent : SchedEvent} {run : SchedRun}
    (h : MachineInvariant boot trace m) (hstep : SchedStep m.run schedEvent run)
    (hquiet : ¬ schedEvent.UsesHeap) :
    MachineInvariant boot (trace ++ [MachineEvent.sched schedEvent])
      { m with run := run } := by
  rcases h.sched with ⟨place, lists, hsched⟩
  have hsaved := quietStep_savedKept hsched hstep hquiet
  rcases schedInvariant_stepFrame hsched hstep with
    ⟨place', lists', hsched', hframe⟩
  apply h.keep
  · exact ⟨place', lists', hsched'⟩
  · exact hframe.count
  · intro t
    exact stepFrame_sameStack hframe (SchedEvent.not_creates hquiet t)
      (congrFun (schedStep_alive hstep hquiet) t)
  · exact hsaved.rsp
  · apply hframe.running
    intro heq
    rw [heq] at hquiet
    exact hquiet trivial
  · exact hsaved.rsp0 0
  · intro t _ _ i _
    rfl
  · exact fun t => rfl

/-!
# New threads
-/

theorem firstFrame_kernel (entry : UInt64) (stack : Nat) :
    firstFrame entry.toNat 0x08 (Word.add stack 8192) 0x10 =
      contextWords (LastSeen.spawned entry stack).regs 0 0 := by
  have hrsp : (UInt64.ofNat (stack + 8192)).toNat = Word.add stack 8192 :=
    UInt64.toNat_ofNat'
  unfold contextWords LastSeen.regs firstRegs
  dsimp only
  rw [hrsp]
  rfl

theorem firstFrame_user (entry : UInt64) (ustack : Nat) :
    firstFrame entry.toNat 0x23 (Word.add ustack 8192) 0x1B =
      contextWords (LastSeen.spawnedUser entry ustack).regs 0 0 := by
  have hrsp : (UInt64.ofNat (ustack + 8192)).toNat = Word.add ustack 8192 :=
    UInt64.toNat_ofNat'
  unfold contextWords LastSeen.regs firstRegs
  dsimp only
  rw [hrsp]
  rfl

theorem spawnThread_rsp0 (s : SchedState)
    (thread stack userLimit userTop priority : Nat)
    (name : Option (List UInt8)) (frame : List Nat) (c : Nat) :
    ((spawnThread s thread stack userLimit userTop priority name
      frame).state.cpus c).tssRsp0 = (s.cpus c).tssRsp0 :=
  ((spawnThread_links s thread stack userLimit userTop priority name
    frame).stack_tops c).right

theorem writeFrame_context {mem : ByteMemory} {top : Nat} {regs : Regs}
    (h : contextSize <= top) (hlt : top < 2 ^ 64) :
    contextRegs (writeFrame mem top (contextWords regs 0 0))
      (top - contextSize) = regs := by
  have hsp : (({ mem := mem, sp := top } : WordStack).pushAll
      (contextWords regs 0 0).reverse).sp = top - contextSize :=
    pushAll_context_sp h hlt
  rw [← hsp]
  exact pushAll_context h hlt

theorem writeFrame_keeps {mem : ByteMemory} {top a : Nat} {regs : Regs}
    (h : contextSize <= top) (hlt : top < 2 ^ 64)
    (ha : a + contextSize <= top - contextSize ∨ top <= a) :
    KeepsContext mem (writeFrame mem top (contextWords regs 0 0)) a :=
  pushAll_context_keeps (s := { mem := mem, sp := top }) h hlt ha

structure NewRecord (th : Thread) (stack : Nat) : Prop where
  limit : th.stackLimit = stack
  top : th.stackTop = stack + 8192
  rsp : th.rsp = stack + 8192 - contextSize

theorem MachineInvariant.join {run : SchedRun} {thread stack : Nat}
    {seen : LastSeen} (h : MachineInvariant boot trace m)
    (hsched : exists place lists, SchedInvariant run place lists)
    (hcount : run.sched.cpuCount = m.run.sched.cpuCount)
    (hcurrent : (run.sched.cpus 0).schedThread = m.current)
    (hrsp0 : (run.sched.cpus 0).tssRsp0 = m.rsp0)
    (hstack : FreshStack boot m.run stack)
    (hfree : m.run.alive thread = none) (hspawned : run.Spawned thread)
    (hnew : NewRecord (run.sched.threads thread) stack)
    (hsame : forall t, t ≠ thread -> SameStack m.run run t)
    (hrsp : forall t, t ≠ thread ->
      (run.sched.threads t).rsp = (m.run.sched.threads t).rsp)
    (hself : event.seen thread = some seen)
    (hothers : forall t, t ≠ thread -> event.seen t = none) :
    MachineInvariant boot (trace ++ [event])
      { m with
        run := run
        mem := writeFrame m.mem (stack + 8192)
          (contextWords seen.regs 0 0) } := by
  have hroom : contextSize <= stack + 8192 :=
    Nat.le_trans (by decide) (Nat.le_add_left 8192 stack)
  have hne : m.current ≠ thread := by
    intro heq
    apply h.current_alive
    rw [heq]
    exact hfree
  constructor
  · exact hsched
  · exact hcount.trans h.count
  · exact h.layout.born hstack hspawned hnew.limit hnew.top hsame
  · intro hcur
    unfold Machine.current at hcur ⊢
    rw [hcurrent] at hcur ⊢
    exact (hrsp0.trans (h.rsp0 ((hsame m.current hne).spawned hcur))).trans
      (hsame m.current hne).top.symm
  · intro t ht hnot
    by_cases hcase : t = thread
    · rw [hcase]
      have harea : run.area boot thread =
          { low := stack, high := stack + 8192 } := by
        rw [area_spawned hspawned, hnew.limit, hnew.top]
      refine ⟨seen, lastSeen_self hself, ?_, ?_, ?_⟩
      · rw [harea, hnew.rsp]
        exact Nat.le_sub_of_add_le (Nat.add_le_add_left (by decide) stack)
      · rw [harea, hnew.rsp, Nat.sub_add_cancel hroom]
      · rw [hnew.rsp]
        exact writeFrame_context hroom hstack.lt
    · have halive : m.run.alive t ≠ none := by
        rw [← (hsame t hcase).alive]
        exact ht
      rcases h.waiting t halive (fun heq => hnot (heq.trans hcurrent.symm))
        with ⟨seen', hlast, hwait⟩
      refine ⟨seen', (lastSeen_silent (hothers t hcase)).trans hlast, ?_⟩
      apply hwait.keep (hsame t hcase) (hrsp t hcase)
      -- the new block is no part of another stack
      have hlow := hwait.low
      have hhigh := hwait.high
      have hapart := hstack.apart t halive
      unfold StackArea.Apart at hapart
      have hbelow : stack <= stack + 8192 - contextSize :=
        Nat.le_sub_of_add_le (Nat.add_le_add_left (by decide) stack)
      apply writeFrame_keeps hroom hstack.lt
      rcases hapart with hle | hle
      · exact Or.inr (Nat.le_trans hle hlow)
      · exact Or.inl (Nat.le_trans hhigh (Nat.le_trans hle hbelow))

theorem machineInvariant_spawn {thread stack priority : Nat}
    {name : Option (List UInt8)} {seen : LastSeen} (userLimit userTop : Nat)
    (h : MachineInvariant boot trace m) (hfresh : FreshThread m.run thread)
    (hstack : FreshStack boot m.run stack)
    (hself : event.seen thread = some seen)
    (hothers : forall t, t ≠ thread -> event.seen t = none) :
    MachineInvariant boot (trace ++ [event])
      { m with
        run := m.run.born
          (spawnThread m.run.sched thread stack userLimit userTop priority name
            (contextWords seen.regs 0 0)).state thread
          (spawnThread m.run.sched thread stack userLimit userTop priority name
            (contextWords seen.regs 0 0)).ret true
        mem := writeFrame m.mem (Word.add stack 8192)
          (contextWords seen.regs 0 0) } := by
  rcases h.sched with ⟨place, lists, hsched⟩
  have hcreates : (SchedEvent.spawn thread).Creates thread := rfl
  rcases schedInvariant_spawn stack userLimit userTop priority name
    (contextWords seen.regs 0 0) hsched hfresh hcreates with
    ⟨place', lists', hsched', hframe⟩
  have htop : Word.add stack 8192 = stack + 8192 := Word.add_of_lt hstack.lt
  have hroom : contextSize <= stack + 8192 :=
    Nat.le_trans (by decide) (Nat.le_add_left 8192 stack)
  rw [htop]
  apply h.join
  · exact ⟨place', lists', hsched'⟩
  · exact hframe.count
  · exact hframe.running 0 (fun heq => by cases heq)
  · exact spawnThread_rsp0 _ _ _ _ _ _ _ _ _
  · exact hstack
  · exact hfresh.unused
  · exact ⟨_, update_self _ _ _, rfl⟩
  · rcases spawnThread_self m.run.sched thread stack userLimit userTop priority
      name (contextWords seen.regs 0 0) with ⟨n, hnew⟩
    unfold SchedRun.born
    dsimp only
    rw [hnew]
    constructor
    · rfl
    · exact htop
    · show Word.sub (Word.add stack 8192) contextSize = _
      rw [htop, Word.sub_of_le hstack.lt hroom]
  · intro t hne
    exact stepFrame_sameStack hframe hne (born_alive_other _ _ _ hne)
  · intro t hne
    rcases spawnThread_other m.run.sched thread stack userLimit userTop priority
      name (contextWords seen.regs 0 0) hne with ⟨n, hold⟩
    unfold SchedRun.born
    dsimp only
    rw [hold]
  · exact hself
  · exact hothers

/-!
# Interrupts
-/

theorem Machine.entry_eq (m : Machine) (vector : Nat) :
    m.entry vector =
      ({ mem := m.mem, sp := entryStack m.regs m.rsp0 } : WordStack).pushAll
        (contextWords m.regs vector 0).reverse :=
  rfl

/-- Interrupts from user mode start at the top of the thread's stack, because
`rsp0` is set at every switch. -/
theorem MachineInvariant.entryStack_area (h : MachineInvariant boot trace m)
    (hown : OnOwnStack boot m) :
    (m.run.area boot m.current).low + contextSize <=
        entryStack m.regs m.rsp0 ∧
      entryStack m.regs m.rsp0 <= (m.run.area boot m.current).high := by
  unfold OnOwnStack at hown
  unfold entryStack
  split at hown
  case isTrue hring =>
      rw [if_pos hring]
      exact ⟨hown.left, Nat.le_trans (Nat.div_mul_le_self _ 16) hown.right⟩
  case isFalse hring =>
      rw [if_neg hring, area_spawned hown, h.rsp0 hown,
        h.layout.top m.current hown]
      unfold contextSize
      dsimp only
      lia

structure Entered (boot : StackArea) (m : Machine) (vector : Nat) : Prop where
  low : (m.run.area boot m.current).low <= (m.entry vector).sp
  high : (m.entry vector).sp + contextSize <=
    (m.run.area boot m.current).high
  regs : contextRegs (m.entry vector).mem (m.entry vector).sp = m.regs
  intNo : contextIntNo (m.entry vector).mem (m.entry vector).sp =
    vector % 2 ^ 64
  keeps : KeepsFrames m (m.entry vector).mem

theorem MachineInvariant.entered (h : MachineInvariant boot trace m)
    (hown : OnOwnStack boot m) (vector : Nat) : Entered boot m vector := by
  rcases h.entryStack_area hown with ⟨hlow, hhigh⟩
  have hlt : entryStack m.regs m.rsp0 < 2 ^ 64 :=
    Nat.lt_of_le_of_lt hhigh (h.layout.bound _ h.current_alive)
  have hroom : contextSize <= entryStack m.regs m.rsp0 :=
    Nat.le_trans (Nat.le_add_left _ _) hlow
  have hsp : (m.entry vector).sp =
      entryStack m.regs m.rsp0 - contextSize := by
    rw [Machine.entry_eq]
    exact pushAll_context_sp hroom hlt
  constructor
  · rw [hsp]
    exact Nat.le_sub_of_add_le hlow
  · rw [hsp, Nat.sub_add_cancel hroom]
    exact hhigh
  · rw [Machine.entry_eq]
    exact pushAll_context hroom hlt
  · rw [Machine.entry_eq]
    exact pushAll_context_load (j := 15) hroom hlt rfl
  · intro t ht hne
    rcases h.waiting t ht hne with ⟨_, _, hwait⟩
    have hbelow : (m.run.area boot m.current).low <=
        entryStack m.regs m.rsp0 - contextSize := Nat.le_sub_of_add_le hlow
    rw [Machine.entry_eq]
    apply pushAll_context_keeps hroom hlt
    -- the two threads have different stacks
    rcases h.layout.apart t m.current ht h.current_alive hne with hle | hle
    · exact Or.inl (Nat.le_trans hwait.high (Nat.le_trans hle hbelow))
    · exact Or.inr (Nat.le_trans hhigh (Nat.le_trans hle hwait.low))

structure Handled (m : Machine) (rsp : Nat) (result : RescheduleResult) :
    Prop where
  sched : exists place lists, SchedInvariant (m.handled result) place lists
  count : result.state.cpuCount = m.run.sched.cpuCount
  same : forall t, (m.handled result).alive t ≠ none ->
    SameStack m.run (m.handled result) t
  others : forall t, t ≠ m.current ->
    (result.state.threads t).rsp = (m.run.sched.threads t).rsp
  stays : (result.state.cpus 0).schedThread = m.current -> result.ret = rsp
  leaves : (result.state.cpus 0).schedThread ≠ m.current ->
    result.ret =
        (result.state.threads (result.state.cpus 0).schedThread).rsp ∧
      (result.state.threads m.current).rsp = rsp
  tops : ((result.state.cpus 0).schedThread = m.current ∧
      (result.state.cpus 0).tssRsp0 = m.rsp0) ∨
    Machine.TopsSet { m with run := m.handled result }

theorem handled_reschedule (h : MachineInvariant boot trace m)
    (rsp tick ageTick : Nat) :
    exists result,
      schedReschedule m.run.sched 0 rsp tick ageTick = some result ∧
      Handled m rsp result := by
  rcases h.sched with ⟨place, lists, hsched⟩
  have hc : 0 < m.run.sched.cpuCount := by
    rw [h.count]
    exact Nat.one_pos
  rcases schedReschedule_spec rsp tick ageTick hsched.placed
    (hsched.running 0 hc) with ⟨result, _, _, hrun, _, hdone⟩
  rcases schedInvariant_stepFrame hsched (SchedStep.reschedule hc hrun) with
    ⟨place', lists', hsched', hframe⟩
  have hself : (result.state.threads m.current).rsp = rsp := by
    have hrsp := congrArg Thread.rsp (hdone.identity m.current)
    unfold Machine.current at hrsp ⊢
    rw [modThread_self] at hrsp
    exact hrsp
  refine ⟨result, hrun, ?_⟩
  constructor
  · exact ⟨place', lists', hsched'⟩
  · exact hframe.count
  · intro t ht
    apply stepFrame_sameStack hframe (fun hnew => hnew)
    cases halive : m.run.aliveAfter 0 result.state t with
    | none => exact absurd halive ht
    | some b => exact (halive.trans (aliveAfter_some halive).symm)
  · intro t hne
    have hrsp := congrArg Thread.rsp (hdone.identity t)
    unfold Machine.current at hne
    rw [modThread_other _ _ _ hne] at hrsp
    exact hrsp
  · intro heq
    rw [hdone.ret, heq]
    exact hself
  · intro _
    exact ⟨hdone.ret, hself⟩
  · rcases hdone.stack_tops with hsame | hset
    · exact Or.inl ⟨hsame.left, hsame.right.right⟩
    · exact Or.inr ⟨hset.right, hset.left⟩

theorem Machine.handled_self (m : Machine) (ret : Nat) (freed : List Nat) :
    m.handled { ret := ret, state := m.run.sched, freed := freed } =
      m.run := by
  unfold Machine.handled SchedRun.aliveAfter
  dsimp only
  rw [if_neg (fun hne => hne.left rfl)]

theorem MachineInvariant.handled (h : MachineInvariant boot trace m)
    (mem : ByteMemory) (rsp tick ageTick : Nat) :
    exists result,
      interruptHandler mem m.run.sched 0 rsp tick ageTick = some result ∧
      Handled m rsp result := by
  unfold interruptHandler
  split
  case isTrue => exact handled_reschedule h rsp tick ageTick
  case isFalse =>
      refine ⟨_, rfl, ?_⟩
      constructor
      · rw [Machine.handled_self]
        exact h.sched
      · rfl
      · rw [Machine.handled_self]
        exact fun t _ => ⟨rfl, rfl, rfl⟩
      · exact fun t _ => rfl
      · exact fun _ => rfl
      · intro hne
        exact absurd rfl hne
      · exact Or.inl ⟨rfl, rfl⟩

theorem KeepsContext.trans {mem₁ mem₂ mem₃ : ByteMemory} {a : Nat}
    (h : KeepsContext mem₁ mem₂ a) (h' : KeepsContext mem₂ mem₃ a) :
    KeepsContext mem₁ mem₃ a := by
  intro i hi
  rw [h' i hi, h i hi]

theorem lastSeen_interrupt_other {regs : Regs} {u : Nat} (h : t ≠ u) :
    lastSeen (trace ++ [MachineEvent.interrupt u regs]) t =
      lastSeen trace t :=
  lastSeen_silent (if_neg h)

theorem Machine.resumes_of_regs {seen : LastSeen} (hregs : m.regs = seen.regs)
    (htops : m.TopsSet) : m.Resumes seen := by
  cases seen with
  | spawned entry stack => exact ⟨hregs, htops⟩
  | spawnedUser entry ustack => exact ⟨hregs, htops⟩
  | interrupted regs => exact hregs

section Interrupt

variable {vector rsp : Nat} {result : RescheduleResult} {mem : ByteMemory}

/-- The handler has returned `result`, and nobody has written into a frame. -/
structure Returned (boot : StackArea) (trace : List MachineEvent) (m : Machine)
    (vector : Nat) (result : RescheduleResult) (mem : ByteMemory) : Prop where
  before : MachineInvariant boot trace m
  entered : Entered boot m vector
  handled : Handled m (m.entry vector).sp result
  ret : KeepsContext (m.entry vector).mem mem result.ret
  frames : KeepsFrames
    { run := m.handled result
      regs := m.regs
      mem := (m.entry vector).mem } mem

theorem Returned.alive (h : Returned boot trace m vector result mem)
    (ht : (m.handled result).alive t ≠ none) : m.run.alive t ≠ none := by
  rw [← (h.handled.same t ht).alive]
  exact ht

theorem Returned.current_alive (h : Returned boot trace m vector result mem) :
    (m.handled result).alive (result.state.cpus 0).schedThread ≠ none := by
  rcases h.handled.sched with ⟨place, lists, hsched⟩
  apply hsched.alive_of_placed
  apply hsched.running 0
  show 0 < result.state.cpuCount
  rw [h.handled.count, h.before.count]
  exact Nat.one_pos

theorem Returned.waiting (h : Returned boot trace m vector result mem)
    (regs : Regs) (ht : (m.handled result).alive t ≠ none)
    (hne : t ≠ (result.state.cpus 0).schedThread) :
    exists seen,
      lastSeen (trace ++ [MachineEvent.interrupt m.current m.regs]) t =
        some seen ∧
      Waiting boot { run := m.handled result, regs := regs, mem := mem } t
        seen.regs := by
  have hsame := h.handled.same t ht
  have hkeep := h.frames t ht hne
  by_cases hcase : t = m.current
  · have hleaves : (result.state.cpus 0).schedThread ≠ m.current := by
      rw [← hcase]
      exact Ne.symm hne
    have hrsp : (result.state.threads t).rsp = (m.entry vector).sp := by
      rw [hcase]
      exact (h.handled.leaves hleaves).right
    refine ⟨LastSeen.interrupted m.regs, lastSeen_self (if_pos hcase), ?_⟩
    constructor
    · rw [hsame.area, hcase]
      rw [hcase] at hrsp
      exact Nat.le_trans h.entered.low (Nat.le_of_eq hrsp.symm)
    · rw [hsame.area, hcase]
      rw [hcase] at hrsp
      exact Nat.le_trans
        (Nat.le_of_eq (congrArg (fun a => a + contextSize) hrsp))
        h.entered.high
    · refine (contextRegs_congr hkeep).trans ?_
      refine (congrArg (contextRegs (m.entry vector).mem) hrsp).trans ?_
      exact h.entered.regs
  · rcases h.before.waiting t (h.alive ht) hcase with ⟨seen, hlast, hwait⟩
    have hrsp := h.handled.others t hcase
    refine ⟨seen, (lastSeen_interrupt_other hcase).trans hlast, ?_⟩
    apply hwait.keep hsame hrsp
    apply KeepsContext.trans (h.entered.keeps t (h.alive ht) hcase)
    rw [← hrsp]
    exact hkeep

theorem Returned.invariant (h : Returned boot trace m vector result mem)
    (regs : Regs) :
    MachineInvariant boot
      (trace ++ [MachineEvent.interrupt m.current m.regs])
      { run := m.handled result, regs := regs, mem := mem } := by
  constructor
  · exact h.handled.sched
  · exact h.handled.count.trans h.before.count
  · exact h.before.layout.of_same h.handled.same
  · intro hspawned
    rcases h.handled.tops with hsame | hset
    · have hcur : ({ run := m.handled result, regs := regs, mem := mem } :
          Machine).current = m.current := hsame.left
      have hstack := h.handled.same _ (Spawned.alive hspawned)
      have hold := hstack.spawned hspawned
      rw [hcur] at hold hstack ⊢
      exact (hsame.right.trans (h.before.rsp0 hold)).trans hstack.top.symm
    · exact hset.left
  · intro t ht hne
    exact h.waiting regs ht hne

/-- The frame that the handler returns holds the registers of its thread. -/
theorem Returned.resumes (h : Returned boot trace m vector result mem)
    (gpr : Reg -> UInt64) :
    exists seen,
      lastSeen (trace ++ [MachineEvent.interrupt m.current m.regs])
        (result.state.cpus 0).schedThread = some seen ∧
      Machine.Resumes
        { run := m.handled result
          regs := isrExit mem gpr result.ret
          mem := mem } seen := by
  have hbound : forall t, m.run.alive t ≠ none ->
      result.ret + contextSize <= (m.run.area boot t).high ->
      result.ret + contextSize < 2 ^ 64 := by
    intro t ht hle
    exact Nat.lt_of_le_of_lt hle (h.before.layout.bound t ht)
  have hexit : result.ret + contextSize < 2 ^ 64 ->
      isrExit mem gpr result.ret =
        contextRegs (m.entry vector).mem result.ret := by
    intro hlt
    rw [isrExit_eq hlt, contextRegs_congr h.ret]
  by_cases hcase : (result.state.cpus 0).schedThread = m.current
  · have hret := h.handled.stays hcase
    refine ⟨LastSeen.interrupted m.regs, lastSeen_self (if_pos hcase), ?_⟩
    show isrExit mem gpr result.ret = m.regs
    have hhigh := h.entered.high
    rw [← hret] at hhigh
    rw [hexit (hbound m.current h.before.current_alive hhigh), hret]
    exact h.entered.regs
  · have halive := h.alive h.current_alive
    rcases h.before.waiting _ halive hcase with ⟨seen, hlast, hwait⟩
    have hret := (h.handled.leaves hcase).left.trans (h.handled.others _ hcase)
    refine ⟨seen, (lastSeen_interrupt_other hcase).trans hlast, ?_⟩
    apply Machine.resumes_of_regs
    · show isrExit mem gpr result.ret = seen.regs
      have hhigh := hwait.high
      rw [← hret] at hhigh
      rw [hexit (hbound _ halive hhigh), hret,
        contextRegs_congr (h.entered.keeps _ halive hcase)]
      exact hwait.regs
    · rcases h.handled.tops with hsame | hset
      · exact absurd hsame.left hcase
      · exact hset

end Interrupt

theorem InterruptStep.returned {vector tick ageTick : Nat}
    (h : MachineInvariant boot trace m)
    (hstep : InterruptStep boot m vector tick ageTick m') :
    exists result mem gpr, Returned boot trace m vector result mem ∧
      m' = { run := m.handled result
             regs := isrExit mem gpr result.ret
             mem := mem } := by
  cases hstep with
  | @mk result mem gpr hown _ _ hrun hret hframes =>
      rcases h.handled (m.entry vector).mem (m.entry vector).sp tick ageTick
        with ⟨result', hrun', hdone⟩
      rw [hrun] at hrun'
      rw [← Option.some.inj hrun'] at hdone
      exact ⟨result, mem, gpr,
        ⟨h, h.entered hown vector, hdone, hret, hframes⟩, rfl⟩

theorem machineInvariant_step (h : MachineInvariant boot trace m)
    (hstep : MachineStep boot m event m') :
    MachineInvariant boot (trace ++ [event]) m' := by
  cases hstep with
  | work hkeeps => exact machineInvariant_work h hkeeps
  | spawn hfresh _ hstack =>
      unfold schedSpawn
      rw [firstFrame_kernel]
      exact machineInvariant_spawn 0 0 h hfresh hstack (if_pos rfl)
        (fun t hne => if_neg hne)
  | @spawnUser _ _ ustack _ _ _ hfresh _ hstack =>
      unfold schedSpawnUser
      rw [firstFrame_user]
      exact machineInvariant_spawn ustack (Word.add ustack 8192) h hfresh
        hstack (if_pos rfl) (fun t hne => if_neg hne)
  | sched hsched hquiet => exact machineInvariant_sched h hsched hquiet
  | interrupt hint =>
      rcases InterruptStep.returned h hint with
        ⟨result, mem, gpr, hreturned, heq⟩
      rw [heq]
      exact hreturned.invariant _

end Steps

/-!
# Whole runs
-/

section Runs

variable {ids : Nat -> Nat} {boot : StackArea} {m : Machine}

theorem oneCpu_start {r : SchedRun} (h : (schedSystem 1 ids).Init r) :
    r.sched.cpuCount = 1 ∧
    (forall t, r.alive t ≠ none -> t = (r.sched.cpus 0).schedThread) ∧
    forall t, ¬ r.Spawned t := by
  rcases h with ⟨threads, calls, horder, heq⟩
  have hcpus : calls.map InitCall.cpu = [0] :=
    List.perm_singleton.mp horder.cpus
  rcases List.map_eq_singleton_iff.mp hcpus with ⟨i, hcalls, hzero⟩
  rw [hcalls, List.foldl_cons, List.foldl_nil] at heq
  have halive : r.alive = update (fun _ => none) i.idle
      (some { serial := 0, spawned := false }) := by
    rw [heq]
    rfl
  have hcurrent : (r.sched.cpus 0).schedThread = i.idle := by
    have hset : ((initCpu (bootRun 1 ids threads) i).sched.cpus
        i.cpu).schedThread = i.idle := by
      unfold initCpu SchedRun.born schedInit modExtra modCpu
      dsimp only
      rw [update_self]
    rw [heq, ← hset, hzero]
  have hother : forall t, t ≠ i.idle -> r.alive t = none := by
    intro t hne
    rw [halive, update_of_ne hne]
  refine ⟨?_, ?_, ?_⟩
  · rw [heq]
    rfl
  · intro t ht
    rw [hcurrent]
    apply Classical.byContradiction
    intro hne
    exact ht (hother t hne)
  · intro t hspawned
    rcases hspawned with ⟨b, hb, htrue⟩
    by_cases hidle : t = i.idle
    · rw [halive, hidle, update_self] at hb
      rw [← Option.some.inj hb] at htrue
      cases htrue
    · rw [hother t hidle] at hb
      cases hb

theorem machineInvariant_init (hids : ValidIds 1 ids)
    (hinit : (machineSystem ids boot).Init m) :
    MachineInvariant boot [] m := by
  rcases oneCpu_start hinit.left with ⟨hcount, honly, hspawned⟩
  constructor
  · exact schedInvariant_init hids Nat.one_pos hinit.left
  · exact hcount
  · constructor
    · intro t _
      rw [area_unspawned (hspawned t)]
      exact hinit.right
    · intro t ht
      exact absurd ht (hspawned t)
    · intro t u ht hu hne
      exact absurd ((honly t ht).trans (honly u hu).symm) hne
  · intro ht
    exact absurd ht (hspawned m.current)
  · intro t ht hne
    exact absurd (honly t ht) hne

/-- Every interrupt of every run returns, and the thread that goes on has the
registers of the last time it was interrupted.  A new thread starts at its entry
function, with its own stack in the TSS. -/
theorem interrupt_resumes {m₀ : Machine} {trace : List MachineEvent}
    (hids : ValidIds 1 ids) (hinit : (machineSystem ids boot).Init m₀)
    (hrun : (machineSystem ids boot).Runs m₀ trace m)
    (hown : OnOwnStack boot m) {vector : Nat} (hlow : 32 <= vector)
    (hhigh : vector < 48) (tick ageTick : Nat) :
    (exists m', InterruptStep boot m vector tick ageTick m') ∧
    forall m', InterruptStep boot m vector tick ageTick m' ->
      exists seen,
        lastSeen (trace ++ [MachineEvent.interrupt m.current m.regs])
          m'.current = some seen ∧
        m'.Resumes seen := by
  have hinv : MachineInvariant boot trace m :=
    runs_history_invariant (P := fun trace m => MachineInvariant boot trace m)
      (machineInvariant_init hids hinit)
      (fun _ _ _ _ h hstep => machineInvariant_step h hstep) hrun
  constructor
  · rcases hinv.handled (m.entry vector).mem (m.entry vector).sp tick ageTick
      with ⟨result, hresult, _⟩
    refine ⟨_, @InterruptStep.mk boot m vector tick ageTick result
      (m.entry vector).mem m.regs.gpr hown hlow hhigh hresult ?_ ?_⟩
    · intro i _
      rfl
    · intro t _ _ i _
      rfl
  · intro m' hstep
    rcases InterruptStep.returned hinv hstep with
      ⟨result, mem, gpr, hreturned, heq⟩
    rw [heq]
    exact hreturned.resumes gpr

end Runs

def bootArea : StackArea where
  low := 0x100000
  high := 0x104000

/-- The end of `kmain`, before its first interrupt. -/
def bootMachine : Machine where
  run := oneCpu
  regs := {
    gpr := fun _ => 7
    rip := 0x200000
    cs := 0x08
    rflags := 0x202
    rsp := 0x103000
    ss := 0x10 }
  mem := fun _ => 0

def shellMachine : Machine :=
  { bootMachine with
    run := oneThread
    mem := writeFrame bootMachine.mem (Word.add 0x6000 8192)
      (schedSpawn oneCpu.sched 0x5000 0x6000 0x100000 5 none).frame }

theorem shellMachine_runs :
    (machineSystem (fun _ => 0) bootArea).Runs bootMachine
      [MachineEvent.spawn 0x5000 0x100000 0x6000] shellMachine := by
  rcases oneCpu_start oneCpu_init with ⟨_, _, hspawned⟩
  apply runs_single
  apply MachineStep.spawn
  · exact ⟨by decide, by decide, oneCpu_resting.alone _ (by decide)⟩
  · intro bytes hbytes
    cases hbytes
  · constructor
    · decide
    · intro t _
      rw [show bootMachine.run.area bootArea t = bootArea from
        area_unspawned (hspawned t)]
      exact Or.inl (by decide)

theorem interrupt_resumes_shell :
    exists m', InterruptStep bootArea shellMachine 32 0 0 m' ∧
      m'.current = 0x5000 ∧
      m'.Resumes (LastSeen.spawned 0x100000 0x6000) := by
  have hown : OnOwnStack bootArea shellMachine := by
    unfold OnOwnStack
    rw [if_pos (by decide)]
    decide
  rcases interrupt_resumes oneCpu_ids ⟨oneCpu_init, by decide⟩
    shellMachine_runs hown (Nat.le_refl 32) (by decide) 0 0 with
    ⟨⟨m', hstep⟩, hall⟩
  have hcurrent : m'.current = 0x5000 := by
    cases hstep with
    | @mk result mem gpr _ _ _ hrun _ _ =>
        have hnext : (interruptHandler (shellMachine.entry 32).mem
            shellMachine.run.sched 0 (shellMachine.entry 32).sp 0 0).map
            (fun result => (result.state.cpus 0).schedThread) =
            some 0x5000 := by decide +kernel
        rw [hrun] at hnext
        exact Option.some.inj hnext
  rcases hall m' hstep with ⟨seen, hseen, hresumes⟩
  rw [hcurrent] at hseen
  cases hseen
  exact ⟨m', hstep, hcurrent, hresumes⟩

end Sched
end Barium
