import Barium.Foundation.Asm
import Barium.Sched.Stacks

/-!
# Context switches

`interrupt.asm` on one CPU: an interrupt pushes the registers of the running
thread on its kernel stack, `sched_reschedule` chooses a frame, and the stub pops
the registers of the next thread from it.
-/

namespace Barium
namespace Sched

open Foundation
open Asm
open ByteMemory
open TransitionSystem

/-!
# Registers and frames
-/

inductive Reg where
  | rax | rbx | rcx | rdx | rbp | rsi | rdi
  | r8 | r9 | r10 | r11 | r12 | r13 | r14 | r15
  deriving DecidableEq, Repr

structure Regs where
  gpr : Reg -> UInt64
  rip : UInt64
  cs : UInt16
  rflags : UInt64
  rsp : UInt64
  ss : UInt16

def stubPushes : List Reg :=
  [Reg.r15, Reg.r14, Reg.r13, Reg.r12, Reg.r11, Reg.r10, Reg.r9, Reg.r8,
    Reg.rdi, Reg.rsi, Reg.rbp, Reg.rdx, Reg.rcx, Reg.rbx, Reg.rax]

def stubPops : List Reg :=
  [Reg.rax, Reg.rbx, Reg.rcx, Reg.rdx, Reg.rbp, Reg.rsi, Reg.rdi, Reg.r8,
    Reg.r9, Reg.r10, Reg.r11, Reg.r12, Reg.r13, Reg.r14, Reg.r15]

/-- Where the CPU starts to push: it takes `rsp0` when it comes from user mode,
and aligns the stack pointer to 16 bytes. -/
def entryStack (regs : Regs) (rsp0 : Nat) : Nat :=
  (if regs.cs.toNat % 4 = 0 then regs.rsp.toNat else rsp0) / 16 * 16

def entryPushes (regs : Regs) (vector : Nat) : List Nat :=
  -- by the CPU
  [regs.ss.toNat, regs.rsp.toNat, regs.rflags.toNat, regs.cs.toNat,
    regs.rip.toNat] ++
  -- by `isr_no_err_stub`
  [0, vector] ++
  stubPushes.map (fun r => (regs.gpr r).toNat)

/-- The stack when `isr_common_stub` calls `interrupt_handler`. -/
def isrEntry (mem : ByteMemory) (regs : Regs) (rsp0 vector : Nat) :
    WordStack :=
  { mem := mem, sp := entryStack regs rsp0 : WordStack }.pushAll
    (entryPushes regs vector)

/-- What a program sees of the processor. -/
def regsAt (rip : UInt64) (core : Core Reg) : Regs where
  gpr := core.gpr
  rip := rip
  cs := core.cs
  rflags := core.rflags
  rsp := UInt64.ofNat core.stack.sp
  ss := core.ss

def poppedCore (gpr : Reg -> UInt64) (s : WordStack) : Core Reg where
  gpr := gpr
  stack := s
  cs := 0
  rflags := 0
  ss := 0
  gsBase := 0
  kernelGsBase := 0
  zf := false

/-- The end of `isr_common_stub`, from `mov rsp, rax` on; `gpr` is what
`interrupt_handler` leaves in the registers. -/
def isrExit (mem : ByteMemory) (gpr : Reg -> UInt64) (rsp : Nat) : Regs :=
  let popped := popAll stubPops gpr { mem := mem, sp := rsp }
  let back := (poppedCore popped.1 (popped.2.skip 16)).iretq
  regsAt back.1 back.2

def Reg.slot : Reg -> Nat
  | .rax => 0
  | .rbx => 1
  | .rcx => 2
  | .rdx => 3
  | .rbp => 4
  | .rsi => 5
  | .rdi => 6
  | .r8 => 7
  | .r9 => 8
  | .r10 => 9
  | .r11 => 10
  | .r12 => 11
  | .r13 => 12
  | .r14 => 13
  | .r15 => 14

def contextSize : Nat := 176

/-- `ctx->int_no`. -/
def contextIntNo (mem : ByteMemory) (a : Nat) : Nat :=
  loadLE mem (a + 8 * 15) 8

/-- The registers in the `context_t` at address `a`. -/
def contextRegs (mem : ByteMemory) (a : Nat) : Regs where
  gpr := fun r => UInt64.ofNat (loadLE mem (a + 8 * r.slot) 8)
  rip := UInt64.ofNat (loadLE mem (a + 8 * 17) 8)
  cs := UInt16.ofNat (loadLE mem (a + 8 * 18) 8)
  rflags := UInt64.ofNat (loadLE mem (a + 8 * 19) 8)
  rsp := UInt64.ofNat (loadLE mem (a + 8 * 20) 8)
  ss := UInt16.ofNat (loadLE mem (a + 8 * 21) 8)

/-!
# Pops read a context
-/

section Pops

theorem stubPops_slot (r : Reg) : stubPops[r.slot]? = some r := by
  cases r with
  | _ => rfl

theorem Reg.slot_lt (r : Reg) : r.slot < 15 := by
  cases r with
  | _ => decide

/-- The stub and `iretq` read a context as `context_t` lays it out. -/
theorem isrExit_eq {mem : ByteMemory} {a : Nat}
    (h : a + contextSize < 2 ^ 64) (gpr : Reg -> UInt64) :
    isrExit mem gpr a = contextRegs mem a := by
  have hstart : ({ mem := mem, sp := a } : WordStack) =
      WordStack.skip { mem := mem, sp := a } 0 := by
    unfold WordStack.skip
    rw [Word.add_zero (Nat.lt_of_le_of_lt (Nat.le_add_right _ _) h)]
  have htop : forall n, n <= contextSize ->
      (WordStack.skip { mem := mem, sp := a } n).top =
        loadLE mem (a + n) 8 := by
    intro n hn
    exact WordStack.top_skip
      (Nat.lt_of_le_of_lt (Nat.add_le_add_left hn a) h)
  have hgpr : (popAll stubPops gpr
      (WordStack.skip { mem := mem, sp := a } 0)).1 =
      fun r => UInt64.ofNat (loadLE mem (a + 8 * r.slot) 8) := by
    funext r
    have hslot := r.slot_lt
    rw [popAll_get (by decide) (stubPops_slot r), Nat.zero_add,
      htop _ (by unfold contextSize; lia)]
  unfold isrExit
  rw [hstart]
  dsimp only
  rw [hgpr, popAll_stack]
  unfold regsAt Core.iretq poppedCore WordStack.pop
  simp only [WordStack.skip_skip]
  rw [htop _ (by decide), htop _ (by decide), htop _ (by decide),
    htop _ (by decide), htop _ (by decide)]
  rfl

end Pops

/-!
# Pushes write a context
-/

def KeepsContext (mem mem' : ByteMemory) (a : Nat) : Prop :=
  forall i, i < contextSize -> mem' (a + i) = mem (a + i)

theorem contextRegs_congr {mem mem' : ByteMemory} {a : Nat}
    (h : KeepsContext mem mem' a) :
    contextRegs mem' a = contextRegs mem a := by
  have hload : forall k, k < 22 ->
      loadLE mem' (a + 8 * k) 8 = loadLE mem (a + 8 * k) 8 := by
    intro k hk
    apply loadLE_congr
    intro i hi
    have hbyte := h (8 * k + i) (by unfold contextSize; lia)
    rwa [← Nat.add_assoc] at hbyte
  have hgpr : (fun r : Reg => UInt64.ofNat
      (loadLE mem' (a + 8 * r.slot) 8)) = (contextRegs mem a).gpr := by
    funext r
    have hslot := r.slot_lt
    exact congrArg UInt64.ofNat (hload r.slot (by lia))
  unfold contextRegs
  rw [hgpr, hload 17 (by decide), hload 18 (by decide), hload 19 (by decide),
    hload 20 (by decide), hload 21 (by decide)]
  rfl

/-- A context as 22 words, from its lowest address up. -/
def contextWords (regs : Regs) (intNo errCode : Nat) : List Nat :=
  stubPops.map (fun r => (regs.gpr r).toNat) ++
    [intNo, errCode, regs.rip.toNat, regs.cs.toNat, regs.rflags.toNat,
      regs.rsp.toNat, regs.ss.toNat]

theorem entryPushes_eq (regs : Regs) (vector : Nat) :
    entryPushes regs vector = (contextWords regs vector 0).reverse :=
  rfl

section Contexts

variable {s : WordStack} {regs : Regs} {intNo errCode : Nat}

theorem pushAll_context_load {j w : Nat} (h : contextSize <= s.sp)
    (hlt : s.sp < 2 ^ 64)
    (hw : (contextWords regs intNo errCode)[j]? = some w) :
    loadLE (s.pushAll (contextWords regs intNo errCode).reverse).mem
      ((s.pushAll (contextWords regs intNo errCode).reverse).sp + 8 * j) 8 =
      w % 2 ^ 64 := by
  apply WordStack.load_pushAll
  · exact h
  · exact hlt
  · rw [List.reverse_reverse]
    exact hw

theorem contextWords_slot (r : Reg) :
    (contextWords regs intNo errCode)[r.slot]? = some (regs.gpr r).toNat := by
  cases r with
  | _ => rfl

/-- What has been pushed is what will be popped. -/
theorem pushAll_context (h : contextSize <= s.sp) (hlt : s.sp < 2 ^ 64) :
    contextRegs (s.pushAll (contextWords regs intNo errCode).reverse).mem
      (s.pushAll (contextWords regs intNo errCode).reverse).sp = regs := by
  have hword : forall x : UInt64, UInt64.ofNat (x.toNat % 2 ^ 64) = x := by
    intro x
    rw [Nat.mod_eq_of_lt x.toNat_lt]
    exact UInt64.ofNat_toNat
  have hselector : forall x : UInt16,
      UInt16.ofNat (x.toNat % 2 ^ 64) = x := by
    intro x
    rw [Nat.mod_eq_of_lt (Nat.lt_trans x.toNat_lt (by decide))]
    exact UInt16.ofNat_toNat
  have hgpr : (fun r : Reg => UInt64.ofNat (loadLE
      (s.pushAll (contextWords regs intNo errCode).reverse).mem
      ((s.pushAll (contextWords regs intNo errCode).reverse).sp +
        8 * r.slot) 8)) = regs.gpr := by
    funext r
    rw [pushAll_context_load h hlt (contextWords_slot r), hword]
  unfold contextRegs
  rw [hgpr, pushAll_context_load (j := 17) h hlt rfl,
    pushAll_context_load (j := 18) h hlt rfl,
    pushAll_context_load (j := 19) h hlt rfl,
    pushAll_context_load (j := 20) h hlt rfl,
    pushAll_context_load (j := 21) h hlt rfl,
    hword, hselector, hword, hword, hselector]

theorem pushAll_context_sp (h : contextSize <= s.sp) (hlt : s.sp < 2 ^ 64) :
    (s.pushAll (contextWords regs intNo errCode).reverse).sp =
      s.sp - contextSize :=
  WordStack.pushAll_sp (s := s) h hlt

theorem pushAll_context_keeps {a : Nat} (h : contextSize <= s.sp)
    (hlt : s.sp < 2 ^ 64)
    (ha : a + contextSize <= s.sp - contextSize ∨ s.sp <= a) :
    KeepsContext s.mem
      (s.pushAll (contextWords regs intNo errCode).reverse).mem a := by
  intro i hi
  apply WordStack.pushAll_outside
  · exact h
  · exact hlt
  · show a + i < s.sp - contextSize ∨ s.sp <= a + i
    lia

end Contexts

/-!
# The machine

One CPU with the scheduler and the memory.  The thread of `sched_init` runs on
the stack that the boot loader left, every other one on the block that it got
when it was created.
-/

structure Machine where
  run : SchedRun
  regs : Regs
  mem : ByteMemory

def Machine.current (m : Machine) : Nat :=
  (m.run.sched.cpus 0).schedThread

def Machine.rsp0 (m : Machine) : Nat :=
  (m.run.sched.cpus 0).tssRsp0

structure StackArea where
  low : Nat
  high : Nat

def StackArea.Apart (a b : StackArea) : Prop :=
  a.high <= b.low ∨ b.high <= a.low

def SchedRun.area (boot : StackArea) (r : SchedRun) (t : Nat) : StackArea :=
  match r.alive t with
  | some { spawned := true, .. } =>
      { low := (r.sched.threads t).stackLimit
        high := (r.sched.threads t).stackTop }
  | _ => boot

structure FreshStack (boot : StackArea) (r : SchedRun) (stack : Nat) :
    Prop where
  lt : stack + 8192 < 2 ^ 64
  apart : forall t, r.alive t ≠ none ->
    StackArea.Apart { low := stack, high := stack + 8192 } (r.area boot t)

/-- The running thread does not write into the frames of the others. -/
def KeepsFrames (m : Machine) (mem : ByteMemory) : Prop :=
  forall t, m.run.alive t ≠ none -> t ≠ m.current ->
    KeepsContext m.mem mem (m.run.sched.threads t).rsp

/-- In kernel mode the stack pointer lies in the thread's own stack, with room
for a frame; only a thread that has been spawned gets to user mode. -/
def OnOwnStack (boot : StackArea) (m : Machine) : Prop :=
  if m.regs.cs.toNat % 4 = 0 then
    (m.run.area boot m.current).low + contextSize <=
        m.regs.rsp.toNat / 16 * 16 ∧
      m.regs.rsp.toNat <= (m.run.area boot m.current).high
  else
    m.run.Spawned m.current

/-- `interrupt_handler` for the vectors of the interrupt controllers; vector
0x20 is the timer and `sched_yield`. -/
def interruptHandler (mem : ByteMemory) (s : SchedState)
    (c rsp tick ageTick : Nat) : Option RescheduleResult :=
  if contextIntNo mem rsp % 2 ^ 8 = 0x20 then
    schedReschedule s c rsp tick ageTick
  else
    some { ret := rsp, state := s, freed := [] }

def Machine.entry (m : Machine) (vector : Nat) : WordStack :=
  isrEntry m.mem m.regs m.rsp0 vector

def Machine.handled (m : Machine) (result : RescheduleResult) : SchedRun :=
  { m.run with
    sched := result.state
    alive := m.run.aliveAfter 0 result.state }

/-- An interrupt from its entry to `iretq`.  The handler leaves `mem` and `gpr`
behind; it writes neither into the frame that it returns nor into one that waits.
-/
inductive InterruptStep (boot : StackArea) (m : Machine)
    (vector tick ageTick : Nat) : Machine -> Prop where
  | mk {result : RescheduleResult} {mem : ByteMemory} {gpr : Reg -> UInt64} :
      OnOwnStack boot m -> 32 <= vector -> vector < 48 ->
      interruptHandler (m.entry vector).mem m.run.sched 0 (m.entry vector).sp
        tick ageTick = some result ->
      KeepsContext (m.entry vector).mem mem result.ret ->
      KeepsFrames
        { run := m.handled result
          regs := m.regs
          mem := (m.entry vector).mem } mem ->
      InterruptStep boot m vector tick ageTick
        { run := m.handled result
          regs := isrExit mem gpr result.ret
          mem := mem }

/-- The memory with the words that `*(--ptr) = ...` has written below `top`. -/
def writeFrame (mem : ByteMemory) (top : Nat) (frame : List Nat) :
    ByteMemory :=
  ({ mem := mem, sp := top : WordStack }.pushAll frame.reverse).mem

inductive MachineEvent where
  | work
  | spawn (thread : Nat) (entry : UInt64) (stack : Nat)
  | spawnUser (thread : Nat) (entry : UInt64) (ustack : Nat)
  | sched (event : SchedEvent)
  | interrupt (thread : Nat) (regs : Regs)

inductive MachineStep (boot : StackArea) :
    Machine -> MachineEvent -> Machine -> Prop where
  -- anything that the running thread does between two interrupts
  | work {m : Machine} {regs : Regs} {mem : ByteMemory} :
      KeepsFrames m mem ->
      MachineStep boot m MachineEvent.work
        { m with regs := regs, mem := mem }
  | spawn {m : Machine} {thread stack priority : Nat} {entry : UInt64}
      {name : Option (List UInt8)} :
      FreshThread m.run thread -> NameFits name ->
      FreshStack boot m.run stack ->
      MachineStep boot m (MachineEvent.spawn thread entry stack)
        { m with
          run := m.run.born
            (schedSpawn m.run.sched thread stack entry.toNat priority
              name).state thread
            (schedSpawn m.run.sched thread stack entry.toNat priority
              name).ret true
          mem := writeFrame m.mem (Word.add stack 8192)
            (schedSpawn m.run.sched thread stack entry.toNat priority
              name).frame }
  | spawnUser {m : Machine} {thread kstack ustack priority : Nat}
      {entry : UInt64} {name : Option (List UInt8)} :
      FreshThread m.run thread -> NameFits name ->
      FreshStack boot m.run kstack ->
      MachineStep boot m (MachineEvent.spawnUser thread entry ustack)
        { m with
          run := m.run.born
            (schedSpawnUser m.run.sched thread kstack ustack entry.toNat
              priority name).state thread
            (schedSpawnUser m.run.sched thread kstack ustack entry.toNat
              priority name).ret true
          mem := writeFrame m.mem (Word.add kstack 8192)
            (schedSpawnUser m.run.sched thread kstack ustack entry.toNat
              priority name).frame }
  -- `sched_sleep`, `sched_exit` and the locked sections of `sched_handoff`
  | sched {m : Machine} {event : SchedEvent} {run : SchedRun} :
      SchedStep m.run event run -> ¬ event.UsesHeap ->
      MachineStep boot m (MachineEvent.sched event) { m with run := run }
  | interrupt {m m' : Machine} {vector tick ageTick : Nat} :
      InterruptStep boot m vector tick ageTick m' ->
      MachineStep boot m (MachineEvent.interrupt m.current m.regs) m'

def machineSystem (ids : Nat -> Nat) (boot : StackArea) :
    TransitionSystem Machine MachineEvent where
  Init := fun m => (schedSystem 1 ids).Init m.run ∧ boot.high < 2 ^ 64
  Step := MachineStep boot

/-!
# What a thread is resumed with
-/

inductive LastSeen where
  | spawned (entry : UInt64) (stack : Nat)
  | spawnedUser (entry : UInt64) (ustack : Nat)
  | interrupted (regs : Regs)

def MachineEvent.seen : MachineEvent -> Nat -> Option LastSeen
  | .spawn thread entry stack, t =>
      if t = thread then some (LastSeen.spawned entry stack) else none
  | .spawnUser thread entry ustack, t =>
      if t = thread then some (LastSeen.spawnedUser entry ustack) else none
  | .interrupt thread regs, t =>
      if t = thread then some (LastSeen.interrupted regs) else none
  | _, _ => none

def lastSeen (trace : List MachineEvent) (t : Nat) : Option LastSeen :=
  trace.reverse.findSome? (fun event => event.seen t)

def firstRegs (entry : UInt64) (cs : UInt16) (rsp : Nat) (ss : UInt16) :
    Regs where
  gpr := fun _ => 0
  rip := entry
  cs := cs
  rflags := 0x202
  rsp := UInt64.ofNat rsp
  ss := ss

def LastSeen.regs : LastSeen -> Regs
  | .spawned entry stack =>
      firstRegs entry 0x08 (stack + 8192) 0x10
  | .spawnedUser entry ustack =>
      firstRegs entry 0x23 (ustack + 8192) 0x1B
  | .interrupted regs => regs

/-- The TSS and `cpu->kernel_stack` hold the top of the running thread's
stack. -/
def Machine.TopsSet (m : Machine) : Prop :=
  (m.run.sched.cpus 0).tssRsp0 =
      (m.run.sched.threads m.current).stackTop ∧
    (m.run.sched.cpus 0).kernelStack =
      (m.run.sched.threads m.current).stackTop

def Machine.Resumes (m : Machine) : LastSeen -> Prop
  | .spawned entry stack =>
      m.regs = firstRegs entry 0x08 (stack + 8192) 0x10 ∧ m.TopsSet
  | .spawnedUser entry ustack =>
      m.regs = firstRegs entry 0x23 (ustack + 8192) 0x1B ∧ m.TopsSet
  | .interrupted regs => m.regs = regs

end Sched
end Barium
