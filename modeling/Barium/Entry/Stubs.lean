import Barium.Foundation.Asm
import Barium.Sched.Switch

/-!
# Entering and leaving the kernel

`interrupt.asm` and `syscall_entry.asm`, instruction by instruction.  An
interrupt leaves the same frame on the stack whatever its vector is, and a
handler that returns this frame resumes what was interrupted.  A system call
resumes the caller after the `syscall` instruction.
-/

namespace Barium
namespace Entry

open Foundation
open Function
open Asm
open Sched

/-!
# The stubs
-/

inductive Callee where
  | interruptHandler
  | syscallHandler
  deriving DecidableEq, Repr

abbrev Stub := List (Instr Reg Callee)

/-- `isr_common_stub` from `mov rsp, rax` on. -/
def isrAfterCall : Stub :=
  [Instr.setRsp Reg.rax, Instr.test 144 3, Instr.jz 1, Instr.swapgs] ++
    (stubPops.map Instr.pop ++ [Instr.addRsp 16, Instr.iretq])

def isrCommonStub : Stub :=
  stubPushes.map Instr.push ++
    ([Instr.test 144 3, Instr.jz 1, Instr.swapgs, Instr.movRsp Reg.rdi,
      Instr.call Callee.interruptHandler] ++ isrAfterCall)

def isrNoErrStub (vector : Nat) : Stub :=
  Instr.pushImm 0 :: Instr.pushImm vector :: isrCommonStub

def isrErrStub (vector : Nat) : Stub :=
  Instr.pushImm vector :: isrCommonStub

/-- The entries of `isr_stub_table`. -/
def isrStub (vector : Nat) : Stub :=
  if vector = 8 ∨ (10 <= vector ∧ vector <= 14) ∨ vector = 17 ∨ vector = 21 ∨
      vector = 29 ∨ vector = 30 then
    isrErrStub vector
  else isrNoErrStub vector

def syscallPushes : List Reg :=
  [Reg.r11, Reg.rcx, Reg.rbp, Reg.rbx, Reg.r12, Reg.r13, Reg.r14, Reg.r15,
    Reg.rdi, Reg.rsi, Reg.rdx]

def syscallPops : List Reg :=
  [Reg.rdx, Reg.rsi, Reg.rdi, Reg.r15, Reg.r14, Reg.r13, Reg.r12, Reg.rbx,
    Reg.rbp, Reg.rcx, Reg.r11]

def syscallAfterCall : Stub :=
  syscallPops.map Instr.pop ++
    [Instr.pushImm 0x1B, Instr.gsLoad Reg.rax 8, Instr.push Reg.rax,
      Instr.push Reg.r11, Instr.pushImm 0x23, Instr.push Reg.rcx,
      Instr.swapgs, Instr.iretq]

def syscallEntry : Stub :=
  [Instr.swapgs, Instr.gsStoreRsp 8, Instr.gsLoadRsp 0] ++
    (syscallPushes.map Instr.push ++
      ([Instr.mov Reg.rcx Reg.rdx, Instr.mov Reg.rdx Reg.rsi,
        Instr.mov Reg.rsi Reg.rdi, Instr.mov Reg.rdi Reg.rax,
        Instr.call Callee.syscallHandler] ++ syscallAfterCall))

/-!
# The hardware
-/

/-- The exceptions for which the processor pushes an error code. -/
def errorVectors : List Nat := [8, 10, 11, 12, 13, 14, 17, 21, 29, 30]

def errorCode (vector code : Nat) : List Nat :=
  if vector ∈ errorVectors then [code] else []

/-- `IF`, which interrupt gates and the mask of `syscall_init` clear. -/
def interruptFlag : UInt64 := 0x200

def trapFlag : UInt64 := 0x100

def nestedTask : UInt64 := 0x4000

/-- `TF`, `NT` and `RF`, which every gate clears. -/
def gateFlags : UInt64 := 0x14100

def deliverStack (core : Core Reg) (rsp0 : Nat) : WordStack :=
  { core.stack with
    sp := (if core.cs.toNat % 4 = 0 then core.stack.sp else rsp0) / 16 * 16 }

/-- An interrupt or an exception through an interrupt gate, before the first
instruction of its stub. -/
def deliver (core : Core Reg) (rip : UInt64) (rsp0 vector code : Nat) :
    Core Reg :=
  { core with
    stack := (deliverStack core rsp0).pushAll
      ([core.ss.toNat, core.stack.sp, core.rflags.toNat, core.cs.toNat,
        rip.toNat] ++ errorCode vector code)
    cs := 0x08
    rflags := core.rflags &&& ~~~(gateFlags ||| interruptFlag)
    ss := if core.cs.toNat % 4 = 0 then core.ss else 0 }

/-- The `syscall` instruction; `rip` is the address of the next one.  The
selectors come from the `STAR` of `syscall_init`. -/
def enterSyscall (core : Core Reg) (rip : UInt64) : Core Reg :=
  { core with
    gpr := update (update core.gpr Reg.rcx rip) Reg.r11
      core.rflags
    cs := 0x08
    rflags := core.rflags &&& ~~~interruptFlag
    ss := 0x10 }

/-!
# Interrupts
-/

def KernelFrame (core : Core Reg) : Prop :=
  (core.stack.skip 144).top % 4 = 0

instance (core : Core Reg) : Decidable (KernelFrame core) :=
  inferInstanceAs (Decidable ((core.stack.skip 144).top % 4 = 0))

/-- `swapgs` unless the frame is for kernel mode. -/
def swapFor (core : Core Reg) : Core Reg :=
  { core with
    gsBase := if KernelFrame core then core.gsBase else core.kernelGsBase
    kernelGsBase :=
      if KernelFrame core then core.kernelGsBase else core.gsBase
    zf := decide (KernelFrame core) }

theorem toExit_swapFor (rest : Stub) (core : Core Reg) :
    toExit (Instr.test 144 3 :: Instr.jz 1 :: Instr.swapgs :: rest) 0 core =
      toExit rest 0 (swapFor core) := by
  have hmask : ((core.stack.skip 144).top &&& 3 = 0) = KernelFrame core :=
    congrArg (fun x => x = 0) (Word.and_low_mask _ 2)
  rw [toExit_cons rfl, Instr.exec]
  unfold swapFor
  by_cases hsame : KernelFrame core
  · rw [if_pos hsame, if_pos hsame, decide_eq_true (hmask ▸ hsame),
      decide_eq_true hsame]
    rfl
  · rw [if_neg hsame, if_neg hsame, decide_eq_false (hmask ▸ hsame),
      decide_eq_false hsame]
    rfl

def contextErrCode (mem : ByteMemory) (a : Nat) : Nat :=
  ByteMemory.loadLE mem (a + 8 * 16) 8

def frameCode (vector code : Nat) : Nat :=
  if vector ∈ errorVectors then code else 0

def framePushes (core : Core Reg) (rip : UInt64) (vector code : Nat) :
    List Nat :=
  [core.ss.toNat, core.stack.sp, core.rflags.toNat, core.cs.toNat, rip.toNat,
    frameCode vector code, vector] ++
  stubPushes.map (fun r => (core.gpr r).toNat)

/-- The stub pushes a zero exactly where the processor pushes no error code. -/
theorem isrStub_toExit (core : Core Reg) (rip : UInt64)
    {rsp0 vector code : Nat} (hvector : vector < 48) :
    toExit (isrStub vector) 0 (deliver core rip rsp0 vector code) =
      toExit isrCommonStub 0
        { deliver core rip rsp0 vector code with
          stack := (deliverStack core rsp0).pushAll
            [core.ss.toNat, core.stack.sp, core.rflags.toNat, core.cs.toNat,
              rip.toNat, frameCode vector code, vector] } := by
  have hagree : forall v, v < 48 ->
      ((v = 8 ∨ (10 <= v ∧ v <= 14) ∨ v = 17 ∨ v = 21 ∨ v = 29 ∨ v = 30) <->
        v ∈ errorVectors) := by
    decide
  unfold isrStub deliver errorCode frameCode
  rw [if_congr (hagree vector hvector) rfl rfl]
  split
  case isTrue h =>
      rw [isrErrStub, toExit_cons rfl]
      exact congrArg (toExit isrCommonStub 0) rfl
  case isFalse h =>
      rw [isrNoErrStub, toExit_cons rfl, toExit_cons rfl]
      exact congrArg (toExit isrCommonStub 0) rfl

def framed (core : Core Reg) (rip : UInt64) (rsp0 vector code : Nat) :
    Core Reg :=
  { deliver core rip rsp0 vector code with
    stack := (deliverStack core rsp0).pushAll
      (framePushes core rip vector code) }

def handlerCore (core : Core Reg) (rip : UInt64) (rsp0 vector code : Nat) :
    Core Reg :=
  { swapFor (framed core rip rsp0 vector code) with
    gpr := update (swapFor (framed core rip rsp0 vector code)).gpr
      Reg.rdi (UInt64.ofNat
        (swapFor (framed core rip rsp0 vector code)).stack.sp) }

theorem isrStub_calls (core : Core Reg) (rip : UInt64)
    {rsp0 vector code : Nat} (hvector : vector < 48) :
    toExit (isrStub vector) 0 (deliver core rip rsp0 vector code) =
      some (Exit.call Callee.interruptHandler isrAfterCall
        (handlerCore core rip rsp0 vector code)) := by
  have hpushes : ((deliverStack core rsp0).pushAll
      [core.ss.toNat, core.stack.sp, core.rflags.toNat, core.cs.toNat,
        rip.toNat, frameCode vector code, vector]).pushAll
      (stubPushes.map (fun r => (core.gpr r).toNat)) =
      (deliverStack core rsp0).pushAll (framePushes core rip vector code) := by
    unfold framePushes WordStack.pushAll
    rw [List.foldl_append]
  rw [isrStub_toExit core rip hvector, isrCommonStub, toExit_pushes]
  show toExit (Instr.test 144 3 :: Instr.jz 1 :: Instr.swapgs ::
    Instr.movRsp Reg.rdi :: Instr.call Callee.interruptHandler ::
    isrAfterCall) 0 { deliver core rip rsp0 vector code with
      stack := ((deliverStack core rsp0).pushAll _).pushAll
        (stubPushes.map (fun r => (core.gpr r).toNat)) } = _
  rw [hpushes, toExit_swapFor, toExit_cons rfl]
  rfl

theorem kernelFrame_framed (core : Core Reg) (rip : UInt64)
    (rsp0 vector code : Nat) :
    KernelFrame (framed core rip rsp0 vector code) <->
      core.cs.toNat % 4 = 0 := by
  have hload : (((deliverStack core rsp0).pushAll
      (framePushes core rip vector code)).skip (8 * 18)).top =
      core.cs.toNat % 2 ^ 64 :=
    WordStack.top_skip_pushAll (by simp [framePushes, stubPushes]) rfl
  rw [Nat.mod_eq_of_lt (Nat.lt_trans core.cs.toNat_lt (by decide))] at hload
  unfold KernelFrame framed
  rw [hload]

theorem handlerCore_gs (core : Core Reg) (rip : UInt64)
    (rsp0 vector code : Nat) :
    (handlerCore core rip rsp0 vector code).gsBase =
        (if core.cs.toNat % 4 = 0 then core.gsBase
          else core.kernelGsBase) ∧
      (handlerCore core rip rsp0 vector code).kernelGsBase =
        (if core.cs.toNat % 4 = 0 then core.kernelGsBase
          else core.gsBase) := by
  have hring := kernelFrame_framed core rip rsp0 vector code
  have hgs : (framed core rip rsp0 vector code).gsBase = core.gsBase := by
    unfold framed deliver
    rfl
  have hkernel : (framed core rip rsp0 vector code).kernelGsBase =
      core.kernelGsBase := by
    unfold framed deliver
    rfl
  unfold handlerCore swapFor
  rw [if_congr hring rfl rfl, if_congr hring rfl rfl, hgs, hkernel]
  exact ⟨rfl, rfl⟩

theorem handlerCore_stack (core : Core Reg) (rip : UInt64)
    (rsp0 vector code : Nat) :
    (handlerCore core rip rsp0 vector code).stack =
      (deliverStack core rsp0).pushAll (framePushes core rip vector code) :=
  rfl

theorem handlerCore_rdi (core : Core Reg) (rip : UInt64)
    (rsp0 vector code : Nat) :
    (handlerCore core rip rsp0 vector code).gpr Reg.rdi =
      UInt64.ofNat (handlerCore core rip rsp0 vector code).stack.sp := by
  unfold handlerCore
  dsimp only
  rw [update_self]

theorem selector_ring (w : Nat) : (UInt16.ofNat w).toNat % 4 = w % 4 := by
  rw [UInt16.toNat_ofNat', Nat.mod_mod_of_dvd _ (by decide)]

/-- The processor after `mov rsp, rax`. -/
def onFrame (core : Core Reg) : Core Reg :=
  { core with stack := { core.stack with sp := (core.gpr Reg.rax).toNat } }

/-- The processor right before `iretq`. -/
def beforeIretq (core : Core Reg) : Core Reg :=
  { swapFor (onFrame core) with
    gpr := (popAll stubPops core.gpr (onFrame core).stack).1
    stack := (popAll stubPops core.gpr (onFrame core).stack).2.skip 16 }

theorem toExit_addRsp (n : Nat) (core : Core Reg) :
    toExit ([Instr.addRsp n, Instr.iretq] : Stub) 0 core =
      some (Exit.iretq
        { core with stack := core.stack.skip n }.iretq.1
        { core with stack := core.stack.skip n }.iretq.2) := by
  rw [toExit_cons rfl, toExit_iretq]
  rfl

theorem isrAfterCall_toExit (core : Core Reg) :
    toExit isrAfterCall 0 core =
      some (Exit.iretq (beforeIretq core).iretq.1
        (beforeIretq core).iretq.2) := by
  have hloaded : (Instr.setRsp Reg.rax : Instr Reg Callee).exec core =
      onFrame core := rfl
  have hgpr : (swapFor (onFrame core)).gpr = core.gpr := rfl
  have hstack : (swapFor (onFrame core)).stack = (onFrame core).stack := rfl
  unfold isrAfterCall beforeIretq
  rw [List.cons_append, toExit_cons rfl, List.cons_append, List.cons_append,
    List.cons_append, List.nil_append, toExit_swapFor, toExit_pops,
    toExit_addRsp, hloaded, hgpr, hstack]

theorem beforeIretq_gs (core : Core Reg) :
    (beforeIretq core).gsBase =
        (if KernelFrame (onFrame core) then core.gsBase
          else core.kernelGsBase) ∧
      (beforeIretq core).kernelGsBase =
        (if KernelFrame (onFrame core) then core.kernelGsBase
          else core.gsBase) := by
  have hgs : (onFrame core).gsBase = core.gsBase := by
    unfold onFrame
    rfl
  have hkernel : (onFrame core).kernelGsBase = core.kernelGsBase := by
    unfold onFrame
    rfl
  unfold beforeIretq swapFor
  rw [hgs, hkernel]
  dsimp only
  exact ⟨rfl, rfl⟩

/-- `iretq` loads the selector that the stub has tested. -/
theorem beforeIretq_cs (core : Core Reg) :
    (beforeIretq core).iretq.2.cs.toNat % 4 = 0 <->
      KernelFrame (onFrame core) := by
  have hframe : (onFrame core).stack = (onFrame core).stack.skip 0 := by
    have hlt : (onFrame core).stack.sp < 2 ^ 64 :=
      (core.gpr Reg.rax).toNat_lt
    unfold WordStack.skip
    rw [Word.add_zero hlt]
  have hstack : (popAll stubPops core.gpr (onFrame core).stack).2 =
      (onFrame core).stack.skip (0 + 8 * stubPops.length) := by
    rw [← popAll_stack stubPops core.gpr, ← hframe]
  show (UInt16.ofNat (((popAll stubPops core.gpr
    (onFrame core).stack).2.skip 16).skip 8).top).toNat % 4 = 0 <-> _
  rw [selector_ring, hstack, WordStack.skip_skip, WordStack.skip_skip]
  rfl

/-- `isr_common_stub` goes back to the frame that it gets in `rax`, with the GS
base of the ring that the frame is for. -/
theorem isrAfterCall_returns (core : Core Reg) :
    exists rip core',
      toExit isrAfterCall 0 core = some (Exit.iretq rip core') ∧
      regsAt rip core' =
        isrExit core.stack.mem core.gpr (core.gpr Reg.rax).toNat ∧
      core'.gsBase = (if core'.cs.toNat % 4 = 0 then core.gsBase
        else core.kernelGsBase) ∧
      core'.kernelGsBase = (if core'.cs.toNat % 4 = 0 then core.kernelGsBase
        else core.gsBase) := by
  refine ⟨_, _, isrAfterCall_toExit core, ?_, ?_⟩
  · unfold isrExit beforeIretq regsAt Core.iretq poppedCore
    rfl
  · rw [Core.iretq_gsBase, Core.iretq_kernelGsBase, (beforeIretq_gs core).left,
      (beforeIretq_gs core).right]
    by_cases hsame : KernelFrame (onFrame core)
    · have hcs := (beforeIretq_cs core).mpr hsame
      rw [if_pos hsame, if_pos hsame, if_pos hcs, if_pos hcs]
      exact ⟨rfl, rfl⟩
    · have hcs := mt (beforeIretq_cs core).mp hsame
      rw [if_neg hsame, if_neg hsame, if_neg hcs, if_neg hcs]
      exact ⟨rfl, rfl⟩

/-!
# A handler that returns its frame
-/

section Frames

variable {core : Core Reg} {rip : UInt64} {rsp0 vector code : Nat}

theorem framePushes_eq (hsp : core.stack.sp < 2 ^ 64) :
    framePushes core rip vector code =
      (contextWords (regsAt rip core) vector
        (frameCode vector code)).reverse := by
  have hrsp : (UInt64.ofNat core.stack.sp).toNat = core.stack.sp :=
    UInt64.toNat_ofNat_of_lt' hsp
  unfold contextWords regsAt
  rw [hrsp]
  rfl

theorem deliverStack_lt (hsp : core.stack.sp < 2 ^ 64)
    (hrsp0 : rsp0 < 2 ^ 64) : (deliverStack core rsp0).sp < 2 ^ 64 := by
  unfold deliverStack
  refine Nat.lt_of_le_of_lt (Nat.div_mul_le_self _ _) ?_
  split
  case isTrue => exact hsp
  case isFalse => exact hrsp0

theorem handlerCore_isrEntry (hsp : core.stack.sp < 2 ^ 64)
    (hvector : 32 <= vector) :
    (handlerCore core rip rsp0 vector code).stack =
      isrEntry core.stack.mem (regsAt rip core) rsp0 vector := by
  have hrsp : (UInt64.ofNat core.stack.sp).toNat = core.stack.sp :=
    UInt64.toNat_ofNat_of_lt' hsp
  have hcode : frameCode vector code = 0 := by
    apply if_neg
    intro hmem
    have hall : forall v, v ∈ errorVectors -> v < 32 := by decide
    exact absurd (hall vector hmem) (Nat.not_lt.mpr hvector)
  have hstack : deliverStack core rsp0 =
      { mem := core.stack.mem, sp := entryStack (regsAt rip core) rsp0 } := by
    unfold deliverStack entryStack regsAt
    rw [hrsp]
  rw [handlerCore_stack, framePushes_eq hsp, hcode, hstack, isrEntry,
    entryPushes_eq]

theorem isrStub_resumes (hvector : vector < 48)
    (hsp : core.stack.sp < 2 ^ 64) (hrsp0 : rsp0 < 2 ^ 64)
    (hroom : contextSize <= (deliverStack core rsp0).sp) :
    exists called : Core Reg,
      toExit (isrStub vector) 0 (deliver core rip rsp0 vector code) =
        some (Exit.call Callee.interruptHandler isrAfterCall called) ∧
      (32 <= vector -> called.stack =
        isrEntry core.stack.mem (regsAt rip core) rsp0 vector) ∧
      (called.gpr Reg.rdi).toNat = called.stack.sp ∧
      contextRegs called.stack.mem called.stack.sp = regsAt rip core ∧
      contextIntNo called.stack.mem called.stack.sp = vector ∧
      contextErrCode called.stack.mem called.stack.sp =
        frameCode vector code % 2 ^ 64 ∧
      forall returned : Core Reg,
        (returned.gpr Reg.rax).toNat = called.stack.sp ->
        KeepsContext called.stack.mem returned.stack.mem called.stack.sp ->
        returned.gsBase = called.gsBase ->
        returned.kernelGsBase = called.kernelGsBase ->
        exists rip' core',
          toExit isrAfterCall 0 returned = some (Exit.iretq rip' core') ∧
          regsAt rip' core' = regsAt rip core ∧
          core'.gsBase = core.gsBase ∧
          core'.kernelGsBase = core.kernelGsBase := by
  have hlt := deliverStack_lt hsp hrsp0
  have hstack := handlerCore_stack core rip rsp0 vector code
  rw [framePushes_eq hsp] at hstack
  have hframe : (handlerCore core rip rsp0 vector code).stack.sp =
      (deliverStack core rsp0).sp - contextSize := by
    rw [hstack]
    exact pushAll_context_sp hroom hlt
  have hend : (handlerCore core rip rsp0 vector code).stack.sp +
      contextSize < 2 ^ 64 := by
    rw [hframe, Nat.sub_add_cancel hroom]
    exact hlt
  have hregs : contextRegs (handlerCore core rip rsp0 vector code).stack.mem
      (handlerCore core rip rsp0 vector code).stack.sp = regsAt rip core := by
    rw [hstack]
    exact pushAll_context hroom hlt
  refine ⟨handlerCore core rip rsp0 vector code,
    isrStub_calls core rip hvector, handlerCore_isrEntry hsp, ?_, hregs,
    ?_, ?_, ?_⟩
  · rw [handlerCore_rdi]
    exact UInt64.toNat_ofNat_of_lt'
      (Nat.lt_of_le_of_lt (Nat.le_add_right _ _) hend)
  · unfold contextIntNo
    rw [hstack, pushAll_context_load (j := 15) hroom hlt rfl]
    exact Nat.mod_eq_of_lt (Nat.lt_trans hvector (by decide))
  · unfold contextErrCode
    rw [hstack, pushAll_context_load (j := 16) hroom hlt rfl]
  · intro returned hrax hkept hgs hkernel
    rcases isrAfterCall_returns returned with
      ⟨rip', core', hexit, hregs', hgs', hkernel'⟩
    have hsame : regsAt rip' core' = regsAt rip core := by
      rw [hregs', hrax, isrExit_eq hend, contextRegs_congr hkept, hregs]
    have hcs : core'.cs = core.cs := congrArg Regs.cs hsame
    have hentry := handlerCore_gs core rip rsp0 vector code
    refine ⟨rip', core', hexit, hsame, ?_, ?_⟩
    · rw [hgs', hcs, hgs, hkernel, hentry.left, hentry.right]
      split
      case isTrue => rfl
      case isFalse => rfl
    · rw [hkernel', hcs, hgs, hkernel, hentry.left, hentry.right]
      split
      case isTrue => rfl
      case isFalse => rfl

end Frames

/-- A user program; the record of its CPU is at 0x7000, with 0x6000 as
`kernel_stack`. -/
def userCore : Core Reg where
  gpr := fun _ => 5
  stack := { mem := fun a => if a = 0x7001 then 0x60 else 0, sp := 0x9000 }
  cs := 0x23
  rflags := 0x202
  ss := 0x1B
  gsBase := 7
  kernelGsBase := 0x7000
  zf := false

theorem isrStub_resumes_pageFault :
    exists called : Core Reg,
      toExit (isrStub 14) 0 (deliver userCore 0x400000 0x6000 14 4) =
        some (Exit.call Callee.interruptHandler isrAfterCall called) ∧
      contextRegs called.stack.mem called.stack.sp =
        regsAt 0x400000 userCore ∧
      contextErrCode called.stack.mem called.stack.sp = 4 := by
  rcases @isrStub_resumes userCore 0x400000 0x6000 14 4 (by decide)
    (by decide) (by decide) (by decide) with
    ⟨called, hcall, _, _, hregs, _, hcode, _⟩
  exact ⟨called, hcall, hregs, hcode⟩

/-!
# System calls
-/

/-- The stack on which `syscall_entry` saves the caller: `cpu->user_rsp` holds
the caller's stack pointer, and `cpu->kernel_stack` is the new one. -/
def syscallStack (core : Core Reg) : WordStack :=
  let mem := ByteMemory.storeLE core.stack.mem
    (Word.add core.kernelGsBase 8) 8 core.stack.sp
  { mem := mem
    sp := ByteMemory.loadLE mem (Word.add core.kernelGsBase 0) 8 }

def syscallWords (core : Core Reg) (rip : UInt64) : List Nat :=
  syscallPushes.map (fun r => ((enterSyscall core rip).gpr r).toNat)

/-- The arguments of `syscall_handler` in the order of the C convention. -/
def syscallArgs (gpr : Reg -> UInt64) : Reg -> UInt64 :=
  let gpr1 := update gpr Reg.rcx (gpr Reg.rdx)
  let gpr2 := update gpr1 Reg.rdx (gpr1 Reg.rsi)
  let gpr3 := update gpr2 Reg.rsi (gpr2 Reg.rdi)
  update gpr3 Reg.rdi (gpr3 Reg.rax)

/-- The processor when `syscall_entry` calls `syscall_handler`. -/
def syscallCore (core : Core Reg) (rip : UInt64) : Core Reg :=
  { enterSyscall core rip with
    gpr := syscallArgs (enterSyscall core rip).gpr
    stack := (syscallStack core).pushAll (syscallWords core rip)
    gsBase := core.kernelGsBase
    kernelGsBase := core.gsBase }

theorem toExit_syscallArgs (rest : Stub) (core : Core Reg) :
    toExit ([Instr.mov Reg.rcx Reg.rdx, Instr.mov Reg.rdx Reg.rsi,
      Instr.mov Reg.rsi Reg.rdi, Instr.mov Reg.rdi Reg.rax,
      Instr.call Callee.syscallHandler] ++ rest) 0 core =
    some (Exit.call Callee.syscallHandler rest
      { core with gpr := syscallArgs core.gpr }) :=
  rfl

theorem syscallEntry_calls (core : Core Reg) (rip : UInt64) :
    toExit syscallEntry 0 (enterSyscall core rip) =
      some (Exit.call Callee.syscallHandler syscallAfterCall
        (syscallCore core rip)) := by
  have hswapped : (Instr.gsLoadRsp 0 : Instr Reg Callee).exec
      ((Instr.gsStoreRsp 8 : Instr Reg Callee).exec
        ((Instr.swapgs : Instr Reg Callee).exec (enterSyscall core rip))) =
      { enterSyscall core rip with
        stack := syscallStack core
        gsBase := core.kernelGsBase
        kernelGsBase := core.gsBase } := rfl
  unfold syscallEntry
  rw [List.cons_append, toExit_cons rfl, List.cons_append, toExit_cons rfl,
    List.cons_append, toExit_cons rfl, List.nil_append, hswapped,
    toExit_pushes, toExit_syscallArgs]
  rfl

theorem syscallWords_get {k : Nat} {r : Reg} (hr : syscallPops[k]? = some r)
    (core : Core Reg) (rip : UInt64) :
    (syscallWords core rip).reverse[k]? =
      some ((enterSyscall core rip).gpr r).toNat := by
  have hreverse : (syscallWords core rip).reverse =
      syscallPops.map (fun r => ((enterSyscall core rip).gpr r).toNat) := rfl
  rw [hreverse, List.getElem?_map, hr]
  rfl

def Canonical (a : UInt64) : Prop :=
  a.toNat < 2 ^ 47 ∨ 2 ^ 64 - 2 ^ 47 <= a.toNat

instance (a : UInt64) : Decidable (Canonical a) :=
  inferInstanceAs (Decidable (_ ∨ _))

/-- The way out of a stub unless an exception comes first: with `TF` set the
processor raises one at the first instruction, and it refuses an `iretq` with
`NT` set or to an address that is not canonical. -/
def stubExit (prog : Stub) (core : Core Reg) : Option (Exit Reg Callee) :=
  if core.rflags &&& trapFlag = 0 then
    match toExit prog 0 core with
    | some (.iretq rip core') =>
        if core.rflags &&& nestedTask = 0 ∧ Canonical rip then
          some (Exit.iretq rip core')
        else none
    | exit => exit
  else none

/-- What `syscall_handler` leaves as it was: the frame of `syscall_entry`, the
word `cpu->user_rsp`, the stack pointer, the GS bases and two flags. -/
structure KeepsSyscall (cpu top : Nat) (called returned : Core Reg) :
    Prop where
  sp : returned.stack.sp = called.stack.sp
  frame : forall b, called.stack.sp <= b -> b < top ->
    returned.stack.mem b = called.stack.mem b
  userRsp : forall b, cpu + 8 <= b -> b < cpu + 16 ->
    returned.stack.mem b = called.stack.mem b
  gsBase : returned.gsBase = called.gsBase
  kernelGsBase : returned.kernelGsBase = called.kernelGsBase
  trap : returned.rflags &&& trapFlag = called.rflags &&& trapFlag
  nested : returned.rflags &&& nestedTask = called.rflags &&& nestedTask

def beforeSysret (core : Core Reg) (gpr : Reg -> UInt64) (s : WordStack) :
    Core Reg :=
  let rsp := UInt64.ofNat (ByteMemory.loadLE (s.push 0x1B).mem
    (Word.add core.gsBase 8) 8)
  { core with
    gpr := update gpr Reg.rax rsp
    stack := s.pushAll
      [0x1B, rsp.toNat, (gpr Reg.r11).toNat, 0x23, (gpr Reg.rcx).toNat]
    gsBase := core.kernelGsBase
    kernelGsBase := core.gsBase }

theorem toExit_sysret (core : Core Reg) (gpr : Reg -> UInt64)
    (s : WordStack) :
    toExit ([Instr.pushImm 0x1B, Instr.gsLoad Reg.rax 8, Instr.push Reg.rax,
      Instr.push Reg.r11, Instr.pushImm 0x23, Instr.push Reg.rcx,
      Instr.swapgs, Instr.iretq] : Stub) 0
      { core with gpr := gpr, stack := s } =
    some (Exit.iretq (beforeSysret core gpr s).iretq.1
      (beforeSysret core gpr s).iretq.2) := by
  have hother : forall v, update gpr Reg.rax v Reg.r11 = gpr Reg.r11 ∧
      update gpr Reg.rax v Reg.rcx = gpr Reg.rcx := by
    intro v
    exact ⟨update_of_ne (by decide) _ _,
      update_of_ne (by decide) _ _⟩
  have hlast : forall core : Core Reg,
      toExit ([Instr.swapgs, Instr.iretq] : Stub) 0 core =
        some (Exit.iretq
          { core with
            gsBase := core.kernelGsBase, kernelGsBase := core.gsBase }.iretq.1
          { core with
            gsBase := core.kernelGsBase
            kernelGsBase := core.gsBase }.iretq.2) := fun _ => rfl
  rw [toExit_cons rfl, toExit_cons rfl, toExit_cons rfl, toExit_cons rfl,
    toExit_cons rfl, toExit_cons rfl, hlast]
  simp only [Instr.exec, update_self, (hother _).left,
    (hother _).right]
  rfl

/-- The caller gets the two words that the stub has popped and the stack
pointer that it has loaded. -/
theorem beforeSysret_iretq (core : Core Reg) (gpr : Reg -> UInt64)
    (s : WordStack) {rsp : Nat}
    (hrsp : ByteMemory.loadLE (s.push 0x1B).mem
      (Word.add core.gsBase 8) 8 = rsp) :
    exists core', (beforeSysret core gpr s).iretq = (gpr Reg.rcx, core') ∧
      core'.gpr = update gpr Reg.rax (UInt64.ofNat rsp) ∧
      core'.stack.sp = rsp ∧ core'.rflags = gpr Reg.r11 ∧
      core'.cs = 0x23 ∧ core'.ss = 0x1B ∧
      core'.gsBase = core.kernelGsBase ∧
      core'.kernelGsBase = core.gsBase := by
  have hlt : rsp < 2 ^ 64 := by
    rw [← hrsp]
    exact ByteMemory.loadLE_lt _ _ 8
  have hword : forall x : UInt64, UInt64.ofNat (x.toNat % 2 ^ 64) = x := by
    intro x
    rw [Nat.mod_eq_of_lt x.toNat_lt, UInt64.ofNat_toNat]
  have hsp : (UInt64.ofNat rsp).toNat % 2 ^ 64 = rsp := by
    rw [UInt64.toNat_ofNat_of_lt' hlt, Nat.mod_eq_of_lt hlt]
  have hiretq := iretq_pushAll
    { core with
      gpr := update gpr Reg.rax (UInt64.ofNat rsp)
      gsBase := core.kernelGsBase
      kernelGsBase := core.gsBase } s 0x1B (UInt64.ofNat rsp).toNat
      (gpr Reg.r11).toNat 0x23 (gpr Reg.rcx).toNat
  rw [hword, hword, hsp] at hiretq
  unfold beforeSysret
  rw [hrsp]
  exact ⟨_, hiretq, rfl, rfl, rfl, rfl, rfl, rfl, rfl⟩

/-- What `syscall_entry` relies on: the GS base of the kernel is the record of
the CPU, `kernel_stack` has room for the frame, apart from the two words of the
record, and the caller has set neither `TF` nor `NT`, which the mask of
`syscall_init` does not clear. -/
structure SyscallReady (cpu top : Nat) (core : Core Reg) : Prop where
  kernelGsBase : core.kernelGsBase = cpu
  cpu_lt : cpu + 16 < 2 ^ 64
  sp_lt : core.stack.sp < 2 ^ 64
  kernelStack : ByteMemory.loadLE core.stack.mem cpu 8 = top
  room : 88 <= top
  apart : top <= cpu ∨ cpu + 16 <= top - 88
  trap : core.rflags &&& trapFlag = 0
  nested : core.rflags &&& nestedTask = 0

section Syscalls

variable {core : Core Reg} {rip : UInt64} {cpu top : Nat}

theorem SyscallReady.top_lt (h : SyscallReady cpu top core) :
    top < 2 ^ 64 := by
  rw [← h.kernelStack]
  exact ByteMemory.loadLE_lt core.stack.mem cpu 8

theorem SyscallReady.flags (h : SyscallReady cpu top core) :
    (enterSyscall core rip).rflags &&& trapFlag = 0 ∧
      (enterSyscall core rip).rflags &&& nestedTask = 0 := by
  have hkeep : forall flag : UInt64, ~~~interruptFlag &&& flag = flag ->
      (enterSyscall core rip).rflags &&& flag = core.rflags &&& flag := by
    intro flag hflag
    show core.rflags &&& ~~~interruptFlag &&& flag = _
    rw [UInt64.and_assoc, hflag]
  rw [hkeep trapFlag (by decide), hkeep nestedTask (by decide)]
  exact ⟨h.trap, h.nested⟩

theorem SyscallReady.stack (h : SyscallReady cpu top core) :
    syscallStack core =
      { mem := ByteMemory.storeLE core.stack.mem (cpu + 8) 8 core.stack.sp
        sp := top } := by
  have hlt := h.cpu_lt
  unfold syscallStack
  dsimp only
  rw [h.kernelGsBase, Word.add_of_lt (by lia), Word.add_zero (by lia),
    ByteMemory.loadLE_storeLE_outside _ _ (Or.inl (by lia)), h.kernelStack]

theorem SyscallReady.sp (h : SyscallReady cpu top core) :
    (syscallCore core rip).stack.sp = top - 88 := by
  have hsp : ((syscallStack core).pushAll (syscallWords core rip)).sp =
      (syscallStack core).sp - 8 * (syscallWords core rip).length := by
    rw [h.stack]
    exact WordStack.pushAll_sp h.room h.top_lt
  unfold syscallCore
  dsimp only
  rw [hsp, h.stack]
  rfl

theorem SyscallReady.saved (h : SyscallReady cpu top core) {k : Nat} {r : Reg}
    (hr : syscallPops[k]? = some r) :
    ByteMemory.loadLE (syscallCore core rip).stack.mem
      ((syscallCore core rip).stack.sp + 8 * k) 8 =
        ((enterSyscall core rip).gpr r).toNat := by
  have hload : ByteMemory.loadLE
      ((syscallStack core).pushAll (syscallWords core rip)).mem
      (((syscallStack core).pushAll (syscallWords core rip)).sp + 8 * k) 8 =
      ((enterSyscall core rip).gpr r).toNat % 2 ^ 64 := by
    rw [h.stack]
    exact WordStack.load_pushAll h.room h.top_lt (syscallWords_get hr core rip)
  rw [Nat.mod_eq_of_lt (UInt64.toNat_lt _)] at hload
  exact hload

theorem SyscallReady.savedRsp (h : SyscallReady cpu top core) :
    ByteMemory.loadLE (syscallCore core rip).stack.mem (cpu + 8) 8 =
      core.stack.sp := by
  have hkept : ByteMemory.loadLE (syscallCore core rip).stack.mem
      (cpu + 8) 8 =
      ByteMemory.loadLE (syscallStack core).mem (cpu + 8) 8 := by
    apply ByteMemory.loadLE_congr
    intro i hi
    show ((syscallStack core).pushAll (syscallWords core rip)).mem _ = _
    have hroom := h.room
    have hapart := h.apart
    rw [h.stack]
    have hlen : 8 * (syscallWords core rip).length <= top := h.room
    refine WordStack.pushAll_outside hlen h.top_lt ?_
    show cpu + 8 + i < top - 88 ∨ top <= cpu + 8 + i
    lia
  rw [hkept, h.stack, ByteMemory.loadLE_storeLE]
  exact Nat.mod_eq_of_lt h.sp_lt

theorem SyscallReady.popped (h : SyscallReady cpu top core)
    {returned : Core Reg}
    (hkept : KeepsSyscall cpu top (syscallCore core rip) returned) {r : Reg}
    (hmem : r ∈ syscallPops) :
    (popAll syscallPops returned.gpr returned.stack).1 r =
      (enterSyscall core rip).gpr r := by
  rcases List.mem_iff_getElem?.mp hmem with ⟨k, hr⟩
  have hroom := h.room
  have htop := h.top_lt
  have hsp : returned.stack.sp = top - 88 := by rw [hkept.sp, h.sp]
  have hk : k < 11 := (List.getElem?_eq_some_iff.mp hr).1
  have hstart : returned.stack = returned.stack.skip 0 := by
    unfold WordStack.skip
    rw [Word.add_zero (by lia)]
  have hload : ByteMemory.loadLE returned.stack.mem
      (returned.stack.sp + 8 * k) 8 =
      ((enterSyscall core rip).gpr r).toNat := by
    rw [← h.saved hr, ← hkept.sp]
    apply ByteMemory.loadLE_congr
    intro i hi
    apply hkept.frame
    · rw [← hkept.sp]
      lia
    · lia
  rw [hstart, popAll_get (by decide) hr, Nat.zero_add,
    WordStack.top_skip (by lia), hload, UInt64.ofNat_toNat]

theorem SyscallReady.poppedStack (h : SyscallReady cpu top core)
    {returned : Core Reg}
    (hkept : KeepsSyscall cpu top (syscallCore core rip) returned) :
    (popAll syscallPops returned.gpr returned.stack).2 =
      { mem := returned.stack.mem, sp := top } := by
  have hroom := h.room
  have htop := h.top_lt
  have hsp : returned.stack.sp = top - 88 := by rw [hkept.sp, h.sp]
  have hstart : returned.stack = returned.stack.skip 0 := by
    unfold WordStack.skip
    rw [Word.add_zero (by lia)]
  rw [hstart, popAll_stack]
  unfold WordStack.skip
  rw [show 0 + 8 * syscallPops.length = 88 from rfl,
    Word.add_of_lt (by lia), hsp, Nat.sub_add_cancel hroom]

theorem SyscallReady.loadedRsp (h : SyscallReady cpu top core)
    {returned : Core Reg}
    (hkept : KeepsSyscall cpu top (syscallCore core rip) returned) :
    ByteMemory.loadLE
      (({ mem := returned.stack.mem, sp := top } : WordStack).push 0x1B).mem
      (Word.add returned.gsBase 8) 8 = core.stack.sp := by
  have hroom := h.room
  have htop := h.top_lt
  have hapart := h.apart
  have hlt := h.cpu_lt
  have hgs : returned.gsBase = cpu := by
    rw [hkept.gsBase]
    exact h.kernelGsBase
  have hsaved : ByteMemory.loadLE (syscallCore core rip).stack.mem
      (cpu + 8) 8 = core.stack.sp := h.savedRsp
  rw [← hsaved, hgs, Word.add_of_lt (by lia),
    WordStack.push, Word.sub_of_le h.top_lt (by lia),
    ByteMemory.loadLE_storeLE_outside _ _ (by lia)]
  apply ByteMemory.loadLE_congr
  intro i hi
  exact hkept.userRsp _ (by lia) (by lia)

def afterSyscall (core returned : Core Reg) (rip : UInt64) : Reg -> UInt64
  | .rax => UInt64.ofNat core.stack.sp
  | .rcx => rip
  | .r11 => core.rflags
  | .r8 => returned.gpr Reg.r8
  | .r9 => returned.gpr Reg.r9
  | .r10 => returned.gpr Reg.r10
  | r => core.gpr r

theorem SyscallReady.afterPops (h : SyscallReady cpu top core)
    {returned : Core Reg}
    (hkept : KeepsSyscall cpu top (syscallCore core rip) returned) :
    update (popAll syscallPops returned.gpr returned.stack).1 Reg.rax
      (UInt64.ofNat core.stack.sp) = afterSyscall core returned rip := by
  funext r
  cases r with
  | rax => exact update_self Reg.rax _ _
  | r8 =>
      rw [update_of_ne (by decide)]
      exact popAll_other (by decide) _ _
  | r9 =>
      rw [update_of_ne (by decide)]
      exact popAll_other (by decide) _ _
  | r10 =>
      rw [update_of_ne (by decide)]
      exact popAll_other (by decide) _ _
  | _ =>
      rw [update_of_ne (by decide), h.popped hkept (by decide)]
      rfl

theorem syscallEntry_resumes (h : SyscallReady cpu top core)
    (hrip : Canonical rip) :
    exists called : Core Reg,
      stubExit syscallEntry (enterSyscall core rip) =
        some (Exit.call Callee.syscallHandler syscallAfterCall called) ∧
      called.gsBase = cpu ∧
      called.stack.sp = top - 88 ∧
      called.gpr Reg.rdi = core.gpr Reg.rax ∧
      called.gpr Reg.rsi = core.gpr Reg.rdi ∧
      called.gpr Reg.rdx = core.gpr Reg.rsi ∧
      called.gpr Reg.rcx = core.gpr Reg.rdx ∧
      forall returned : Core Reg, KeepsSyscall cpu top called returned ->
        exists core' : Core Reg,
          stubExit syscallAfterCall returned = some (Exit.iretq rip core') ∧
          core'.gpr = afterSyscall core returned rip ∧
          core'.stack.sp = core.stack.sp ∧
          core'.rflags = core.rflags ∧
          core'.cs = 0x23 ∧ core'.ss = 0x1B ∧
          core'.gsBase = core.gsBase ∧ core'.kernelGsBase = cpu := by
  have hflags := @SyscallReady.flags core rip cpu top h
  have hcalls : stubExit syscallEntry (enterSyscall core rip) =
      some (Exit.call Callee.syscallHandler syscallAfterCall
        (syscallCore core rip)) := by
    unfold stubExit
    rw [if_pos hflags.left, syscallEntry_calls]
  refine ⟨syscallCore core rip, hcalls, h.kernelGsBase, h.sp, rfl, rfl, rfl,
    rfl, ?_⟩
  intro returned hkept
  rcases beforeSysret_iretq returned
    (popAll syscallPops returned.gpr returned.stack).1 _
    (h.loadedRsp hkept) with
    ⟨core', hiretq, hgpr, hsp, hrflags, hcs, hss, hgs, hkernel⟩
  refine ⟨core', ?_, ?_, hsp, ?_, hcs, hss, ?_, ?_⟩
  · have hexit : toExit syscallAfterCall 0 returned =
        some (Exit.iretq rip core') := by
      unfold syscallAfterCall
      rw [toExit_pops, h.poppedStack hkept, toExit_sysret, hiretq,
        h.popped hkept (r := Reg.rcx) (by decide)]
      rfl
    unfold stubExit
    rw [if_pos (hkept.trap.trans hflags.left), hexit]
    exact if_pos ⟨hkept.nested.trans hflags.right, hrip⟩
  · rw [hgpr]
    exact h.afterPops hkept
  · rw [hrflags, h.popped hkept (r := Reg.r11) (by decide)]
    rfl
  · rw [hgs]
    exact hkept.kernelGsBase
  · rw [hkernel]
    exact hkept.gsBase.trans h.kernelGsBase

end Syscalls

theorem syscallEntry_resumes_userCore :
    exists called core' : Core Reg,
      stubExit syscallEntry (enterSyscall userCore 0x400002) =
        some (Exit.call Callee.syscallHandler syscallAfterCall called) ∧
      stubExit syscallAfterCall called =
        some (Exit.iretq 0x400002 core') ∧
      core'.stack.sp = 0x9000 ∧ core'.gpr Reg.rbx = 5 := by
  have hready : SyscallReady 0x7000 0x6000 userCore :=
    ⟨rfl, by decide, by decide, by decide, by decide, by decide, by decide,
      by decide⟩
  rcases syscallEntry_resumes hready (by decide : Canonical 0x400002) with
    ⟨called, hcall, _, _, _, _, _, _, hreturns⟩
  have hsame : KeepsSyscall 0x7000 0x6000 called called :=
    ⟨rfl, fun _ _ _ => rfl, fun _ _ _ => rfl, rfl, rfl, rfl, rfl⟩
  rcases hreturns called hsame with ⟨core', hexit, hgpr, hsp, _⟩
  refine ⟨called, core', hcall, hexit, hsp, ?_⟩
  rw [hgpr]
  rfl

end Entry
end Barium
