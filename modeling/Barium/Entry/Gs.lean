import Mathlib.Data.UInt
import Barium.Foundation.Run
import Barium.Entry.Stubs

/-!
# The GS base

`cpu_get` reads the GS base, which a user program can change.  The stubs swap it
with the kernel's one when they come from user mode and when they go back.
Whatever user programs do and however interrupts, system calls and thread
switches follow each other, kernel code finds the record of its own CPU, unless
an exception or an NMI hits inside a stub.
-/

namespace Barium
namespace Entry

open Foundation
open Asm
open Sched
open TransitionSystem

/-- `cpu_get`: the MSR 0xC0000101. -/
def cpuGet (core : Core Reg) : Nat :=
  core.gsBase

/-!
# One CPU

Compiled code, of the kernel or of a user program, is left open.  A stub is run
instruction by instruction.
-/

inductive Control where
  | code (rip : UInt64)
  | stub (rest : Stub)

structure EntryState where
  control : Control
  core : Core Reg

inductive EntryEvent where
  | user
  | kernel
  | interrupt (vector : Nat)
  | syscall
  | stub
  | call (f : Callee)
  | ret (f : Callee)
  | iretq

def interruptsOn (core : Core Reg) : Prop :=
  core.rflags &&& interruptFlag ≠ 0

instance (core : Core Reg) : Decidable (interruptsOn core) :=
  inferInstanceAs (Decidable (core.rflags &&& interruptFlag ≠ 0))

def afterCall : Callee -> Stub
  | .interruptHandler => isrAfterCall
  | .syscallHandler => syscallAfterCall

/-- The steps of a CPU; `returnTo` has the return addresses of the two calls,
and `hits` tells whether exceptions and NMIs hit inside a stub: a debug
exception of a program that has set `TF`, an `iretq` that is refused, a machine
check. -/
inductive EntryStep (returnTo : Callee -> UInt64) (hits : Bool) :
    EntryState -> EntryEvent -> EntryState -> Prop where
  -- a user program does anything, but it stays in user mode and cannot write
  -- MSRs
  | user {rip rip' : UInt64} {core core' : Core Reg} :
      core.cs.toNat % 4 ≠ 0 -> core'.cs.toNat % 4 ≠ 0 ->
      core'.kernelGsBase = core.kernelGsBase ->
      EntryStep returnTo hits { control := Control.code rip, core := core }
        EntryEvent.user { control := Control.code rip', core := core' }
  -- the kernel writes the two MSRs in `cpu_init` only
  | kernel {rip rip' : UInt64} {core core' : Core Reg} :
      core.cs.toNat % 4 = 0 -> core'.cs = core.cs ->
      core'.gsBase = core.gsBase -> core'.kernelGsBase = core.kernelGsBase ->
      EntryStep returnTo hits { control := Control.code rip, core := core }
        EntryEvent.kernel { control := Control.code rip', core := core' }
  -- exceptions, NMIs and `int` come from compiled code, interrupts from
  -- anywhere if they are on
  | interrupt {s : EntryState} {rip : UInt64} {rsp0 vector code : Nat} :
      s.control = Control.code rip ∨ interruptsOn s.core ∨ hits = true ->
      vector < 48 ->
      EntryStep returnTo hits s (EntryEvent.interrupt vector)
        { control := Control.stub (isrStub vector)
          core := deliver s.core rip rsp0 vector code }
  | syscall {rip : UInt64} {core : Core Reg} :
      core.cs.toNat % 4 ≠ 0 ->
      EntryStep returnTo hits { control := Control.code rip, core := core }
        EntryEvent.syscall
        { control := Control.stub syscallEntry
          core := enterSyscall core rip }
  | stub {rest rest' : Stub} {core core' : Core Reg} :
      next rest core = some (rest', core') ->
      EntryStep returnTo hits { control := Control.stub rest, core := core }
        EntryEvent.stub { control := Control.stub rest', core := core' }
  | call {f : Callee} {rest : Stub} {core : Core Reg} {rip : UInt64} :
      EntryStep returnTo hits
        { control := Control.stub (Instr.call f :: rest), core := core }
        (EntryEvent.call f)
        { control := Control.code rip
          core := { core with stack := core.stack.push (returnTo f).toNat } }
  -- `b_irq_restore` has put back the flag that `b_irq_save` found
  | ret {f : Callee} {rip : UInt64} {core : Core Reg} :
      core.cs.toNat % 4 = 0 -> ¬ interruptsOn core ->
      core.stack.top = (returnTo f).toNat ->
      EntryStep returnTo hits { control := Control.code rip, core := core }
        (EntryEvent.ret f)
        { control := Control.stub (afterCall f)
          core := { core with stack := core.stack.pop } }
  | iretq {rest : Stub} {core : Core Reg} :
      EntryStep returnTo hits
        { control := Control.stub (Instr.iretq :: rest), core := core }
        EntryEvent.iretq
        { control := Control.code core.iretq.1, core := core.iretq.2 }

/-- A CPU after `cpu_init`, which has stored the record in both MSRs. -/
def entrySystem (cpu : Nat) (returnTo : Callee -> UInt64) (hits : Bool) :
    TransitionSystem EntryState EntryEvent where
  Init := fun s => (exists rip, s.control = Control.code rip) ∧
    s.core.cs.toNat % 4 = 0 ∧ s.core.gsBase = cpu ∧
    s.core.kernelGsBase = cpu
  Step := EntryStep returnTo hits

/-- Kernel code finds its CPU, a user program leaves the record for the next
entry, and interrupts are off in the stubs. -/
structure FindsCpu (cpu : Nat) (s : EntryState) : Prop where
  kernel : forall rip, s.control = Control.code rip ->
    s.core.cs.toNat % 4 = 0 -> cpuGet s.core = cpu
  user : forall rip, s.control = Control.code rip ->
    s.core.cs.toNat % 4 ≠ 0 -> s.core.kernelGsBase = cpu
  stub : forall rest, s.control = Control.stub rest -> ¬ interruptsOn s.core

/-!
# The invariant

In a stub, the invariant looks ahead to the way out of it.
-/

structure OwnGs (cpu : Nat) (core : Core Reg) : Prop where
  kernel : core.cs.toNat % 4 = 0 -> core.gsBase = cpu
  user : core.cs.toNat % 4 ≠ 0 -> core.kernelGsBase = cpu

theorem OwnGs.of_kernel {cpu : Nat} {core : Core Reg}
    (hring : core.cs.toNat % 4 = 0) (h : core.gsBase = cpu) :
    OwnGs cpu core :=
  ⟨fun _ => h, fun huser => absurd hring huser⟩

theorem OwnGs.of_user {cpu : Nat} {core : Core Reg}
    (huser : core.cs.toNat % 4 ≠ 0) (h : core.kernelGsBase = cpu) :
    OwnGs cpu core :=
  ⟨fun hring => absurd hring huser, fun _ => h⟩

def ExitsWell (cpu : Nat) : Exit Reg Callee -> Prop
  | .call _ _ core => core.cs.toNat % 4 = 0 ∧ core.gsBase = cpu
  | .iretq _ core => OwnGs cpu core

def LeavesWell (cpu : Nat) (rest : Stub) (core : Core Reg) : Prop :=
  match toExit rest 0 core with
  | some exit => ExitsWell cpu exit
  | none => False

theorem leavesWell_iff {cpu : Nat} {rest : Stub} {core : Core Reg}
    {exit : Exit Reg Callee} (h : toExit rest 0 core = some exit) :
    LeavesWell cpu rest core <-> ExitsWell cpu exit := by
  unfold LeavesWell
  rw [h]

def EntryInvariant (cpu : Nat) (s : EntryState) : Prop :=
  match s.control with
  | .code _ => OwnGs cpu s.core
  | .stub rest => ¬ interruptsOn s.core ∧ LeavesWell cpu rest s.core

/-- Interrupt gates and the mask of `syscall_init` turn interrupts off. -/
theorem masked_off {mask : UInt64} (h : ~~~mask &&& interruptFlag = 0)
    (x : UInt64) : ¬ ((x &&& ~~~mask) &&& interruptFlag ≠ 0) := by
  rw [UInt64.and_assoc, h, UInt64.and_zero]
  exact fun hne => hne rfl

/-- No instruction of a stub but `iretq` loads the flags. -/
theorem next_rflags {rest rest' : Stub} {core core' : Core Reg}
    (h : next rest core = some (rest', core')) :
    core'.rflags = core.rflags := by
  cases rest with
  | nil => cases h
  | cons i rest =>
      cases i with
      | call => cases h
      | iretq => cases h
      | _ =>
          cases h
          simp only [Instr.exec]

section Stubs

variable {cpu : Nat} {core : Core Reg}

theorem isrStub_leaves {rip : UInt64} {rsp0 vector code : Nat}
    (hvector : vector < 48) (h : OwnGs cpu core) :
    LeavesWell cpu (isrStub vector) (deliver core rip rsp0 vector code) := by
  refine (leavesWell_iff (isrStub_calls core rip hvector)).mpr ⟨?_, ?_⟩
  · show (0x08 : UInt16).toNat % 4 = 0
    decide
  · rw [(handlerCore_gs core rip rsp0 vector code).left]
    split
    case isTrue hring => exact h.kernel hring
    case isFalse huser => exact h.user huser

theorem isrAfterCall_leaves (h : core.gsBase = cpu) :
    LeavesWell cpu isrAfterCall core := by
  rcases isrAfterCall_returns core with ⟨rip, core', hexit, _, hgs, hkernel⟩
  refine (leavesWell_iff hexit).mpr ⟨?_, ?_⟩
  · intro hring
    rw [hgs, if_pos hring, h]
  · intro huser
    rw [hkernel, if_neg huser, h]

theorem syscallEntry_leaves {rip : UInt64} (h : core.kernelGsBase = cpu) :
    LeavesWell cpu syscallEntry (enterSyscall core rip) := by
  refine (leavesWell_iff (syscallEntry_calls core rip)).mpr ⟨?_, h⟩
  show (0x08 : UInt16).toNat % 4 = 0
  decide

theorem syscallAfterCall_leaves (h : core.gsBase = cpu) :
    LeavesWell cpu syscallAfterCall core := by
  rcases beforeSysret_iretq core (popAll syscallPops core.gpr core.stack).1
    (popAll syscallPops core.gpr core.stack).2 rfl with
    ⟨core', hiretq, _, _, _, hcs, _, _, hkernel⟩
  have hexit : toExit syscallAfterCall 0 core =
      some (Exit.iretq ((popAll syscallPops core.gpr core.stack).1 Reg.rcx)
        core') := by
    unfold syscallAfterCall
    rw [toExit_pops, toExit_sysret, hiretq]
  refine (leavesWell_iff hexit).mpr (OwnGs.of_user ?_ ?_)
  · rw [hcs]
    decide
  · rw [hkernel, h]

theorem afterCall_leaves (f : Callee) (h : core.gsBase = cpu) :
    LeavesWell cpu (afterCall f) core := by
  cases f with
  | interruptHandler => exact isrAfterCall_leaves h
  | syscallHandler => exact syscallAfterCall_leaves h

end Stubs

theorem entryInvariant_step {cpu : Nat} {returnTo : Callee -> UInt64}
    {s s' : EntryState} {event : EntryEvent} (h : EntryInvariant cpu s)
    (hstep : EntryStep returnTo false s event s') : EntryInvariant cpu s' := by
  cases hstep with
  | user huser huser' hkernel =>
      refine OwnGs.of_user huser' ?_
      rw [hkernel]
      exact h.user huser
  | kernel hring hcs hgs hkernel =>
      refine OwnGs.of_kernel (hcs ▸ hring) ?_
      rw [hgs]
      exact h.kernel hring
  | interrupt hfrom hvector =>
      refine ⟨masked_off (by decide) _, ?_⟩
      rcases s with ⟨control, core⟩
      cases control with
      | code rip => exact isrStub_leaves hvector h
      | stub rest =>
          rcases hfrom with hcode | hon | hhits
          · cases hcode
          · exact absurd hon h.left
          · cases hhits
  | syscall huser =>
      exact ⟨masked_off (by decide) _, syscallEntry_leaves (h.user huser)⟩
  | stub hnext =>
      refine ⟨?_, ?_⟩
      · show ¬ interruptsOn _
        unfold interruptsOn
        rw [next_rflags hnext]
        exact h.left
      · show LeavesWell cpu _ _
        unfold LeavesWell
        rw [toExit_next hnext]
        exact h.right
  | call =>
      have hwell := (leavesWell_iff (toExit_call _ _ _)).mp h.right
      exact OwnGs.of_kernel hwell.left hwell.right
  | @ret f _ core hring hoff =>
      have hgs : { core with stack := core.stack.pop }.gsBase = cpu :=
        h.kernel hring
      exact ⟨hoff, afterCall_leaves f hgs⟩
  | iretq =>
      exact (leavesWell_iff (toExit_iretq _ _)).mp h.right

theorem entryInvariant_reachable {cpu : Nat} {returnTo : Callee -> UInt64}
    {s : EntryState} (h : (entrySystem cpu returnTo false).Reachable s) :
    EntryInvariant cpu s := by
  refine reachable_invariant ?_ ?_ h
  · rintro s ⟨⟨rip, hcode⟩, hring, hgs, _⟩
    unfold EntryInvariant
    rw [hcode]
    exact OwnGs.of_kernel hring hgs
  · intro s event s' hs hstep
    exact entryInvariant_step hs hstep

theorem EntryInvariant.findsCpu {cpu : Nat} {s : EntryState}
    (h : EntryInvariant cpu s) : FindsCpu cpu s := by
  rcases s with ⟨control, core⟩
  refine ⟨?_, ?_, ?_⟩
  · intro rip hcode hring
    cases hcode
    exact h.kernel hring
  · intro rip hcode huser
    cases hcode
    exact h.user huser
  · intro rest hstub
    cases hstub
    exact h.left

/-!
# Stubs are left
-/

def exitState : Exit Reg Callee -> EntryState
  | .call f rest core =>
      { control := Control.stub (Instr.call f :: rest), core := core }
  | .iretq rip core => { control := Control.code rip, core := core }

theorem reachable_toExit {cpu : Nat} {returnTo : Callee -> UInt64}
    {hits : Bool} {rest : Stub} {core : Core Reg} {exit : Exit Reg Callee}
    (hreach : (entrySystem cpu returnTo hits).Reachable
      { control := Control.stub rest, core := core })
    (h : toExit rest 0 core = some exit) :
    (entrySystem cpu returnTo hits).Reachable (exitState exit) := by
  generalize hn : rest.length = n
  induction n using Nat.strong_induction_on generalizing rest core with
  | h n ih =>
      cases hnext : next rest core with
      | some after =>
          rw [← toExit_next hnext] at h
          exact ih after.1.length (hn ▸ next_length hnext)
            (reachable_step hreach (EntryStep.stub hnext)) h rfl
      | none =>
          cases rest with
          | nil => cases h
          | cons i rest =>
              cases i with
              | call f =>
                  rw [toExit_call] at h
                  cases h
                  exact hreach
              | iretq =>
                  rw [toExit_iretq] at h
                  cases h
                  exact reachable_step hreach EntryStep.iretq
              | _ => cases hnext

/-!
# An exception inside a stub
-/

section Hit

variable {cpu : Nat} {returnTo : Callee -> UInt64} {hits : Bool}

/-- Kernel code about to return to a user program. -/
def leavingCore (cpu : Nat) (returnTo : Callee -> UInt64) : Core Reg where
  gpr := fun _ => 0x1000
  stack :=
    { mem := ByteMemory.storeLE (fun a => if a = 0x1090 then 0x23 else 0)
        0x3000 8 (returnTo Callee.interruptHandler).toNat
      sp := 0x3000 }
  cs := 0x08
  rflags := 0
  ss := 0x10
  gsBase := cpu
  kernelGsBase := cpu
  zf := false

theorem leavingCore_top : (leavingCore cpu returnTo).stack.top =
    (returnTo Callee.interruptHandler).toNat :=
  (ByteMemory.loadLE_storeLE _ _ 8 _).trans
    (Nat.mod_eq_of_lt (UInt64.toNat_lt _))

theorem leavingCore_frame : ¬ KernelFrame (onFrame
    { leavingCore cpu returnTo with
      stack := (leavingCore cpu returnTo).stack.pop }) := by
  intro hkernel
  have hcs : ByteMemory.loadLE (leavingCore cpu returnTo).stack.mem 0x1090 8 =
      0x23 :=
    (ByteMemory.loadLE_storeLE_outside _ _ (Or.inl (by decide))).trans
      (by decide)
  have hmod : ByteMemory.loadLE (leavingCore cpu returnTo).stack.mem 0x1090 8 %
      4 = 0 := hkernel
  rw [hcs] at hmod
  cases hmod

theorem reachable_user : exists rip core,
    (entrySystem cpu returnTo hits).Reachable
      { control := Control.code rip, core := core } ∧
    core.cs.toNat % 4 ≠ 0 := by
  have hring : (leavingCore cpu returnTo).cs.toNat % 4 = 0 :=
    (by decide : (0x08 : UInt16).toNat % 4 = 0)
  have hoff : ¬ interruptsOn (leavingCore cpu returnTo) :=
    (by decide : ¬ (0 &&& interruptFlag ≠ 0))
  have hstart : (entrySystem cpu returnTo hits).Reachable
      { control := Control.code 0, core := leavingCore cpu returnTo } :=
    ⟨_, [], ⟨⟨0, rfl⟩, hring, rfl, rfl⟩, Runs.nil _⟩
  have hreturns := reachable_step hstart
    (EntryStep.ret hring hoff leavingCore_top)
  exact ⟨_, _, reachable_toExit hreturns (isrAfterCall_toExit _),
    mt (beforeIretq_cs _).mp leavingCore_frame⟩

/-- An NMI that hits a stub comes from kernel mode, so its own stub does not
swap. -/
theorem reachable_hit {rest : Stub} {core : Core Reg}
    (hreach : (entrySystem cpu returnTo true).Reachable
      { control := Control.stub rest, core := core })
    (hring : core.cs.toNat % 4 = 0) : exists called,
    (entrySystem cpu returnTo true).Reachable
      { control := Control.code 0, core := called } ∧
    called.cs.toNat % 4 = 0 ∧ called.gsBase = core.gsBase := by
  have hhit : EntryStep returnTo true
      { control := Control.stub rest, core := core } (EntryEvent.interrupt 2)
      { control := Control.stub (isrStub 2)
        core := deliver core 0 0 2 0 } :=
    EntryStep.interrupt (Or.inr (Or.inr rfl)) (by decide)
  have hcall := reachable_toExit (reachable_step hreach hhit)
    (isrStub_calls core 0 (by decide))
  have hgs : (handlerCore core 0 0 2 0).gsBase = core.gsBase := by
    rw [(handlerCore_gs core 0 0 2 0).left, if_pos hring]
  have hcs : (handlerCore core 0 0 2 0).cs.toNat % 4 = 0 :=
    (by decide : (0x08 : UInt16).toNat % 4 = 0)
  generalize handlerCore core 0 0 2 0 = called at hcall hgs hcs
  exact ⟨_, reachable_step hcall EntryStep.call, hcs, hgs⟩

/-- A program loads a GS base, and its `syscall` is hit before the swap. -/
theorem reachable_other (other : Nat) : exists rip core,
    (entrySystem cpu returnTo true).Reachable
      { control := Control.code rip, core := core } ∧
    core.cs.toNat % 4 = 0 ∧ core.gsBase = other := by
  rcases @reachable_user cpu returnTo true with ⟨rip, core, hreach, huser⟩
  have hloads : EntryStep returnTo true
      { control := Control.code rip, core := core } EntryEvent.user
      { control := Control.code rip, core := { core with gsBase := other } } :=
    EntryStep.user huser huser rfl
  have hentered := reachable_step (reachable_step hreach hloads)
    (EntryStep.syscall huser)
  have hring : (enterSyscall { core with gsBase := other } rip).cs.toNat % 4 =
      0 := (by decide : (0x08 : UInt16).toNat % 4 = 0)
  rcases reachable_hit hentered hring with ⟨called, hcalled⟩
  exact ⟨0, called, hcalled⟩

end Hit

end Entry
end Barium
