import Mathlib.Data.Nat.Bitwise
import Barium.Foundation.Run
import Barium.Entry.Stubs
import Barium.Entry.Descriptors

/-!
# Interrupts and ports

How a processor uses the tables of `gdt_init` and `idt_init`: it enters a stub
through the gate of a vector, on the stack that `tss_set_stack` has stored, and
it looks up in the task state segment whether a program may use a port.  The
tables stay in use while the scheduler stores new stacks, the processors load
segment registers and the kernel writes to the rest of the memory.
-/

namespace Barium
namespace Entry

open Foundation
open Function
open ByteMemory
open TransitionSystem
open Asm
open Sched

/-!
# The processor
-/

inductive Source where
  | hardware
  | software
  deriving DecidableEq, Repr

inductive Fault where
  | generalProtection
  | notPresent
  | invalidTss
  deriving DecidableEq, Repr

structure TableRegs where
  gdtr : TableReg
  task : TaskReg
  idtr : TableReg

def privilege (core : Core Reg) : Nat :=
  core.cs.toNat % 4

/-- The place of the new stack pointer in the task state segment, if the gate
or a change to the level `target` asks for one. -/
def stackSlot (gate : Gate) (cpl target : Nat) : Option Nat :=
  if gate.ist ≠ 0 then some (28 + 8 * gate.ist)
  else if target < cpl then some (4 + 8 * target)
  else none

def newStack (task : TaskReg) (core : Core Reg) :
    Option Nat -> Except Fault Nat
  | none => Except.ok core.stack.sp
  | some slot =>
      if task.limit < slot + 7 then Except.error Fault.invalidTss
      else Except.ok (loadLE core.stack.mem (task.base + slot) 8)

/-- The frame of an interrupt and the registers with which its handler
starts. -/
def enterGate (core : Core Reg) (rip : UInt64) (gate : Gate)
    (sp target : Nat) (error : List Nat) : Core Reg :=
  { core with
    stack := { core.stack with sp := sp / 16 * 16 }.pushAll
      ([core.ss.toNat, core.stack.sp, core.rflags.toNat, core.cs.toNat,
        rip.toNat] ++ error)
    cs := UInt16.ofNat (gate.selector / 4 * 4 + target)
    rflags := core.rflags &&&
      ~~~(if gate.isTrap then gateFlags else gateFlags ||| interruptFlag)
    ss := if target < privilege core then UInt16.ofNat target else core.ss }

/-- An interrupt: the address of its handler and the state there. -/
def interrupt (regs : TableRegs) (core : Core Reg) (rip : UInt64)
    (source : Source) (vector code : Nat) :
    Except Fault (UInt64 × Core Reg) :=
  let mem := core.stack.mem
  let gate := gateAt mem (regs.idtr.base + 16 * vector)
  let cpl := privilege core
  if regs.idtr.limit < 16 * vector + 15 ∨
      (gate.isInterrupt = false ∧ gate.isTrap = false) ∨
      (source = Source.software ∧ gate.dpl < cpl) then
    Except.error Fault.generalProtection
  else if gate.present = false then
    Except.error Fault.notPresent
  else
    match selectSegment mem regs.gdtr gate.selector with
    | none => Except.error Fault.generalProtection
    | some s =>
        if s.isCode = false ∨ cpl < s.dpl ∨ s.long = false then
          Except.error Fault.generalProtection
        else if s.present = false then
          Except.error Fault.notPresent
        else
          let target := if s.conforming then cpl else s.dpl
          match newStack regs.task core (stackSlot gate cpl target) with
          | .error fault => Except.error fault
          | .ok sp =>
              Except.ok (UInt64.ofNat gate.offset,
                enterGate core rip gate sp target
                  (if source = Source.software then []
                    else errorCode vector code))

/-- Whether `in` and `out` of one byte are allowed: by the level in the flags,
or by a clear bit in the bitmap behind the offset at 102.  Two bytes of the
bitmap are read, and both have to lie in the segment. -/
def portAllowed (task : TaskReg) (core : Core Reg) (port : Nat) : Bool :=
  let mem := core.stack.mem
  let bitmap := loadLE mem (task.base + 102) 2
  decide (privilege core <= core.rflags.toNat / 2 ^ 12 % 4) ||
    (decide (103 <= task.limit) &&
      decide (bitmap + port / 8 < task.limit) &&
      !(loadLE mem (task.base + bitmap + port / 8) 2).testBit (port % 8))

/-!
# The tables in use
-/

structure TableLayout where
  count : Nat
  cpu : Nat -> Nat
  idt : Nat
  stubs : Nat -> UInt64
  room : forall c, c < count -> cpu c + cpuSize <= 2 ^ 64
  apart : forall c d, c < count -> d < count -> c ≠ d ->
    cpu c + cpuSize <= cpu d ∨ cpu d + cpuSize <= cpu c
  idt_apart : forall c, c < count ->
    cpu c + cpuSize <= idt ∨ idt + idtSize <= cpu c

def TableLayout.InCpu (L : TableLayout) (c b : Nat) : Prop :=
  L.cpu c + gdtField <= b ∧ b < L.cpu c + tssField + tssSize

def TableLayout.InIdt (L : TableLayout) (b : Nat) : Prop :=
  L.idt <= b ∧ b < L.idt + idtSize

def TableLayout.idtReg (L : TableLayout) : TableReg where
  limit := idtSize - 1
  base := L.idt

/-- `idtr` is the variable of `idt.c`, `none` before `idt_init`. -/
structure TableState where
  mem : ByteMemory
  idtr : Option TableReg
  loaded : Nat -> Option TableReg
  tables : Nat -> Option (TableReg × TaskReg)

inductive TableEvent where
  | idtInit (c : Nat)
  | idtInitAp (c : Nat)
  | gdtInit (c : Nat)
  | setStack (c stack : Nat)
  | load (c selector : Nat)
  | other

def selectors : List Nat := [0x08, 0x10, 0x1B, 0x23]

inductive TableStep (L : TableLayout) :
    TableState -> TableEvent -> TableState -> Prop where
  | idtInit {s : TableState} {c : Nat} :
      TableStep L s (TableEvent.idtInit c)
        { s with
          mem := Entry.idtInit s.mem L.idt L.stubs
          idtr := some L.idtReg
          loaded := update s.loaded c (some L.idtReg) }
  | idtInitAp {s : TableState} {c : Nat} {reg : TableReg} :
      s.idtr = some reg ->
      TableStep L s (TableEvent.idtInitAp c)
        { s with loaded := update s.loaded c (some reg) }
  | gdtInit {s : TableState} {c : Nat} {mem : ByteMemory} {gdtr : TableReg}
      {task : TaskReg} :
      c < L.count ->
      Entry.gdtInit s.mem (L.cpu c) = some (mem, gdtr, task) ->
      TableStep L s (TableEvent.gdtInit c)
        { s with
          mem := mem
          tables := update s.tables c (some (gdtr, task)) }
  | setStack {s : TableState} {c stack : Nat} {regs : TableReg × TaskReg} :
      c < L.count -> s.tables c = some regs ->
      TableStep L s (TableEvent.setStack c stack)
        { s with mem := tssSetStack s.mem (L.cpu c) stack }
  | load {s : TableState} {c selector : Nat} {regs : TableReg × TaskReg}
      {mem : ByteMemory} :
      c < L.count -> s.tables c = some regs -> selector ∈ selectors ->
      loadSegment s.mem regs.1 selector = some mem ->
      TableStep L s (TableEvent.load c selector) { s with mem := mem }
  | other {s : TableState} {mem : ByteMemory} :
      (forall b, L.InIdt b -> mem b = s.mem b) ->
      (forall c b, c < L.count -> L.InCpu c b -> mem b = s.mem b) ->
      TableStep L s TableEvent.other { s with mem := mem }

def TableStart (s : TableState) : Prop :=
  s.idtr = none ∧ (forall c, s.loaded c = none) ∧
    forall c, s.tables c = none

def tableSystem (L : TableLayout) :
    TransitionSystem TableState TableEvent where
  Init := TableStart
  Step := TableStep L

/-- The stack of processor `c` after an event: `gdt_init` clears it. -/
def stackAfter (c : Nat) (rsp0 : Nat) : TableEvent -> Nat
  | .setStack d stack => if d = c then stack else rsp0
  | .gdtInit d => if d = c then 0 else rsp0
  | _ => rsp0

def lastStack (c : Nat) (trace : List TableEvent) : Nat :=
  trace.foldl (stackAfter c) 0

structure TableInvariant (L : TableLayout) (trace : List TableEvent)
    (s : TableState) : Prop where
  idt : forall reg, s.idtr = some reg ->
    reg = L.idtReg ∧ IdtHolds s.mem L.idt L.stubs
  loaded : forall c reg, s.loaded c = some reg -> s.idtr = some reg
  tables : forall c regs, c < L.count -> s.tables c = some regs ->
    regs = (gdtReg (L.cpu c), taskReg (L.cpu c)) ∧
      GdtHolds s.mem (L.cpu c + gdtField) ∧
      TssHolds s.mem (L.cpu c + tssField) (lastStack c trace)

/-!
# The steps
-/

section Steps

variable {L : TableLayout} {trace : List TableEvent} {s s' : TableState}
  {event : TableEvent} {c d b : Nat}

theorem lastStack_snoc (c : Nat) (trace : List TableEvent)
    (event : TableEvent) :
    lastStack c (trace ++ [event]) =
      stackAfter c (lastStack c trace) event := by
  simp [lastStack]

theorem TableLayout.idt_outside (L : TableLayout) (hc : c < L.count)
    (hb : L.InIdt b) : ¬L.InCpu c b := by
  have hapart := L.idt_apart c hc
  unfold TableLayout.InIdt idtSize at hb
  unfold TableLayout.InCpu gdtField tssField tssSize
  unfold cpuSize idtSize at hapart
  lia

theorem TableLayout.cpu_outside (L : TableLayout) (hc : c < L.count)
    (hd : d < L.count) (hne : d ≠ c) (hb : L.InCpu d b) :
    ¬L.InCpu c b := by
  have hapart := L.apart d c hd hc hne
  unfold TableLayout.InCpu gdtField tssField tssSize at hb
  unfold TableLayout.InCpu gdtField tssField tssSize
  unfold cpuSize at hapart
  lia

theorem GdtHolds.inCpu {mem mem' : ByteMemory}
    (h : GdtHolds mem (L.cpu c + gdtField))
    (hsame : forall b, L.InCpu c b -> mem' b = mem b) :
    GdtHolds mem' (L.cpu c + gdtField) := by
  apply h.congr
  intro b hlow hhigh
  apply hsame
  unfold TableLayout.InCpu tssField
  unfold gdtField at *
  lia

theorem TssHolds.inCpu {mem mem' : ByteMemory} {rsp0 : Nat}
    (h : TssHolds mem (L.cpu c + tssField) rsp0)
    (hsame : forall b, L.InCpu c b -> mem' b = mem b) :
    TssHolds mem' (L.cpu c + tssField) rsp0 := by
  apply h.congr
  intro b hlow hhigh
  apply hsame
  unfold TableLayout.InCpu gdtField
  unfold tssField at *
  lia

theorem TableInvariant.keeps (h : TableInvariant L trace s)
    {mem : ByteMemory}
    (hsame : forall c b, c < L.count -> L.InCpu c b -> mem b = s.mem b)
    (hstack : forall c rsp0, stackAfter c rsp0 event = rsp0) :
    forall c regs, c < L.count -> s.tables c = some regs ->
      regs = (gdtReg (L.cpu c), taskReg (L.cpu c)) ∧
        GdtHolds mem (L.cpu c + gdtField) ∧
        TssHolds mem (L.cpu c + tssField)
          (lastStack c (trace ++ [event])) := by
  intro c regs hc hregs
  have htables := h.tables c regs hc hregs
  rw [lastStack_snoc, hstack]
  constructor
  · exact htables.1
  constructor
  · exact htables.2.1.inCpu (fun b hb => hsame c b hc hb)
  · exact htables.2.2.inCpu (fun b hb => hsame c b hc hb)

theorem TableInvariant.cpuStep (h : TableInvariant L trace s)
    (hc : c < L.count) {mem : ByteMemory}
    {tables : Nat -> Option (TableReg × TaskReg)}
    (hsame : forall b, ¬L.InCpu c b -> mem b = s.mem b)
    (htables : forall d, d ≠ c -> tables d = s.tables d)
    (hstack : forall d rsp0, d ≠ c -> stackAfter d rsp0 event = rsp0)
    (hown : forall regs, tables c = some regs ->
      regs = (gdtReg (L.cpu c), taskReg (L.cpu c)) ∧
        GdtHolds mem (L.cpu c + gdtField) ∧
        TssHolds mem (L.cpu c + tssField)
          (lastStack c (trace ++ [event]))) :
    TableInvariant L (trace ++ [event])
      { s with mem := mem, tables := tables } where
  idt := by
    intro reg hreg
    have hidt := h.idt reg hreg
    constructor
    · exact hidt.1
    · apply hidt.2.congr
      intro b hlow hhigh
      exact hsame b (L.idt_outside hc ⟨hlow, hhigh⟩)
  loaded := h.loaded
  tables := by
    intro d regs hd hregs
    by_cases hsub : d = c
    · rw [hsub] at hregs ⊢
      exact hown regs hregs
    · have hold := h.tables d regs hd ((htables d hsub).symm.trans hregs)
      have hkeep : forall b, L.InCpu d b -> mem b = s.mem b :=
        fun b hb => hsame b (L.cpu_outside hc hd hsub hb)
      rw [lastStack_snoc, hstack d _ hsub]
      constructor
      · exact hold.1
      constructor
      · exact hold.2.1.inCpu hkeep
      · exact hold.2.2.inCpu hkeep

theorem tableInvariant_idtInit (h : TableInvariant L trace s) :
    TableInvariant L (trace ++ [TableEvent.idtInit c])
      { s with
        mem := Entry.idtInit s.mem L.idt L.stubs
        idtr := some L.idtReg
        loaded := update s.loaded c (some L.idtReg) } where
  idt := by
    intro reg hreg
    cases hreg
    exact ⟨rfl, idtInit_holds s.mem L.idt L.stubs⟩
  loaded := by
    intro d reg hreg
    change some L.idtReg = some reg
    rcases update_some_cases hreg with ⟨_, heq⟩ | ⟨_, hold⟩
    · exact heq
    · rw [(h.idt reg (h.loaded d reg hold)).1]
  tables := by
    apply h.keeps
    · intro d b hd hb
      apply idtInit_outside
      have hout : ¬L.InIdt b := fun hidt => L.idt_outside hd hidt hb
      unfold TableLayout.InIdt at hout
      lia
    · intro d rsp0
      rfl

theorem tableInvariant_idtInitAp (h : TableInvariant L trace s)
    {reg : TableReg} (hreg : s.idtr = some reg) :
    TableInvariant L (trace ++ [TableEvent.idtInitAp c])
      { s with loaded := update s.loaded c (some reg) } where
  idt := h.idt
  loaded := by
    intro d reg' hloaded
    rcases update_some_cases hloaded with ⟨_, heq⟩ | ⟨_, hold⟩
    · exact hreg.trans heq
    · exact h.loaded d reg' hold
  tables := by
    apply h.keeps
    · intro d b hd hb
      rfl
    · intro d rsp0
      rfl

theorem tableInvariant_gdtInit (h : TableInvariant L trace s)
    (hc : c < L.count) {mem : ByteMemory} {gdtr : TableReg} {task : TaskReg}
    (hinit : Entry.gdtInit s.mem (L.cpu c) = some (mem, gdtr, task)) :
    TableInvariant L (trace ++ [TableEvent.gdtInit c])
      { s with
        mem := mem
        tables := update s.tables c (some (gdtr, task)) } := by
  obtain ⟨mem', hinit', hgdt, htss, hsame⟩ :=
    gdtInit_spec s.mem (L.room c hc)
  rw [hinit'] at hinit
  cases hinit
  apply h.cpuStep hc
  · intro b hb
    apply hsame
    unfold TableLayout.InCpu at hb
    lia
  · intro d hd
    exact update_of_ne hd _ _
  · intro d rsp0 hd
    exact if_neg (Ne.symm hd)
  · intro regs hregs
    rw [update_self] at hregs
    cases hregs
    have hstack : lastStack c (trace ++ [TableEvent.gdtInit c]) = 0 := by
      rw [lastStack_snoc]
      exact if_pos rfl
    rw [hstack]
    exact ⟨rfl, hgdt, htss⟩

theorem tssSetStack_outside {mem : ByteMemory} {stack : Nat}
    (h : b < L.cpu c + tssField + 4 ∨ L.cpu c + tssField + 12 <= b) :
    tssSetStack mem (L.cpu c) stack b = mem b :=
  storeLE_outside _ _ (by lia)

theorem tableInvariant_setStack (h : TableInvariant L trace s)
    (hc : c < L.count) (stack : Nat) :
    TableInvariant L (trace ++ [TableEvent.setStack c stack])
      { s with mem := tssSetStack s.mem (L.cpu c) stack } := by
  have hfields : tssField = gdtField + 144 := by decide
  have hsize : tssSize = 104 := by decide
  have hstack : lastStack c (trace ++ [TableEvent.setStack c stack]) =
      stack := by
    rw [lastStack_snoc]
    exact if_pos rfl
  apply h.cpuStep hc
  · intro b hb
    apply tssSetStack_outside
    unfold TableLayout.InCpu at hb
    lia
  · intro d hd
    rfl
  · intro d rsp0 hd
    exact if_neg (Ne.symm hd)
  · intro regs' hregs'
    have hold := h.tables c regs' hc hregs'
    rw [hstack]
    constructor
    · exact hold.1
    constructor
    · apply hold.2.1.congr
      intro b hlow hhigh
      apply tssSetStack_outside
      lia
    · exact hold.2.2.setStack stack

theorem selectors_access : forall selector, selector ∈ selectors ->
    exists p, p ∈ gdtAccess ∧ selector / 8 = p.1 ∧ selector / 4 % 2 = 0 := by
  decide

theorem tableInvariant_load (h : TableInvariant L trace s)
    (hc : c < L.count) {selector : Nat} {regs : TableReg × TaskReg}
    {mem : ByteMemory} (hregs : s.tables c = some regs)
    (hselector : selector ∈ selectors)
    (hload : loadSegment s.mem regs.1 selector = some mem) :
    TableInvariant L (trace ++ [TableEvent.load c selector])
      { s with mem := mem } := by
  have hfields : tssField = gdtField + 144 := by decide
  have hsize : tssSize = 104 := by decide
  have hold := h.tables c regs hc hregs
  rcases selectors_access selector hselector with ⟨p, hp, hindex, htable⟩
  obtain ⟨mem', hload', hgdt, hsame⟩ :=
    hold.2.1.loadSegment selector hp hindex htable
  rw [hold.1, hload'] at hload
  cases hload
  apply h.cpuStep hc
  · intro b hb
    apply hsame
    unfold TableLayout.InCpu at hb
    lia
  · intro d hd
    rfl
  · intro d rsp0 hd
    rfl
  · intro regs' hregs'
    constructor
    · exact (h.tables c regs' hc hregs').1
    constructor
    · exact hgdt
    · rw [lastStack_snoc]
      apply hold.2.2.congr
      intro b hlow hhigh
      exact hsame b (by lia)

theorem tableInvariant_other (h : TableInvariant L trace s)
    {mem : ByteMemory} (hidt : forall b, L.InIdt b -> mem b = s.mem b)
    (hcpu : forall c b, c < L.count -> L.InCpu c b -> mem b = s.mem b) :
    TableInvariant L (trace ++ [TableEvent.other]) { s with mem := mem } where
  idt := by
    intro reg hreg
    have hold := h.idt reg hreg
    exact ⟨hold.1, hold.2.congr (fun b hlow hhigh => hidt b ⟨hlow, hhigh⟩)⟩
  loaded := h.loaded
  tables := by
    apply h.keeps hcpu
    intro d rsp0
    rfl

theorem tableInvariant_step (h : TableInvariant L trace s)
    (hstep : TableStep L s event s') :
    TableInvariant L (trace ++ [event]) s' := by
  cases hstep with
  | idtInit => exact tableInvariant_idtInit h
  | idtInitAp hreg => exact tableInvariant_idtInitAp h hreg
  | gdtInit hc hinit => exact tableInvariant_gdtInit h hc hinit
  | setStack hc hregs => exact tableInvariant_setStack h hc _
  | load hc hregs hselector hload =>
      exact tableInvariant_load h hc hregs hselector hload
  | other hidt hcpu => exact tableInvariant_other h hidt hcpu

theorem tableInvariant_start (h : TableStart s) : TableInvariant L [] s where
  idt := by
    intro reg hreg
    rw [h.1] at hreg
    cases hreg
  loaded := by
    intro d reg hreg
    rw [h.2.1] at hreg
    cases hreg
  tables := by
    intro d regs hd hregs
    rw [h.2.2] at hregs
    cases hregs

theorem tableInvariant_runs (hstart : TableStart s)
    (hrun : (tableSystem L).Runs s trace s') :
    TableInvariant L trace s' :=
  runs_history_invariant (tableInvariant_start hstart)
    (fun _ _ _ _ h hstep => tableInvariant_step h hstep) hrun

end Steps

/-!
# Interrupts
-/

structure KernelCode (s : Segment) : Prop where
  isCode : s.isCode = true
  dpl : s.dpl = 0
  long : s.long = true
  present : s.present = true
  conforming : s.conforming = false

theorem kernelCode_flat {access : Nat} (h : access ∈ [0x9A, 0x9B]) :
    KernelCode (flatSegment access) := by
  have hall : forall access, access ∈ [0x9A, 0x9B] ->
      (flatSegment access).isCode = true ∧ (flatSegment access).dpl = 0 ∧
        (flatSegment access).long = true ∧
        (flatSegment access).present = true ∧
        (flatSegment access).conforming = false := by decide
  obtain ⟨hcode, hdpl, hlong, hpresent, hconforming⟩ := hall access h
  exact ⟨hcode, hdpl, hlong, hpresent, hconforming⟩

section Interrupts

variable {core : Core Reg} {rip : UInt64} {source : Source}
  {vector code rsp0 cpu : Nat} {regs : TableRegs} {isr : UInt64}

theorem stubGate_bits (isr : UInt64) :
    (stubGate isr).isInterrupt = true ∧ (stubGate isr).isTrap = false ∧
      (stubGate isr).dpl = 0 ∧ (stubGate isr).present = true := by
  simp [stubGate, Gate.isInterrupt, Gate.isTrap, Gate.dpl, Gate.present,
    Nat.testBit]

theorem GdtHolds.kernelCode {mem : ByteMemory}
    (h : GdtHolds mem (cpu + gdtField)) :
    exists s, selectSegment mem (gdtReg cpu) 0x08 = some s ∧
      KernelCode s := by
  have hcode : (1, 0x9A) ∈ gdtAccess := by decide
  rcases h.select hcode (by rfl : 0x08 / 8 = 1) (by rfl) with hselect | hselect
  · exact ⟨_, hselect, kernelCode_flat (by decide)⟩
  · exact ⟨_, hselect, kernelCode_flat (by decide)⟩

theorem newStack_deliver
    (htss : TssHolds core.stack.mem (cpu + tssField) rsp0) :
    newStack (taskReg cpu) core (stackSlot (stubGate isr) (privilege core) 0) =
      Except.ok
        (if core.cs.toNat % 4 = 0 then core.stack.sp else rsp0 % 2 ^ 64) := by
  by_cases hring : core.cs.toNat % 4 = 0
  · have hslot : stackSlot (stubGate isr) (privilege core) 0 = none := by
      unfold stackSlot privilege
      rw [if_neg (by simp [stubGate]), hring]
      rfl
    rw [hslot, if_pos hring]
    rfl
  · have hslot : stackSlot (stubGate isr) (privilege core) 0 = some 4 := by
      unfold stackSlot privilege
      rw [if_neg (by simp [stubGate]), if_pos (by lia)]
    rw [hslot, if_neg hring, ← htss.rsp0_eq]
    rfl

theorem enterGate_deliver {error : List Nat}
    (herror : error = errorCode vector code) :
    enterGate core rip (stubGate isr)
        (if core.cs.toNat % 4 = 0 then core.stack.sp else rsp0) 0 error =
      deliver core rip rsp0 vector code := by
  unfold enterGate deliver deliverStack privilege
  rw [herror, (stubGate_bits isr).2.1]
  by_cases hring : core.cs.toNat % 4 = 0
  · simp [hring, stubGate]
  · simp [hring, stubGate, Nat.pos_of_ne_zero hring]

theorem interrupt_admitted
    (hgate : gateAt core.stack.mem (regs.idtr.base + 16 * vector) =
      stubGate isr)
    (hlimit : 16 * vector + 15 <= regs.idtr.limit)
    (hgdtr : regs.gdtr = gdtReg cpu) (htask : regs.task = taskReg cpu)
    (hgdt : GdtHolds core.stack.mem (cpu + gdtField))
    (htss : TssHolds core.stack.mem (cpu + tssField) rsp0)
    (hsource : source = Source.hardware ∨
      (privilege core = 0 ∧ vector ∉ errorVectors)) :
    interrupt regs core rip source vector code =
      Except.ok (isr, deliver core rip (rsp0 % 2 ^ 64) vector code) := by
  obtain ⟨s, hselect, hcode⟩ := hgdt.kernelCode
  have hbits := stubGate_bits isr
  have herror : (if source = Source.software then [] else
      errorCode vector code) = errorCode vector code := by
    rcases hsource with hsource | ⟨_, hvector⟩
    · rw [hsource]
      rfl
    · simp [errorCode, hvector]
  have hadmit : ¬(regs.idtr.limit < 16 * vector + 15 ∨
      ((stubGate isr).isInterrupt = false ∧
        (stubGate isr).isTrap = false) ∨
      (source = Source.software ∧ (stubGate isr).dpl < privilege core)) := by
    rcases hsource with hsource | ⟨hring, _⟩
    · simp [hbits, hsource, hlimit]
    · simp [hbits, hring, hlimit]
  have hpresent : ¬(stubGate isr).present = false := by simp [hbits]
  have hsegment : ¬(s.isCode = false ∨ privilege core < s.dpl ∨
      s.long = false) := by
    simp [hcode.isCode, hcode.dpl, hcode.long]
  have hhere : ¬s.present = false := by simp [hcode.present]
  have htarget : (if s.conforming = true then privilege core else s.dpl) =
      0 := by
    simp [hcode.conforming, hcode.dpl]
  have hselector : (stubGate isr).selector = 0x08 := rfl
  have hoffset : UInt64.ofNat (stubGate isr).offset = isr :=
    UInt64.ofNat_toNat
  unfold interrupt
  dsimp only
  rw [hgate, if_neg hadmit, if_neg hpresent, hgdtr, htask, hselector, hselect]
  dsimp only
  rw [if_neg hsegment, if_neg hhere, htarget, newStack_deliver htss]
  dsimp only
  rw [enterGate_deliver herror, hoffset]

/-- `int n` of a program: the gates are for the kernel only. -/
theorem interrupt_software
    (hgate : gateAt core.stack.mem (regs.idtr.base + 16 * vector) =
      stubGate isr)
    (hring : 0 < privilege core) :
    interrupt regs core rip Source.software vector code =
      Except.error Fault.generalProtection := by
  have hdpl : (stubGate isr).dpl < privilege core := by
    rw [(stubGate_bits isr).2.2.1]
    exact hring
  unfold interrupt
  dsimp only
  rw [hgate, if_pos]
  exact Or.inr (Or.inr ⟨rfl, hdpl⟩)

theorem interrupt_empty
    (hgate : gateAt core.stack.mem (regs.idtr.base + 16 * vector) =
      emptyGate) :
    interrupt regs core rip source vector code =
      Except.error Fault.generalProtection := by
  have htype : emptyGate.isInterrupt = false ∧ emptyGate.isTrap = false := by
    decide
  unfold interrupt
  dsimp only
  rw [hgate, if_pos]
  exact Or.inr (Or.inl htype)

end Interrupts

section Runs

variable {L : TableLayout} {trace : List TableEvent} {s start : TableState}
  {c vector : Nat} {gdtr idtr : TableReg} {task : TaskReg} {core : Core Reg}

/-- Every interrupt with a stub reaches `interrupt_handler` through it, on the
stack that was stored last if it comes from a program, and nothing else comes
through the table. -/
theorem interrupt_delivered (hstart : TableStart start)
    (hrun : (tableSystem L).Runs start trace s) (hc : c < L.count)
    (htables : s.tables c = some (gdtr, task))
    (hloaded : s.loaded c = some idtr) (hmem : core.stack.mem = s.mem)
    (hvector : vector < 256) (rip : UInt64) (source : Source) (code : Nat) :
    (vector < 48 -> source = Source.hardware ∨
        (privilege core = 0 ∧ vector ∉ errorVectors) ->
      exists entered,
        interrupt { gdtr := gdtr, task := task, idtr := idtr } core rip source
            vector code = Except.ok (L.stubs vector, entered) ∧
          entered = deliver core rip (lastStack c trace % 2 ^ 64) vector code ∧
          toExit (isrStub vector) 0 entered =
            some (Exit.call Callee.interruptHandler isrAfterCall
              (handlerCore core rip (lastStack c trace % 2 ^ 64) vector
                code))) ∧
      (source = Source.software -> 0 < privilege core ->
        interrupt { gdtr := gdtr, task := task, idtr := idtr } core rip source
          vector code = Except.error Fault.generalProtection) ∧
      (48 <= vector ->
        interrupt { gdtr := gdtr, task := task, idtr := idtr } core rip source
          vector code = Except.error Fault.generalProtection) := by
  have hinv := tableInvariant_runs hstart hrun
  obtain ⟨hregs, hgdt, htss⟩ := hinv.tables c (gdtr, task) hc htables
  obtain ⟨hidtr, hidt⟩ := hinv.idt idtr (hinv.loaded c idtr hloaded)
  have hgate := hidt vector hvector
  rw [← hmem] at hgate hgdt htss
  cases hregs
  rw [hidtr]
  constructor
  · intro hstub hsource
    rw [if_pos hstub] at hgate
    have hlimit : 16 * vector + 15 <= L.idtReg.limit := by
      unfold TableLayout.idtReg idtSize
      lia
    exists deliver core rip (lastStack c trace % 2 ^ 64) vector code
    constructor
    · exact interrupt_admitted hgate hlimit rfl rfl hgdt htss hsource
    · exact ⟨rfl, isrStub_calls core rip hstub⟩
  constructor
  · intro hsource hring
    rw [hsource]
    by_cases hstub : vector < 48
    · rw [if_pos hstub] at hgate
      exact interrupt_software hgate hring
    · rw [if_neg hstub] at hgate
      exact interrupt_empty hgate
  · intro hlarge
    rw [if_neg (by lia)] at hgate
    exact interrupt_empty hgate

theorem boot_runs (L : TableLayout) (hc : 0 < L.count) (start : TableState)
    (stack : Nat) :
    exists s, (tableSystem L).Runs start
        [TableEvent.idtInit 0, TableEvent.gdtInit 0,
          TableEvent.setStack 0 stack] s ∧
      s.tables 0 = some (gdtReg (L.cpu 0), taskReg (L.cpu 0)) ∧
      s.loaded 0 = some L.idtReg := by
  obtain ⟨mem, hinit, _⟩ := gdtInit_spec
    (Entry.idtInit start.mem L.idt L.stubs) (L.room 0 hc)
  let filled : TableState :=
    { start with
      mem := Entry.idtInit start.mem L.idt L.stubs
      idtr := some L.idtReg
      loaded := update start.loaded 0 (some L.idtReg) }
  let ready : TableState :=
    { filled with
      mem := mem
      tables := update start.tables 0
        (some (gdtReg (L.cpu 0), taskReg (L.cpu 0))) }
  have hregs : ready.tables 0 =
      some (gdtReg (L.cpu 0), taskReg (L.cpu 0)) :=
    update_self 0 _ start.tables
  have hidt : TableStep L start (TableEvent.idtInit 0) filled :=
    TableStep.idtInit
  have hgdt : TableStep L filled (TableEvent.gdtInit 0) ready :=
    TableStep.gdtInit hc hinit
  have hstack : TableStep L ready (TableEvent.setStack 0 stack)
      { ready with mem := tssSetStack ready.mem (L.cpu 0) stack } :=
    TableStep.setStack hc hregs
  have hrun := ((Runs.nil (T := tableSystem L) start).snoc hidt).snoc hgdt
  exact ⟨_, hrun.snoc hstack, hregs, update_self 0 _ start.loaded⟩

end Runs

def oneCpuTables : TableLayout where
  count := 1
  cpu := fun _ => 0x1000
  idt := 0x4000
  stubs := fun v => UInt64.ofNat (0x100000 + 16 * v)
  room := by
    intro c hc
    decide
  apart := by
    intro c d hc hd hne
    lia
  idt_apart := by
    intro c hc
    decide

def blankTables : TableState where
  mem := fun _ => 0
  idtr := none
  loaded := fun _ => none
  tables := fun _ => none

def bootTables : List TableEvent :=
  [TableEvent.idtInit 0, TableEvent.gdtInit 0, TableEvent.setStack 0 0x8000]

theorem blankTables_start : TableStart blankTables :=
  ⟨rfl, fun _ => rfl, fun _ => rfl⟩

def userCoreOn (mem : ByteMemory) : Core Reg :=
  { userCore with stack := { mem := mem, sp := 0x9000 } }

theorem userCoreOn_privilege (mem : ByteMemory) :
    privilege (userCoreOn mem) = 3 := by
  change (0x23 : UInt16).toNat % 4 = 3
  decide

theorem interrupt_delivered_keyboard :
    exists s regs, (tableSystem oneCpuTables).Runs blankTables bootTables s ∧
      s.tables 0 = some (regs.gdtr, regs.task) ∧
      s.loaded 0 = some regs.idtr ∧
      (exists entered, interrupt regs (userCoreOn s.mem) 0x400000
        Source.hardware 0x21 0 = Except.ok (0x100210, entered)) ∧
      interrupt regs (userCoreOn s.mem) 0x400000 Source.software 0x21 0 =
        Except.error Fault.generalProtection := by
  obtain ⟨s, hrun, htables, hloaded⟩ :=
    boot_runs oneCpuTables Nat.one_pos blankTables 0x8000
  have hvector : 0x21 < 256 := by decide
  have hthere := interrupt_delivered blankTables_start hrun Nat.one_pos
    htables hloaded (rfl : (userCoreOn s.mem).stack.mem = s.mem) hvector
    0x400000
  obtain ⟨entered, hentered, _⟩ :=
    (hthere Source.hardware 0).1 (by decide) (Or.inl rfl)
  have hring : 0 < privilege (userCoreOn s.mem) := by
    rw [userCoreOn_privilege]
    decide
  have hrefused := (hthere Source.software 0).2.1 rfl hring
  exact ⟨s, { gdtr := _, task := _, idtr := _ }, hrun, htables, hloaded,
    ⟨entered, hentered⟩, hrefused⟩

/-!
# Ports
-/

section Ports

theorem loadLE_testBit (mem : ByteMemory) (a width : Nat) {k : Nat}
    (hk : k < 8) :
    (loadLE mem a (width + 1)).testBit k = (mem a).toNat.testBit k := by
  have hbyte : (mem a).toNat < 2 ^ 8 := UInt8.toNat_lt _
  have hmod : loadLE mem a (width + 1) % 2 ^ 8 = (mem a).toNat := by
    rw [loadLE]
    lia
  have hbit := Nat.testBit_mod_two_pow (loadLE mem a (width + 1)) 8 k
  rw [hmod, decide_eq_true hk, Bool.true_and] at hbit
  exact hbit.symm

variable {mem : ByteMemory} {tss rsp0 port : Nat}

theorem TssHolds.stackBit (h : TssHolds mem tss rsp0) (hlow : 32 <= port)
    (hhigh : port < 96) :
    (loadLE mem (tss + port / 8) 2).testBit (port % 8) =
      rsp0.testBit (port - 32) := by
  have hbyte := h.stack (port / 8 - 4) (by lia)
  have haddr : tss + 4 + (port / 8 - 4) = tss + port / 8 := by lia
  have hpow : 256 ^ (port / 8 - 4) = 2 ^ (8 * (port / 8 - 4)) :=
    (Nat.pow_mul 2 8 _).symm
  have hk : port % 8 < 8 := Nat.mod_lt _ (by decide)
  have hindex : 8 * (port / 8 - 4) + port % 8 = port - 32 := by lia
  rw [haddr] at hbyte
  rw [loadLE_testBit mem _ 1 hk, hbyte, hpow, UInt8.toNat_ofNat',
    Nat.testBit_mod_two_pow, decide_eq_true hk, Bool.true_and,
    Nat.testBit_div_two_pow, Nat.add_comm, hindex]

theorem TssHolds.restBit (h : TssHolds mem tss rsp0) (hport : port < 824)
    (hout : port < 32 ∨ 96 <= port) :
    (loadLE mem (tss + port / 8) 2).testBit (port % 8) = false := by
  have hbyte := h.rest (port / 8) (by unfold tssSize; lia) (by lia)
  have hk : port % 8 < 8 := Nat.mod_lt _ (by decide)
  rw [loadLE_testBit mem _ 1 hk, hbyte]
  exact Nat.zero_testBit _

theorem TssHolds.bitmap (h : TssHolds mem tss rsp0) :
    loadLE mem (tss + 102) 2 = 0 := by
  apply loadLE_eq_zero
  intro i hi
  rw [Nat.add_assoc]
  exact h.rest (102 + i) (by unfold tssSize; lia) (by lia)

end Ports

/-- `gdt_init` leaves `iopb_offset` zero, so the segment's own bytes are the
bitmap: a program may use the ports below 824, but for those whose bits the
kernel stack happens to set. -/
theorem port_allowed_iff {L : TableLayout} {trace : List TableEvent}
    {s start : TableState} {c : Nat} {gdtr : TableReg} {task : TaskReg}
    {core : Core Reg} (hstart : TableStart start)
    (hrun : (tableSystem L).Runs start trace s) (hc : c < L.count)
    (htables : s.tables c = some (gdtr, task))
    (hmem : core.stack.mem = s.mem)
    (hlevel : core.rflags.toNat / 2 ^ 12 % 4 < privilege core)
    (port : Nat) :
    portAllowed task core port = true <->
      port < 824 ∧ (32 <= port -> port < 96 ->
        (lastStack c trace).testBit (port - 32) = false) := by
  obtain ⟨hregs, _, htss⟩ :=
    (tableInvariant_runs hstart hrun).tables c (gdtr, task) hc htables
  cases hregs
  rw [← hmem] at htss
  have hbitmap := htss.bitmap
  have hlimit : (taskReg (L.cpu c)).limit = 103 := rfl
  have hbase : (taskReg (L.cpu c)).base = L.cpu c + tssField := rfl
  have hflags : ¬privilege core <= core.rflags.toNat / 2 ^ 12 % 4 := by lia
  unfold portAllowed
  dsimp only
  rw [hbase, hbitmap, hlimit, decide_eq_false hflags, Nat.add_zero,
    Nat.zero_add]
  by_cases hport : port < 824
  · have hinside : port / 8 < 103 := by lia
    by_cases hstack : 32 <= port ∧ port < 96
    · have hbit := htss.stackBit hstack.1 hstack.2
      simp [hinside, hbit, hport, hstack]
    · have hbit := htss.restBit hport (by lia)
      simp [hinside, hbit, hport]
      lia
  · have houtside : ¬port / 8 < 103 := by lia
    simp [houtside, hport]

theorem port_allowed_iff_keyboard :
    exists s regs, (tableSystem oneCpuTables).Runs blankTables bootTables s ∧
      s.tables 0 = some regs ∧
      portAllowed regs.2 (userCoreOn s.mem) 0x60 = true ∧
      portAllowed regs.2 (userCoreOn s.mem) 0x2F = false := by
  obtain ⟨s, hrun, htables, _⟩ :=
    boot_runs oneCpuTables Nat.one_pos blankTables 0x8000
  have hlevel : (userCoreOn s.mem).rflags.toNat / 2 ^ 12 % 4 <
      privilege (userCoreOn s.mem) := by
    rw [userCoreOn_privilege]
    change (0x202 : UInt64).toNat / 2 ^ 12 % 4 < 3
    decide
  have hports := port_allowed_iff blankTables_start hrun Nat.one_pos htables
    (rfl : (userCoreOn s.mem).stack.mem = s.mem) hlevel
  have hopen := (hports 0x60).mpr (by decide)
  have hshut := mt (hports 0x2F).mp (by decide)
  exact ⟨s, _, hrun, htables, hopen, Bool.eq_false_iff.mpr hshut⟩

end Entry
end Barium
