import Barium.Foundation.ByteMemory
import Barium.Foundation.Word
import Barium.Lib

/-!
# Descriptor tables

`gdt_init`, `idt_init` and `tss_set_stack` write bytes that the processor reads
with a layout of its own: the base and the limit of a segment are scattered over
the descriptor, and a task state segment ends with the place of a bitmap of
ports.
-/

namespace Barium
namespace Entry

open Foundation
open ByteMemory
open Lib

/-!
# The tables in memory
-/

def gdtField : Nat := 288
def gdtrField : Nat := 416
def tssField : Nat := 432
def cpuSize : Nat := 544

def gdtEntries : Nat := 16
def tssSize : Nat := 104
def idtSize : Nat := 4096

def gdtSetEntryAt (mem : ByteMemory) (gdt index base limit access gran : Nat) :
    ByteMemory :=
  let entry := gdt + 8 * index
  let mem := storeLE mem (entry + 2) 2 (base &&& 0xFFFF)
  let mem := storeLE mem (entry + 4) 1 ((base >>> 16) &&& 0xFF)
  let mem := storeLE mem (entry + 7) 1 ((base >>> 24) &&& 0xFF)
  let mem := storeLE mem entry 2 (limit &&& 0xFFFF)
  let mem := storeLE mem (entry + 6) 1 ((limit >>> 16) &&& 0x0F)
  let mem := storeLE mem (entry + 6) 1
    (loadLE mem (entry + 6) 1 ||| (gran &&& 0xF0))
  storeLE mem (entry + 5) 1 access

def gdtSetTssAt (mem : ByteMemory) (gdt index base limit : Nat) : ByteMemory :=
  let mem := gdtSetEntryAt mem gdt index (base &&& 0xFFFFFFFF) limit 0x89 0x40
  let mem := storeLE mem (gdt + 8 * index + 8) 4
    ((base >>> 32) &&& 0xFFFFFFFF)
  storeLE mem (gdt + 8 * index + 12) 4 0

/-- The entries of `gdt_init`. -/
def gdtSetEntries (mem : ByteMemory) (gdt tss : Nat) : ByteMemory :=
  let mem := gdtSetEntryAt mem gdt 0 0 0 0 0
  let mem := gdtSetEntryAt mem gdt 1 0 0xFFFFFFFF 0x9A 0xA0
  let mem := gdtSetEntryAt mem gdt 2 0 0xFFFFFFFF 0x92 0xA0
  let mem := gdtSetEntryAt mem gdt 3 0 0xFFFFFFFF 0xF2 0xA0
  let mem := gdtSetEntryAt mem gdt 4 0 0xFFFFFFFF 0xFA 0xA0
  gdtSetTssAt mem gdt 5 tss (tssSize - 1)

/-- What `gdt_init` has written when it calls `gdt_load`. -/
def gdtTables (mem : ByteMemory) (cpu : Nat) : ByteMemory :=
  let gdt := cpu + gdtField
  let tss := cpu + tssField
  let mem := bMemset mem gdt 0 (8 * gdtEntries)
  let mem := bMemset mem tss 0 tssSize
  let mem := gdtSetEntries mem gdt tss
  let mem := storeLE mem (cpu + gdtrField) 2 (7 * 8 - 1)
  storeLE mem (cpu + gdtrField + 2) 8 gdt

def tssSetStack (mem : ByteMemory) (cpu stack : Nat) : ByteMemory :=
  storeLE mem (cpu + tssField + 4) 8 stack

def idtSetGate (mem : ByteMemory) (idt vector isr attributes : Nat) :
    ByteMemory :=
  let entry := idt + 16 * vector
  let mem := storeLE mem entry 2 (isr &&& 0xFFFF)
  let mem := storeLE mem (entry + 2) 2 0x08
  let mem := storeLE mem (entry + 4) 1 0
  let mem := storeLE mem (entry + 5) 1 attributes
  let mem := storeLE mem (entry + 6) 2 ((isr >>> 16) &&& 0xFFFF)
  let mem := storeLE mem (entry + 8) 4 ((isr >>> 32) &&& 0xFFFFFFFF)
  storeLE mem (entry + 12) 4 0

/-- The loop of `idt_init` over `isr_stub_table`. -/
def idtGates (idt : Nat) (stubs : Nat -> UInt64) :
    Nat -> Nat -> ByteMemory -> ByteMemory
  | 0, _, mem => mem
  | n + 1, i, mem =>
      idtGates idt stubs n (i + 1)
        (idtSetGate mem idt i (stubs i).toNat 0x8E)

def idtInit (mem : ByteMemory) (idt : Nat) (stubs : Nat -> UInt64) :
    ByteMemory :=
  idtGates idt stubs 48 0 (bMemset mem idt 0 idtSize)

/-!
# What the processor reads
-/

structure Segment where
  base : Nat
  limit : Nat
  access : Nat
  flags : Nat
  deriving DecidableEq, Repr

def segmentAt (mem : ByteMemory) (entry : Nat) : Segment where
  base := loadLE mem (entry + 2) 2 + 2 ^ 16 * loadLE mem (entry + 4) 1 +
    2 ^ 24 * loadLE mem (entry + 7) 1
  limit := loadLE mem entry 2 + 2 ^ 16 * (loadLE mem (entry + 6) 1 % 16)
  access := loadLE mem (entry + 5) 1
  flags := loadLE mem (entry + 6) 1 / 16

def Segment.present (s : Segment) : Bool := s.access.testBit 7
def Segment.dpl (s : Segment) : Nat := s.access / 32 % 4
def Segment.isCode (s : Segment) : Bool :=
  s.access.testBit 4 && s.access.testBit 3
def Segment.conforming (s : Segment) : Bool := s.access.testBit 2

/-- An available task state segment of 64-bit mode. -/
def Segment.isFreeTss (s : Segment) : Bool := s.access % 32 = 9

/-- The flag `L`: the code is 64-bit code. -/
def Segment.long (s : Segment) : Bool := s.flags.testBit 1

/-- The last offset, which the flag `G` counts in pages. -/
def Segment.lastByte (s : Segment) : Nat :=
  if s.flags.testBit 3 then s.limit * 4096 + 4095 else s.limit

/-- A task state segment's descriptor has a second half with the upper bits of
the base. -/
def tssBaseAt (mem : ByteMemory) (entry : Nat) : Nat :=
  (segmentAt mem entry).base + 2 ^ 32 * loadLE mem (entry + 8) 4

/-- A table as `lgdt` and `lidt` load it. -/
structure TableReg where
  limit : Nat
  base : Nat
  deriving DecidableEq, Repr

def TableReg.entry (reg : TableReg) (selector : Nat) : Nat :=
  reg.base + 8 * (selector / 8)

/-- The descriptor of a selector: a table index, the bit that asks for a local
table, and a privilege level. -/
def selectSegment (mem : ByteMemory) (gdtr : TableReg) (selector : Nat) :
    Option Segment :=
  if selector / 8 = 0 ∨ selector / 4 % 2 = 1 ∨
      gdtr.limit < 8 * (selector / 8) + 7 then
    none
  else
    some (segmentAt mem (gdtr.entry selector))

/-- The processor records in the descriptor that it is in use. -/
def setAccess (mem : ByteMemory) (entry bits : Nat) : ByteMemory :=
  storeLE mem (entry + 5) 1 (loadLE mem (entry + 5) 1 ||| bits)

/-- A segment register is loaded; `none` is a fault. -/
def loadSegment (mem : ByteMemory) (gdtr : TableReg) (selector : Nat) :
    Option ByteMemory :=
  match selectSegment mem gdtr selector with
  | none => none
  | some s =>
      if s.present then some (setAccess mem (gdtr.entry selector) 1) else none

/-- The part of the task register that only `ltr` changes. -/
structure TaskReg where
  limit : Nat
  base : Nat
  deriving DecidableEq, Repr

def ltr (mem : ByteMemory) (gdtr : TableReg) (selector : Nat) :
    Option (ByteMemory × TaskReg) :=
  match selectSegment mem gdtr selector with
  | none => none
  | some s =>
      if s.isFreeTss && s.present &&
          decide (8 * (selector / 8) + 15 <= gdtr.limit) then
        some (setAccess mem (gdtr.entry selector) 2,
          { limit := s.lastByte
            base := tssBaseAt mem (gdtr.entry selector) })
      else none

/-- `gdt_load`: `lgdt`, then `ds`, `es`, `ss` and, by the far return, `cs`. -/
def gdtLoad (mem : ByteMemory) (ptr : Nat) : Option (ByteMemory × TableReg) :=
  let gdtr : TableReg :=
    { limit := loadLE mem ptr 2, base := loadLE mem (ptr + 2) 8 }
  do
    let mem <- loadSegment mem gdtr 0x10
    let mem <- loadSegment mem gdtr 0x10
    let mem <- loadSegment mem gdtr 0x10
    let mem <- loadSegment mem gdtr 0x08
    some (mem, gdtr)

def tssLoad (mem : ByteMemory) (gdtr : TableReg) :
    Option (ByteMemory × TaskReg) :=
  ltr mem gdtr 0x28

def gdtInit (mem : ByteMemory) (cpu : Nat) :
    Option (ByteMemory × TableReg × TaskReg) := do
  let (mem, gdtr) <- gdtLoad (gdtTables mem cpu) (cpu + gdtrField)
  let (mem, task) <- tssLoad mem gdtr
  some (mem, gdtr, task)

structure Gate where
  offset : Nat
  selector : Nat
  ist : Nat
  attributes : Nat
  deriving DecidableEq, Repr

def gateAt (mem : ByteMemory) (entry : Nat) : Gate where
  offset := loadLE mem entry 2 + 2 ^ 16 * loadLE mem (entry + 6) 2 +
    2 ^ 32 * loadLE mem (entry + 8) 4
  selector := loadLE mem (entry + 2) 2
  ist := loadLE mem (entry + 4) 1 % 8
  attributes := loadLE mem (entry + 5) 1

def Gate.present (g : Gate) : Bool := g.attributes.testBit 7
def Gate.dpl (g : Gate) : Nat := g.attributes / 32 % 4

def Gate.isInterrupt (g : Gate) : Bool := g.attributes % 32 = 14
def Gate.isTrap (g : Gate) : Bool := g.attributes % 32 = 15

/-!
# Single entries
-/

section Entries

variable {mem mem' : ByteMemory} {gdt index base limit access gran a : Nat}

theorem loadLE_entry {entry size : Nat}
    (h : forall b, entry <= b -> b < entry + size -> mem' b = mem b)
    (k n : Nat) (hk : k + n <= size) :
    loadLE mem' (entry + k) n = loadLE mem (entry + k) n := by
  apply loadLE_congr
  intro i hi
  exact h _ (by lia) (by lia)

theorem segmentAt_congr {entry : Nat}
    (h : forall b, entry <= b -> b < entry + 8 -> mem' b = mem b) :
    segmentAt mem' entry = segmentAt mem entry := by
  have hload := loadLE_entry h
  have hfirst := hload 0 2 (by decide)
  unfold segmentAt
  simp only [Nat.add_zero] at hfirst
  rw [hfirst, hload 2 2 (by decide), hload 4 1 (by decide),
    hload 5 1 (by decide), hload 6 1 (by decide), hload 7 1 (by decide)]

theorem tssBaseAt_congr {entry : Nat}
    (h : forall b, entry <= b -> b < entry + 16 -> mem' b = mem b) :
    tssBaseAt mem' entry = tssBaseAt mem entry := by
  have hsegment : segmentAt mem' entry = segmentAt mem entry := by
    apply segmentAt_congr
    intro b hlow hhigh
    exact h b hlow (by lia)
  rw [tssBaseAt, tssBaseAt, hsegment, loadLE_entry h 8 4 (by decide)]

theorem gdtSetEntryAt_outside (h : a < gdt + 8 * index ∨
    gdt + 8 * index + 8 <= a) :
    gdtSetEntryAt mem gdt index base limit access gran a = mem a := by
  unfold gdtSetEntryAt
  simp (disch := lia) only [storeLE_outside]

theorem shift_low_mask (x k n : Nat) :
    x >>> k &&& (2 ^ n - 1) = x / 2 ^ k % 2 ^ n := by
  rw [Word.and_low_mask, Nat.shiftRight_eq_div_pow]

theorem granularity_byte (low : Nat) (hgran : gran < 256) :
    ((low &&& 0x0F) % 256 ^ 1 ||| (gran &&& 0xF0)) % 256 ^ 1 =
      low % 16 + gran / 16 * 16 := by
  have hlow : low &&& 0x0F = low % 2 ^ 4 := Word.and_low_mask low 4
  have hhigh : gran &&& 0xF0 = gran / 2 ^ 4 * 2 ^ 4 :=
    Word.and_high_mask hgran (by decide : 4 <= 8)
  have hsmall : low % 2 ^ 4 % 256 ^ 1 < 2 ^ 4 := by lia
  rw [hlow, hhigh, Nat.or_comm, Word.or_flags (by simp) hsmall]
  lia

theorem segmentAt_gdtSetEntryAt (hbase : base < 2 ^ 32)
    (haccess : access < 256) (hgran : gran < 256) :
    segmentAt (gdtSetEntryAt mem gdt index base limit access gran)
        (gdt + 8 * index) =
      { base := base
        limit := limit % 2 ^ 20
        access := access
        flags := gran / 16 } := by
  have hbase0 : base &&& 0xFFFF = base % 2 ^ 16 := Word.and_low_mask _ 16
  have hbase1 : base >>> 16 &&& 0xFF = base / 2 ^ 16 % 2 ^ 8 :=
    shift_low_mask base 16 8
  have hbase2 : base >>> 24 &&& 0xFF = base / 2 ^ 24 % 2 ^ 8 :=
    shift_low_mask base 24 8
  have hlimit : limit &&& 0xFFFF = limit % 2 ^ 16 := Word.and_low_mask _ 16
  unfold segmentAt gdtSetEntryAt
  simp (disch := lia) only [loadLE_storeLE_outside, loadLE_storeLE]
  rw [granularity_byte _ hgran, hbase0, hbase1, hbase2, hlimit,
    Nat.shiftRight_eq_div_pow, Segment.mk.injEq]
  lia

theorem gdtSetTssAt_outside (h : a < gdt + 8 * index ∨
    gdt + 8 * index + 16 <= a) :
    gdtSetTssAt mem gdt index base limit a = mem a := by
  unfold gdtSetTssAt
  rw [storeLE_outside _ _ (by lia), storeLE_outside _ _ (by lia),
    gdtSetEntryAt_outside (by lia)]

theorem segmentAt_gdtSetTssAt :
    segmentAt (gdtSetTssAt mem gdt index base limit) (gdt + 8 * index) =
      { base := base % 2 ^ 32
        limit := limit % 2 ^ 20
        access := 0x89
        flags := 4 } := by
  have hlow : base &&& 0xFFFFFFFF = base % 2 ^ 32 := Word.and_low_mask _ 32
  have hsame : segmentAt (gdtSetTssAt mem gdt index base limit)
      (gdt + 8 * index) =
      segmentAt (gdtSetEntryAt mem gdt index (base &&& 0xFFFFFFFF) limit 0x89
        0x40) (gdt + 8 * index) := by
    apply segmentAt_congr
    intro b hlow hhigh
    unfold gdtSetTssAt
    rw [storeLE_outside _ _ (by lia), storeLE_outside _ _ (by lia)]
  rw [hsame, hlow]
  exact segmentAt_gdtSetEntryAt (Nat.mod_lt _ (by decide)) (by decide)
    (by decide)

theorem tssBaseAt_gdtSetTssAt (hbase : base < 2 ^ 64) :
    tssBaseAt (gdtSetTssAt mem gdt index base limit) (gdt + 8 * index) =
      base := by
  have hhigh : base >>> 32 &&& 0xFFFFFFFF = base / 2 ^ 32 % 2 ^ 32 :=
    shift_low_mask base 32 32
  have hload : loadLE (gdtSetTssAt mem gdt index base limit)
      (gdt + 8 * index + 8) 4 = base / 2 ^ 32 % 2 ^ 32 % 256 ^ 4 := by
    unfold gdtSetTssAt
    rw [loadLE_storeLE_outside _ _ (by lia), loadLE_storeLE, hhigh]
  unfold tssBaseAt
  rw [segmentAt_gdtSetTssAt, hload]
  change base % 2 ^ 32 + 2 ^ 32 * (base / 2 ^ 32 % 2 ^ 32 % 256 ^ 4) = base
  lia

theorem setAccess_outside {entry bits : Nat}
    (h : a < entry ∨ entry + 8 <= a) : setAccess mem entry bits a = mem a :=
  storeLE_outside _ _ (by lia)

theorem segmentAt_setAccess {entry bits : Nat} :
    segmentAt (setAccess mem entry bits) entry =
      { segmentAt mem entry with
        access := ((segmentAt mem entry).access ||| bits) % 256 } := by
  unfold segmentAt setAccess
  simp (disch := lia) only [loadLE_storeLE_outside, loadLE_storeLE]
  rfl

end Entries

/-!
# The global descriptor table
-/

def flatSegment (access : Nat) : Segment where
  base := 0
  limit := 0xFFFFF
  access := access
  flags := 10

def gdtAccess : List (Nat × Nat) :=
  [(1, 0x9A), (2, 0x92), (3, 0xF2), (4, 0xFA)]

def gdtReg (cpu : Nat) : TableReg where
  limit := 55
  base := cpu + gdtField

def taskReg (cpu : Nat) : TaskReg where
  limit := 103
  base := cpu + tssField

/-- The segments of `gdt_init`, where the processor may have set the accessed
bits. -/
def GdtHolds (mem : ByteMemory) (gdt : Nat) : Prop :=
  forall p, p ∈ gdtAccess ->
    segmentAt mem (gdt + 8 * p.1) = flatSegment p.2 ∨
      segmentAt mem (gdt + 8 * p.1) = flatSegment (p.2 + 1)

section Gdt

variable {mem mem' : ByteMemory} {cpu gdt : Nat}

theorem gdtAccess_index :
    forall p, p ∈ gdtAccess -> 1 <= p.1 ∧ p.1 <= 4 := by
  decide

theorem GdtHolds.congr (h : GdtHolds mem gdt)
    (hsame : forall b, gdt + 8 <= b -> b < gdt + 40 -> mem' b = mem b) :
    GdtHolds mem' gdt := by
  intro p hp
  have hindex := gdtAccess_index p hp
  have hentry : segmentAt mem' (gdt + 8 * p.1) =
      segmentAt mem (gdt + 8 * p.1) := by
    apply segmentAt_congr
    intro b hlow hhigh
    exact hsame b (by lia) (by lia)
  rw [hentry]
  exact h p hp

/-- The accessed bit changes nothing else in the access bytes. -/
theorem gdtAccess_bits : forall p, p ∈ gdtAccess ->
    (p.2 ||| 1) % 256 = p.2 + 1 ∧ ((p.2 + 1) ||| 1) % 256 = p.2 + 1 ∧
      (flatSegment p.2).present = true ∧
      (flatSegment (p.2 + 1)).present = true := by
  decide

theorem gdtAccess_inj : forall p, p ∈ gdtAccess -> forall q, q ∈ gdtAccess ->
    q.1 = p.1 -> q = p := by
  decide

theorem GdtHolds.setAccess (h : GdtHolds mem gdt) {p : Nat × Nat}
    (hp : p ∈ gdtAccess) : GdtHolds (setAccess mem (gdt + 8 * p.1) 1) gdt := by
  intro q hq
  by_cases hsame : q.1 = p.1
  · have hbits := gdtAccess_bits p hp
    rw [gdtAccess_inj p hp q hq hsame, segmentAt_setAccess]
    right
    rcases h p hp with hentry | hentry
    · rw [hentry, flatSegment, hbits.1, flatSegment]
    · rw [hentry, flatSegment, hbits.2.1]
  · have hentry : segmentAt (Entry.setAccess mem (gdt + 8 * p.1) 1)
        (gdt + 8 * q.1) = segmentAt mem (gdt + 8 * q.1) := by
      apply segmentAt_congr
      intro b hlow hhigh
      exact setAccess_outside (by lia)
    rw [hentry]
    exact h q hq

theorem GdtHolds.select (h : GdtHolds mem (cpu + gdtField))
    {p : Nat × Nat} {selector : Nat} (hp : p ∈ gdtAccess)
    (hselector : selector / 8 = p.1) (htable : selector / 4 % 2 = 0) :
    selectSegment mem (gdtReg cpu) selector = some (flatSegment p.2) ∨
      selectSegment mem (gdtReg cpu) selector =
        some (flatSegment (p.2 + 1)) := by
  have hindex := gdtAccess_index p hp
  have hselect : selectSegment mem (gdtReg cpu) selector =
      some (segmentAt mem (cpu + gdtField + 8 * p.1)) := by
    unfold selectSegment TableReg.entry gdtReg
    rw [hselector, if_neg (by lia)]
  rw [hselect]
  rcases h p hp with hentry | hentry
  · left
    rw [hentry]
  · right
    rw [hentry]

theorem GdtHolds.loadSegment (h : GdtHolds mem (cpu + gdtField))
    {p : Nat × Nat} (selector : Nat) (hp : p ∈ gdtAccess)
    (hselector : selector / 8 = p.1) (htable : selector / 4 % 2 = 0) :
    exists mem', loadSegment mem (gdtReg cpu) selector = some mem' ∧
      GdtHolds mem' (cpu + gdtField) ∧
      forall b, b < cpu + gdtField + 8 ∨ cpu + gdtField + 40 <= b ->
        mem' b = mem b := by
  have hindex := gdtAccess_index p hp
  have hbits := gdtAccess_bits p hp
  have hentry : (gdtReg cpu).entry selector = cpu + gdtField + 8 * p.1 := by
    rw [TableReg.entry, hselector, gdtReg]
  exists Entry.setAccess mem (cpu + gdtField + 8 * p.1) 1
  constructor
  · unfold Entry.loadSegment
    rcases h.select hp hselector htable with hselect | hselect
    · rw [hselect]
      change (if _ then _ else _) = _
      rw [if_pos hbits.2.2.1, hentry]
    · rw [hselect]
      change (if _ then _ else _) = _
      rw [if_pos hbits.2.2.2, hentry]
  constructor
  · exact h.setAccess hp
  · intro b hb
    exact setAccess_outside (by lia)

theorem segmentAt_gdtSetEntryAt_ne {index other base limit access gran : Nat}
    (h : other ≠ index) :
    segmentAt (gdtSetEntryAt mem gdt other base limit access gran)
      (gdt + 8 * index) = segmentAt mem (gdt + 8 * index) := by
  apply segmentAt_congr
  intro b hlow hhigh
  exact gdtSetEntryAt_outside (by lia)

theorem segmentAt_gdtSetTssAt_ne {index other base limit : Nat}
    (h : index < other) :
    segmentAt (gdtSetTssAt mem gdt other base limit) (gdt + 8 * index) =
      segmentAt mem (gdt + 8 * index) := by
  apply segmentAt_congr
  intro b hlow hhigh
  exact gdtSetTssAt_outside (by lia)

theorem gdtSetEntries_outside {tss a : Nat}
    (h : a < gdt ∨ gdt + 56 <= a) : gdtSetEntries mem gdt tss a = mem a := by
  unfold gdtSetEntries
  rw [gdtSetTssAt_outside (by lia)]
  simp (disch := lia) only [gdtSetEntryAt_outside]

theorem gdtSetEntries_holds (mem : ByteMemory) (gdt tss : Nat) :
    GdtHolds (gdtSetEntries mem gdt tss) gdt := by
  intro p hp
  left
  simp only [gdtAccess, List.mem_cons, List.not_mem_nil, or_false] at hp
  unfold gdtSetEntries
  rcases hp with hp | hp | hp | hp
  all_goals
    rw [hp, segmentAt_gdtSetTssAt_ne (by decide)]
    simp (disch := decide) only [segmentAt_gdtSetEntryAt_ne,
      segmentAt_gdtSetEntryAt]
    rfl

theorem gdtTables_outside {a : Nat}
    (h : a < cpu + gdtField ∨ cpu + tssField + tssSize <= a) :
    gdtTables mem cpu a = mem a := by
  unfold gdtField tssField tssSize at h
  unfold gdtTables gdtrField
  rw [storeLE_outside _ _ (by lia), storeLE_outside _ _ (by lia),
    gdtSetEntries_outside (by unfold gdtField; lia), bMemset_apply,
    if_neg (by unfold tssField tssSize; lia), bMemset_apply,
    if_neg (by unfold gdtField gdtEntries; lia)]

theorem gdtTables_gdt {a : Nat} (h : a < cpu + gdtrField) :
    gdtTables mem cpu a =
      gdtSetEntries (bMemset (bMemset mem (cpu + gdtField) 0 (8 * gdtEntries))
        (cpu + tssField) 0 tssSize) (cpu + gdtField) (cpu + tssField) a := by
  unfold gdtTables
  rw [storeLE_outside _ _ (by lia), storeLE_outside _ _ (by lia)]

theorem gdtTables_holds (mem : ByteMemory) (cpu : Nat) :
    GdtHolds (gdtTables mem cpu) (cpu + gdtField) := by
  apply (gdtSetEntries_holds _ (cpu + gdtField) (cpu + tssField)).congr
  intro b hlow hhigh
  exact gdtTables_gdt (by unfold gdtrField; unfold gdtField at hhigh; lia)

theorem gdtTables_tss {a : Nat} (hlow : cpu + tssField <= a)
    (hhigh : a < cpu + tssField + tssSize) : gdtTables mem cpu a = 0 := by
  unfold tssField at hlow
  unfold gdtTables
  rw [storeLE_outside _ _ (by unfold gdtrField; lia),
    storeLE_outside _ _ (by unfold gdtrField; lia),
    gdtSetEntries_outside (by unfold gdtField; lia), bMemset_apply,
    if_pos ⟨by unfold tssField; lia, hhigh⟩]

theorem gdtTables_task (mem : ByteMemory) (cpu : Nat) :
    segmentAt (gdtTables mem cpu) (cpu + gdtField + 8 * 5) =
      { base := (cpu + tssField) % 2 ^ 32
        limit := 103
        access := 0x89
        flags := 4 } := by
  have hgdt : gdtrField = gdtField + 128 := by decide
  rw [segmentAt_congr (fun b _ hhigh => gdtTables_gdt (by lia))]
  exact segmentAt_gdtSetTssAt

theorem gdtTables_taskBase (hcpu : cpu + cpuSize <= 2 ^ 64) :
    tssBaseAt (gdtTables mem cpu) (cpu + gdtField + 8 * 5) =
      cpu + tssField := by
  have hgdt : gdtrField = gdtField + 128 := by decide
  have htss : tssField < cpuSize := by decide
  rw [tssBaseAt_congr (fun b _ hhigh => gdtTables_gdt (by lia))]
  exact tssBaseAt_gdtSetTssAt (by lia)

theorem gdtTables_reg (mem : ByteMemory) (hcpu : cpu + cpuSize <= 2 ^ 64) :
    loadLE (gdtTables mem cpu) (cpu + gdtrField) 2 = (gdtReg cpu).limit ∧
      loadLE (gdtTables mem cpu) (cpu + gdtrField + 2) 8 =
        (gdtReg cpu).base := by
  unfold gdtTables
  constructor
  · rw [loadLE_storeLE_outside _ _ (by lia), loadLE_storeLE]
    rfl
  · rw [loadLE_storeLE, Nat.mod_eq_of_lt]
    · rfl
    · unfold cpuSize at hcpu
      unfold gdtField
      lia

/-- `gdt_load` finds every segment it loads. -/
theorem gdtLoad_gdtTables (mem : ByteMemory)
    (hcpu : cpu + cpuSize <= 2 ^ 64) :
    exists mem', gdtLoad (gdtTables mem cpu) (cpu + gdtrField) =
        some (mem', gdtReg cpu) ∧
      GdtHolds mem' (cpu + gdtField) ∧
      forall b, b < cpu + gdtField + 8 ∨ cpu + gdtField + 40 <= b ->
        mem' b = gdtTables mem cpu b := by
  have hdata : (2, 0x92) ∈ gdtAccess := by decide
  have hcode : (1, 0x9A) ∈ gdtAccess := by decide
  obtain ⟨mem1, hmem1, hholds1, hsame1⟩ := (gdtTables_holds mem cpu).loadSegment
    0x10 hdata rfl rfl
  obtain ⟨mem2, hmem2, hholds2, hsame2⟩ := hholds1.loadSegment
    0x10 hdata rfl rfl
  obtain ⟨mem3, hmem3, hholds3, hsame3⟩ := hholds2.loadSegment
    0x10 hdata rfl rfl
  obtain ⟨mem4, hmem4, hholds4, hsame4⟩ := hholds3.loadSegment
    0x08 hcode rfl rfl
  have hreg := gdtTables_reg mem hcpu
  refine ⟨mem4, ?_, hholds4, ?_⟩
  · unfold gdtLoad
    rw [hreg.1, hreg.2]
    change (do
      let mem <- Entry.loadSegment (gdtTables mem cpu) (gdtReg cpu) 0x10
      let mem <- Entry.loadSegment mem (gdtReg cpu) 0x10
      let mem <- Entry.loadSegment mem (gdtReg cpu) 0x10
      let mem <- Entry.loadSegment mem (gdtReg cpu) 0x08
      some (mem, gdtReg cpu)) = _
    simp only [hmem1, hmem2, hmem3, hmem4, Option.bind_eq_bind,
      Option.bind_some]
  · intro b hb
    rw [hsame4 b hb, hsame3 b hb, hsame2 b hb, hsame1 b hb]

structure TssHolds (mem : ByteMemory) (tss rsp0 : Nat) : Prop where
  stack : forall i, i < 8 -> mem (tss + 4 + i) = UInt8.ofNat (rsp0 / 256 ^ i)
  rest : forall i, i < tssSize -> i < 4 ∨ 12 <= i -> mem (tss + i) = 0

theorem TssHolds.congr {tss rsp0 : Nat} (h : TssHolds mem tss rsp0)
    (hsame : forall b, tss <= b -> b < tss + tssSize -> mem' b = mem b) :
    TssHolds mem' tss rsp0 where
  stack := by
    intro i hi
    rw [hsame _ (by lia) (by unfold tssSize; lia)]
    exact h.stack i hi
  rest := by
    intro i hi hne
    rw [hsame _ (by lia) (by lia)]
    exact h.rest i hi hne

theorem gdtTables_tssHolds (mem : ByteMemory) (cpu : Nat) :
    TssHolds (gdtTables mem cpu) (cpu + tssField) 0 where
  stack := by
    intro i hi
    rw [gdtTables_tss (by lia) (by unfold tssSize; lia), Nat.zero_div]
    rfl
  rest := by
    intro i hi hne
    exact gdtTables_tss (by lia) (by lia)

theorem TssHolds.setStack {rsp0 : Nat}
    (h : TssHolds mem (cpu + tssField) rsp0) (stack : Nat) :
    TssHolds (tssSetStack mem cpu stack) (cpu + tssField) stack where
  stack := by
    intro i hi
    exact storeLE_inside mem (cpu + tssField + 4) stack hi
  rest := by
    intro i hi hne
    unfold tssSetStack
    rw [storeLE_outside _ _ (by lia)]
    exact h.rest i hi hne

theorem TssHolds.rsp0_eq {tss rsp0 : Nat} (h : TssHolds mem tss rsp0) :
    loadLE mem (tss + 4) 8 = rsp0 % 2 ^ 64 := by
  have hstored : loadLE mem (tss + 4) 8 =
      loadLE (storeLE mem (tss + 4) 8 rsp0) (tss + 4) 8 := by
    apply loadLE_congr
    intro i hi
    rw [h.stack i hi, storeLE_inside mem (tss + 4) rsp0 hi]
  rw [hstored, loadLE_storeLE]
  norm_num

theorem ltr_select {gdtr : TableReg} {selector : Nat} {s : Segment}
    (hselect : selectSegment mem gdtr selector = some s)
    (hfree : s.isFreeTss = true) (hpresent : s.present = true)
    (hlimit : 8 * (selector / 8) + 15 <= gdtr.limit) :
    ltr mem gdtr selector =
      some (setAccess mem (gdtr.entry selector) 2,
        { limit := s.lastByte
          base := tssBaseAt mem (gdtr.entry selector) }) := by
  unfold ltr
  rw [hselect]
  apply if_pos
  rw [hfree, hpresent, decide_eq_true hlimit]
  rfl

theorem gdtInit_spec (mem : ByteMemory) (hcpu : cpu + cpuSize <= 2 ^ 64) :
    exists mem', gdtInit mem cpu = some (mem', gdtReg cpu, taskReg cpu) ∧
      GdtHolds mem' (cpu + gdtField) ∧
      TssHolds mem' (cpu + tssField) 0 ∧
      forall b, b < cpu + gdtField ∨ cpu + tssField + tssSize <= b ->
        mem' b = mem b := by
  obtain ⟨loaded, hload, hgdt, hsame⟩ := gdtLoad_gdtTables mem hcpu
  have hentry : (gdtReg cpu).entry 0x28 = cpu + gdtField + 8 * 5 := rfl
  have hselect : selectSegment loaded (gdtReg cpu) 0x28 =
      some (segmentAt (gdtTables mem cpu) (cpu + gdtField + 8 * 5)) := by
    have hlimit : (gdtReg cpu).limit = 55 := rfl
    unfold selectSegment
    rw [hlimit, if_neg (by decide), hentry,
      segmentAt_congr (fun b hlow _ => hsame b (by lia))]
  have hbase : tssBaseAt loaded (cpu + gdtField + 8 * 5) =
      cpu + tssField := by
    rw [tssBaseAt_congr (fun b hlow _ => hsame b (by lia))]
    exact gdtTables_taskBase hcpu
  have hltr : tssLoad loaded (gdtReg cpu) =
      some (setAccess loaded (cpu + gdtField + 8 * 5) 2, taskReg cpu) := by
    have hfree : decide (0x89 % 32 = 9) = true := by decide
    have hpresent : Nat.testBit 0x89 7 = true := by decide
    have hbytes : Nat.testBit 4 3 = false := by decide
    rw [gdtTables_task] at hselect
    rw [tssLoad, ltr_select hselect hfree hpresent (by decide : _ <= 55),
      hentry, hbase, Segment.lastByte, hbytes]
    rfl
  refine ⟨setAccess loaded (cpu + gdtField + 8 * 5) 2, ?_, ?_, ?_, ?_⟩
  · unfold gdtInit
    rw [hload, Option.bind_eq_bind, Option.bind_some]
    dsimp only
    rw [hltr, Option.bind_eq_bind, Option.bind_some]
  · apply hgdt.congr
    intro b hlow hhigh
    exact setAccess_outside (by lia)
  · apply (gdtTables_tssHolds mem cpu).congr
    intro b hlow hhigh
    have hfields : tssField = gdtField + 144 := by decide
    rw [setAccess_outside (by lia), hsame b (by lia)]
  · intro b hb
    have hfields : tssField = gdtField + 144 := by decide
    rw [setAccess_outside (by lia), hsame b (by lia), gdtTables_outside hb]

end Gdt

/-!
# The interrupt descriptor table
-/

def stubGate (isr : UInt64) : Gate where
  offset := isr.toNat
  selector := 0x08
  ist := 0
  attributes := 0x8E

def emptyGate : Gate where
  offset := 0
  selector := 0
  ist := 0
  attributes := 0

def IdtHolds (mem : ByteMemory) (idt : Nat) (stubs : Nat -> UInt64) : Prop :=
  forall v, v < 256 ->
    gateAt mem (idt + 16 * v) =
      if v < 48 then stubGate (stubs v) else emptyGate

section Idt

variable {mem mem' : ByteMemory} {idt : Nat} {stubs : Nat -> UInt64}

theorem gateAt_congr {entry : Nat}
    (h : forall b, entry <= b -> b < entry + 16 -> mem' b = mem b) :
    gateAt mem' entry = gateAt mem entry := by
  have hload := loadLE_entry h
  have hfirst := hload 0 2 (by decide)
  simp only [Nat.add_zero] at hfirst
  unfold gateAt
  rw [hfirst, hload 2 2 (by decide), hload 4 1 (by decide),
    hload 5 1 (by decide), hload 6 2 (by decide), hload 8 4 (by decide)]

theorem IdtHolds.congr (h : IdtHolds mem idt stubs)
    (hsame : forall b, idt <= b -> b < idt + idtSize -> mem' b = mem b) :
    IdtHolds mem' idt stubs := by
  intro v hv
  have hentry : gateAt mem' (idt + 16 * v) = gateAt mem (idt + 16 * v) := by
    apply gateAt_congr
    intro b hlow hhigh
    exact hsame b (by lia) (by unfold idtSize; lia)
  rw [hentry]
  exact h v hv

theorem idtSetGate_outside {v isr attributes b : Nat}
    (h : b < idt + 16 * v ∨ idt + 16 * v + 16 <= b) :
    idtSetGate mem idt v isr attributes b = mem b := by
  unfold idtSetGate
  simp (disch := lia) only [storeLE_outside]

theorem gateAt_idtSetGate (mem : ByteMemory) (idt v : Nat) (isr : UInt64) :
    gateAt (idtSetGate mem idt v isr.toNat 0x8E) (idt + 16 * v) =
      stubGate isr := by
  have hisr : isr.toNat < 2 ^ 64 := isr.toNat_lt
  have hlow : isr.toNat &&& 0xFFFF = isr.toNat % 2 ^ 16 :=
    Word.and_low_mask _ 16
  have hmid : isr.toNat >>> 16 &&& 0xFFFF = isr.toNat / 2 ^ 16 % 2 ^ 16 :=
    shift_low_mask _ 16 16
  have hhigh : isr.toNat >>> 32 &&& 0xFFFFFFFF =
      isr.toNat / 2 ^ 32 % 2 ^ 32 :=
    shift_low_mask _ 32 32
  unfold gateAt idtSetGate stubGate
  simp (disch := lia) only [loadLE_storeLE_outside, loadLE_storeLE]
  rw [hlow, hmid, hhigh, Gate.mk.injEq]
  lia

theorem gateAt_idtSetGate_ne {v w isr attributes : Nat} (h : v ≠ w) :
    gateAt (idtSetGate mem idt v isr attributes) (idt + 16 * w) =
      gateAt mem (idt + 16 * w) := by
  apply gateAt_congr
  intro b hlow hhigh
  exact idtSetGate_outside (by lia)

theorem idtGates_outside {b : Nat} (n i : Nat) (mem : ByteMemory)
    (h : b < idt + 16 * i ∨ idt + 16 * (i + n) <= b) :
    idtGates idt stubs n i mem b = mem b := by
  induction n generalizing i mem with
  | zero => rfl
  | succ n ih =>
      rw [idtGates, ih _ _ (by lia), idtSetGate_outside (by lia)]

theorem gateAt_idtGates (n i : Nat) (mem : ByteMemory) (v : Nat) :
    gateAt (idtGates idt stubs n i mem) (idt + 16 * v) =
      if i <= v ∧ v < i + n then stubGate (stubs v)
      else gateAt mem (idt + 16 * v) := by
  induction n generalizing i mem with
  | zero => rw [idtGates, if_neg (by lia)]
  | succ n ih =>
      rw [idtGates, ih]
      by_cases hfirst : i = v
      · rw [if_neg (by lia), if_pos (by lia), hfirst, gateAt_idtSetGate]
      · rw [gateAt_idtSetGate_ne hfirst]
        by_cases hrest : i + 1 <= v ∧ v < i + 1 + n
        · rw [if_pos hrest, if_pos (by lia)]
        · rw [if_neg hrest, if_neg (by lia)]

theorem gateAt_zero {entry : Nat}
    (h : forall b, entry <= b -> b < entry + 16 -> mem b = 0) :
    gateAt mem entry = emptyGate := by
  have hzero : gateAt mem entry = gateAt (fun _ => 0) entry := by
    apply gateAt_congr
    intro b hlow hhigh
    exact h b hlow hhigh
  have hload : forall a n, loadLE (fun _ => 0) a n = 0 := by
    intro a n
    exact loadLE_eq_zero (fun i _ => rfl)
  rw [hzero]
  simp [gateAt, emptyGate, hload]

theorem idtInit_holds (mem : ByteMemory) (idt : Nat)
    (stubs : Nat -> UInt64) : IdtHolds (idtInit mem idt stubs) idt stubs := by
  intro v hv
  unfold idtInit
  rw [gateAt_idtGates]
  by_cases hstub : v < 48
  · rw [if_pos (by lia), if_pos hstub]
  · rw [if_neg (by lia), if_neg hstub]
    apply gateAt_zero
    intro b hlow hhigh
    rw [bMemset_apply, if_pos (by unfold idtSize; lia)]

theorem idtInit_outside {b : Nat} (h : b < idt ∨ idt + idtSize <= b) :
    idtInit mem idt stubs b = mem b := by
  unfold idtSize at h
  unfold idtInit
  rw [idtGates_outside _ _ _ (by lia), bMemset_apply,
    if_neg (by unfold idtSize; lia)]

end Idt

end Entry
end Barium
