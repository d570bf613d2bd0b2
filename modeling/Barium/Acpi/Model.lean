import Barium.Foundation.Word
import Barium.Foundation.RecordWalk
import Barium.Lib

/-!
# The tables of the firmware

`acpi.c`: `acpi_init` looks through the tables of the XSDT for the MADT, whose
signature is `APIC`, and through the entries of the MADT for the local APICs of
enabled processors.

The structures are packed.  In `acpi_rsdp_t`, `xsdt_address` is at offset 24; a
header of 36 bytes has its `length` at offset 4; the entries of an MADT start at
offset 44.  An entry has its type at offset 0 and its length at offset 1, and
for a local APIC `apic_id` is at offset 3 and `flags` at offset 4.
-/

namespace Barium
namespace Acpi

open Foundation
open Lib

def cpuSlots : Nat := 64
def headerSize : Nat := 36
def madtSize : Nat := 44
def entryFuel : Nat := 2 ^ 64

def apicSignature : List UInt8 := [0x41, 0x50, 0x49, 0x43]

/-- The static variables of `acpi.c`. -/
structure AcpiState where
  cpuApicIds : Nat -> Nat
  cpuCount : Nat

def acpiStart : AcpiState where
  cpuApicIds := fun _ => 0
  cpuCount := 0

def tableLength (ram : ByteMemory) (table : Nat) : Nat :=
  ByteMemory.loadLE ram (table + 4) 4

theorem tableLength_lt (ram : ByteMemory) (table : Nat) :
    tableLength ram table < 2 ^ 32 := by
  have h := ByteMemory.loadLE_lt ram (table + 4) 4
  rwa [show 256 ^ 4 = 2 ^ 32 by decide] at h

/-!
# Finding the MADT
-/

/-- The conversion to `int` keeps the low 32 bits. -/
def toInt (x : Nat) : Int :=
  if x % 2 ^ 32 < 2 ^ 31 then (x % 2 ^ 32 : Nat)
  else (x % 2 ^ 32 : Nat) - 2 ^ 32

/-- `(xsdt->length - sizeof(acpi_header_t)) / 8`, which is computed with 64
bits. -/
def xsdtEntries (ram : ByteMemory) (xsdt : Nat) : Int :=
  toInt (Word.sub (tableLength ram xsdt) headerSize / 8)

def tablePtr (ram : ByteMemory) (xsdt i : Nat) : Nat :=
  ByteMemory.loadLE ram (Word.add (Word.add xsdt headerSize) (8 * i)) 8

/-- The loop over `n` table pointers from the `i`-th one on; `NULL` when no
table has the signature. -/
def findMadt (ram : ByteMemory) (xsdt : Nat) : Nat -> Nat -> Nat
  | 0, _ => 0
  | n + 1, i =>
      if bMemcmp ram (tablePtr ram xsdt i) apicSignature = 0 then
        tablePtr ram xsdt i
      else
        findMadt ram xsdt n (i + 1)

/-!
# Reading its entries
-/

/-- The state of the entry loop, with the addresses it has read and the indices
of `cpu_apic_ids` it has stored to. -/
structure EntryScan where
  acpi : AcpiState
  reads : List Nat
  stores : List Nat

def lapicFlags (ram : ByteMemory) (ptr : Nat) : Nat :=
  ByteMemory.loadLE ram (ptr + 4) 4

/-- A local APIC with bit 0 of its flags set. -/
def EnabledAt (ram : ByteMemory) (ptr : Nat) : Prop :=
  ram ptr = 0 ∧ lapicFlags ram ptr &&& 1 ≠ 0

instance (ram : ByteMemory) (ptr : Nat) : Decidable (EnabledAt ram ptr) :=
  inferInstanceAs (Decidable (_ ∧ _))

def entryReads (ram : ByteMemory) (ptr : Nat) : List Nat :=
  [ptr] ++
    (if ram ptr = 0 then [ptr + 4, ptr + 5, ptr + 6, ptr + 7] else []) ++
    (if EnabledAt ram ptr then [ptr + 3] else []) ++
    [ptr + 1]

def addCpu (s : AcpiState) (apicId : Nat) : AcpiState where
  cpuApicIds := Function.update s.cpuApicIds s.cpuCount apicId
  cpuCount := s.cpuCount + 1

/-- The body of the entry loop. -/
def visitEntry (ram : ByteMemory) (ptr : Nat) (s : EntryScan) : EntryScan :=
  if EnabledAt ram ptr then
    { acpi := addCpu s.acpi (ram (ptr + 3)).toNat
      reads := s.reads ++ entryReads ram ptr
      stores := s.stores ++ [s.acpi.cpuCount] }
  else
    { s with reads := s.reads ++ entryReads ram ptr }

/-- `ptr += entry->length` -/
def nextEntry (ram : ByteMemory) (ptr : Nat) : Nat :=
  Word.add ptr (ram (ptr + 1)).toNat

def entryLoop (ram : ByteMemory) (madt : Nat) (s : AcpiState) :
    Option EntryScan :=
  RecordWalk.walk (Word.add madt (tableLength ram madt)) (nextEntry ram)
    (visitEntry ram) entryFuel (Word.add madt madtSize)
    { acpi := s, reads := [], stores := [] }

/-!
# The functions of the module

The message that `acpi_init` prints at its end is left out.
-/

def acpiInit (ram : ByteMemory) (rsdp : Nat) (s : AcpiState) :
    Option AcpiState :=
  let xsdt := ByteMemory.loadLE ram (rsdp + 24) 8
  let madt := findMadt ram xsdt (xsdtEntries ram xsdt).toNat 0
  if madt = 0 then some s
  else (entryLoop ram madt s).map EntryScan.acpi

/-- An element of `cpu_apic_ids`; `none` is an index outside the array. -/
def acpiGetLapicId (s : AcpiState) (index : Nat) : Option Nat :=
  if index < cpuSlots then some (s.cpuApicIds index) else none

def acpiGetCpuCount (s : AcpiState) : Nat :=
  s.cpuCount

end Acpi
end Barium
