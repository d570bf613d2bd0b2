import Barium.Pmm.Model
import Barium.Vmm.Model

/-!
# Shared sections

`alpc.c`: a table of 64 sections.  A section is a run of physical pages; mapping
one puts its pages at the next free addresses of the section space, which
starts at `0x8000000000`.  The frames of the sections and the frames of new page
tables come from the same physical memory manager.
-/

namespace Barium
namespace Alpc

open Foundation
open Pmm
open Vmm

def sectionSlots : Nat := 64
def sectionBase : Nat := 0x8000000000
def mapFuel : Nat := 2 ^ 64

structure AlpcSection where
  id : Nat
  physAddr : Nat
  size : Nat
  ownerTid : Nat
  deriving DecidableEq, Repr

def emptySection : AlpcSection where
  id := 0
  physAddr := 0
  size := 0
  ownerTid := 0

/-- The section table and its two counters, with the kernel's page tables and
the physical memory manager behind them. -/
structure SectionState where
  sections : List AlpcSection
  nextSectionId : Nat
  nextSectionVirt : Nat
  vmm : VmmState PmmState

/-- The statics after `alpc_init`. -/
def alpcInit (vmm : VmmState PmmState) : SectionState where
  sections := List.replicate sectionSlots emptySection
  nextSectionId := 1
  nextSectionVirt := sectionBase
  vmm := vmm

/-- `pmm_alloc(1)`, as `vmm_map` calls it for a new table. -/
def pmmFrame : FrameAllocator PmmState :=
  fun s => (pmmAlloc s 1).map (fun r => (r.ret, r.state))

/-- The frame of a new table after `vmm_init`, whose tables leave page 0 out:
when `pmm_alloc` has answered 0, clearing the table is a page fault. -/
def tableFrame : FrameAllocator PmmState :=
  fun s => do
    let (frame, s) <- pmmFrame s
    if frame = 0 then none else some (frame, s)

/-!
# Creating a section
-/

def sectionPages (size : Nat) : Nat :=
  Word.add size 4095 / 4096

/-- Store a section in the first free slot. -/
def fillSlot (sec : AlpcSection) : List AlpcSection -> Option (List AlpcSection)
  | [] => none
  | slot :: rest =>
      if slot.id = 0 then
        some (sec :: rest)
      else
        (fillSlot sec rest).map (fun rest => slot :: rest)

/-- The id, or 0 when the table is full; the pages stay allocated then. -/
def alpcCreateSection (s : SectionState) (tid size : Nat) :
    Option (Nat × SectionState) := do
  let r <- pmmAlloc s.vmm.frames (sectionPages size)
  let id := s.nextSectionId
  let s := { s with
    nextSectionId := Word.add id 1
    vmm := { s.vmm with frames := r.state } }
  let sec : AlpcSection :=
    { id := id
      physAddr := r.ret
      size := Word.mul (sectionPages size) 4096
      ownerTid := tid }
  match fillSlot sec s.sections with
  | some sections => some (id, { s with sections := sections })
  | none => some (0, s)

/-!
# Mapping a section
-/

def findSection (id : Nat) : List AlpcSection -> Option AlpcSection
  | [] => none
  | slot :: rest => if slot.id = id then some slot else findSection id rest

def sectionFlags : Nat := pagePresent ||| pageWritable ||| pageUser

/-- The loop over the pages of a section; `none` is a loop that has not ended
or a request of `alloc` that has not returned. -/
def mapPages (alloc : FrameAllocator alpha) (pml4 virt phys size : Nat) :
    Nat -> VmmState alpha -> Nat -> Option (VmmState alpha)
  | 0, _, _ => none
  | fuel + 1, s, j =>
      if j < size then do
        let s <- vmmMap alloc s pml4 (Word.add virt j) (Word.add phys j)
          sectionFlags
        mapPages alloc pml4 virt phys size fuel s (Word.add j 4096)
      else
        some s

/-- The address of the mapping, or 0 for an unknown section; `none` when there
is no frame for a table. -/
def alpcMapSection (s : SectionState) (pml4 id : Nat) :
    Option (Nat × SectionState) :=
  match findSection id s.sections with
  | some sec => do
      let virt := s.nextSectionVirt
      let vmm <- mapPages tableFrame pml4 virt sec.physAddr sec.size mapFuel
        s.vmm 0
      some (virt, { s with
        nextSectionVirt := Word.add virt sec.size
        vmm := vmm })
  | none => some (0, s)

end Alpc
end Barium
