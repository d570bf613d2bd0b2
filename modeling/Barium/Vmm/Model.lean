import Mathlib.Data.Fintype.Basic
import Mathlib.Logic.Function.Basic
import Mathlib.Data.Nat.Bitwise
import Barium.Foundation.TableTree
import Barium.Foundation.Word

/-!
# Page tables

`vmm.c`: four levels of page tables in physical memory, built as addresses are
mapped.  Memory is a map from addresses to the 64-bit words stored there.  The
page frames for new tables come from an allocator, which stands for
`pmm_alloc(1)`; it may keep a state of its own.
-/

namespace Barium
namespace Vmm

open Foundation

def pagePresent : Nat := 1
def pageWritable : Nat := 2
def pageUser : Nat := 4

/-- `~0xFFF` as a 64-bit mask. -/
def frameMask : Nat := 2 ^ 64 - 2 ^ 12

/-- The tables in memory and the state of the frame allocator. -/
structure VmmState (alpha : Type) where
  mem : Nat -> Nat
  frames : alpha

/-- `pmm_alloc(1)`: the frame it returns and the allocator afterwards. -/
abbrev FrameAllocator (alpha : Type) := alpha -> Option (Nat × alpha)

def pml4Idx (virt : Nat) : Nat := (virt >>> 39) &&& 0x1FF
def pdptIdx (virt : Nat) : Nat := (virt >>> 30) &&& 0x1FF
def pdIdx (virt : Nat) : Nat := (virt >>> 21) &&& 0x1FF
def ptIdx (virt : Nat) : Nat := (virt >>> 12) &&& 0x1FF

/-- The address of `table[idx]`, an array of 64-bit entries. -/
def entryAddr (table idx : Nat) : Nat :=
  table + 8 * idx

/-- The effect of `b_memset(frame, 0, 4096)` on the words of the frame. -/
def zeroFrame (mem : Nat -> Nat) (frame : Nat) : Nat -> Nat :=
  fun a => if frame <= a ∧ a < frame + 4096 then 0 else mem a

/-!
# Mapping

Each of the three inner levels is looked up the same way: an entry that is not
present first gets a fresh, zeroed table.
-/

def ensureTable (alloc : FrameAllocator alpha) (s : VmmState alpha)
    (table idx : Nat) : Option (VmmState alpha × Nat) :=
  if s.mem (entryAddr table idx) &&& pagePresent = 0 then do
    let (frame, frames) <- alloc s.frames
    let mem := Function.update (zeroFrame s.mem frame) (entryAddr table idx)
      (frame ||| pagePresent ||| pageWritable ||| pageUser)
    some ({ mem := mem, frames := frames },
      mem (entryAddr table idx) &&& frameMask)
  else
    some (s, s.mem (entryAddr table idx) &&& frameMask)

def vmmMap (alloc : FrameAllocator alpha) (s : VmmState alpha)
    (pml4 virt phys flags : Nat) : Option (VmmState alpha) := do
  let (s, pdpt) <- ensureTable alloc s pml4 (pml4Idx virt)
  let (s, pd) <- ensureTable alloc s pdpt (pdptIdx virt)
  let (s, pt) <- ensureTable alloc s pd (pdIdx virt)
  some { s with
    mem := Function.update s.mem (entryAddr pt (ptIdx virt))
      ((phys &&& frameMask) ||| flags) }

/-!
# Translation
-/

def vmmGetPhys (mem : Nat -> Nat) (pml4 virt : Nat) : Nat :=
  if mem (entryAddr pml4 (pml4Idx virt)) &&& pagePresent = 0 then 0
  else
    let pdpt := mem (entryAddr pml4 (pml4Idx virt)) &&& frameMask
    if mem (entryAddr pdpt (pdptIdx virt)) &&& pagePresent = 0 then 0
    else
      let pd := mem (entryAddr pdpt (pdptIdx virt)) &&& frameMask
      if mem (entryAddr pd (pdIdx virt)) &&& pagePresent = 0 then 0
      else
        let pt := mem (entryAddr pd (pdIdx virt)) &&& frameMask
        if mem (entryAddr pt (ptIdx virt)) &&& pagePresent = 0 then 0
        else mem (entryAddr pt (ptIdx virt)) &&& frameMask

/-- The permissions that the processor derives from the entries of the four
levels: a page is writable, or open to user code, when all four say so. -/
def effectivePermissions (mem : Nat -> Nat) (pml4 virt : Nat) : Nat :=
  let e4 := mem (entryAddr pml4 (pml4Idx virt))
  let e3 := mem (entryAddr (e4 &&& frameMask) (pdptIdx virt))
  let e2 := mem (entryAddr (e3 &&& frameMask) (pdIdx virt))
  let e1 := mem (entryAddr (e2 &&& frameMask) (ptIdx virt))
  e4 &&& e3 &&& e2 &&& e1 &&& (pageWritable ||| pageUser)

/-!
# Paths

The four indices of an address, from the top level down.
-/

abbrev Index := Fin 512

def pageFormat : TableFormat Nat Nat Nat Index where
  slot := fun table idx => entryAddr table idx.val
  child := fun entry =>
    if entry &&& pagePresent = 0 then none else some (entry &&& frameMask)

theorem and_511_lt (n : Nat) : n &&& 0x1FF < 512 := by
  rw [show 0x1FF = 2 ^ 9 - 1 by rfl, Word.and_low_mask]
  exact Nat.mod_lt _ (by decide)

def innerPath (virt : Nat) : List Index :=
  [⟨pml4Idx virt, and_511_lt _⟩, ⟨pdptIdx virt, and_511_lt _⟩,
    ⟨pdIdx virt, and_511_lt _⟩]

def lastIndex (virt : Nat) : Index :=
  ⟨ptIdx virt, and_511_lt _⟩

def levelIndex (virt : Nat) : Nat -> Index
  | 0 => ⟨pml4Idx virt, and_511_lt _⟩
  | 1 => ⟨pdptIdx virt, and_511_lt _⟩
  | 2 => ⟨pdIdx virt, and_511_lt _⟩
  | _ => lastIndex virt

def indexPath (virt : Nat) : List Index :=
  innerPath virt ++ [lastIndex virt]

/-- Bits 12 to 47 of an address. -/
def pageNumber (virt : Nat) : Nat :=
  virt / 2 ^ 12 % 2 ^ 36

theorem shift_index (virt k : Nat) :
    (virt >>> k) &&& 0x1FF = virt / 2 ^ k % 2 ^ 9 := by
  rw [show 0x1FF = 2 ^ 9 - 1 by rfl, Word.and_low_mask,
    Nat.shiftRight_eq_div_pow]

theorem mod_digits (n : Nat) :
    n % 2 ^ 36 = n % 512 + 512 * (n / 512 % 512 +
      512 * (n / 512 / 512 % 512 + 512 * (n / 512 / 512 / 512 % 512))) := by
  rw [show 2 ^ 36 = 512 * (512 * (512 * 512)) by rfl, Nat.mod_mul,
    Nat.mod_mul, Nat.mod_mul]

theorem digits_inj {a b c d a' b' c' d' : Nat} (ha : a < 512) (hb : b < 512)
    (hc : c < 512) (ha' : a' < 512) (hb' : b' < 512) (hc' : c' < 512) :
    (d = d' ∧ c = c' ∧ b = b' ∧ a = a') <->
      a + 512 * (b + 512 * (c + 512 * d)) =
        a' + 512 * (b' + 512 * (c' + 512 * d')) := by
  omega

/-- Two addresses have the same indices when they lie on the same page. -/
theorem indexPath_eq_iff (v w : Nat) :
    indexPath v = indexPath w <-> pageNumber v = pageNumber w := by
  have hlist : indexPath v = indexPath w <->
      pml4Idx v = pml4Idx w ∧ pdptIdx v = pdptIdx w ∧ pdIdx v = pdIdx w ∧
        ptIdx v = ptIdx w := by
    simp [indexPath, innerPath, lastIndex, Fin.ext_iff]
  have hdigits : forall n, pml4Idx n = n / 2 ^ 12 / 512 / 512 / 512 % 512 ∧
      pdptIdx n = n / 2 ^ 12 / 512 / 512 % 512 ∧
      pdIdx n = n / 2 ^ 12 / 512 % 512 ∧ ptIdx n = n / 2 ^ 12 % 512 := by
    intro n
    unfold pml4Idx pdptIdx pdIdx ptIdx
    simp [shift_index, Nat.div_div_eq_div_mul]
  rcases hdigits v with ⟨hv4, hv3, hv2, hv1⟩
  rcases hdigits w with ⟨hw4, hw3, hw2, hw1⟩
  rw [hlist, hv4, hv3, hv2, hv1, hw4, hw3, hw2, hw1, pageNumber, pageNumber,
    mod_digits, mod_digits]
  have hlt : forall n, n % 512 < 512 := fun n => Nat.mod_lt n (by decide)
  exact digits_inj (hlt _) (hlt _) (hlt _) (hlt _) (hlt _) (hlt _)

end Vmm
end Barium
