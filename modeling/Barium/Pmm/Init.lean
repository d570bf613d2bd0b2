import Mathlib.Data.Finset.Card
import Mathlib.Order.Interval.Finset.Nat
import Barium.Pmm.Scan

/-!
# Initialisation

What `pmm_init` leaves behind: the bits and the counters in terms of the memory
map and of the RAM it found.
-/

namespace Barium
namespace Pmm

open Foundation
open Lib

/-!
# The quantities of a memory map
-/

def mapPages (mmap : List MemDesc) : Nat :=
  memoryEnd mmap / pageSize

def bitmapSize (mmap : List MemDesc) : Nat :=
  mapPages mmap / 8

def bitmapPlace (mmap : List MemDesc) : Nat :=
  findBitmap (bitmapSize mmap) mmap

def bitmapPages (mmap : List MemDesc) : Nat :=
  Word.add (bitmapSize mmap) 4095 / pageSize

def usableTotal (mmap : List MemDesc) : Nat :=
  ((mmap.filter (fun desc => desc.type = usableType)).map
    MemDesc.numberOfPages).sum

/-- The pages whose bits the loop over the descriptors clears. -/
def Usable (mmap : List MemDesc) (page : Nat) : Prop :=
  exists desc, desc ∈ mmap ∧ desc.type = usableType ∧
    Hits (desc.physicalStart / pageSize) 0 desc.numberOfPages page

def Filled (ram : ByteMemory) (mmap : List MemDesc) (page : Nat) : Prop :=
  page / 8 < bitmapSize mmap ∨
    Bitmap.test ram (bitmapPlace mmap) page = true

theorem memoryEnd_lt (mmap : List MemDesc) : memoryEnd mmap < 2 ^ 64 := by
  have hfold : forall (rest : List MemDesc) (e : Nat), e < 2 ^ 64 ->
      rest.foldl memoryEndStep e < 2 ^ 64 := by
    intro rest
    induction rest with
    | nil =>
        intro e he
        exact he
    | cons desc rest ih =>
        intro e he
        rw [List.foldl_cons]
        apply ih
        unfold memoryEndStep
        split
        · exact he
        · split
          · exact Word.add_lt _ _
          · exact he
  exact hfold mmap 0 (by decide)

theorem mapPages_lt (mmap : List MemDesc) : mapPages mmap < 2 ^ 52 := by
  have hlt := memoryEnd_lt mmap
  unfold mapPages pageSize
  lia

/-!
# The loops
-/

theorem filled_iff (ram : ByteMemory) (mmap : List MemDesc) (page : Nat) :
    Bitmap.test (bMemset ram (bitmapPlace mmap) 0xFF (bitmapSize mmap))
        (bitmapPlace mmap) page = true <->
      Filled ram mmap page := by
  unfold Filled
  rw [Bitmap.test_eq, bMemset_apply]
  by_cases hin : page / 8 < bitmapSize mmap
  · have hones : forall k, k < 8 -> (0xFF : UInt8).toNat.testBit k = true := by
      decide
    rw [if_pos (by lia), hones _ (Nat.mod_lt _ (by decide))]
    simp [hin]
  · rw [if_neg (by lia), Bitmap.test_eq]
    simp [hin]

theorem clearUsable_spec (s : PmmState) (mmap : List MemDesc)
    (hfree : s.freePages < 2 ^ 64) (husable : s.usablePages < 2 ^ 64) :
    exists ram,
      clearUsable s mmap =
        { s with
          ram := ram
          freePages := Word.add s.freePages (usableTotal mmap)
          usablePages := Word.add s.usablePages (usableTotal mmap) } ∧
      forall p, Bitmap.test ram s.bitmap p = true <->
        ¬ Usable mmap p ∧ bitmapTest s p = true := by
  induction mmap generalizing s with
  | nil =>
      refine ⟨s.ram, ?_, ?_⟩
      · show s = { s with
          freePages := Word.add s.freePages 0
          usablePages := Word.add s.usablePages 0 }
        rw [Word.add_zero hfree, Word.add_zero husable]
      · intro p
        simp [Usable, bitmapTest]
  | cons desc rest ih =>
      rw [clearUsable]
      by_cases htype : desc.type = usableType
      · have htotal : usableTotal (desc :: rest) =
            desc.numberOfPages + usableTotal rest := by
          simp [usableTotal, htype]
        rcases clearPages_spec
            { s with
              usablePages := Word.add s.usablePages desc.numberOfPages }
            (desc.physicalStart / pageSize) desc.numberOfPages 0 hfree with
          ⟨ram, heq, hbits⟩
        rcases ih
            { s with
              ram := ram
              freePages := Word.add s.freePages desc.numberOfPages
              usablePages := Word.add s.usablePages desc.numberOfPages }
            (Word.add_lt _ _) (Word.add_lt _ _) with ⟨ram', heq', hbits'⟩
        refine ⟨ram', ?_, ?_⟩
        · rw [if_pos htype]
          simp only
          rw [heq]
          refine heq'.trans ?_
          rw [Word.add_add, Word.add_add, htotal]
        · intro p
          refine (hbits' p).trans ?_
          have hp := hbits p
          have hsplit : Usable (desc :: rest) p <->
              Hits (desc.physicalStart / pageSize) 0 desc.numberOfPages p ∨
                Usable rest p := by
            simp [Usable, htype]
          rw [hsplit]
          unfold bitmapTest at hp ⊢
          simp only at hp ⊢
          rw [hp]
          tauto
      · have htotal : usableTotal (desc :: rest) = usableTotal rest := by
          simp [usableTotal, htype]
        have hsplit : forall p, Usable (desc :: rest) p <-> Usable rest p := by
          simp [Usable, htype]
        rw [if_neg htype, htotal]
        simp only [hsplit]
        exact ih s hfree husable

def clearBits (s : PmmState) (n i : Nat) : Finset Nat :=
  (Finset.Ico i (i + n)).filter (fun p => bitmapTest s p = false)

theorem clearBits_succ (s : PmmState) (n i : Nat) :
    (clearBits s (n + 1) i).card =
      (if bitmapTest s i = true then 0 else 1) +
        (clearBits s n (i + 1)).card := by
  have hico : Finset.Ico i (i + (n + 1)) =
      insert i (Finset.Ico (i + 1) (i + 1 + n)) := by
    ext p
    simp only [Finset.mem_insert, Finset.mem_Ico]
    lia
  unfold clearBits
  rw [hico, Finset.filter_insert]
  cases hbit : bitmapTest s i with
  | true => simp
  | false =>
      rw [if_pos rfl, Finset.card_insert_of_notMem (by simp)]
      simp [Nat.add_comm]

theorem clearBits_congr {s s' : PmmState} {n i : Nat}
    (h : forall p, i <= p -> bitmapTest s p = bitmapTest s' p) :
    clearBits s n i = clearBits s' n i := by
  unfold clearBits
  apply Finset.filter_congr
  intro p hp
  rw [h p (Finset.mem_Ico.mp hp).left]

theorem clearBits_card_le (s : PmmState) (n i : Nat) :
    (clearBits s n i).card <= n := by
  have hle := Finset.card_filter_le (Finset.Ico i (i + n))
    (fun p => bitmapTest s p = false)
  rw [Nat.card_Ico, Nat.add_sub_cancel_left] at hle
  exact hle

theorem reserveClear_spec (s : PmmState) (n i : Nat) (hn : n <= 2 ^ 64)
    (hfree : s.freePages < 2 ^ 64) :
    exists ram,
      reserveClear s n i =
        { s with
          ram := ram
          freePages := Word.sub s.freePages (clearBits s n i).card } ∧
      forall p, Bitmap.test ram s.bitmap p = true <->
        (i <= p ∧ p < i + n) ∨ bitmapTest s p = true := by
  induction n generalizing s i with
  | zero =>
      refine ⟨s.ram, ?_, ?_⟩
      · have hnone : (clearBits s 0 i).card = 0 := by
          simp [clearBits]
        rw [reserveClear, hnone, Word.sub_zero hfree]
      · intro p
        constructor
        · exact Or.inr
        · rintro (hp | hp)
          · lia
          · exact hp
  | succ n ih =>
      rw [reserveClear, clearBits_succ]
      by_cases hbit : bitmapTest s i = true
      · rw [if_pos hbit, if_pos hbit, Nat.zero_add]
        rcases ih s (i + 1) (Nat.le_of_succ_le hn) hfree with
          ⟨ram, heq, hbits⟩
        refine ⟨ram, heq, ?_⟩
        intro p
        rw [hbits p]
        by_cases hp : p = i
        · rw [hp]
          simp [hbit]
        · have hrange : i + 1 <= p ∧ p < i + 1 + n <->
              i <= p ∧ p < i + (n + 1) := by lia
          rw [hrange]
      · rw [if_neg hbit, if_neg hbit]
        rcases ih { bitmapSet s i with
            freePages := Word.sub s.freePages 1 } (i + 1)
          (Nat.le_of_succ_le hn) (Word.sub_lt _ _) with ⟨ram, heq, hbits⟩
        have hrest : clearBits { bitmapSet s i with
            freePages := Word.sub s.freePages 1 } n (i + 1) =
            clearBits s n (i + 1) := by
          apply clearBits_congr
          intro p hp
          rw [bitmapTest_freePages, Bool.eq_iff_iff, bitmapTest_set]
          simp [show p ≠ i by lia]
        refine ⟨ram, ?_, ?_⟩
        · have hcard := clearBits_card_le s n (i + 1)
          refine heq.trans ?_
          rw [hrest]
          simp only [bitmapSet]
          rw [Word.sub_sub _ (show 1 + (clearBits s n (i + 1)).card <= 2 ^ 64
            by lia)]
        · intro p
          refine (hbits p).trans ?_
          rw [bitmapTest_freePages, bitmapTest_set]
          have hrange : i <= p ∧ p < i + (n + 1) <->
              p = i ∨ (i + 1 <= p ∧ p < i + 1 + n) := by lia
          rw [hrange]
          tauto

/-!
# The whole of `pmm_init`
-/

def Reserved (ram : ByteMemory) (mmap : List MemDesc) (page : Nat) : Prop :=
  Hits (bitmapPlace mmap / pageSize) 0 (bitmapPages mmap) page ∨
    (¬ Usable mmap page ∧ Filled ram mmap page)

structure InitSpec (ram : ByteMemory) (mmap : List MemDesc)
    (s : PmmState) : Prop where
  bitmap_eq : s.bitmap = bitmapPlace mmap
  total_eq : s.totalPages = mapPages mmap
  usable_eq : s.usablePages = Word.add 0 (usableTotal mmap)
  bits : forall p, bitmapTest s p = true <->
    p < lowMemory / pageSize ∨ Reserved ram mmap p
  free_eq : exists low : Finset Nat,
    (forall p, p ∈ low <-> p < lowMemory / pageSize ∧ ¬ Reserved ram mmap p) ∧
    s.freePages = Word.sub
      (Word.sub (Word.add 0 (usableTotal mmap)) (bitmapPages mmap)) low.card

theorem bitmapPages_le (mmap : List MemDesc) : bitmapPages mmap <= 2 ^ 64 := by
  have hlt := Word.add_lt (bitmapSize mmap) 4095
  unfold bitmapPages pageSize
  lia

def initState (s : PmmState) (mmap : List MemDesc) (ram : ByteMemory)
    (freePages usablePages : Nat) : PmmState :=
  { s with
    ram := ram
    bitmap := bitmapPlace mmap
    totalPages := mapPages mmap
    highestPhysAddress := memoryEnd mmap
    freePages := freePages
    usablePages := usablePages }

theorem pmmInit_eq (s : PmmState) (mmap : List MemDesc)
    (hplace : bitmapPlace mmap ≠ 0) :
    pmmInit s mmap =
      reserveClear
        (reservePages
          (clearUsable
            (initState s mmap
              (bMemset s.ram (bitmapPlace mmap) 0xFF (bitmapSize mmap)) 0 0)
            mmap)
          (bitmapPlace mmap / pageSize) (bitmapPages mmap) 0)
        (lowMemory / pageSize) 0 := by
  unfold pmmInit
  simp only
  rw [if_neg (show findBitmap (memoryEnd mmap / pageSize / 8) mmap ≠ 0 from
    hplace)]
  rfl

theorem pmmInit_spec (s : PmmState) (mmap : List MemDesc)
    (hplace : bitmapPlace mmap ≠ 0) :
    InitSpec s.ram mmap (pmmInit s mmap) ∧
      (pmmInit s mmap).lastSearchIndex = s.lastSearchIndex := by
  have hzero : 0 < 2 ^ 64 := by decide
  let total := Word.add 0 (usableTotal mmap)
  rcases clearUsable_spec
      (initState s mmap
        (bMemset s.ram (bitmapPlace mmap) 0xFF (bitmapSize mmap)) 0 0)
      mmap hzero hzero with ⟨ram1, heq1, hbits1⟩
  rcases reservePages_spec (initState s mmap ram1 total total)
      (bitmapPlace mmap / pageSize) (bitmapPages mmap) 0
      (bitmapPages_le mmap) (Word.add_lt _ _) with ⟨ram2, heq2, hbits2⟩
  rcases reserveClear_spec
      (initState s mmap ram2 (Word.sub total (bitmapPages mmap)) total)
      (lowMemory / pageSize) 0 (by decide) (Word.sub_lt _ _) with
    ⟨ram3, heq3, hbits3⟩
  have hinit := pmmInit_eq s mmap hplace
  rw [heq1] at hinit
  change pmmInit s mmap = reserveClear (reservePages
    (initState s mmap ram1 total total) _ _ _) _ _ at hinit
  rw [heq2] at hinit
  change pmmInit s mmap = reserveClear (initState s mmap ram2
    (Word.sub total (bitmapPages mmap)) total) _ _ at hinit
  rw [heq3] at hinit
  have hreserved : forall p, Bitmap.test ram2 (bitmapPlace mmap) p = true <->
      Reserved s.ram mmap p := by
    intro p
    refine (hbits2 p).trans ?_
    unfold Reserved
    rw [← filled_iff]
    exact or_congr Iff.rfl (hbits1 p)
  rw [hinit]
  refine ⟨⟨rfl, rfl, rfl, ?_, ?_⟩, rfl⟩
  · intro p
    refine (hbits3 p).trans ?_
    rw [Nat.zero_add]
    exact or_congr ⟨fun h => h.right, fun h => ⟨Nat.zero_le p, h⟩⟩
      (hreserved p)
  · refine ⟨_, ?_, rfl⟩
    intro p
    unfold clearBits
    rw [Finset.mem_filter, Finset.mem_Ico, ← hreserved p, Bool.not_eq_true,
      Nat.zero_add]
    exact and_congr ⟨fun h => h.right, fun h => ⟨Nat.zero_le p, h⟩⟩ Iff.rfl

end Pmm
end Barium
