import Barium.Pmm.Bounds

/-!
# When an allocation fails

`pmm_alloc` scans twice, and no scan tries the run at the very end of the memory
unless `last_search_index` lies behind the start of that run.
-/

namespace Barium
namespace Pmm

open Foundation
open TransitionSystem
open RunSearch

def NoRun (s : PmmState) (count : Nat) : Prop :=
  forall k, k + count <= s.totalPages -> ¬ FreeRun (bitmapTest s) k count

def FailsOnlyWithoutRun (s : PmmState) (count : Nat) : Prop :=
  exists r, pmmAlloc s count = some r ∧ (r.ret = 0 -> NoRun s count)

/-- The last `count` pages are not all clear, or there is a run that a scan
finds. -/
def LastRunCovered (s : PmmState) (count : Nat) : Prop :=
  ¬ FreeRun (bitmapTest s) (s.totalPages - count) count ∨
    exists k, Tried s count k ∧ FreeRun (bitmapTest s) k count

section Alloc

variable {start : PmmState} {s : PoolState} {count : Nat}

theorem pmmAlloc_fails_iff (hready : ReadyState start)
    (hinv : PmmInvariant start s) (hpos : 1 <= count)
    (hcount : count <= s.pmm.totalPages) :
    exists r, pmmAlloc s.pmm count = some r ∧
      (r.ret = 0 <-> forall k, Tried s.pmm count k ->
        ¬ FreeRun (bitmapTest s.pmm) k count) := by
  rcases pmmAlloc_taken hready hinv hpos hcount with ⟨r, hrun, hcase⟩
  refine ⟨r, hrun, ?_⟩
  rcases hcase with ⟨i, tested, hr, htaken, htried⟩ | ⟨hret, _, hnone⟩
  · rw [hr]
    constructor
    · intro hzero
      exact absurd hzero (allocFound_ret tested htaken).left
    · intro hnone
      exact absurd htaken.free (hnone i htried)
  · exact ⟨fun _ => hnone, fun _ => hret⟩

theorem failsOnlyWithoutRun_iff (hready : ReadyState start)
    (hinv : PmmInvariant start s) (hpos : 1 <= count)
    (hcount : count <= s.pmm.totalPages) :
    FailsOnlyWithoutRun s.pmm count <-> LastRunCovered s.pmm count := by
  rcases pmmAlloc_fails_iff hready hinv hpos hcount with ⟨r, hrun, hfails⟩
  constructor
  · intro hprop
    rcases hprop with ⟨r', hrun', honly⟩
    rw [hrun] at hrun'
    cases hrun'
    by_cases hzero : r.ret = 0
    · left
      apply honly hzero
      exact Nat.le_of_eq (Nat.sub_add_cancel hcount)
    · right
      apply Classical.byContradiction
      intro hnone
      apply hzero
      rw [hfails]
      intro k htried hfree
      exact hnone ⟨k, htried, hfree⟩
  · intro hcovered
    refine ⟨r, hrun, ?_⟩
    intro hzero
    have hnone := hfails.mp hzero
    intro k hk hfree
    rcases hcovered with hlast | ⟨k', htried, hfree'⟩
    · -- the only start that no scan tries is the last one
      rcases Nat.lt_or_eq_of_le hk with hlt | heq
      · exact hnone k (Or.inl hlt) hfree
      · apply hlast
        rw [← heq, Nat.add_sub_cancel]
        exact hfree
    · exact hnone k' htried hfree'

end Alloc

theorem pmmAlloc_complete_iff (ram : ByteMemory) (mmap : List MemDesc)
    (hplace : bitmapPlace mmap ≠ 0) {s : PoolState}
    (hreach : (pmmSystem (pmmInit (bootState ram) mmap)).Reachable s)
    {count : Nat} (hpos : 1 <= count) (hcount : count <= s.pmm.totalPages) :
    FailsOnlyWithoutRun s.pmm count <-> LastRunCovered s.pmm count := by
  have hready := pmmInit_ready ram mmap hplace
  exact failsOnlyWithoutRun_iff hready (pmmInvariant_reachable hready hreach)
    hpos hcount

/-!
# Memory right after its initialisation
-/

theorem pmmAlloc_complete_iff_plainPool :
    FailsOnlyWithoutRun plainPool.pmm 100 := by
  have hcount : 100 <= plainPool.pmm.totalPages := by
    rw [plainPool_total]
    decide
  have htried : Tried plainPool.pmm 100 5000 := by
    left
    rw [plainPool_total]
    decide
  have hfree : FreeRun (bitmapTest plainPool.pmm) 5000 100 :=
    plainPool_freeRun (by decide) (by decide)
  apply (pmmAlloc_complete_iff (fun _ => 0) plainMap (by decide)
    plainPool_reachable (by decide) hcount).mpr
  exact Or.inr ⟨5000, htried, hfree⟩

/-- All 4095 free pages at once: the only run ends with the last page, and
`last_search_index` is 0. -/
theorem pmmAlloc_misses_last :
    FreeRun (bitmapTest plainPool.pmm) 4097 4095 ∧
    ¬ FailsOnlyWithoutRun plainPool.pmm 4095 := by
  have hcount : 4095 <= plainPool.pmm.totalPages := by
    rw [plainPool_total]
    decide
  have hready := pmmInit_ready (fun _ => 0) plainMap (by decide)
  have hinv := pmmInvariant_reachable hready plainPool_reachable
  have hlast : plainPool.pmm.lastSearchIndex = 0 := hready.last_eq
  have hfree : FreeRun (bitmapTest plainPool.pmm) 4097 4095 :=
    plainPool_freeRun (by decide) (by decide)
  refine ⟨hfree, ?_⟩
  intro honly
  rcases (failsOnlyWithoutRun_iff hready hinv (by decide) hcount).mp honly
    with hno | ⟨k, htried, hrun⟩
  · rw [plainPool_total] at hno
    exact hno hfree
  · unfold Tried at htried
    rw [plainPool_total, hlast] at htried
    have hk : k < 4097 := by lia
    exact not_freeRun_of_busy ((plainPool_bits (by lia)).mpr hk)
      (Nat.le_refl k) (by lia) hrun

end Pmm
end Barium
