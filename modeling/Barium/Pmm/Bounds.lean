import Barium.Pmm.Conservation

/-!
# Staying inside managed memory

A call of `pmm_alloc` stays inside when it tests and sets only bits of pages
below `total_pages`, returns a run that ends there, and leaves
`last_search_index` within the same bound.  The first scan is bounded by
`total_pages - count`, which wraps around for a larger count; the second one is
bounded by `last_search_index` alone and runs on over the free pages that end
the memory.
-/

namespace Barium
namespace Pmm

open Foundation
open TransitionSystem
open RunSearch

structure InsideResult (s : PmmState) (count : Nat) (r : AllocResult) :
    Prop where
  tested_lt : forall q, q ∈ r.tested -> q < s.totalPages
  set_lt : forall q, q ∈ r.set -> q < s.totalPages
  run_le : r.ret ≠ 0 -> r.ret / pageSize + count <= s.totalPages
  last_le : r.state.lastSearchIndex <= s.totalPages

def StaysInside (s : PmmState) (count : Nat) : Prop :=
  exists r, pmmAlloc s count = some r ∧ InsideResult s count r

/-- A request that one of the scans satisfies inside, or that the second scan
gives up at a set page before it reaches the end of memory. -/
def SafeRequest (s : PmmState) (count : Nat) : Prop :=
  count <= s.totalPages ∧
    ((exists k, FreeRun (bitmapTest s) k count ∧
        ((s.lastSearchIndex <= k ∧ k + count < s.totalPages) ∨
          (k < s.lastSearchIndex ∧ k + count <= s.totalPages))) ∨
      s.lastSearchIndex = 0 ∨
      exists p, s.lastSearchIndex <= p + 1 ∧ p < s.totalPages ∧
        bitmapTest s p = true)

section Calls

variable {s : PmmState} {count : Nat}

theorem mem_runPages {i q : Nat} (hend : i + count <= 2 ^ 64) :
    q ∈ runPages i count <-> i <= q ∧ q < i + count := by
  rw [← hits_iff hend]
  unfold runPages Hits
  simp

theorem insideResult_found {i : Nat} {tested : List Nat}
    (htotal : s.totalPages < 2 ^ 52) (hend : i + count <= s.totalPages)
    (htested : forall q, q ∈ tested -> q < s.totalPages) :
    InsideResult s count (allocFound s i count tested) := by
  rcases takeRun_spec (s := s) (show i + count <= 2 ^ 64 by lia) with
    ⟨ram, heq, _⟩
  refine ⟨htested, ?_, ?_, ?_⟩
  · intro q hq
    have hq' := (mem_runPages (by lia)).mp hq
    lia
  · intro _
    have hret : (allocFound s i count tested).ret = i * 4096 :=
      Word.mul_of_lt (by unfold pageSize; lia)
    rw [hret]
    unfold pageSize
    lia
  · show (takeRun s i count).lastSearchIndex <= _
    rw [heq]
    simp only
    rw [Word.add_of_lt (by lia)]
    exact hend

theorem first_tested_lt {tested : List Nat} {found : Option Nat}
    (hspec : ScanSpec s count s.lastSearchIndex (s.totalPages - count) found
      tested) :
    forall q, q ∈ tested -> q < s.totalPages := by
  intro q hq
  rcases hspec.tested_limit q hq with ⟨k, hk, hqk⟩
  lia

/-!
# The condition is enough
-/

theorem safe_second_found {tested' : List Nat} {tested : List Nat} {i : Nat}
    (hsafe : SafeRequest s count)
    (hfirst : ScanSpec s count s.lastSearchIndex (s.totalPages - count) none
      tested)
    (hsecond : ScanSpec s count 0 s.lastSearchIndex (some i) tested') :
    i + count <= s.totalPages := by
  rcases hsecond.first with ⟨_, hlt, hfree, _, hleast⟩
  rcases hsafe with ⟨hcount, ⟨k, hk, hwhere⟩ | hzero | ⟨p, hp, hpt, hbusy⟩⟩
  · rcases hwhere with ⟨hlow, hhigh⟩ | ⟨hlow, hhigh⟩
    · exact absurd hk (hfirst.first k hlow (by lia))
    · have hik : i <= k := by
        by_contra hki
        exact hleast k (Nat.zero_le k) (by lia) hk
      lia
  · lia
  · by_contra hgt
    exact not_freeRun_of_busy hbusy (by lia) (by lia) hfree

theorem safe_second_tested {tested tested' : List Nat}
    (hsafe : SafeRequest s count)
    (hfirst : ScanSpec s count s.lastSearchIndex (s.totalPages - count) none
      tested)
    (hsecond : ScanSpec s count 0 s.lastSearchIndex none tested') :
    forall q, q ∈ tested' -> q < s.totalPages := by
  intro q hq
  rcases hsafe with ⟨hcount, ⟨k, hk, hwhere⟩ | hzero | ⟨p, hp, hpt, hbusy⟩⟩
  · rcases hwhere with ⟨hlow, hhigh⟩ | ⟨hlow, hhigh⟩
    · exact absurd hk (hfirst.first k hlow (by lia))
    · exact absurd hk (hsecond.first k (Nat.zero_le k) hlow)
  · rcases hsecond.tested_limit q hq with ⟨k, hk, _⟩
    lia
  · exact lt_of_le_of_lt (hsecond.tested_busy q hq p hbusy hp) hpt

theorem staysInside_of_safe (htotal : s.totalPages < 2 ^ 52)
    (hlast : s.lastSearchIndex <= s.totalPages) (hpos : 1 <= count)
    (hsafe : SafeRequest s count) : StaysInside s count := by
  have hcount := hsafe.left
  rcases pmmAlloc_outcome (show s.totalPages < 2 ^ 64 by lia) hcount
    (by lia) hpos with ⟨r, hrun, houtcome⟩
  refine ⟨r, hrun, ?_⟩
  cases houtcome with
  | first hspec =>
      rcases hspec.first with ⟨_, hlt, _, _, _⟩
      exact insideResult_found htotal (by lia) (first_tested_lt hspec)
  | second hfirst hsecond =>
      have hend := safe_second_found hsafe hfirst hsecond
      refine insideResult_found htotal hend ?_
      intro q hq
      rcases List.mem_append.mp hq with hq | hq
      · exact first_tested_lt hfirst q hq
      · have hlt := hsecond.tested_found q hq _ rfl
        lia
  | fail hfirst hsecond _ =>
      refine ⟨?_, ?_, ?_, hlast⟩
      · intro q hq
        rcases List.mem_append.mp hq with hq | hq
        · exact first_tested_lt hfirst q hq
        · exact safe_second_tested hsafe hfirst hsecond q hq
      · intro q hq
        cases hq
      · intro hret
        exact absurd rfl hret

/-!
# The condition is needed
-/

theorem count_le_of_staysInside (htotal : s.totalPages < 2 ^ 52)
    (hlast : s.lastSearchIndex <= s.totalPages) (hword : count < 2 ^ 64)
    (h : StaysInside s count) : count <= s.totalPages := by
  rcases h with ⟨r, hrun, hinside⟩
  rcases pmmAlloc_first_scan hrun with ⟨found, tested, hscan, hmem⟩
  by_contra hgt
  have hlimit : Word.sub s.totalPages count = s.totalPages + 2 ^ 64 - count :=
    Nat.mod_eq_of_lt (by lia)
  have hreach : s.totalPages ∈ tested := by
    refine scan_reaches (e := s.totalPages) hscan hlast (le_refl _) ?_
      (by lia) ?_ ?_
    · rw [hlimit]
      lia
    · intro p hlow hhigh
      lia
    · intro k _ _ _
      lia
  exact absurd (hinside.tested_lt _ (hmem _ hreach)) (lt_irrefl _)

theorem safe_of_staysInside (htotal : s.totalPages < 2 ^ 52)
    (hlast : s.lastSearchIndex <= s.totalPages) (hpos : 1 <= count)
    (hword : count < 2 ^ 64) (h : StaysInside s count) :
    SafeRequest s count := by
  have hcount := count_le_of_staysInside htotal hlast hword h
  rcases h with ⟨r, hrun, hinside⟩
  refine ⟨hcount, ?_⟩
  rcases pmmAlloc_outcome (show s.totalPages < 2 ^ 64 by lia) hcount
    (by lia) hpos with ⟨r', hrun', houtcome⟩
  rw [hrun] at hrun'
  cases hrun'
  cases houtcome with
  | @first i tested hspec =>
      rcases hspec.first with ⟨hlow, hlt, hfree, _, _⟩
      exact Or.inl ⟨i, hfree, Or.inl ⟨hlow, by lia⟩⟩
  | @second i tested tested' _ hspec =>
      rcases hspec.first with ⟨_, hlt, hfree, _, _⟩
      rcases takeRun_spec (s := s) (show i + count <= 2 ^ 64 by lia) with
        ⟨ram, heq, _⟩
      have hend : (takeRun s i count).lastSearchIndex <= s.totalPages :=
        hinside.last_le
      rw [heq] at hend
      simp only at hend
      rw [Word.add_of_lt (by lia)] at hend
      exact Or.inl ⟨i, hfree, Or.inr ⟨hlt, hend⟩⟩
  | @fail tested tested' _ hsecond hscan =>
      right
      by_contra hnone
      rw [not_or] at hnone
      have hclear : forall p, s.lastSearchIndex - 1 <= p ->
          p < s.totalPages -> bitmapTest s p = false := by
        intro p hlow hhigh
        rw [← Bool.not_eq_true]
        intro hbusy
        exact hnone.right ⟨p, by lia, hhigh, hbusy⟩
      have hlastpos : 0 < s.lastSearchIndex := Nat.pos_of_ne_zero hnone.left
      have hreach : s.totalPages ∈ tested' := by
        refine scan_reaches (e := s.lastSearchIndex - 1) hscan (Nat.zero_le _)
          (by lia) (by lia) (by lia) hclear ?_
        intro k _ hk hfree
        exact absurd hfree (hsecond.first k (Nat.zero_le k) (by lia))
      exact absurd (hinside.tested_lt _ (List.mem_append_right _ hreach))
        (lt_irrefl _)

theorem staysInside_iff (htotal : s.totalPages < 2 ^ 52)
    (hlast : s.lastSearchIndex <= s.totalPages) (hpos : 1 <= count)
    (hword : count < 2 ^ 64) :
    StaysInside s count <-> SafeRequest s count :=
  ⟨safe_of_staysInside htotal hlast hpos hword,
    staysInside_of_safe htotal hlast hpos⟩

end Calls

/-!
# Runs of safe requests

Between the calls the memory behind the bitmap may change in any way.
-/

inductive BoundsEvent where
  | alloc (count ret : Nat)
  | free (ptr count : Nat)
  | memory

inductive SafeStep : PoolState -> BoundsEvent -> PoolState -> Prop where
  | alloc {s : PoolState} {count : Nat} {r : AllocResult} :
      1 <= count -> SafeRequest s.pmm count ->
      pmmAlloc s.pmm count = some r ->
      SafeStep s (BoundsEvent.alloc count r.ret)
        { pmm := r.state
          owned := if r.ret = 0 then s.owned
            else s.owned ∪ pageRange r.ret count }
  | free {s : PoolState} {ptr count : Nat} :
      ptr < 2 ^ 64 -> pageRange ptr count ⊆ s.owned ->
      SafeStep s (BoundsEvent.free ptr count)
        { pmm := pmmFree s.pmm ptr count
          owned := s.owned \ pageRange ptr count }
  | memory {s : PoolState} {ram : ByteMemory} :
      (forall p, p < s.pmm.totalPages ->
        Bitmap.test ram s.pmm.bitmap p = bitmapTest s.pmm p) ->
      SafeStep s BoundsEvent.memory
        { s with pmm := { s.pmm with ram := ram } }

def safeSystem (start : PmmState) :
    TransitionSystem PoolState BoundsEvent where
  Init := fun s => s = { pmm := start, owned := ∅ }
  Step := SafeStep

structure BoundsInvariant (s : PoolState) : Prop where
  total_lt : s.pmm.totalPages < 2 ^ 52
  last_le : s.pmm.lastSearchIndex <= s.pmm.totalPages
  owned_lt : forall p, p ∈ s.owned -> p < s.pmm.totalPages
  free_lt : s.pmm.freePages < 2 ^ 64

section Runs

variable {s s' : PoolState}

theorem boundsInvariant_init (ram : ByteMemory) (mmap : List MemDesc) :
    BoundsInvariant { pmm := pmmInit (bootState ram) mmap, owned := ∅ } := by
  have hfields : (pmmInit (bootState ram) mmap).totalPages = mapPages mmap ∧
      (pmmInit (bootState ram) mmap).lastSearchIndex = 0 ∧
      (pmmInit (bootState ram) mmap).freePages < 2 ^ 64 := by
    by_cases hplace : bitmapPlace mmap = 0
    · have hearly : pmmInit (bootState ram) mmap =
          initState (bootState ram) mmap ram 0 0 := by
        unfold pmmInit
        exact if_pos hplace
      rw [hearly]
      exact ⟨rfl, rfl, Nat.two_pow_pos 64⟩
    · rcases pmmInit_spec (bootState ram) mmap hplace with ⟨hspec, hlast⟩
      exact ⟨hspec.total_eq, hlast, (pmmInit_ready ram mmap hplace).free_lt⟩
  rcases hfields with ⟨htotal, hlast, hfree⟩
  refine ⟨?_, ?_, ?_, hfree⟩
  · show (pmmInit (bootState ram) mmap).totalPages < _
    rw [htotal]
    exact mapPages_lt mmap
  · show (pmmInit (bootState ram) mmap).lastSearchIndex <= _
    rw [hlast]
    exact Nat.zero_le _
  · intro p hp
    cases hp

theorem allocOutcome_fields {pmm : PmmState} {count : Nat} {r : AllocResult}
    (h : AllocOutcome pmm count r) (hfree : pmm.freePages < 2 ^ 64) :
    r.state.totalPages = pmm.totalPages ∧ r.state.freePages < 2 ^ 64 := by
  have htaken : forall i, (takeRun pmm i count).totalPages = pmm.totalPages ∧
      (takeRun pmm i count).freePages < 2 ^ 64 := by
    intro i
    rcases setRun_spec pmm i count 0 with ⟨ram, heq, _⟩
    unfold takeRun
    rw [heq]
    exact ⟨rfl, Word.sub_lt _ _⟩
  cases h with
  | @first i tested _ => exact htaken i
  | @second i tested tested' _ _ => exact htaken i
  | fail _ _ _ => exact ⟨rfl, hfree⟩

theorem boundsInvariant_alloc (hinv : BoundsInvariant s) {count : Nat}
    {r : AllocResult} (hpos : 1 <= count) (hsafe : SafeRequest s.pmm count)
    (hrun : pmmAlloc s.pmm count = some r) :
    BoundsInvariant
      { pmm := r.state
        owned := if r.ret = 0 then s.owned
          else s.owned ∪ pageRange r.ret count } := by
  have htotal := hinv.total_lt
  have hlast := hinv.last_le
  have hcount := hsafe.left
  rcases staysInside_of_safe htotal hlast hpos hsafe with
    ⟨r', hrun', hinside⟩
  rw [hrun] at hrun'
  cases hrun'
  rcases pmmAlloc_outcome (show s.pmm.totalPages < 2 ^ 64 by lia) hcount
    (by lia) hpos with ⟨r', hrun', houtcome⟩
  rw [hrun] at hrun'
  cases hrun'
  rcases allocOutcome_fields houtcome hinv.free_lt with ⟨hsame, hfree⟩
  refine ⟨by rw [hsame]; exact htotal, by rw [hsame]; exact hinside.last_le,
    ?_, hfree⟩
  intro p hp
  rw [hsame]
  by_cases hret : r.ret = 0
  · rw [if_pos hret] at hp
    exact hinv.owned_lt p hp
  · rw [if_neg hret, Finset.mem_union, pageRange, Finset.mem_Ico] at hp
    rcases hp with hp | hp
    · exact hinv.owned_lt p hp
    · have hend := hinside.run_le hret
      lia

theorem boundsInvariant_step {event : BoundsEvent} (hinv : BoundsInvariant s)
    (hstep : SafeStep s event s') : BoundsInvariant s' := by
  cases hstep with
  | alloc hpos hsafe hrun => exact boundsInvariant_alloc hinv hpos hsafe hrun
  | @free ptr count _ _ =>
      rcases clearPages_spec s.pmm (ptr / pageSize) count 0 hinv.free_lt with
        ⟨ram, heq, _⟩
      have hfree : pmmFree s.pmm ptr count = _ := heq
      rw [hfree]
      exact ⟨hinv.total_lt, hinv.last_le,
        fun p hp => hinv.owned_lt p (Finset.mem_sdiff.mp hp).left,
        Word.add_lt _ _⟩
  | memory _ =>
      exact ⟨hinv.total_lt, hinv.last_le, hinv.owned_lt, hinv.free_lt⟩

theorem pmmInit_safe_runs_inside (ram : ByteMemory) (mmap : List MemDesc)
    (hreach : (safeSystem (pmmInit (bootState ram) mmap)).Reachable s) :
    s.pmm.lastSearchIndex <= s.pmm.totalPages ∧
      forall count, 1 <= count -> count < 2 ^ 64 ->
        (StaysInside s.pmm count <-> SafeRequest s.pmm count) := by
  have hinv : BoundsInvariant s := by
    refine reachable_invariant ?_ ?_ hreach
    · intro t ht
      cases ht
      exact boundsInvariant_init ram mmap
    · intro t event u hinv hstep
      exact boundsInvariant_step hinv hstep
  refine ⟨hinv.last_le, ?_⟩
  intro count hpos hword
  exact staysInside_iff hinv.total_lt hinv.last_le hpos hword

end Runs

theorem pmmInit_safe_runs_inside_plainPool :
    exists ptr s, ptr ≠ 0 ∧
      (safeSystem (pmmInit (bootState (fun _ => 0)) plainMap)).Runs plainPool
        [BoundsEvent.alloc 1 ptr, BoundsEvent.free ptr 1] s ∧
      s.pmm.lastSearchIndex <= s.pmm.totalPages ∧
      forall count, 1 <= count -> count < 2 ^ 64 ->
        (StaysInside s.pmm count <-> SafeRequest s.pmm count) := by
  rcases plainPool_alloc with ⟨r, hcount, hrun, hne, hptr⟩
  have hlast := (pmmInit_ready (fun _ => 0) plainMap (by decide)).last_eq
  have halloc := SafeStep.alloc (Nat.le_refl 1)
    ⟨hcount, Or.inr (Or.inl hlast)⟩ hrun
  rw [if_neg hne] at halloc
  have hruns : (safeSystem
      (pmmInit (bootState (fun _ => 0)) plainMap)).Runs plainPool
      [BoundsEvent.alloc 1 r.ret, BoundsEvent.free r.ret 1] _ :=
    Runs.snoc (runs_single halloc)
      (SafeStep.free hptr Finset.subset_union_right)
  refine ⟨r.ret, _, hne, hruns, ?_⟩
  exact pmmInit_safe_runs_inside (fun _ => 0) plainMap
    ⟨plainPool, _, rfl, hruns⟩

/-- Right after `pmm_init` on 8192 pages, a request for 8193 pages leaves the
managed memory. -/
theorem plainPool_leaves_memory : ¬ StaysInside plainPool.pmm 8193 := by
  intro hinside
  have hinv : BoundsInvariant plainPool :=
    boundsInvariant_init (fun _ => 0) plainMap
  have hle := count_le_of_staysInside hinv.total_lt hinv.last_le (by decide)
    hinside
  have hplace : bitmapPlace plainMap ≠ 0 := by decide
  have htotal : plainPool.pmm.totalPages = mapPages plainMap :=
    (pmmInit_spec (bootState (fun _ => 0)) plainMap hplace).left.total_eq
  rw [htotal] at hle
  exact absurd hle (by decide)

end Pmm
end Barium
