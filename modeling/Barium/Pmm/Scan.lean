import Barium.Foundation.RunSearch
import Barium.Pmm.Model

/-!
# The loops of the memory manager

One specification for every loop: which bits it changes, how it counts, which
pages it tests, and what it finds.
-/

namespace Barium
namespace Pmm

open Foundation
open RunSearch

/-!
# Ranges of pages

The loops run over `first + k` in 64-bit arithmetic.
-/

def Hits (first j n page : Nat) : Prop :=
  exists k, j <= k ∧ k < j + n ∧ Word.add first k = page

theorem hits_succ {first j n page : Nat} :
    Hits first j (n + 1) page <->
      page = Word.add first j ∨ Hits first (j + 1) n page := by
  constructor
  · rintro ⟨k, hlow, hhigh, heq⟩
    by_cases hk : k = j
    · exact Or.inl (by rw [← heq, hk])
    · exact Or.inr ⟨k, by lia, by lia, heq⟩
  · rintro (heq | ⟨k, hlow, hhigh, heq⟩)
    · exact ⟨j, le_refl j, by lia, heq.symm⟩
    · exact ⟨k, by lia, by lia, heq⟩

theorem hits_zero {first j page : Nat} : ¬ Hits first j 0 page := by
  rintro ⟨k, hlow, hhigh, _⟩
  lia

theorem hits_iff {first n page : Nat} (hend : first + n <= 2 ^ 64) :
    Hits first 0 n page <-> first <= page ∧ page < first + n := by
  constructor
  · rintro ⟨k, _, hhigh, heq⟩
    rw [Word.add_of_lt (by lia)] at heq
    lia
  · rintro ⟨hlow, hhigh⟩
    refine ⟨page - first, Nat.zero_le _, by lia, ?_⟩
    rw [Word.add_of_lt (by lia)]
    lia

/-!
# Setting and clearing
-/

theorem bitmapTest_set (s : PmmState) (page p : Nat) :
    bitmapTest (bitmapSet s page) p = true <->
      p = page ∨ bitmapTest s p = true := by
  unfold bitmapTest bitmapSet
  rw [Bitmap.test_set]
  simp

theorem bitmapTest_clear (s : PmmState) (page p : Nat) :
    bitmapTest (bitmapClear s page) p = true <->
      p ≠ page ∧ bitmapTest s p = true := by
  unfold bitmapTest bitmapClear
  rw [Bitmap.test_clear]
  simp

theorem bitmapTest_freePages (s : PmmState) (n p : Nat) :
    bitmapTest { s with freePages := n } p = bitmapTest s p := rfl

theorem clearPages_spec (s : PmmState) (first n j : Nat)
    (hfree : s.freePages < 2 ^ 64) :
    exists ram,
      clearPages s first n j =
        { s with ram := ram, freePages := Word.add s.freePages n } ∧
      forall p, Bitmap.test ram s.bitmap p = true <->
        ¬ Hits first j n p ∧ bitmapTest s p = true := by
  induction n generalizing s j with
  | zero =>
      refine ⟨s.ram, ?_, ?_⟩
      · rw [clearPages, Word.add_zero hfree]
      · intro p
        exact ⟨fun h => ⟨hits_zero, h⟩, fun h => h.right⟩
  | succ n ih =>
      rcases ih { bitmapClear s (Word.add first j) with
          freePages := Word.add s.freePages 1 } (j + 1)
        (Word.add_lt _ _) with ⟨ram, heq, hbits⟩
      refine ⟨ram, ?_, ?_⟩
      · rw [clearPages]
        refine heq.trans ?_
        simp only [bitmapClear, Word.add_add, Nat.add_comm 1 n]
      · intro p
        refine (hbits p).trans ?_
        rw [bitmapTest_freePages, bitmapTest_clear, hits_succ]
        tauto

theorem reservePages_spec (s : PmmState) (first n j : Nat)
    (hn : n <= 2 ^ 64) (hfree : s.freePages < 2 ^ 64) :
    exists ram,
      reservePages s first n j =
        { s with
          ram := ram
          freePages := Word.sub s.freePages n } ∧
      forall p, Bitmap.test ram s.bitmap p = true <->
        Hits first j n p ∨ bitmapTest s p = true := by
  induction n generalizing s j with
  | zero =>
      refine ⟨s.ram, ?_, ?_⟩
      · rw [reservePages, Word.sub_zero hfree]
      · intro p
        exact ⟨Or.inr, fun h => h.resolve_left hits_zero⟩
  | succ n ih =>
      rcases ih { bitmapSet s (Word.add first j) with
          freePages := Word.sub s.freePages 1 } (j + 1)
        (Nat.le_of_succ_le hn) (Word.sub_lt _ _) with ⟨ram, heq, hbits⟩
      refine ⟨ram, ?_, ?_⟩
      · rw [reservePages]
        refine heq.trans ?_
        simp only [bitmapSet]
        rw [Word.sub_sub _ (show 1 + n <= 2 ^ 64 by lia), Nat.add_comm 1 n]
      · intro p
        refine (hbits p).trans ?_
        rw [bitmapTest_freePages, bitmapTest_set, hits_succ]
        tauto

theorem setRun_spec (s : PmmState) (i n j : Nat) :
    exists ram,
      setRun s i n j = { s with ram := ram } ∧
      forall p, Bitmap.test ram s.bitmap p = true <->
        Hits i j n p ∨ bitmapTest s p = true := by
  induction n generalizing s j with
  | zero =>
      refine ⟨s.ram, rfl, ?_⟩
      intro p
      exact ⟨Or.inr, fun h => h.resolve_left hits_zero⟩
  | succ n ih =>
      rcases ih (bitmapSet s (Word.add i j)) (j + 1) with ⟨ram, heq, hbits⟩
      refine ⟨ram, heq, ?_⟩
      intro p
      refine (hbits p).trans ?_
      rw [bitmapTest_set, hits_succ]
      tauto

/-!
# Testing a run
-/

theorem testRun_none {s : PmmState} {i n j : Nat} {tested : List Nat}
    (h : testRun s i n j = (none, tested)) :
    (forall k, j <= k -> k < j + n -> bitmapTest s (Word.add i k) = false) ∧
      forall q, q ∈ tested <-> Hits i j n q := by
  induction n generalizing j tested with
  | zero =>
      cases h
      refine ⟨fun k hlow hhigh => by lia, fun q => ?_⟩
      simp [hits_zero]
  | succ n ih =>
      rw [testRun] at h
      by_cases hbusy : bitmapTest s (Word.add i j) = true
      · rw [if_pos hbusy] at h
        cases h
      · rw [if_neg hbusy] at h
        rcases Prod.mk.inj h with ⟨hnone, htested⟩
        rcases ih (Prod.ext hnone rfl) with ⟨hclear, hmem⟩
        constructor
        · intro k hlow hhigh
          by_cases hk : k = j
          · rw [hk]
            exact Bool.eq_false_of_not_eq_true hbusy
          · exact hclear k (by lia) (by lia)
        · intro q
          rw [← htested, List.mem_cons, hmem, hits_succ]

theorem testRun_some {s : PmmState} {i n j m : Nat} {tested : List Nat}
    (h : testRun s i n j = (some m, tested)) :
    j <= m ∧ m < j + n ∧ bitmapTest s (Word.add i m) = true ∧
      (forall k, j <= k -> k < m -> bitmapTest s (Word.add i k) = false) ∧
      forall q, q ∈ tested <-> Hits i j (m - j + 1) q := by
  induction n generalizing j tested with
  | zero => cases h
  | succ n ih =>
      rw [testRun] at h
      by_cases hbusy : bitmapTest s (Word.add i j) = true
      · rw [if_pos hbusy] at h
        rcases Prod.mk.inj h with ⟨hsome, htested⟩
        cases hsome
        refine ⟨le_refl _, by lia, hbusy, fun k hlow hhigh => by lia, ?_⟩
        intro q
        rw [← htested, List.mem_singleton, Nat.sub_self, hits_succ]
        simp [hits_zero]
      · rw [if_neg hbusy] at h
        rcases Prod.mk.inj h with ⟨hsome, htested⟩
        rcases ih (Prod.ext hsome rfl) with ⟨hlow, hhigh, hset, hclear, hmem⟩
        refine ⟨by lia, by lia, hset, ?_, ?_⟩
        · intro k hjk hkm
          by_cases hk : k = j
          · rw [hk]
            exact Bool.eq_false_of_not_eq_true hbusy
          · exact hclear k (by lia) hkm
        · intro q
          rw [← htested, List.mem_cons, hmem, ← hits_succ,
            show m - (j + 1) + 1 + 1 = m - j + 1 by lia]

/-!
# Scans

A scan whose run indices stay below `2 ^ 64` ends and finds the first run.
-/

structure ScanSpec (s : PmmState) (count lo limit : Nat)
    (found : Option Nat) (tested : List Nat) : Prop where
  first : FirstRun (bitmapTest s) lo limit count found
  tested_found : forall q, q ∈ tested -> forall i, found = some i ->
    q < i + count
  tested_busy : forall q, q ∈ tested -> forall p, bitmapTest s p = true ->
    limit <= p + 1 -> q <= p
  tested_limit : forall q, q ∈ tested -> exists k, k < limit ∧ q < k + count

section Scans

variable {s : PmmState} {count limit : Nat}

theorem freeRun_of_testRun {i : Nat} {tested : List Nat}
    (hend : i + count <= 2 ^ 64)
    (h : testRun s i count 0 = (none, tested)) :
    FreeRun (bitmapTest s) i count := by
  intro k hk
  have hclear := (testRun_none h).left k (Nat.zero_le k) (by lia)
  rwa [Word.add_of_lt (by lia)] at hclear

theorem scanSpec_found {i : Nat} {tested : List Nat} (hlt : i < limit)
    (hend : limit + count <= 2 ^ 64)
    (h : testRun s i count 0 = (none, tested)) :
    ScanSpec s count i limit (some i) tested := by
  have hfree := freeRun_of_testRun (by lia) h
  have hmem : forall q, q ∈ tested -> i <= q ∧ q < i + count := by
    intro q hq
    exact (hits_iff (by lia)).mp (((testRun_none h).right q).mp hq)
  refine ⟨firstRun_here hlt hfree, ?_, ?_, ?_⟩
  · intro q hq k hk
    cases hk
    exact (hmem q hq).right
  · intro q hq p hbusy hp
    have hq' := hmem q hq
    by_contra hlt'
    exact not_freeRun_of_busy hbusy (by lia) (by lia) hfree
  · intro q hq
    exact ⟨i, hlt, (hmem q hq).right⟩

theorem scanSpec_skip {i j : Nat} {tested rest : List Nat}
    {found : Option Nat} (hlt : i < limit) (hend : limit + count <= 2 ^ 64)
    (h : testRun s i count 0 = (some j, tested))
    (hrest : ScanSpec s count (i + j + 1) limit found rest) :
    ScanSpec s count i limit found (tested ++ rest) := by
  rcases testRun_some h with ⟨_, hj, hbusy, hclear, hmem⟩
  rw [Word.add_of_lt (by lia)] at hbusy
  have hbefore : forall q, q ∈ tested -> q <= i + j := by
    intro q hq
    have hhits := (hmem q).mp hq
    rw [Nat.sub_zero, hits_iff (by lia)] at hhits
    lia
  refine ⟨firstRun_skip (by lia) hbusy hrest.first, ?_, ?_, ?_⟩
  · intro q hq k hk
    rcases List.mem_append.mp hq with hq | hq
    · have hfirst := hrest.first
      rw [hk] at hfirst
      have hlow := hfirst.left
      have hle := hbefore q hq
      lia
    · exact hrest.tested_found q hq k hk
  · intro q hq p hp hlimit
    rcases List.mem_append.mp hq with hq | hq
    · have hle := hbefore q hq
      by_contra hlt'
      have hclear' := hclear (p - i) (Nat.zero_le _) (by lia)
      rw [Word.add_of_lt (by lia), Nat.add_sub_cancel' (by lia), hp] at hclear'
      cases hclear'
    · exact hrest.tested_busy q hq p hp hlimit
  · intro q hq
    rcases List.mem_append.mp hq with hq | hq
    · have hle := hbefore q hq
      exact ⟨i, hlt, by lia⟩
    · exact hrest.tested_limit q hq

theorem scan_spec (s : PmmState) {fuel i : Nat} (hend : limit + count <= 2 ^ 64)
    (hfuel : limit - i < fuel) :
    exists found tested, scan s count limit fuel i = some (found, tested) ∧
      ScanSpec s count i limit found tested := by
  induction fuel generalizing i with
  | zero => cases hfuel
  | succ fuel ih =>
      rw [scan]
      by_cases hlt : i < limit
      · rw [if_pos hlt]
        rcases hrun : testRun s i count 0 with ⟨blocked, tested⟩
        cases blocked with
        | none => exact ⟨some i, tested, rfl, scanSpec_found hlt hend hrun⟩
        | some j =>
            have hj := (testRun_some hrun).right.left
            rcases ih (i := i + j + 1) (by lia) with
              ⟨found, rest, hscan, hspec⟩
            refine ⟨found, tested ++ rest, ?_,
              scanSpec_skip hlt hend hrun hspec⟩
            simp only
            rw [Word.add_of_lt (x := i) (by lia), Word.add_of_lt (by lia),
              hscan]
            rfl
      · rw [if_neg hlt]
        refine ⟨none, [], rfl, firstRun_end (by lia), ?_, ?_, ?_⟩
        · intro q hq
          cases hq
        · intro q hq
          cases hq
        · intro q hq
          cases hq

/-!
A scan that has to pass over the clear pages from `e` to `t` without finding a
run that ends there tests page `t`, whatever the bound of the scan is.
-/

theorem scan_reaches {fuel i e t : Nat} {found : Option Nat}
    {tested : List Nat}
    (hscan : scan s count limit fuel i = some (found, tested))
    (hie : i <= e) (het : e <= t) (helimit : e < limit) (ht : t < 2 ^ 64)
    (hclear : forall p, e <= p -> p < t -> bitmapTest s p = false)
    (hlong : forall k, i <= k -> k <= e -> FreeRun (bitmapTest s) k count ->
      t < k + count) :
    t ∈ tested := by
  induction fuel generalizing i found tested with
  | zero => cases hscan
  | succ fuel ih =>
      rw [scan, if_pos (by lia)] at hscan
      rcases hrun : testRun s i count 0 with ⟨blocked, tested'⟩
      rw [hrun] at hscan
      have hhits : Word.add i (t - i) = t := by
        rw [Word.add_of_lt (by lia)]
        lia
      cases blocked with
      | none =>
          cases hscan
          have hlt : t < i + count := by
            by_contra hle
            have hfree := freeRun_of_testRun (by lia) hrun
            exact hle (hlong i (le_refl i) hie hfree)
          exact ((testRun_none hrun).right t).mpr
            ⟨t - i, Nat.zero_le _, by lia, hhits⟩
      | some j =>
          rcases testRun_some hrun with ⟨_, hj, hbusy, _, hmem⟩
          rcases Option.map_eq_some_iff.mp hscan with ⟨r, hrest, hr⟩
          rcases Prod.mk.inj hr with ⟨_, htested⟩
          rw [← htested]
          by_cases hreach : t <= i + j
          · exact List.mem_append_left _
              ((hmem t).mpr ⟨t - i, Nat.zero_le _, by lia, hhits⟩)
          · rw [Word.add_of_lt (by lia)] at hbusy
            have hje : i + j < e := by
              by_contra hle
              rw [hclear (i + j) (by lia) (by lia)] at hbusy
              cases hbusy
            rw [Word.add_of_lt (x := i) (by lia), Word.add_of_lt (by lia)]
              at hrest
            refine List.mem_append_right _ (ih hrest (by lia) ?_)
            intro k hk
            exact hlong k (by lia)

end Scans

/-!
# Allocation and release
-/

theorem lt_scanFuel {n : Nat} (h : n < 2 ^ 64) : n < scanFuel := by
  unfold scanFuel
  exact h

inductive AllocOutcome (s : PmmState) (count : Nat) : AllocResult -> Prop where
  | first {i : Nat} {tested : List Nat} :
      ScanSpec s count s.lastSearchIndex (s.totalPages - count) (some i)
        tested ->
      AllocOutcome s count (allocFound s i count tested)
  | second {i : Nat} {tested tested' : List Nat} :
      ScanSpec s count s.lastSearchIndex (s.totalPages - count) none tested ->
      ScanSpec s count 0 s.lastSearchIndex (some i) tested' ->
      AllocOutcome s count (allocFound s i count (tested ++ tested'))
  | fail {tested tested' : List Nat} :
      ScanSpec s count s.lastSearchIndex (s.totalPages - count) none tested ->
      ScanSpec s count 0 s.lastSearchIndex none tested' ->
      scan s count s.lastSearchIndex scanFuel 0 = some (none, tested') ->
      AllocOutcome s count
        { ret := 0, state := s, tested := tested ++ tested', set := [] }

section Operations

variable {s : PmmState} {count : Nat}

theorem pmmAlloc_outcome (htotal : s.totalPages < 2 ^ 64)
    (hcount : count <= s.totalPages)
    (hlast : s.lastSearchIndex + count <= 2 ^ 64) (hpos : 0 < count) :
    exists r, pmmAlloc s count = some r ∧ AllocOutcome s count r := by
  have hend : s.totalPages - count + count <= 2 ^ 64 := by lia
  have hfuel : s.totalPages - count - s.lastSearchIndex < scanFuel :=
    lt_scanFuel (by lia)
  have hfuel' : s.lastSearchIndex - 0 < scanFuel := lt_scanFuel (by lia)
  rcases scan_spec s hend hfuel with ⟨found, tested, hscan, hspec⟩
  rcases scan_spec s hlast hfuel' with ⟨found', tested', hscan', hspec'⟩
  rw [pmmAlloc, Word.sub_of_le htotal hcount, hscan, hscan']
  cases found with
  | some i => exact ⟨_, rfl, AllocOutcome.first hspec⟩
  | none =>
      cases found' with
      | some i => exact ⟨_, rfl, AllocOutcome.second hspec hspec'⟩
      | none => exact ⟨_, rfl, AllocOutcome.fail hspec hspec' hscan'⟩

theorem pmmAlloc_cases {r : AllocResult} (h : pmmAlloc s count = some r) :
    (exists i tested, r = allocFound s i count tested) ∨
      (r.ret = 0 ∧ r.state = s) := by
  rcases Option.bind_eq_some_iff.mp h with ⟨⟨found, tested⟩, _, hrest⟩
  cases found with
  | some i =>
      cases hrest
      exact Or.inl ⟨i, tested, rfl⟩
  | none =>
      rcases Option.bind_eq_some_iff.mp hrest with
        ⟨⟨found', tested'⟩, _, hlast⟩
      cases found' with
      | some i =>
          cases hlast
          exact Or.inl ⟨i, _, rfl⟩
      | none =>
          cases hlast
          exact Or.inr ⟨rfl, rfl⟩

theorem pmmAlloc_first_scan {r : AllocResult} (h : pmmAlloc s count = some r) :
    exists found tested,
      scan s count (Word.sub s.totalPages count) scanFuel s.lastSearchIndex =
        some (found, tested) ∧
      forall q, q ∈ tested -> q ∈ r.tested := by
  rcases Option.bind_eq_some_iff.mp h with ⟨⟨found, tested⟩, hscan, hrest⟩
  refine ⟨found, tested, hscan, ?_⟩
  intro q hq
  cases found with
  | some i =>
      cases hrest
      exact hq
  | none =>
      rcases Option.bind_eq_some_iff.mp hrest with
        ⟨⟨found', tested'⟩, _, hlast⟩
      cases found' with
      | some i =>
          cases hlast
          exact List.mem_append_left _ hq
      | none =>
          cases hlast
          exact List.mem_append_left _ hq

theorem takeRun_spec {i : Nat} (hend : i + count <= 2 ^ 64) :
    exists ram,
      takeRun s i count =
        { s with
          ram := ram
          freePages := Word.sub s.freePages count
          lastSearchIndex := Word.add i count } ∧
      forall p, Bitmap.test ram s.bitmap p = true <->
        (i <= p ∧ p < i + count) ∨ bitmapTest s p = true := by
  rcases setRun_spec s i count 0 with ⟨ram, heq, hbits⟩
  refine ⟨ram, ?_, ?_⟩
  · rw [takeRun, heq]
  · intro p
    rw [hbits, hits_iff hend]

theorem pmmFree_spec {ptr : Nat} (hfree : s.freePages < 2 ^ 64)
    (hend : ptr / pageSize + count <= 2 ^ 64) :
    exists ram,
      pmmFree s ptr count =
        { s with ram := ram, freePages := Word.add s.freePages count } ∧
      forall p, Bitmap.test ram s.bitmap p = true <->
        ¬ (ptr / pageSize <= p ∧ p < ptr / pageSize + count) ∧
          bitmapTest s p = true := by
  rcases clearPages_spec s (ptr / pageSize) count 0 hfree with
    ⟨ram, heq, hbits⟩
  refine ⟨ram, heq, ?_⟩
  intro p
  rw [hbits, hits_iff hend]

end Operations

end Pmm
end Barium
