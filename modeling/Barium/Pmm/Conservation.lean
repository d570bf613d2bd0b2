import Mathlib
import Barium.Foundation.Run
import Barium.Pmm.Init

/-!
# Conservation of page frames

Runs of `pmm_alloc` and `pmm_free` from the state that `pmm_init` leaves.  The
pages that were free at the start are at all times divided between the clear
bits and the pages that callers own.
-/

namespace Barium
namespace Pmm

open Foundation
open TransitionSystem
open RunSearch

/-!
# Runs
-/

structure PoolState where
  pmm : PmmState
  owned : Finset Nat

inductive PmmEvent where
  | alloc (count ret : Nat)
  | free (ptr count : Nat)

def pageRange (ptr count : Nat) : Finset Nat :=
  Finset.Ico (ptr / pageSize) (ptr / pageSize + count)

theorem mem_pageRange {ptr count p : Nat} :
    p ∈ pageRange ptr count <->
      ptr / pageSize <= p ∧ p < ptr / pageSize + count :=
  Finset.mem_Ico

inductive PmmStep : PoolState -> PmmEvent -> PoolState -> Prop where
  | alloc {s : PoolState} {count : Nat} {r : AllocResult} :
      1 <= count -> count <= s.pmm.totalPages ->
      pmmAlloc s.pmm count = some r ->
      PmmStep s (PmmEvent.alloc count r.ret)
        { pmm := r.state
          owned := if r.ret = 0 then s.owned
            else s.owned ∪ pageRange r.ret count }
  | free {s : PoolState} {ptr count : Nat} :
      ptr < 2 ^ 64 -> pageRange ptr count ⊆ s.owned ->
      PmmStep s (PmmEvent.free ptr count)
        { pmm := pmmFree s.pmm ptr count
          owned := s.owned \ pageRange ptr count }

def pmmSystem (start : PmmState) : TransitionSystem PoolState PmmEvent where
  Init := fun s => s = { pmm := start, owned := ∅ }
  Step := PmmStep

/-!
# The invariant

The bitmap has bits for pages far beyond the physical memory, and a page from
`2 ^ 52` on has no address of its own.  Such a page can only be released
together with the page `2 ^ 52 - 1`, so the clear pages in front of
`last_search_index` never start there.
-/

structure PmmInvariant (start : PmmState) (s : PoolState) : Prop where
  free_iff : forall p, bitmapTest start p = false <->
    bitmapTest s.pmm p = false ∨ p ∈ s.owned
  owned_set : forall p, p ∈ s.owned -> bitmapTest s.pmm p = true
  total_eq : s.pmm.totalPages = start.totalPages
  last_lt : s.pmm.lastSearchIndex < 2 ^ 53
  joined : forall q, 2 ^ 52 <= q -> q < s.pmm.lastSearchIndex ->
    bitmapTest s.pmm q = false -> forall p, 2 ^ 52 - 1 <= p -> p <= q ->
      bitmapTest s.pmm p = false
  owned_lt : forall p, p ∈ s.owned -> p < 2 ^ 53
  free_lt : s.pmm.freePages < 2 ^ 64
  free_eq : Word.add s.pmm.freePages s.owned.card = start.freePages

structure ReadyState (start : PmmState) : Prop where
  total_lt : start.totalPages < 2 ^ 52
  last_eq : start.lastSearchIndex = 0
  zero_set : bitmapTest start 0 = true
  free_lt : start.freePages < 2 ^ 64

theorem pmmInit_ready (ram : ByteMemory) (mmap : List MemDesc)
    (hplace : bitmapPlace mmap ≠ 0) :
    ReadyState (pmmInit (bootState ram) mmap) := by
  rcases pmmInit_spec (bootState ram) mmap hplace with ⟨hspec, hlast⟩
  refine ⟨?_, hlast, ?_, ?_⟩
  · rw [hspec.total_eq]
    exact mapPages_lt mmap
  · exact (hspec.bits 0).mpr (Or.inl (by decide))
  · rcases hspec.free_eq with ⟨low, _, hfree⟩
    rw [hfree]
    exact Word.sub_lt _ _

section Steps

variable {start : PmmState} {s : PoolState}

theorem pmmInvariant_init (hready : ReadyState start) :
    PmmInvariant start { pmm := start, owned := ∅ } := by
  refine ⟨?_, ?_, rfl, ?_, ?_, ?_, hready.free_lt, ?_⟩
  · intro p
    simp
  · intro p hp
    cases hp
  · show start.lastSearchIndex < 2 ^ 53
    rw [hready.last_eq]
    decide
  · intro q _ hq
    have hlast : start.lastSearchIndex = 0 := hready.last_eq
    simp only [hlast] at hq
    lia
  · intro p hp
    cases hp
  · exact Word.add_zero hready.free_lt

/-!
# Allocation
-/

theorem PmmInvariant.zero_set (hready : ReadyState start)
    (hinv : PmmInvariant start s) : bitmapTest s.pmm 0 = true := by
  cases hbit : bitmapTest s.pmm 0 with
  | true => rfl
  | false =>
      have hfree := (hinv.free_iff 0).mpr (Or.inl hbit)
      rw [hready.zero_set] at hfree
      cases hfree

/-- A start that one of the two scans of `pmm_alloc` tries. -/
def Tried (s : PmmState) (count k : Nat) : Prop :=
  k + count < s.totalPages ∨ k < s.lastSearchIndex

structure TakenRun (s : PmmState) (i count : Nat) : Prop where
  free : FreeRun (bitmapTest s) i count
  pos : 0 < i
  lt : i < 2 ^ 52

theorem pmmAlloc_taken (hready : ReadyState start)
    (hinv : PmmInvariant start s) {count : Nat} (hpos : 1 <= count)
    (hcount : count <= s.pmm.totalPages) :
    exists r, pmmAlloc s.pmm count = some r ∧
      ((exists i tested, r = allocFound s.pmm i count tested ∧
          TakenRun s.pmm i count ∧ Tried s.pmm count i) ∨
        (r.ret = 0 ∧ r.state = s.pmm ∧ forall k, Tried s.pmm count k ->
          ¬ FreeRun (bitmapTest s.pmm) k count)) := by
  have htotal := hready.total_lt
  rw [← hinv.total_eq] at htotal
  have hlast := hinv.last_lt
  have hzero := hinv.zero_set hready
  have hstart : forall i, FreeRun (bitmapTest s.pmm) i count -> 0 < i := by
    intro i hfree
    by_contra hle
    exact not_freeRun_of_busy hzero (by lia) (by lia) hfree
  rcases pmmAlloc_outcome (by lia) hcount (by lia) (by lia) with
    ⟨r, hrun, houtcome⟩
  refine ⟨r, hrun, ?_⟩
  cases houtcome with
  | @first i tested hspec =>
      rcases hspec.first with ⟨_, hlt, hfree, _, _⟩
      have htried : i + count < s.pmm.totalPages := by lia
      exact Or.inl ⟨i, tested, rfl, ⟨hfree, hstart i hfree, by lia⟩,
        Or.inl htried⟩
  | @second i tested tested' _ hspec =>
      rcases hspec.first with ⟨_, hlt, hfree, hprev, _⟩
      have hi := hstart i hfree
      refine Or.inl ⟨i, _, rfl, ⟨hfree, hi, ?_⟩, Or.inr hlt⟩
      by_contra hge
      have hclear : bitmapTest s.pmm i = false := hfree 0 (by lia)
      have hbefore := hinv.joined i (by lia) hlt hclear (i - 1) (by lia)
        (by lia)
      rcases hprev with hprev | hprev
      · lia
      · rw [hprev] at hbefore
        cases hbefore
  | fail hspec hspec' _ =>
      refine Or.inr ⟨rfl, rfl, ?_⟩
      intro k htried
      rcases Nat.lt_or_ge k s.pmm.lastSearchIndex with hlt | hge
      · exact hspec'.first k (Nat.zero_le k) hlt
      · have hlt : k + count < s.pmm.totalPages :=
          htried.resolve_right (Nat.not_lt.mpr hge)
        exact hspec.first k hge (Nat.lt_sub_of_add_lt hlt)

theorem allocFound_ret {pmm : PmmState} {i count : Nat} (tested : List Nat)
    (h : TakenRun pmm i count) :
    (allocFound pmm i count tested).ret ≠ 0 ∧
      pageRange (allocFound pmm i count tested).ret count =
        Finset.Ico i (i + count) := by
  have hpos := h.pos
  have hlt := h.lt
  have hret : (allocFound pmm i count tested).ret = i * 4096 := by
    show Word.mul i pageSize = i * 4096
    exact Word.mul_of_lt (by unfold pageSize; lia)
  rw [hret]
  refine ⟨by lia, ?_⟩
  unfold pageRange pageSize
  rw [Nat.mul_div_cancel i (by decide)]

theorem pmmInvariant_alloc (hready : ReadyState start)
    (hinv : PmmInvariant start s) {i count : Nat}
    (hcount : count <= s.pmm.totalPages) (h : TakenRun s.pmm i count) :
    PmmInvariant start
      { pmm := takeRun s.pmm i count
        owned := s.owned ∪ Finset.Ico i (i + count) } := by
  have htotal := hready.total_lt
  rw [← hinv.total_eq] at htotal
  have hi := h.lt
  rcases takeRun_spec (s := s.pmm) (show i + count <= 2 ^ 64 by lia) with
    ⟨ram, heq, hbits⟩
  have hset : forall p, bitmapTest (takeRun s.pmm i count) p = true <->
      (i <= p ∧ p < i + count) ∨ bitmapTest s.pmm p = true := by
    rw [heq]
    exact hbits
  have hlast : (takeRun s.pmm i count).lastSearchIndex = i + count := by
    rw [heq]
    exact Word.add_of_lt (by lia)
  have hfree : (takeRun s.pmm i count).freePages =
      Word.sub s.pmm.freePages count := by
    rw [heq]
  have hdisjoint : Disjoint s.owned (Finset.Ico i (i + count)) := by
    rw [Finset.disjoint_left]
    intro p hp hrange
    rw [Finset.mem_Ico] at hrange
    have hclear := freeRun_mem h.free hrange.left hrange.right
    rw [hinv.owned_set p hp] at hclear
    cases hclear
  refine ⟨?_, ?_, ?_, ?_, ?_, ?_, ?_, ?_⟩
  · intro p
    rw [hinv.free_iff p, Finset.mem_union, Finset.mem_Ico]
    have hp := hset p
    by_cases hrange : i <= p ∧ p < i + count
    · simp [hrange, freeRun_mem h.free hrange.left hrange.right]
    · have hsame : bitmapTest (takeRun s.pmm i count) p =
          bitmapTest s.pmm p := by
        rw [Bool.eq_iff_iff, hp]
        simp [hrange]
      simp only [hsame, hrange, or_false]
  · intro p hp
    rcases Finset.mem_union.mp hp with hp | hp
    · exact (hset p).mpr (Or.inr (hinv.owned_set p hp))
    · exact (hset p).mpr (Or.inl (Finset.mem_Ico.mp hp))
  · show (takeRun s.pmm i count).totalPages = _
    rw [heq]
    exact hinv.total_eq
  · show (takeRun s.pmm i count).lastSearchIndex < _
    rw [hlast]
    lia
  · intro q hlow hq hclear
    simp only [hlast] at hq
    have hq' := (hset q).mpr (Or.inl (by lia))
    rw [hq'] at hclear
    cases hclear
  · intro p hp
    rcases Finset.mem_union.mp hp with hp | hp
    · exact hinv.owned_lt p hp
    · have hrange := Finset.mem_Ico.mp hp
      lia
  · show (takeRun s.pmm i count).freePages < _
    rw [hfree]
    exact Word.sub_lt _ _
  · show Word.add (takeRun s.pmm i count).freePages _ = _
    rw [hfree, Finset.card_union_of_disjoint hdisjoint, Nat.card_Ico,
      Nat.add_sub_cancel_left, Word.add_sub_add _ _ (by lia)]
    exact hinv.free_eq

/-!
# Release
-/

theorem PmmInvariant.owned_word (hinv : PmmInvariant start s) {p : Nat}
    (hp : p ∈ s.owned) : p < 2 ^ 64 :=
  Nat.lt_trans (hinv.owned_lt p hp) (by decide)

theorem pageRange_end {owned : Finset Nat} {ptr count : Nat}
    (hword : forall p, p ∈ owned -> p < 2 ^ 64) (hptr : ptr < 2 ^ 64)
    (howned : pageRange ptr count ⊆ owned) :
    ptr / pageSize < 2 ^ 52 ∧ ptr / pageSize + count <= 2 ^ 64 := by
  have hfirst : ptr / pageSize < 2 ^ 52 := by
    unfold pageSize
    lia
  refine ⟨hfirst, ?_⟩
  cases count with
  | zero => lia
  | succ n =>
      have hmem : ptr / pageSize + n ∈ pageRange ptr (n + 1) :=
        mem_pageRange.mpr (by lia)
      have hlt := hword _ (howned hmem)
      lia

theorem pmmInvariant_free (hinv : PmmInvariant start s) {ptr count : Nat}
    (hptr : ptr < 2 ^ 64) (howned : pageRange ptr count ⊆ s.owned) :
    PmmInvariant start
      { pmm := pmmFree s.pmm ptr count
        owned := s.owned \ pageRange ptr count } := by
  rcases pageRange_end (fun _ => hinv.owned_word) hptr howned with ⟨hfirst, hend⟩
  rcases pmmFree_spec hinv.free_lt hend with ⟨ram, heq, hbits⟩
  have hset : forall p, bitmapTest (pmmFree s.pmm ptr count) p = true <->
      p ∉ pageRange ptr count ∧ bitmapTest s.pmm p = true := by
    intro p
    rw [heq, mem_pageRange]
    exact hbits p
  have hclear : forall p, bitmapTest (pmmFree s.pmm ptr count) p = false <->
      p ∈ pageRange ptr count ∨ bitmapTest s.pmm p = false := by
    intro p
    rw [← Bool.not_eq_true, hset p, ← Bool.not_eq_true]
    tauto
  have hlast : (pmmFree s.pmm ptr count).lastSearchIndex =
      s.pmm.lastSearchIndex := by
    rw [heq]
  refine ⟨?_, ?_, ?_, ?_, ?_, ?_, ?_, ?_⟩
  · intro p
    rw [hinv.free_iff p, hclear p, Finset.mem_sdiff]
    have hp : p ∈ pageRange ptr count -> p ∈ s.owned := fun h => howned h
    tauto
  · intro p hp
    rcases Finset.mem_sdiff.mp hp with ⟨hown, hout⟩
    exact (hset p).mpr ⟨hout, hinv.owned_set p hown⟩
  · show (pmmFree s.pmm ptr count).totalPages = _
    rw [heq]
    exact hinv.total_eq
  · show (pmmFree s.pmm ptr count).lastSearchIndex < _
    rw [hlast]
    exact hinv.last_lt
  · intro q hlow hq hqclear p hp hpq
    simp only [hlast] at hq
    refine (hclear p).mpr ?_
    rcases (hclear q).mp hqclear with hin | hold
    · have hq' := mem_pageRange.mp hin
      exact Or.inl (mem_pageRange.mpr (by lia))
    · exact Or.inr (hinv.joined q hlow hq hold p hp hpq)
  · intro p hp
    exact hinv.owned_lt p (Finset.mem_sdiff.mp hp).left
  · show (pmmFree s.pmm ptr count).freePages < _
    rw [heq]
    exact Word.add_lt _ _
  · show Word.add (pmmFree s.pmm ptr count).freePages _ = _
    have hcard : (pageRange ptr count).card = count := by
      unfold pageRange
      rw [Nat.card_Ico, Nat.add_sub_cancel_left]
    have hle := Finset.card_le_card howned
    rw [hcard] at hle
    rw [heq, Finset.card_sdiff_of_subset howned, hcard]
    simp only
    rw [Word.add_add, Nat.add_sub_cancel' hle]
    exact hinv.free_eq

theorem pmmInvariant_step (hready : ReadyState start) {event : PmmEvent}
    {s' : PoolState} (hinv : PmmInvariant start s)
    (hstep : PmmStep s event s') : PmmInvariant start s' := by
  cases hstep with
  | alloc hpos hcount hrun =>
      rcases pmmAlloc_taken hready hinv hpos hcount with ⟨r, hrun', hcase⟩
      rw [hrun] at hrun'
      cases hrun'
      rcases hcase with ⟨i, tested, hr, htaken, _⟩ | ⟨hret, hsame, _⟩
      · rcases allocFound_ret tested htaken with ⟨hne, hrange⟩
        rw [hr, if_neg hne, hrange]
        exact pmmInvariant_alloc hready hinv hcount htaken
      · rw [if_pos hret, hsame]
        exact hinv
  | free hptr howned => exact pmmInvariant_free hinv hptr howned

end Steps

/-!
# The conservation law
-/

def Free (s : PmmState) : Set Nat :=
  { p | bitmapTest s p = false }

structure AllocCall (s : PmmState) (count : Nat) (r : AllocResult) : Prop where
  unchanged : r.ret = 0 -> r.state = s
  inside : r.ret ≠ 0 -> forall p, p ∈ pageRange r.ret count ->
    bitmapTest s p = false ∧ bitmapTest r.state p = true
  outside : r.ret ≠ 0 -> forall p, p ∉ pageRange r.ret count ->
    bitmapTest r.state p = bitmapTest s p

structure FreeCall (s : PmmState) (ptr count : Nat) : Prop where
  inside : forall p, p ∈ pageRange ptr count ->
    bitmapTest (pmmFree s ptr count) p = false
  outside : forall p, p ∉ pageRange ptr count ->
    bitmapTest (pmmFree s ptr count) p = bitmapTest s p

/-- `free_pages` is a 64-bit counter; the second equation is the first one
without the wrap-around. -/
structure Conserves (start : PmmState) (s : PoolState) : Prop where
  union_eq : Free start = Free s.pmm ∪ s.owned
  disjoint : Disjoint (Free s.pmm) s.owned
  free_pages : Word.add s.pmm.freePages s.owned.card = start.freePages
  free_pages_sub : s.owned.card <= start.freePages ->
    s.pmm.freePages = start.freePages - s.owned.card
  alloc_call : forall count, 1 <= count -> count <= s.pmm.totalPages ->
    exists r, pmmAlloc s.pmm count = some r ∧ AllocCall s.pmm count r
  free_call : forall ptr count, ptr < 2 ^ 64 ->
    pageRange ptr count ⊆ s.owned -> FreeCall s.pmm ptr count

section Law

variable {start : PmmState} {s : PoolState}

theorem allocCall_of_taken {pmm : PmmState} {i count : Nat}
    {tested : List Nat} (h : TakenRun pmm i count)
    (hend : i + count <= 2 ^ 64) :
    AllocCall pmm count (allocFound pmm i count tested) := by
  rcases allocFound_ret tested h with ⟨hne, hrange⟩
  rcases takeRun_spec (s := pmm) hend with ⟨ram, heq, hbits⟩
  have hset : forall p, bitmapTest (takeRun pmm i count) p = true <->
      (i <= p ∧ p < i + count) ∨ bitmapTest pmm p = true := by
    rw [heq]
    exact hbits
  refine ⟨fun hret => absurd hret hne, ?_, ?_⟩
  · intro _ p hp
    rw [hrange, Finset.mem_Ico] at hp
    exact ⟨freeRun_mem h.free hp.left hp.right, (hset p).mpr (Or.inl hp)⟩
  · intro _ p hp
    rw [hrange, Finset.mem_Ico] at hp
    show bitmapTest (takeRun pmm i count) p = _
    rw [Bool.eq_iff_iff, hset p]
    simp [hp]

theorem freeCall_of_invariant (hinv : PmmInvariant start s) {ptr count : Nat}
    (hptr : ptr < 2 ^ 64) (howned : pageRange ptr count ⊆ s.owned) :
    FreeCall s.pmm ptr count := by
  have hend := (pageRange_end (fun _ => hinv.owned_word) hptr howned).right
  rcases pmmFree_spec hinv.free_lt hend with ⟨ram, heq, hbits⟩
  constructor
  · intro p hp
    rw [mem_pageRange] at hp
    rw [← Bool.not_eq_true, heq]
    intro hbit
    exact ((hbits p).mp hbit).left hp
  · intro p hp
    rw [mem_pageRange] at hp
    rw [Bool.eq_iff_iff, heq]
    exact (hbits p).trans ⟨fun h => h.right, fun h => ⟨hp, h⟩⟩

theorem PmmInvariant.conserves (hready : ReadyState start)
    (hinv : PmmInvariant start s) : Conserves start s := by
  refine ⟨?_, ?_, hinv.free_eq, ?_, ?_, ?_⟩
  · ext p
    exact hinv.free_iff p
  · rw [Set.disjoint_left]
    intro p hfree hown
    have hset := hinv.owned_set p hown
    rw [show bitmapTest s.pmm p = false from hfree] at hset
    cases hset
  · intro hle
    have hsum := hinv.free_eq
    have hlt := hinv.free_lt
    have hstart := hready.free_lt
    unfold Word.add at hsum
    lia
  · intro count hpos hcount
    have htotal := hready.total_lt
    rw [← hinv.total_eq] at htotal
    rcases pmmAlloc_taken hready hinv hpos hcount with ⟨r, hrun, hcase⟩
    refine ⟨r, hrun, ?_⟩
    rcases hcase with ⟨i, tested, hr, htaken, _⟩ | ⟨hret, hsame, _⟩
    · have hlt := htaken.lt
      rw [hr]
      exact allocCall_of_taken htaken (by lia)
    · exact ⟨fun _ => hsame, fun hne => absurd hret hne,
        fun hne => absurd hret hne⟩
  · intro ptr count hptr howned
    exact freeCall_of_invariant hinv hptr howned

theorem pmmInvariant_reachable (hready : ReadyState start)
    (hreach : (pmmSystem start).Reachable s) : PmmInvariant start s := by
  apply reachable_invariant (P := PmmInvariant start) _ _
    hreach
  · intro t ht
    cases ht
    exact pmmInvariant_init hready
  · intro t event u hinv hstep
    exact pmmInvariant_step hready hinv hstep

theorem pmmInit_runs_conserve (ram : ByteMemory) (mmap : List MemDesc)
    (hplace : bitmapPlace mmap ≠ 0)
    (hreach : (pmmSystem (pmmInit (bootState ram) mmap)).Reachable s) :
    Conserves (pmmInit (bootState ram) mmap) s := by
  have hready := pmmInit_ready ram mmap hplace
  exact (pmmInvariant_reachable hready hreach).conserves hready

end Law

def plainMap : List MemDesc :=
  [{ type := 7, physicalStart := 0x1000000, numberOfPages := 4096 }]

def plainPool : PoolState where
  pmm := pmmInit (bootState (fun _ => 0)) plainMap
  owned := ∅

theorem plainPool_reachable :
    (pmmSystem (pmmInit (bootState (fun _ => 0)) plainMap)).Reachable
      plainPool :=
  ⟨plainPool, [], rfl, Runs.nil _⟩

theorem plainPool_total : plainPool.pmm.totalPages = 8192 := by
  have hplace : bitmapPlace plainMap ≠ 0 := by decide
  have htotal := (pmmInit_spec (bootState (fun _ => 0)) plainMap
    hplace).left.total_eq
  exact htotal.trans (by decide)

theorem plainPool_bits {p : Nat} (hp : p < 8192) :
    bitmapTest plainPool.pmm p = true <-> p < 4097 := by
  have hplace : bitmapPlace plainMap ≠ 0 := by decide
  have hspec := (pmmInit_spec (bootState (fun _ => 0)) plainMap hplace).left
  have hbitmap : Hits (bitmapPlace plainMap / pageSize) 0
      (bitmapPages plainMap) p <-> 4096 <= p ∧ p < 4096 + 1 :=
    hits_iff (by decide)
  have husable : Usable plainMap p <-> 4096 <= p ∧ p < 8192 := by
    constructor
    · intro husable
      rcases husable with ⟨desc, hdesc, _, hhits⟩
      rw [List.mem_singleton.mp hdesc] at hhits
      exact (hits_iff (by decide)).mp hhits
    · intro hrange
      exact ⟨_, List.mem_singleton_self _, rfl,
        (hits_iff (by decide)).mpr hrange⟩
  have hlow : lowMemory / pageSize = 4096 := by decide
  unfold plainPool
  rw [hspec.bits, hlow, Reserved, hbitmap, husable]
  lia

theorem plainPool_freeRun {k count : Nat} (hlow : 4097 <= k)
    (hhigh : k + count <= 8192) :
    FreeRun (bitmapTest plainPool.pmm) k count := by
  intro j hj
  have hbits := plainPool_bits (p := k + j) (by lia)
  apply Bool.eq_false_of_not_eq_true
  rw [hbits]
  lia

theorem plainPool_alloc : exists r, 1 <= plainPool.pmm.totalPages ∧
    pmmAlloc plainPool.pmm 1 = some r ∧ r.ret ≠ 0 ∧ r.ret < 2 ^ 64 := by
  have hready := pmmInit_ready (fun _ => 0) plainMap (by decide)
  have hcount : 1 <= plainPool.pmm.totalPages := by
    rw [plainPool_total]
    decide
  rcases pmmAlloc_taken hready (pmmInvariant_init hready) (Nat.le_refl 1)
    hcount with ⟨r, hrun, ⟨i, tested, hr, htaken, _⟩ | ⟨_, _, hnone⟩⟩
  · refine ⟨r, hcount, hrun, ?_⟩
    rw [hr]
    exact ⟨(allocFound_ret tested htaken).left, Nat.mod_lt _ (by decide)⟩
  · have htried : Tried plainPool.pmm 1 5000 := by
      left
      rw [plainPool_total]
      decide
    exact absurd (plainPool_freeRun (by decide) (by decide))
      (hnone 5000 htried)

theorem pmmInit_runs_conserve_plainPool :
    exists ptr s, ptr ≠ 0 ∧
      (pmmSystem (pmmInit (bootState (fun _ => 0)) plainMap)).Runs plainPool
        [PmmEvent.alloc 1 ptr, PmmEvent.free ptr 1] s ∧
      Conserves (pmmInit (bootState (fun _ => 0)) plainMap) s := by
  rcases plainPool_alloc with ⟨r, hcount, hrun, hne, hptr⟩
  have halloc := PmmStep.alloc (Nat.le_refl 1) hcount hrun
  rw [if_neg hne] at halloc
  have hruns : (pmmSystem
      (pmmInit (bootState (fun _ => 0)) plainMap)).Runs plainPool
      [PmmEvent.alloc 1 r.ret, PmmEvent.free r.ret 1] _ :=
    Runs.snoc (runs_single halloc)
      (PmmStep.free hptr Finset.subset_union_right)
  refine ⟨r.ret, _, hne, hruns, ?_⟩
  exact pmmInit_runs_conserve (fun _ => 0) plainMap (by decide)
    ⟨plainPool, _, rfl, hruns⟩

end Pmm
end Barium
