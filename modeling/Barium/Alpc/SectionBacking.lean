import Barium.Alpc.SectionCalls

/-!
# The frames of a new section

`alpc_create_section` records whatever `pmm_alloc` has answered, and it takes
the pages before it looks for a slot.  A section is backed by frames of its own
when the request does not wrap around and is met inside the managed memory, and
a call that finds no slot leaks the pages it has taken.
-/

namespace Barium
namespace Alpc

open Foundation
open TransitionSystem
open Foundation.RunSearch
open Pmm
open Vmm

/-!
# The pages of a request
-/

/-- The pages that a request sets were clear, and no other bit changes. -/
structure TakesSet (s : PmmState) (r : AllocResult) : Prop where
  total_eq : r.state.totalPages = s.totalPages
  clear : forall p, p ∈ r.set -> bitmapTest s p = false
  lt : forall p, p ∈ r.set -> p < 2 ^ 64
  bits : forall p, bitmapTest r.state p = true <->
    p ∈ r.set ∨ bitmapTest s p = true

section Requests

variable {s : PmmState} {count limit : Nat}

theorem mem_runPages_iff {i p : Nat} :
    p ∈ runPages i count <-> Hits i 0 count p := by
  unfold runPages Hits
  simp

theorem pmmAlloc_takesSet {r : AllocResult} (h : pmmAlloc s count = some r) :
    TakesSet s r := by
  rcases pmmAlloc_found h with ⟨i, tested, hr, hfound⟩ | ⟨_, hsame, hset⟩
  · rw [hr]
    have hpages : forall p, p ∈ (allocFound s i count tested).set ->
        exists k, k < count ∧ Word.add i k = p := by
      intro p hp
      rcases List.mem_map.mp hp with ⟨k, hk, heq⟩
      exact ⟨k, List.mem_range.mp hk, heq⟩
    rcases setRun_spec s i count 0 with ⟨ram, heq, hbits⟩
    constructor
    · show (takeRun s i count).totalPages = _
      unfold takeRun
      rw [heq]
    · intro p hp
      rcases hpages p hp with ⟨k, hk, heq⟩
      rw [← heq]
      exact hfound.clear k hk
    · intro p hp
      rcases hpages p hp with ⟨k, _, heq⟩
      rw [← heq]
      exact Word.add_lt i k
    · intro p
      show bitmapTest (takeRun s i count) p = true <-> _
      unfold takeRun
      rw [heq]
      show Bitmap.test ram s.bitmap p = true <-> p ∈ runPages i count ∨ _
      rw [mem_runPages_iff]
      exact hbits p
  · constructor
    · rw [hsame]
    · intro p hp
      rw [hset] at hp
      cases hp
    · intro p hp
      rw [hset] at hp
      cases hp
    · intro p
      rw [hsame, hset]
      simp

theorem scan_freeRun {fuel i j : Nat} {tested : List Nat}
    (hscan : scan s count limit fuel i = some (some j, tested))
    (hend : j + count <= 2 ^ 64) : FreeRun (bitmapTest s) j count := by
  intro k hk
  have hclear := (scan_found hscan).right k hk
  rwa [Word.add_of_lt (by lia)] at hclear

theorem scan_finds {fuel i k : Nat} {found : Option Nat} {tested : List Nat}
    (hscan : scan s count limit fuel i = some (found, tested))
    (hik : i <= k) (hk : k < limit) (hend : k + count <= 2 ^ 64)
    (hfree : FreeRun (bitmapTest s) k count) :
    exists j, found = some j ∧ j <= k := by
  induction fuel generalizing i tested with
  | zero => cases hscan
  | succ fuel ih =>
      rw [scan, if_pos (Nat.lt_of_le_of_lt hik hk)] at hscan
      rcases hrun : testRun s i count 0 with ⟨blocked, tested'⟩
      rw [hrun] at hscan
      cases blocked with
      | none =>
          cases hscan
          exact ⟨i, rfl, hik⟩
      | some m =>
          rcases Option.map_eq_some_iff.mp hscan with
            ⟨⟨found', rest⟩, hrest, heq⟩
          cases heq
          rcases testRun_some hrun with ⟨_, hm, hbusy, _, _⟩
          have hword : Word.add i m = i + m := Word.add_of_lt (by lia)
          rw [hword] at hbusy hrest
          -- the page that stops the test lies in front of the free run
          have hbefore : i + m < k := by
            by_contra hge
            exact not_freeRun_of_busy hbusy (by lia) (by lia) hfree
          rw [Word.add_of_lt (by lia)] at hrest
          exact ih hrest hbefore

/-- The scan goes on behind a page that is set, in 64-bit arithmetic; no clear
run starts at a page that it skips. -/
theorem clear_distance {i k m : Nat} (hi : i < 2 ^ 64) (hm : m < count)
    (hbusy : bitmapTest s (Word.add i m) = true)
    (hclear : forall j, j < count -> bitmapTest s (Word.add k j) = false) :
    m < (k + 2 ^ 64 - i) % 2 ^ 64 := by
  by_contra hge
  have hsame : Word.add k (m - (k + 2 ^ 64 - i) % 2 ^ 64) = Word.add i m := by
    unfold Word.add
    omega
  have hbit := hclear (m - (k + 2 ^ 64 - i) % 2 ^ 64) (by omega)
  rw [hsame, hbusy] at hbit
  cases hbit

theorem distance_next {i k m : Nat} (hk : k < 2 ^ 64)
    (hm : m < (k + 2 ^ 64 - i) % 2 ^ 64) :
    (k + 2 ^ 64 - Word.add (Word.add i m) 1) % 2 ^ 64 <
      (k + 2 ^ 64 - i) % 2 ^ 64 := by
  have hnext : Word.add (Word.add i m) 1 = (i + m + 1) % 2 ^ 64 := by
    unfold Word.add
    omega
  rw [hnext]
  omega

theorem scan_ends {fuel i k : Nat} (hi : i < 2 ^ 64) (hk : k < 2 ^ 64)
    (hfuel : (k + 2 ^ 64 - i) % 2 ^ 64 < fuel)
    (hclear : forall j, j < count -> bitmapTest s (Word.add k j) = false) :
    exists found tested, scan s count limit fuel i = some (found, tested) := by
  induction fuel generalizing i with
  | zero => exact absurd hfuel (Nat.not_lt_zero _)
  | succ fuel ih =>
      rw [scan]
      by_cases hlt : i < limit
      · rw [if_pos hlt]
        rcases hrun : testRun s i count 0 with ⟨blocked, tested⟩
        cases blocked with
        | none => exact ⟨some i, tested, rfl⟩
        | some m =>
            rcases testRun_some hrun with ⟨_, hm, hbusy, _, _⟩
            have hskip := clear_distance hi (by omega) hbusy hclear
            have hless := distance_next hk hskip
            rcases ih (i := Word.add (Word.add i m) 1) (Word.add_lt _ _)
              (by omega) with ⟨found, rest, hscan⟩
            refine ⟨found, tested ++ rest, ?_⟩
            show Option.map _ (scan s count limit fuel _) = _
            rw [hscan]
            rfl
      · rw [if_neg hlt]
        exact ⟨none, [], rfl⟩

theorem scan_none {fuel i k : Nat} {tested : List Nat}
    (hlimit : limit <= 2 ^ 64)
    (hscan : scan s count limit fuel i = some (none, tested)) (hik : i <= k)
    (hk : k < limit)
    (hclear : forall j, j < count -> bitmapTest s (Word.add k j) = false) :
    False := by
  induction fuel generalizing i tested with
  | zero => cases hscan
  | succ fuel ih =>
      rw [scan, if_pos (by omega)] at hscan
      rcases hrun : testRun s i count 0 with ⟨blocked, tested'⟩
      rw [hrun] at hscan
      cases blocked with
      | none => cases hscan
      | some m =>
          rcases Option.map_eq_some_iff.mp hscan with
            ⟨⟨found, rest⟩, hrest, heq⟩
          cases heq
          rcases testRun_some hrun with ⟨_, hm, hbusy, _, _⟩
          have hskip := clear_distance (by omega) (by omega) hbusy hclear
          have hnext : Word.add (Word.add i m) 1 = i + m + 1 := by
            unfold Word.add
            omega
          rw [hnext] at hrest
          exact ih hrest (by omega)

/-- If a scan can come to a clear run, the call takes one. -/
theorem ClearRun.taken {i : Nat} (h : ClearRun s count i)
    (hwords : PmmWords s) :
    exists j tested, pmmAlloc s count =
      some (allocFound s j count tested) := by
  have hlimit := Word.sub_lt s.totalPages count
  have hlast := hwords.last_lt
  have hi : i < 2 ^ 64 := by
    rcases h.start with hlt | hlt
    · exact Nat.lt_trans hlt hlimit
    · exact Nat.lt_trans hlt hlast
  have hends : forall lo limit, lo < 2 ^ 64 ->
      exists found tested,
        scan s count limit scanFuel lo = some (found, tested) := by
    intro lo limit hlo
    exact scan_ends hlo hi (lt_scanFuel (Nat.mod_lt _ (by decide))) h.clear
  rcases hends s.lastSearchIndex (Word.sub s.totalPages count) hlast with
    ⟨found, tested, hscan⟩
  rcases hends 0 s.lastSearchIndex (by decide) with ⟨found', tested', hscan'⟩
  unfold pmmAlloc
  rw [hscan, hscan']
  cases found with
  | some j => exact ⟨j, tested, rfl⟩
  | none =>
      cases found' with
      | some j => exact ⟨j, _, rfl⟩
      | none =>
          exfalso
          by_cases hbelow : i < s.lastSearchIndex
          · exact scan_none (Nat.le_of_lt hlast) hscan' (Nat.zero_le i) hbelow
              h.clear
          · have hlt := h.start.resolve_right hbelow
            exact scan_none (Nat.le_of_lt hlimit) hscan (Nat.not_lt.mp hbelow)
              hlt h.clear

theorem pmmAlloc_scans (htotal : s.totalPages < 2 ^ 52)
    (hcount : count <= s.totalPages) {r : AllocResult}
    (h : pmmAlloc s count = some r) :
    (exists i tested, r = allocFound s i count tested ∧
      FirstRun (bitmapTest s) s.lastSearchIndex (s.totalPages - count) count
        (some i)) ∨
    (FirstRun (bitmapTest s) s.lastSearchIndex (s.totalPages - count) count
        none ∧
      exists found tested,
        scan s count s.lastSearchIndex scanFuel 0 = some (found, tested) ∧
        ((exists i tested', found = some i ∧
            r = allocFound s i count tested') ∨
          (found = none ∧ r.set = []))) := by
  have hsub : Word.sub s.totalPages count = s.totalPages - count :=
    Word.sub_of_le (by lia) hcount
  rcases scan_spec s (show s.totalPages - count + count <= 2 ^ 64 by lia)
    (lt_scanFuel (show s.totalPages - count - s.lastSearchIndex < 2 ^ 64 by
      lia)) with ⟨first, tested, hscan, hspec⟩
  rcases Option.bind_eq_some_iff.mp h with ⟨⟨found, _⟩, hfirst, hrest⟩
  rw [hsub, hscan] at hfirst
  cases hfirst
  cases first with
  | some i =>
      cases hrest
      exact Or.inl ⟨i, tested, rfl, hspec.first⟩
  | none =>
      rcases Option.bind_eq_some_iff.mp hrest with
        ⟨⟨found, tested'⟩, hscan', hlast⟩
      refine Or.inr ⟨hspec.first, found, tested', hscan', ?_⟩
      cases found with
      | some i =>
          cases hlast
          exact Or.inl ⟨i, _, rfl, rfl⟩
      | none =>
          cases hlast
          exact Or.inr ⟨rfl, rfl⟩

theorem ret_page (s : PmmState) (i count : Nat) (tested : List Nat) :
    (allocFound s i count tested).ret / pageSize = i % 2 ^ 52 := by
  show i * 4096 % 2 ^ 64 / 4096 = i % 2 ^ 52
  lia

end Requests

/-!
# Sections and their frames
-/

def sectionFrames (x : AlpcSection) : Finset Nat :=
  pageRange x.physAddr (x.size / 4096)

/-- The frames of a section that a call has taken: pages of the managed memory,
without page 0, that were free before and belong to nobody else. -/
structure FramesObtained (s : CallRun) (pmm : PmmState) (sec : AlpcSection) :
    Prop where
  aligned : sec.physAddr % 4096 = 0
  nonzero : forall p, p ∈ sectionFrames sec -> p ≠ 0
  inside : forall p, p ∈ sectionFrames sec -> p < s.alpc.vmm.frames.totalPages
  free : forall p, p ∈ sectionFrames sec ->
    bitmapTest s.alpc.vmm.frames p = false
  taken : forall p, p ∈ sectionFrames sec -> bitmapTest pmm p = true
  own : Disjoint (sectionFrames sec) s.owned

/-- What a call in state `s` that returns `id` and leads to `alpc` should have
done. -/
structure SectionBacked (s : CallRun) (size id : Nat) (alpc : SectionState) :
    Prop where
  fresh : id ∉ s.returned
  recorded : exists sec, findSection id alpc.sections = some sec ∧
    size <= sec.size ∧ FramesObtained s alpc.vmm.frames sec ∧
    forall x, x ∈ alpc.sections -> x.id ≠ id ->
      Disjoint (sectionFrames sec) (sectionFrames x)

/-- There is a clear run of `count` pages inside the managed memory that a scan
of `pmm_alloc` tries.  A clear run at page 0 is in its way unless the first scan
starts behind page 0 and finds one. -/
def RunInside (pmm : PmmState) (count : Nat) : Prop :=
  exists k, FreeRun (bitmapTest pmm) k count ∧
    ((pmm.lastSearchIndex <= k ∧ k + count < pmm.totalPages) ∨
      (k < pmm.lastSearchIndex ∧ k + count <= pmm.totalPages)) ∧
    (FreeRun (bitmapTest pmm) 0 count ->
      0 < pmm.lastSearchIndex ∧ pmm.lastSearchIndex <= k)

/-- The size does not wrap around when it is rounded up, and there are pages for
it. -/
structure BackedRequest (pmm : PmmState) (size : Nat) : Prop where
  rounded : size + 4095 < 2 ^ 64
  run : RunInside pmm (sectionPages size)

/-- Runs in which every section so far has been created by such a request. -/
def BackedEvent (s : CallRun) : CallEvent -> Prop
  | .create size id =>
      id ≠ 0 -> 1 <= size -> BackedRequest s.alpc.vmm.frames size
  | _ => True

def backedSystem (root : Nat) (vmm : VmmState PmmState) :
    TransitionSystem CallRun CallEvent where
  Init := fun s => s = callStart vmm
  Step := fun s event s' => CallStep root s event s' ∧ BackedEvent s event

structure BackingInvariant (s : CallRun) : Prop where
  slots : SlotInvariant s
  total_lt : s.alpc.vmm.frames.totalPages < 2 ^ 52
  owned_lt : forall p, p ∈ s.owned -> p < 2 ^ 64
  owned_set : forall p, p ∈ s.owned ->
    bitmapTest s.alpc.vmm.frames p = true
  taken : forall x, x ∈ s.alpc.sections -> forall p, p ∈ sectionFrames x ->
    bitmapTest s.alpc.vmm.frames p = true
  apart : forall x, x ∈ s.alpc.sections ->
    Disjoint (sectionFrames x) s.owned

section Backing

variable {s : CallRun} {tid size id : Nat} {r : AllocResult}

theorem sectionFrames_empty : sectionFrames emptySection = ∅ := by
  decide

theorem sectionFrames_new (a : SectionState) (r : AllocResult)
    (tid size : Nat) :
    sectionFrames (newSection a r tid size) =
      pageRange r.ret (sectionPages size) := by
  unfold sectionFrames
  rw [(newSection_size a r tid size).left, Nat.mul_div_cancel_left _ (by decide)]
  rfl

theorem sectionPages_pos (hsize : 1 <= size) (hround : size + 4095 < 2 ^ 64) :
    1 <= sectionPages size := by
  unfold sectionPages
  rw [Word.add_of_lt hround]
  lia

/-- The recorded size covers the requested one unless the rounding has wrapped
around. -/
theorem size_le_iff :
    size <= 4096 * sectionPages size <-> size + 4095 < 2 ^ 64 := by
  unfold sectionPages Word.add
  lia

theorem mem_pageRange_found {pmm : PmmState} {i count p : Nat}
    {tested : List Nat} (htotal : pmm.totalPages < 2 ^ 52)
    (hend : i + count <= pmm.totalPages) (hpos : 1 <= count) :
    p ∈ pageRange (allocFound pmm i count tested).ret count <->
      p ∈ (allocFound pmm i count tested).set := by
  have hpage : i % 2 ^ 52 = i := Nat.mod_eq_of_lt (by lia)
  show _ <-> p ∈ runPages i count
  rw [mem_pageRange, ret_page, hpage, mem_runPages (by lia)]

theorem RunInside.safe {pmm : PmmState} {count : Nat}
    (h : RunInside pmm count) : SafeRequest pmm count := by
  rcases h with ⟨k, hfree, hreach, _⟩
  exact ⟨by lia, Or.inl ⟨k, hfree, hreach⟩⟩

theorem RunInside.found {pmm : PmmState} {count : Nat}
    (h : RunInside pmm count) (htotal : pmm.totalPages < 2 ^ 52)
    (hrun : pmmAlloc pmm count = some r) :
    exists i tested, r = allocFound pmm i count tested ∧ i ≠ 0 ∧
      i + count <= pmm.totalPages := by
  rcases h with ⟨k, hfree, hreach, hzero⟩
  rcases pmmAlloc_scans htotal (by lia) hrun with
    ⟨i, tested, hr, hlow, hlt, hi, _, _⟩ |
    ⟨hnone, found, tested, hscan, hcase⟩
  · refine ⟨i, tested, hr, ?_, by lia⟩
    intro heq
    rw [heq] at hi hlow
    have hstart := hzero hi
    lia
  · -- the first scan has not come to the run, so it starts below
    have hbelow : k < pmm.lastSearchIndex ∧ k + count <= pmm.totalPages := by
      rcases hreach with ⟨hlow, hhigh⟩ | hbelow
      · exact absurd hfree (hnone k hlow (by lia))
      · exact hbelow
    rcases scan_finds hscan (Nat.zero_le k) hbelow.left (by lia) hfree with
      ⟨j, hj, hle⟩
    rw [hj] at hscan hcase
    rcases hcase with ⟨i, tested', hi, hr⟩ | ⟨hi, _⟩
    · cases hi
      refine ⟨j, tested', hr, ?_, by lia⟩
      intro heq
      rw [heq] at hscan
      have hstart := hzero (scan_freeRun hscan (by lia))
      lia
    · cases hi

theorem BackedRequest.pages {pmm : PmmState} (h : BackedRequest pmm size)
    (htotal : pmm.totalPages < 2 ^ 52) (hsize : 1 <= size)
    (hrun : pmmAlloc pmm (sectionPages size) = some r) :
    r.ret ≠ 0 ∧ r.ret / pageSize + sectionPages size <= pmm.totalPages ∧
      forall p, p ∈ pageRange r.ret (sectionPages size) <-> p ∈ r.set := by
  have hpos := sectionPages_pos hsize h.rounded
  rcases h.run.found htotal hrun with ⟨i, tested, hr, hne, hend⟩
  have hpage : r.ret / pageSize = i := by
    rw [hr, ret_page]
    exact Nat.mod_eq_of_lt (by lia)
  refine ⟨?_, ?_, ?_⟩
  · intro hzero
    rw [hzero] at hpage
    exact hne hpage.symm
  · rw [hpage]
    exact hend
  · intro p
    rw [hr]
    exact mem_pageRange_found htotal hend hpos

/-!
# The runs keep the invariant
-/

theorem backingInvariant_init {vmm : VmmState PmmState}
    (hwords : PmmWords vmm.frames) (htotal : vmm.frames.totalPages < 2 ^ 52) :
    BackingInvariant (callStart vmm) := by
  have hempty : forall x, x ∈ (callStart vmm).alpc.sections ->
      sectionFrames x = ∅ := by
    intro x hx
    rw [List.eq_of_mem_replicate hx]
    exact sectionFrames_empty
  constructor
  · exact slotInvariant_init hwords
  · exact htotal
  · intro p hp
    cases hp
  · intro p hp
    cases hp
  · intro x hx p hp
    rw [hempty x hx] at hp
    cases hp
  · intro x _
    exact Finset.disjoint_empty_right _

theorem BackingInvariant.grows (h : BackingInvariant s) {alpc : SectionState}
    {returned : List Nat}
    (hslots : SlotInvariant
      { s with alpc := alpc, returned := returned })
    (hsections : alpc.sections = s.alpc.sections)
    (hgrows : PmmGrows s.alpc.vmm.frames alpc.vmm.frames) :
    BackingInvariant { s with alpc := alpc, returned := returned } := by
  constructor
  · exact hslots
  · show alpc.vmm.frames.totalPages < _
    rw [hgrows.total_eq]
    exact h.total_lt
  · exact h.owned_lt
  · intro p hp
    exact hgrows.set p (h.owned_set p hp)
  · rw [hsections]
    intro x hx p hp
    exact hgrows.set p (h.taken x hx p hp)
  · rw [hsections]
    exact h.apart

theorem backingInvariant_stored (h : BackingInvariant s)
    {sections : List AlpcSection}
    (hback : 1 <= size -> BackedRequest s.alpc.vmm.frames size)
    (halloc : pmmAlloc s.alpc.vmm.frames (sectionPages size) = some r)
    (hfill : fillSlot (newSection s.alpc r tid size) s.alpc.sections =
      some sections) :
    BackingInvariant
      { s with
        alpc := { counted s.alpc r with sections := sections }
        returned := s.returned ++ [s.alpc.nextSectionId] } := by
  have hset := pmmAlloc_takesSet halloc
  have hgrows := pmmAlloc_grows halloc
  rcases fillSlot_spec hfill with ⟨_, hold, _, _⟩
  have hnew : forall p,
      p ∈ sectionFrames (newSection s.alpc r tid size) -> p ∈ r.set := by
    intro p hp
    rw [sectionFrames_new] at hp
    rcases Nat.eq_zero_or_pos size with hzero | hpos
    · rw [hzero] at hp
      simp [pageRange, sectionPages, Word.add] at hp
    · exact (((hback hpos).pages h.total_lt hpos halloc).right.right p).mp hp
  constructor
  · exact (slotInvariant_stored h.slots halloc hfill).right.right
  · show r.state.totalPages < _
    rw [hset.total_eq]
    exact h.total_lt
  · exact h.owned_lt
  · intro p hp
    exact hgrows.set p (h.owned_set p hp)
  · intro x hx p hp
    rcases hold x hx with heq | hx
    · rw [heq] at hp
      exact (hset.bits p).mpr (Or.inl (hnew p hp))
    · exact hgrows.set p (h.taken x hx p hp)
  · intro x hx
    rcases hold x hx with heq | hx
    · rw [heq, Finset.disjoint_left]
      intro p hp howned
      have hclear := hset.clear p (hnew p hp)
      rw [h.owned_set p howned] at hclear
      cases hclear
    · exact h.apart x hx

theorem backingInvariant_alloc (h : BackingInvariant s) {count : Nat}
    (halloc : pmmAlloc s.alpc.vmm.frames count = some r) :
    BackingInvariant
      { s with
        alpc := withFrames s.alpc r.state
        owned := s.owned ∪ r.set.toFinset } := by
  have hset := pmmAlloc_takesSet halloc
  have hgrows := pmmAlloc_grows halloc
  constructor
  · exact h.slots.same _ rfl (Or.inr rfl) (h.slots.words.alloc halloc)
  · show r.state.totalPages < _
    rw [hset.total_eq]
    exact h.total_lt
  · intro p hp
    rcases Finset.mem_union.mp hp with hp | hp
    · exact h.owned_lt p hp
    · exact hset.lt p (List.mem_toFinset.mp hp)
  · intro p hp
    rcases Finset.mem_union.mp hp with hp | hp
    · exact hgrows.set p (h.owned_set p hp)
    · exact (hset.bits p).mpr (Or.inl (List.mem_toFinset.mp hp))
  · intro x hx p hp
    exact hgrows.set p (h.taken x hx p hp)
  · intro x hx
    refine Finset.disjoint_union_right.mpr ⟨h.apart x hx, ?_⟩
    rw [Finset.disjoint_left]
    intro p hp hnew
    have hclear := hset.clear p (List.mem_toFinset.mp hnew)
    rw [h.taken x hx p hp] at hclear
    cases hclear

/-- What giving back pages of one's own leaves of the bitmap. -/
structure FreesPages (pmm pmm' : PmmState) (ptr count : Nat) : Prop where
  total_eq : pmm'.totalPages = pmm.totalPages
  last_eq : pmm'.lastSearchIndex = pmm.lastSearchIndex
  keep : forall p, p ∉ pageRange ptr count -> bitmapTest pmm p = true ->
    bitmapTest pmm' p = true

theorem pmmFree_owned {pmm : PmmState} {owned : Finset Nat} {ptr count : Nat}
    (hwords : PmmWords pmm) (hlt : forall p, p ∈ owned -> p < 2 ^ 64)
    (hptr : ptr < 2 ^ 64) (howned : pageRange ptr count ⊆ owned) :
    FreesPages pmm (pmmFree pmm ptr count) ptr count := by
  have hend := (pageRange_end hlt hptr howned).right
  rcases pmmFree_spec hwords.free_lt hend with ⟨ram, heq, hbits⟩
  refine ⟨by rw [heq], by rw [heq], ?_⟩
  intro p hp hbit
  rw [heq]
  refine (hbits p).mpr ⟨?_, hbit⟩
  rwa [mem_pageRange] at hp

theorem backingInvariant_free (h : BackingInvariant s) {ptr count : Nat}
    (hptr : ptr < 2 ^ 64) (howned : pageRange ptr count ⊆ s.owned) :
    BackingInvariant
      { s with
        alpc := withFrames s.alpc (pmmFree s.alpc.vmm.frames ptr count)
        owned := s.owned \ pageRange ptr count } := by
  have hfrees := pmmFree_owned h.slots.words h.owned_lt hptr howned
  constructor
  · exact h.slots.same _ rfl (Or.inr rfl) (h.slots.words.free _ _)
  · show (pmmFree s.alpc.vmm.frames ptr count).totalPages < _
    rw [hfrees.total_eq]
    exact h.total_lt
  · intro p hp
    exact h.owned_lt p (Finset.mem_sdiff.mp hp).left
  · intro p hp
    rcases Finset.mem_sdiff.mp hp with ⟨hown, hout⟩
    exact hfrees.keep p hout (h.owned_set p hown)
  · intro x hx p hp
    refine hfrees.keep p ?_ (h.taken x hx p hp)
    intro hin
    exact Finset.disjoint_left.mp (h.apart x hx) hp (howned hin)
  · intro x hx
    exact Finset.disjoint_of_subset_right Finset.sdiff_subset (h.apart x hx)

theorem alpcMapSection_keeps {a a' : SectionState} {root id virt : Nat}
    (h : alpcMapSection a root id = some (virt, a')) :
    a'.sections = a.sections ∧ PmmGrows a.vmm.frames a'.vmm.frames := by
  cases hfind : findSection id a.sections with
  | none =>
      unfold alpcMapSection at h
      rw [hfind] at h
      cases h
      exact ⟨rfl, PmmGrows.refl _⟩
  | some sec =>
      rcases (alpcMapSection_cases hfind h).right with ⟨vmm, hloop, heq⟩
      rw [heq]
      exact ⟨rfl, mapPages_grows hloop⟩

theorem backingInvariant_step {root : Nat} {event : CallEvent} {s' : CallRun}
    (h : BackingInvariant s) (hstep : CallStep root s event s')
    (hevent : BackedEvent s event) : BackingInvariant s' := by
  have hslots := slotInvariant_step h.slots hstep
  cases hstep with
  | create _ hrun =>
      rcases alpcCreateSection_created hrun with ⟨r, halloc, hcreated⟩
      cases hcreated with
      | stored hfill =>
          have hne := (slotInvariant_stored h.slots halloc hfill).left
          rw [if_neg hne]
          exact backingInvariant_stored h (hevent hne) halloc hfill
      | refused _ => exact h.grows hslots rfl (pmmAlloc_grows halloc)
  | map hrun =>
      rcases alpcMapSection_keeps hrun with ⟨hsections, hgrows⟩
      exact h.grows hslots hsections hgrows
  | alloc halloc => exact backingInvariant_alloc h halloc
  | free hptr howned => exact backingInvariant_free h hptr howned

theorem backingInvariant_reachable {root : Nat} {vmm : VmmState PmmState}
    (hwords : PmmWords vmm.frames) (htotal : vmm.frames.totalPages < 2 ^ 52)
    (hreach : (backedSystem root vmm).Reachable s) : BackingInvariant s := by
  apply reachable_invariant _ _ hreach
  · intro t ht
    rw [show t = callStart vmm from ht]
    exact backingInvariant_init hwords htotal
  · intro t event u ht hstep
    exact backingInvariant_step ht hstep.left hstep.right

/-!
# When a section is backed
-/

theorem findSection_stored (h : SlotInvariant s)
    {sections : List AlpcSection}
    (halloc : pmmAlloc s.alpc.vmm.frames (sectionPages size) = some r)
    (hfill : fillSlot (newSection s.alpc r tid size) s.alpc.sections =
      some sections) :
    findSection s.alpc.nextSectionId sections =
      some (newSection s.alpc r tid size) := by
  rcases slotInvariant_stored h halloc hfill with ⟨hne, hfresh, _⟩
  rcases fillSlot_spec hfill with ⟨hmem, hback, _, _⟩
  cases hfind : findSection s.alpc.nextSectionId sections with
  | none => exact absurd rfl (findSection_eq_none_iff.mp hfind _ hmem)
  | some sec =>
      rcases findSection_spec hfind with ⟨hsec, hid⟩
      rcases hback sec hsec with heq | hold
      · rw [heq]
      · exact absurd ((h.returned_iff _).mpr ⟨hne, sec, hold, hid⟩) hfresh

theorem runInside_of_pages {pmm : PmmState} {count : Nat}
    (hwords : PmmWords pmm) (htotal : pmm.totalPages < 2 ^ 52)
    (hpos : 1 <= count) (hrun : pmmAlloc pmm count = some r)
    (hret : r.ret ≠ 0)
    (hinside : forall p, p ∈ pageRange r.ret count -> p < pmm.totalPages)
    (htaken : forall p, p ∈ pageRange r.ret count -> p ∈ r.set) :
    RunInside pmm count := by
  have hfirst := htaken (r.ret / pageSize) (mem_pageRange.mpr (by lia))
  have hlast := hinside (r.ret / pageSize + (count - 1))
    (mem_pageRange.mpr (by lia))
  -- the page with the address of the run is its first one
  have hpage : forall i tested, r = allocFound pmm i count tested ->
      i < 2 ^ 64 -> i ≠ 0 ∧ i + count <= pmm.totalPages := by
    intro i tested hr hi
    rw [hr] at hret
    rw [hr, ret_page] at hfirst hlast
    rcases List.mem_map.mp hfirst with ⟨j, hj, heq⟩
    have hj := List.mem_range.mp hj
    unfold Word.add at heq
    refine ⟨?_, by lia⟩
    intro hzero
    rw [hzero] at hret
    exact hret rfl
  rcases pmmAlloc_scans htotal (by lia) hrun with
    ⟨i, tested, hr, hlow, hlt, hfree, _, hleast⟩ |
    ⟨_, found, tested, hscan, ⟨i, tested', hi, hr⟩ | ⟨_, hset⟩⟩
  · rcases hpage i tested hr (by lia) with ⟨hne, hend⟩
    refine ⟨i, hfree, Or.inl ⟨hlow, by lia⟩, ?_⟩
    intro hzero
    refine ⟨?_, hlow⟩
    by_contra hstart
    exact hleast 0 (by lia) (by lia) hzero
  · rw [hi] at hscan
    have hlt := (scan_found hscan).left
    rcases hpage i tested' hr (Nat.lt_trans hlt hwords.last_lt) with
      ⟨hne, hend⟩
    refine ⟨i, scan_freeRun hscan (by lia), Or.inr ⟨hlt, hend⟩, ?_⟩
    intro hzero
    rcases scan_finds hscan (Nat.le_refl 0) (by lia) (by lia) hzero with
      ⟨j, hj, hle⟩
    cases hj
    lia
  · rw [hset] at hfirst
    cases hfirst

theorem backedRequest_of_obtained (h : BackingInvariant s)
    (hsize : 1 <= size)
    (halloc : pmmAlloc s.alpc.vmm.frames (sectionPages size) = some r)
    (hle : size <= (newSection s.alpc r tid size).size)
    (hobtained : FramesObtained s r.state (newSection s.alpc r tid size)) :
    BackedRequest s.alpc.vmm.frames size := by
  have hset := pmmAlloc_takesSet halloc
  have hframes := sectionFrames_new s.alpc r tid size
  rw [(newSection_size s.alpc r tid size).left] at hle
  have hround := size_le_iff.mp hle
  have hpos := sectionPages_pos hsize hround
  have htaken : forall p, p ∈ pageRange r.ret (sectionPages size) ->
      p ∈ r.set := by
    intro p hp
    rw [← hframes] at hp
    have hclear := hobtained.free p hp
    rcases (hset.bits p).mp (hobtained.taken p hp) with hin | hbusy
    · exact hin
    · rw [hbusy] at hclear
      cases hclear
  have hret : r.ret ≠ 0 := by
    intro hzero
    refine hobtained.nonzero 0 ?_ rfl
    rw [hframes, hzero, mem_pageRange, Nat.zero_div]
    lia
  refine ⟨hround, ?_⟩
  refine runInside_of_pages h.slots.words h.total_lt hpos halloc hret ?_ htaken
  rw [← hframes]
  exact hobtained.inside

theorem BackedRequest.obtained (hback : BackedRequest s.alpc.vmm.frames size)
    (h : BackingInvariant s) (hsize : 1 <= size)
    (halloc : pmmAlloc s.alpc.vmm.frames (sectionPages size) = some r) :
    FramesObtained s r.state (newSection s.alpc r tid size) := by
  have hset := pmmAlloc_takesSet halloc
  have haligned := pmmAlloc_ret_aligned halloc
  have hframes := sectionFrames_new s.alpc r tid size
  rcases hback.pages h.total_lt hsize halloc with ⟨hret, hend, hpages⟩
  constructor
  · exact haligned
  · intro p hp
    rw [hframes, mem_pageRange] at hp
    unfold pageSize at hp haligned
    lia
  · intro p hp
    rw [hframes, mem_pageRange] at hp
    lia
  · intro p hp
    rw [hframes, hpages] at hp
    exact hset.clear p hp
  · intro p hp
    rw [hframes, hpages] at hp
    exact (hset.bits p).mpr (Or.inl hp)
  · rw [Finset.disjoint_left]
    intro p hp howned
    rw [hframes, hpages] at hp
    have hclear := hset.clear p hp
    rw [h.owned_set p howned] at hclear
    cases hclear

theorem FramesObtained.disjoint {pmm : PmmState} {sec : AlpcSection}
    (hobtained : FramesObtained s pmm sec) (h : BackingInvariant s)
    {x : AlpcSection} (hx : x ∈ s.alpc.sections) :
    Disjoint (sectionFrames sec) (sectionFrames x) := by
  rw [Finset.disjoint_left]
  intro p hp hin
  have hclear := hobtained.free p hp
  rw [h.taken x hx p hin] at hclear
  cases hclear

theorem sectionBacked_iff (h : BackingInvariant s) (hsize : 1 <= size)
    {alpc : SectionState}
    (hrun : alpcCreateSection s.alpc tid size = some (id, alpc))
    (hid : id ≠ 0) :
    SectionBacked s size id alpc <->
      BackedRequest s.alpc.vmm.frames size := by
  rcases alpcCreateSection_created hrun with ⟨r, halloc, hcreated⟩
  cases hcreated with
  | refused _ => exact absurd rfl hid
  | @stored sections hfill =>
      have hfind := findSection_stored h.slots halloc hfill
      constructor
      · intro hbacked
        rcases hbacked.recorded with ⟨sec, hsec, hle, hobtained, _⟩
        rw [show findSection s.alpc.nextSectionId sections = some sec from hsec]
          at hfind
        cases hfind
        exact backedRequest_of_obtained h hsize halloc hle hobtained
      · intro hback
        have hobtained : FramesObtained s r.state
            (newSection s.alpc r tid size) := hback.obtained h hsize halloc
        refine ⟨(slotInvariant_stored h.slots halloc hfill).right.left, _,
          hfind, ?_, hobtained, ?_⟩
        · rw [(newSection_size s.alpc r tid size).left]
          exact size_le_iff.mpr hback.rounded
        · intro x hx hxid
          rcases (fillSlot_spec hfill).right.left x hx with heq | hold
          · rw [heq] at hxid
            exact absurd rfl hxid
          · exact hobtained.disjoint h hold

theorem alpcCreateSection_backed_iff {root : Nat} {vmm : VmmState PmmState}
    (hwords : PmmWords vmm.frames) (htotal : vmm.frames.totalPages < 2 ^ 52)
    (hreach : (backedSystem root vmm).Reachable s) (hsize : 1 <= size)
    {alpc : SectionState}
    (hrun : alpcCreateSection s.alpc tid size = some (id, alpc))
    (hid : id ≠ 0) :
    SectionBacked s size id alpc <-> BackedRequest s.alpc.vmm.frames size :=
  sectionBacked_iff (backingInvariant_reachable hwords htotal hreach) hsize
    hrun hid

end Backing

theorem backedStart_reachable (root : Nat) (vmm : VmmState PmmState) :
    (backedSystem root vmm).Reachable (callStart vmm) :=
  ⟨callStart vmm, [], rfl, TransitionSystem.Runs.nil _⟩

theorem smallPool_backed : BackedRequest smallTables.frames 1 := by
  refine ⟨by decide, 16, ?_, Or.inl ⟨Nat.le_refl 16, by decide⟩, ?_⟩
  · intro k _
    exact smallPool_freeTail.free (16 + k) (Nat.le_add_right 16 k)
  · intro _
    exact ⟨by decide, Nat.le_refl 16⟩

theorem alpcCreateSection_backed_iff_first :
    exists alpc, alpcCreateSection (callStart smallTables).alpc 0 1 =
        some (1, alpc) ∧
      SectionBacked (callStart smallTables) 1 1 alpc := by
  rcases smallPool_create with ⟨tested, hcreate⟩
  refine ⟨_, hcreate, ?_⟩
  exact (alpcCreateSection_backed_iff smallPool_words (by decide)
    (backedStart_reachable 0x1000 smallTables) (by decide) hcreate
    (by decide)).mpr smallPool_backed

def exhaustedTables : VmmState PmmState :=
  { smallTables with
    frames := { smallPool with ram := fun _ => 255, freePages := 0 } }

/-- Without a free page, `alpc_create_section(1)` still returns an id, and its
section starts at address 0. -/
theorem alpcCreateSection_unbacked :
    (backedSystem 0x1000 exhaustedTables).Reachable
        (callStart exhaustedTables) ∧
      exists alpc, alpcCreateSection (callStart exhaustedTables).alpc 0 1 =
          some (1, alpc) ∧
        ¬ SectionBacked (callStart exhaustedTables) 1 1 alpc := by
  refine ⟨backedStart_reachable 0x1000 exhaustedTables, ?_⟩
  have hcreate : (alpcCreateSection (callStart exhaustedTables).alpc 0 1).map
      (fun result => (result.1, findSection 1 result.2.sections)) =
        some (1, some (firstSection 0)) := by
    decide +kernel
  rcases Option.map_eq_some_iff.mp hcreate with ⟨⟨id, alpc⟩, hrun, heq⟩
  rcases Prod.mk.inj heq with ⟨hid, hfind⟩
  cases hid
  refine ⟨alpc, hrun, ?_⟩
  intro hbacked
  rcases hbacked.recorded with ⟨sec, hsec, _, hobtained, _⟩
  rw [hsec] at hfind
  cases hfind
  exact hobtained.nonzero 0 (by decide) rfl

/-!
# When a call finds no slot

The pages are taken first, and the call that returns 0 does not give them back.
-/

structure LeaksNothing (a a' : SectionState) : Prop where
  free_eq : Free a'.vmm.frames = Free a.vmm.frames
  free_pages : a'.vmm.frames.freePages = a.vmm.frames.freePages
  sections : a'.sections = a.sections

/-- A call that returns 0 has changed nothing. -/
def FailsClean (a : SectionState) (tid size : Nat) : Prop :=
  forall a', alpcCreateSection a tid size = some (0, a') -> LeaksNothing a a'

/-- There is a slot, or the request is for no page, or no scan comes to a clear
run. -/
def CleanRequest (a : SectionState) (size : Nat) : Prop :=
  ¬ TableFull a ∨ sectionPages size = 0 ∨
    forall i, ¬ ClearRun a.vmm.frames (sectionPages size) i

section Leaks

variable {s : CallRun} {tid size : Nat} {r : AllocResult}

theorem sectionPages_lt (size : Nat) : sectionPages size < 2 ^ 64 := by
  unfold sectionPages Word.add
  lia

theorem runPages_eq_nil_iff {i count : Nat} :
    runPages i count = [] <-> count = 0 := by
  unfold runPages
  rw [List.map_eq_nil_iff, List.range_eq_nil]

theorem freePages_eq_iff {pmm : PmmState} {count : Nat} (hwords : PmmWords pmm)
    (hcount : count < 2 ^ 64) (h : pmmAlloc pmm count = some r) :
    r.state.freePages = pmm.freePages <-> r.set = [] := by
  rcases pmmAlloc_found h with ⟨i, tested, hr, _⟩ | ⟨_, hsame, hset⟩
  · rcases setRun_spec pmm i count 0 with ⟨ram, heq, _⟩
    have hfree : r.state.freePages = Word.sub pmm.freePages count := by
      rw [hr]
      show (takeRun pmm i count).freePages = _
      unfold takeRun
      rw [heq]
    have hlt := hwords.free_lt
    rw [hfree, hr, show (allocFound pmm i count tested).set = runPages i count
      from rfl, runPages_eq_nil_iff]
    unfold Word.sub
    lia
  · rw [hsame, hset]
    simp

theorem leaksNothing_of_set (hwords : PmmWords s.alpc.vmm.frames)
    (halloc : pmmAlloc s.alpc.vmm.frames (sectionPages size) = some r)
    (hset : r.set = []) : LeaksNothing s.alpc (counted s.alpc r) := by
  have hcounter := freePages_eq_iff hwords (sectionPages_lt size) halloc
  refine ⟨?_, hcounter.mpr hset, rfl⟩
  ext p
  have hbits := (pmmAlloc_takesSet halloc).bits p
  rw [hset] at hbits
  show bitmapTest r.state p = false <-> bitmapTest _ p = false
  rw [← Bool.not_eq_true, ← Bool.not_eq_true, hbits]
  simp

theorem CleanRequest.failsClean (h : SlotInvariant s)
    (hclean : CleanRequest s.alpc size) : FailsClean s.alpc tid size := by
  intro a' hrun
  rcases alpcCreateSection_created hrun with ⟨r, halloc, hcreated⟩
  generalize hid : 0 = id at hcreated
  cases hcreated with
  | stored hfill =>
      exact absurd hid.symm (slotInvariant_stored h halloc hfill).left
  | refused hfull =>
      refine leaksNothing_of_set h.words halloc ?_
      rcases pmmAlloc_found halloc with ⟨i, tested, hr, hclear⟩ | ⟨_, _, hset⟩
      · rcases hclean with hroom | hempty | hnone
        · exact absurd hfull hroom
        · rw [hr]
          exact runPages_eq_nil_iff.mpr hempty
        · exact absurd hclear (hnone i)
      · exact hset

theorem FailsClean.cleanRequest (hwords : PmmWords s.alpc.vmm.frames)
    (h : FailsClean s.alpc tid size) : CleanRequest s.alpc size := by
  by_contra hdirty
  unfold CleanRequest at hdirty
  rw [not_or, not_or, not_not] at hdirty
  rcases hdirty with ⟨hfull, hpages, hsome⟩
  rcases not_forall_not.mp hsome with ⟨i, hclear⟩
  rcases hclear.taken hwords with ⟨j, tested, halloc⟩
  have hrun : alpcCreateSection s.alpc tid size =
      some (0, counted s.alpc (allocFound s.alpc.vmm.frames j
        (sectionPages size) tested)) := by
    unfold alpcCreateSection
    simp only [halloc, Option.bind_eq_bind, Option.bind_some,
      fillSlot_eq_none_iff.mpr hfull]
    rfl
  have hset := (freePages_eq_iff hwords (sectionPages_lt size) halloc).mp
    (h _ hrun).free_pages
  exact hpages (runPages_eq_nil_iff.mp hset)

theorem alpcCreateSection_leaks_iff {root : Nat} {vmm : VmmState PmmState}
    (hwords : PmmWords vmm.frames)
    (hreach : (callSystem root vmm).Reachable s) :
    FailsClean s.alpc tid size <-> CleanRequest s.alpc size := by
  have hinv := slotInvariant_reachable hwords hreach
  exact ⟨FailsClean.cleanRequest hinv.words, CleanRequest.failsClean hinv⟩

end Leaks

def createNext (s : CallRun) (size : Nat) : Option CallRun :=
  if size < 2 ^ 64 then
    (alpcCreateSection s.alpc 0 size).map (fun result =>
      { s with
        alpc := result.2
        returned :=
          if result.1 = 0 then s.returned else s.returned ++ [result.1] })
  else
    none

theorem createNext_step {root size : Nat} {s t : CallRun}
    (h : createNext s size = some t) :
    exists event, CallStep root s event t := by
  unfold createNext at h
  by_cases hword : size < 2 ^ 64
  · rw [if_pos hword] at h
    rcases Option.map_eq_some_iff.mp h with ⟨⟨id, alpc⟩, hrun, heq⟩
    cases heq
    exact ⟨_, CallStep.create hword hrun⟩
  · rw [if_neg hword] at h
    cases h

/-- 64 sections without a page fill the table. -/
def fullTable : Option CallRun :=
  execute createNext (List.replicate 64 0)
    (callStart smallTables)

theorem fullTable_reachable {root : Nat} {s : CallRun}
    (h : fullTable = some s) : (callSystem root smallTables).Reachable s :=
  reachable_of_execute
    (fun _ _ _ hnext => createNext_step hnext)
    (callStart_reachable root smallTables) h

theorem alpcCreateSection_leaks_iff_empty :
    exists s alpc, (callSystem 0x1000 smallTables).Reachable s ∧
      alpcCreateSection s.alpc 0 0 = some (0, alpc) ∧
      LeaksNothing s.alpc alpc := by
  have hcalls : (fullTable.bind (fun s => alpcCreateSection s.alpc 0 0)).map
      Prod.fst = some 0 := by
    decide +kernel
  rcases Option.map_eq_some_iff.mp hcalls with ⟨⟨id, alpc⟩, hboth, hid⟩
  cases hid
  rcases Option.bind_eq_some_iff.mp hboth with ⟨s, hfull, hrun⟩
  have hreach : (callSystem 0x1000 smallTables).Reachable s :=
    fullTable_reachable hfull
  refine ⟨s, alpc, hreach, hrun, ?_⟩
  exact (alpcCreateSection_leaks_iff smallPool_words hreach).mpr
    (Or.inr (Or.inl rfl)) alpc hrun

/-- One more section of one page: the call returns 0, and `free_pages` has
dropped from 48 to 47. -/
theorem alpcCreateSection_leaks_page :
    exists s alpc, (callSystem 0x1000 smallTables).Reachable s ∧
      alpcCreateSection s.alpc 0 1 = some (0, alpc) ∧
      ¬ LeaksNothing s.alpc alpc := by
  have hcalls : fullTable.bind (fun s => (alpcCreateSection s.alpc 0 1).map
      (fun result => (result.1, s.alpc.vmm.frames.freePages,
        result.2.vmm.frames.freePages))) = some (0, 48, 47) := by
    decide +kernel
  rcases Option.bind_eq_some_iff.mp hcalls with ⟨s, hfull, hcall⟩
  rcases Option.map_eq_some_iff.mp hcall with ⟨⟨id, alpc⟩, hrun, heq⟩
  rcases Prod.mk.inj heq with ⟨hid, hpages⟩
  rcases Prod.mk.inj hpages with ⟨hbefore, hafter⟩
  cases hid
  refine ⟨s, alpc, fullTable_reachable hfull, hrun, ?_⟩
  intro hleaks
  have hsame := hleaks.free_pages
  rw [hbefore, hafter] at hsame
  cases hsame

end Alpc
end Barium
