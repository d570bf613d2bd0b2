import Mathlib.Data.Finset.Basic
import Mathlib.Order.Interval.Finset.Nat
import Barium.Pmm.Bounds
import Barium.Vmm.Runs
import Barium.Alpc.Section

/-!
# Runs of section calls

Sections are created and mapped in any order.  The section table, the section
space and the page tables keep an invariant along such a run.
-/

namespace Barium
namespace Alpc

open Foundation
open TransitionSystem
open Pmm
open Vmm

/-!
# The steps
-/

/-- `pmm_alloc` succeeds: the pages it returns lie in the managed memory, were
free and are now taken. -/
structure GrantsPages (s : PmmState) (count : Nat) (r : AllocResult) :
    Prop where
  ret_ne : r.ret ≠ 0
  inside : r.ret / pageSize + count <= s.totalPages
  free : forall p, p ∈ pageRange r.ret count -> bitmapTest s p = false
  taken : forall p, p ∈ pageRange r.ret count -> bitmapTest r.state p = true

theorem grantsPages_of_safe {start : PmmState} {s : PoolState} {count : Nat}
    {r : AllocResult} (hready : ReadyState start) (hinv : PmmInvariant start s)
    (hlast : s.pmm.lastSearchIndex <= s.pmm.totalPages) (hpos : 1 <= count)
    (hsafe : SafeRequest s.pmm count) (hrun : pmmAlloc s.pmm count = some r)
    (hret : r.ret ≠ 0) : GrantsPages s.pmm count r := by
  have htotal := hready.total_lt
  rw [← hinv.total_eq] at htotal
  rcases staysInside_of_safe htotal hlast hpos hsafe with ⟨r', hrun', hinside⟩
  rw [hrun] at hrun'
  cases hrun'
  rcases (hinv.conserves hready).alloc_call count hpos hsafe.left with
    ⟨r', hrun', hcall⟩
  rw [hrun] at hrun'
  cases hrun'
  constructor
  · exact hret
  · exact hinside.run_le hret
  · intro p hp
    exact (hcall.inside hret p hp).left
  · intro p hp
    exact (hcall.inside hret p hp).right

/-- Every frame that the loop of `alpc_map_section` allocates for a table is
fresh when it is allocated. -/
def FreshPages (alloc : FrameAllocator alpha) (pml4 virt phys size : Nat) :
    Nat -> VmmState alpha -> Nat -> Prop
  | 0, _, _ => True
  | fuel + 1, s, j =>
      j < size ->
        FreshMap alloc pml4 s (Word.add virt j) ∧
        forall s', vmmMap alloc s pml4 (Word.add virt j) (Word.add phys j)
            sectionFlags = some s' ->
          FreshPages alloc pml4 virt phys size fuel s' (Word.add j 4096)

structure Mapping where
  sec : AlpcSection
  virt : Nat

structure SectionRun where
  alpc : SectionState
  created : List Nat
  maps : List Mapping

inductive SectionEvent where
  | create (size id : Nat)
  | map (id virt : Nat)

inductive SectionStep (root : Nat) :
    SectionRun -> SectionEvent -> SectionRun -> Prop where
  | create {s : SectionRun} {alpc : SectionState} {tid size id : Nat}
      {r : AllocResult} :
      size < 2 ^ 64 ->
      pmmAlloc s.alpc.vmm.frames (sectionPages size) = some r ->
      GrantsPages s.alpc.vmm.frames (sectionPages size) r ->
      alpcCreateSection s.alpc tid size = some (id, alpc) -> id ≠ 0 ->
      SectionStep root s (SectionEvent.create size id)
        { s with alpc := alpc, created := s.created ++ [id] }
  | map {s : SectionRun} {alpc : SectionState} {sec : AlpcSection}
      {id virt : Nat} :
      id ∈ s.created ->
      findSection id s.alpc.sections = some sec ->
      s.alpc.nextSectionVirt + sec.size < 2 ^ 48 ->
      FreshPages pmmFrame root s.alpc.nextSectionVirt sec.physAddr sec.size
        mapFuel s.alpc.vmm 0 ->
      alpcMapSection s.alpc root id = some (virt, alpc) ->
      SectionStep root s (SectionEvent.map id virt)
        { s with alpc := alpc, maps := s.maps ++ [{ sec := sec, virt := virt }] }

/-- The runs start after `alpc_init`, on the page tables that are there by
then. -/
def sectionSystem (root : Nat) (vmm : VmmState PmmState) :
    TransitionSystem SectionRun SectionEvent where
  Init := fun s => s = { alpc := alpcInit vmm, created := [], maps := [] }
  Step := SectionStep root

/-!
# The memory manager only takes pages

No section is ever given back, so the bits that are set stay set.
-/

structure PmmGrows (s t : PmmState) : Prop where
  total_eq : t.totalPages = s.totalPages
  set : forall p, bitmapTest s p = true -> bitmapTest t p = true

theorem PmmGrows.refl (s : PmmState) : PmmGrows s s :=
  ⟨rfl, fun _ h => h⟩

theorem PmmGrows.trans {s t u : PmmState} (hst : PmmGrows s t)
    (htu : PmmGrows t u) : PmmGrows s u :=
  ⟨htu.total_eq.trans hst.total_eq, fun p h => htu.set p (hst.set p h)⟩

theorem takeRun_grows (s : PmmState) (i count : Nat) :
    PmmGrows s (takeRun s i count) := by
  rcases setRun_spec s i count 0 with ⟨ram, heq, hbits⟩
  unfold takeRun
  rw [heq]
  constructor
  · rfl
  · intro p hp
    exact (hbits p).mpr (Or.inr hp)

theorem pmmAlloc_grows {s : PmmState} {count : Nat} {r : AllocResult}
    (h : pmmAlloc s count = some r) : PmmGrows s r.state := by
  rcases pmmAlloc_cases h with ⟨i, tested, heq⟩ | ⟨_, heq⟩
  · rw [heq]
    exact takeRun_grows s i count
  · rw [heq]
    exact PmmGrows.refl s

theorem pmmAlloc_ret_aligned {s : PmmState} {count : Nat} {r : AllocResult}
    (h : pmmAlloc s count = some r) : r.ret % pageSize = 0 := by
  rcases pmmAlloc_cases h with ⟨i, tested, heq⟩ | ⟨heq, _⟩
  · rw [heq]
    show i * 4096 % 2 ^ 64 % 4096 = 0
    lia
  · rw [heq]
    rfl

theorem tableFrame_eq_some_iff {s s' : PmmState} {f : Nat} :
    tableFrame s = some (f, s') <-> pmmFrame s = some (f, s') ∧ f ≠ 0 := by
  unfold tableFrame
  cases pmmFrame s with
  | none => simp
  | some r =>
      rcases r with ⟨g, t⟩
      by_cases hg : g = 0
      · simp [hg]
        lia
      · simp [hg]
        lia

section Weaker

variable {alloc alloc' : FrameAllocator alpha} {s : VmmState alpha}

theorem ensureTable_weaker
    (h : forall a r, alloc a = some r -> alloc' a = some r) {t idx : Nat}
    {r : VmmState alpha × Nat} (hrun : ensureTable alloc s t idx = some r) :
    ensureTable alloc' s t idx = some r := by
  unfold ensureTable at hrun ⊢
  by_cases habsent : s.mem (entryAddr t idx) &&& pagePresent = 0
  · rw [if_pos habsent] at hrun ⊢
    rcases Option.bind_eq_some_iff.mp hrun with ⟨f, halloc, hs⟩
    exact Option.bind_eq_some_iff.mpr ⟨f, h _ _ halloc, hs⟩
  · rw [if_neg habsent] at hrun ⊢
    exact hrun

theorem vmmMap_weaker
    (h : forall a r, alloc a = some r -> alloc' a = some r)
    {pml4 virt phys flags : Nat} {s' : VmmState alpha}
    (hrun : vmmMap alloc s pml4 virt phys flags = some s') :
    vmmMap alloc' s pml4 virt phys flags = some s' := by
  rcases Option.bind_eq_some_iff.mp hrun with ⟨r1, h1, hrun⟩
  rcases Option.bind_eq_some_iff.mp hrun with ⟨r2, h2, hrun⟩
  rcases Option.bind_eq_some_iff.mp hrun with ⟨r3, h3, hlast⟩
  unfold vmmMap
  rw [ensureTable_weaker h h1, Option.bind_eq_bind, Option.bind_some]
  simp only [ensureTable_weaker h h2, ensureTable_weaker h h3,
    Option.bind_some]
  exact hlast

theorem mapPages_weaker
    (h : forall a r, alloc a = some r -> alloc' a = some r)
    {pml4 virt phys size fuel j : Nat} {s' : VmmState alpha}
    (hrun : mapPages alloc pml4 virt phys size fuel s j = some s') :
    mapPages alloc' pml4 virt phys size fuel s j = some s' := by
  induction fuel generalizing s j with
  | zero => cases hrun
  | succ fuel ih =>
      unfold mapPages at hrun ⊢
      by_cases hj : j < size
      · rw [if_pos hj] at hrun ⊢
        rcases Option.bind_eq_some_iff.mp hrun with ⟨s1, hmap, hrest⟩
        exact Option.bind_eq_some_iff.mpr
          ⟨s1, vmmMap_weaker h hmap, ih hrest⟩
      · rw [if_neg hj] at hrun ⊢
        exact hrun

end Weaker

-- What holds from before to after every request holds for the whole loop.
section Requests

variable {alloc : FrameAllocator alpha} {R : alpha -> alpha -> Prop}
  {s s' : VmmState alpha}

theorem ensureTable_frames (hrefl : forall a, R a a)
    (halloc : forall a f a', alloc a = some (f, a') -> R a a') {t idx u : Nat}
    (h : ensureTable alloc s t idx = some (s', u)) :
    R s.frames s'.frames := by
  unfold ensureTable at h
  by_cases habsent : s.mem (entryAddr t idx) &&& pagePresent = 0
  · rw [if_pos habsent] at h
    rcases Option.bind_eq_some_iff.mp h with ⟨⟨frame, frames⟩, hrun, hs⟩
    cases hs
    exact halloc _ _ _ hrun
  · rw [if_neg habsent] at h
    cases h
    exact hrefl _

theorem vmmMap_frames (hrefl : forall a, R a a)
    (htrans : forall {a b c}, R a b -> R b c -> R a c)
    (halloc : forall a f a', alloc a = some (f, a') -> R a a')
    {pml4 virt phys flags : Nat}
    (h : vmmMap alloc s pml4 virt phys flags = some s') :
    R s.frames s'.frames := by
  rcases Option.bind_eq_some_iff.mp h with ⟨⟨s1, pdpt⟩, h1, h⟩
  rcases Option.bind_eq_some_iff.mp h with ⟨⟨s2, pd⟩, h2, h⟩
  rcases Option.bind_eq_some_iff.mp h with ⟨⟨s3, pt⟩, h3, h⟩
  have hrest := htrans (ensureTable_frames hrefl halloc h2)
    (ensureTable_frames hrefl halloc h3)
  cases h
  exact htrans (ensureTable_frames hrefl halloc h1) hrest

theorem mapPages_frames (hrefl : forall a, R a a)
    (htrans : forall {a b c}, R a b -> R b c -> R a c)
    (halloc : forall a f a', alloc a = some (f, a') -> R a a')
    {pml4 virt phys size fuel j : Nat}
    (h : mapPages alloc pml4 virt phys size fuel s j = some s') :
    R s.frames s'.frames := by
  induction fuel generalizing s j with
  | zero => cases h
  | succ fuel ih =>
      unfold mapPages at h
      by_cases hj : j < size
      · rw [if_pos hj] at h
        rcases Option.bind_eq_some_iff.mp h with ⟨s1, hmap, hrest⟩
        exact htrans (vmmMap_frames hrefl htrans halloc hmap) (ih hrest)
      · rw [if_neg hj] at h
        cases h
        exact hrefl _

end Requests

theorem pmmFrame_grows {a a' : PmmState} {f : Nat}
    (halloc : pmmFrame a = some (f, a')) : PmmGrows a a' := by
  rcases Option.map_eq_some_iff.mp halloc with ⟨r, hrun, heq⟩
  cases heq
  exact pmmAlloc_grows hrun

theorem mapPages_grows {pml4 virt phys size fuel j : Nat}
    {s s' : VmmState PmmState}
    (h : mapPages pmmFrame pml4 virt phys size fuel s j = some s') :
    PmmGrows s.frames s'.frames :=
  mapPages_frames PmmGrows.refl PmmGrows.trans
    (fun _ _ _ halloc => pmmFrame_grows halloc) h

/-!
# The calls of one mapping
-/

def pageCall (virt phys k : Nat) : MapCall where
  virt := virt + 4096 * k
  phys := phys + 4096 * k
  flags := sectionFlags

def sectionCalls (virt phys k n : Nat) : List MapCall :=
  (List.range' k n).map (pageCall virt phys)

/-- The loop makes one call for each page of the section. -/
theorem mapPages_runs {alloc : FrameAllocator alpha}
    {root virt phys size fuel k n : Nat} {s s' : VmmState alpha}
    (hsize : size = 4096 * (k + n)) (hvirt : virt + size < 2 ^ 64)
    (hphys : phys + size <= 2 ^ 64)
    (hfresh : FreshPages alloc root virt phys size fuel s (4096 * k))
    (hrun : mapPages alloc root virt phys size fuel s (4096 * k) = some s') :
    (vmmSystem alloc root).Runs s (sectionCalls virt phys k n) s' := by
  induction fuel generalizing s k n with
  | zero => cases hrun
  | succ fuel ih =>
      unfold mapPages at hrun
      unfold FreshPages at hfresh
      cases n with
      | zero =>
          rw [if_neg (by lia)] at hrun
          cases hrun
          exact TransitionSystem.Runs.nil _
      | succ n =>
          have hj : 4096 * k < size := by lia
          rw [if_pos hj] at hrun
          rcases Option.bind_eq_some_iff.mp hrun with ⟨s1, hmap, hrest⟩
          rcases hfresh hj with ⟨hpage, hpages⟩
          have hnext : Word.add (4096 * k) 4096 = 4096 * (k + 1) :=
            Word.add_of_lt (by lia)
          have htail := hpages s1 hmap
          rw [hnext] at hrest htail
          rw [Word.add_of_lt (by lia), Word.add_of_lt (by lia)] at hmap
          rw [Word.add_of_lt (by lia)] at hpage
          have hvalid : ValidCall (pageCall virt phys k) := by
            constructor
            · show virt + 4096 * k < 2 ^ 64
              lia
            · show phys + 4096 * k < 2 ^ 64
              lia
            · show sectionFlags < 2 ^ 12
              decide
            · show sectionFlags &&& pagePresent ≠ 0
              decide
          have hfirst := runs_single
            (T := vmmSystem alloc root) (VmmStep.map hvalid hpage hmap)
          have hothers := ih (show size = 4096 * (k + 1 + n) by lia) htail hrest
          unfold sectionCalls
          rw [List.range'_succ, List.map_cons]
          exact runs_append hfirst hothers

theorem mem_sectionCalls {virt phys n : Nat} {c : MapCall}
    (h : c ∈ sectionCalls virt phys 0 n) :
    exists k, k < n ∧ c = pageCall virt phys k := by
  rcases List.mem_map.mp h with ⟨k, hk, heq⟩
  have hrange := List.mem_range'_1.mp hk
  exact ⟨k, by lia, heq.symm⟩

theorem pageCall_mem {virt phys k n : Nat} (h : k < n) :
    pageCall virt phys k ∈ sectionCalls virt phys 0 n := by
  apply List.mem_map.mpr
  exists k
  constructor
  · rw [List.mem_range'_1]
    lia
  · rfl

/-!
# The section table
-/

structure SectionValid (pmm : PmmState) (x : AlpcSection) : Prop where
  phys_aligned : x.physAddr % 4096 = 0
  size_aligned : x.size % 4096 = 0
  inside : x.physAddr / 4096 + x.size / 4096 <= pmm.totalPages
  taken : forall p, p ∈ pageRange x.physAddr (x.size / 4096) ->
    bitmapTest pmm p = true

structure TableInvariant (s : SectionState) : Prop where
  total_lt : s.vmm.frames.totalPages < 2 ^ 52
  slots : s.nextSectionId + s.sections.countP (fun x => x.id = 0) =
    sectionSlots + 1
  id_lt : forall x, x ∈ s.sections -> x.id < s.nextSectionId
  unique : forall x y, x ∈ s.sections -> y ∈ s.sections -> x.id ≠ 0 ->
    x.id = y.id -> x = y
  valid : forall x, x ∈ s.sections -> x.id ≠ 0 ->
    SectionValid s.vmm.frames x
  apart : forall x y, x ∈ s.sections -> y ∈ s.sections -> x.id ≠ 0 ->
    y.id ≠ 0 -> x.id ≠ y.id ->
    Disjoint (pageRange x.physAddr (x.size / 4096))
      (pageRange y.physAddr (y.size / 4096))

theorem SectionValid.grows {s t : PmmState} {x : AlpcSection}
    (h : SectionValid s x) (hgrows : PmmGrows s t) : SectionValid t x := by
  constructor
  · exact h.phys_aligned
  · exact h.size_aligned
  · rw [hgrows.total_eq]
    exact h.inside
  · intro p hp
    exact hgrows.set p (h.taken p hp)

theorem fillSlot_spec {sec : AlpcSection} {slots slots' : List AlpcSection}
    (h : fillSlot sec slots = some slots') :
    sec ∈ slots' ∧
      (forall x, x ∈ slots' -> x = sec ∨ x ∈ slots) ∧
      (forall x, x ∈ slots -> x.id ≠ 0 -> x ∈ slots') ∧
      (sec.id ≠ 0 -> slots'.countP (fun x => x.id = 0) + 1 =
        slots.countP (fun x => x.id = 0)) := by
  induction slots generalizing slots' with
  | nil => cases h
  | cons slot rest ih =>
      unfold fillSlot at h
      by_cases hfree : slot.id = 0
      · rw [if_pos hfree] at h
        cases h
        refine ⟨by simp, ?_, ?_, ?_⟩
        · intro x hx
          rcases List.mem_cons.mp hx with hx | hx
          · exact Or.inl hx
          · exact Or.inr (List.mem_cons_of_mem _ hx)
        · intro x hx hid
          rcases List.mem_cons.mp hx with hx | hx
          · rw [hx] at hid
            exact absurd hfree hid
          · exact List.mem_cons_of_mem _ hx
        · intro hid
          simp [hfree, hid]
      · rw [if_neg hfree] at h
        rcases Option.map_eq_some_iff.mp h with ⟨rest', hrest, heq⟩
        rcases ih hrest with ⟨hmem, hback, hkeep, hcount⟩
        rw [← heq]
        refine ⟨List.mem_cons_of_mem _ hmem, ?_, ?_, ?_⟩
        · intro x hx
          rcases List.mem_cons.mp hx with hx | hx
          · exact Or.inr (List.mem_cons.mpr (Or.inl hx))
          · rcases hback x hx with hx | hx
            · exact Or.inl hx
            · exact Or.inr (List.mem_cons_of_mem _ hx)
        · intro x hx hid
          rcases List.mem_cons.mp hx with hx | hx
          · exact List.mem_cons.mpr (Or.inl hx)
          · exact List.mem_cons_of_mem _ (hkeep x hx hid)
        · intro hid
          simpa [hfree] using hcount hid

theorem findSection_spec {id : Nat} {slots : List AlpcSection}
    {sec : AlpcSection} (h : findSection id slots = some sec) :
    sec ∈ slots ∧ sec.id = id := by
  induction slots with
  | nil => cases h
  | cons slot rest ih =>
      unfold findSection at h
      by_cases hsame : slot.id = id
      · rw [if_pos hsame] at h
        cases h
        exact ⟨List.mem_cons_self, hsame⟩
      · rw [if_neg hsame] at h
        exact ⟨List.mem_cons_of_mem _ (ih h).left, (ih h).right⟩

theorem tableInvariant_init {vmm : VmmState PmmState}
    (htotal : vmm.frames.totalPages < 2 ^ 52) :
    TableInvariant (alpcInit vmm) := by
  have hempty : forall x, x ∈ (alpcInit vmm).sections -> x.id = 0 := by
    intro x hx
    rw [(List.mem_replicate.mp hx).right]
    rfl
  constructor
  · exact htotal
  · rfl
  · intro x hx
    rw [hempty x hx]
    exact Nat.one_pos
  · intro x y hx _ hid _
    exact absurd (hempty x hx) hid
  · intro x hx hid
    exact absurd (hempty x hx) hid
  · intro x y hx _ hid _ _
    exact absurd (hempty x hx) hid

theorem TableInvariant.grows {s t : SectionState} (h : TableInvariant s)
    (hsections : t.sections = s.sections)
    (hid : t.nextSectionId = s.nextSectionId)
    (hgrows : PmmGrows s.vmm.frames t.vmm.frames) : TableInvariant t := by
  constructor
  · rw [hgrows.total_eq]
    exact h.total_lt
  · rw [hsections, hid]
    exact h.slots
  · rw [hsections, hid]
    exact h.id_lt
  · rw [hsections]
    exact h.unique
  · rw [hsections]
    intro x hx hne
    exact (h.valid x hx hne).grows hgrows
  · rw [hsections]
    exact h.apart

theorem alpcCreateSection_cases {s s' : SectionState} {tid size id : Nat}
    {r : AllocResult}
    (halloc : pmmAlloc s.vmm.frames (sectionPages size) = some r)
    (h : alpcCreateSection s tid size = some (id, s')) (hid : id ≠ 0) :
    id = s.nextSectionId ∧ exists sections,
      fillSlot
        { id := s.nextSectionId
          physAddr := r.ret
          size := Word.mul (sectionPages size) 4096
          ownerTid := tid } s.sections = some sections ∧
      s' =
        { s with
          sections := sections
          nextSectionId := Word.add s.nextSectionId 1
          vmm := { s.vmm with frames := r.state } } := by
  unfold alpcCreateSection at h
  rw [halloc, Option.bind_eq_bind, Option.bind_some] at h
  dsimp only at h
  split at h
  case h_1 sections hfill =>
      cases h
      exact ⟨rfl, sections, hfill, rfl⟩
  case h_2 _ =>
      cases h
      exact absurd rfl hid

theorem sectionPages_size (size : Nat) :
    Word.mul (sectionPages size) 4096 = 4096 * sectionPages size := by
  have hlt := Word.add_lt size 4095
  unfold sectionPages
  rw [Word.mul_of_lt (by lia)]
  lia

theorem tableInvariant_create {s s' : SectionState} {tid size id : Nat}
    {r : AllocResult} (hinv : TableInvariant s)
    (halloc : pmmAlloc s.vmm.frames (sectionPages size) = some r)
    (hgrant : GrantsPages s.vmm.frames (sectionPages size) r)
    (h : alpcCreateSection s tid size = some (id, s')) (hid : id ≠ 0) :
    TableInvariant s' := by
  rcases alpcCreateSection_cases halloc h hid with ⟨hnext, sections, hfill, heq⟩
  rw [hnext] at hid
  have hgrows := pmmAlloc_grows halloc
  have haligned := pmmAlloc_ret_aligned halloc
  have hslots := hinv.slots
  unfold sectionSlots at hslots
  rw [sectionPages_size] at hfill
  rcases fillSlot_spec hfill with ⟨_, hback, _, hcount⟩
  have hbump : Word.add s.nextSectionId 1 = s.nextSectionId + 1 :=
    Word.add_of_lt (by lia)
  have hpages : 4096 * sectionPages size / 4096 = sectionPages size := by lia
  -- the pages of an older section were taken, those of the new one were free
  have hnew : forall x, x ∈ s.sections -> x.id ≠ 0 ->
      Disjoint (pageRange r.ret (sectionPages size))
        (pageRange x.physAddr (x.size / 4096)) := by
    intro x hx hne
    rw [Finset.disjoint_left]
    intro p hp hpx
    have hfree := hgrant.free p hp
    rw [(hinv.valid x hx hne).taken p hpx] at hfree
    cases hfree
  rw [heq, hbump]
  constructor
  · show r.state.totalPages < 2 ^ 52
    rw [hgrows.total_eq]
    exact hinv.total_lt
  · have hless := hcount hid
    show s.nextSectionId + 1 + sections.countP (fun x => x.id = 0) = 64 + 1
    lia
  · intro x hx
    rcases hback x hx with hx | hx
    · rw [hx]
      exact Nat.lt_succ_self _
    · exact Nat.lt_succ_of_lt (hinv.id_lt x hx)
  · intro x y hx hy hne hsame
    rcases hback x hx with hxs | hxs
    · rcases hback y hy with hys | hys
      · rw [hxs, hys]
      · have hlt := hinv.id_lt y hys
        rw [hxs] at hsame
        exact absurd hsame.symm (Nat.ne_of_lt hlt)
    · rcases hback y hy with hys | hys
      · have hlt := hinv.id_lt x hxs
        rw [hys] at hsame
        exact absurd hsame (Nat.ne_of_lt hlt)
      · exact hinv.unique x y hxs hys hne hsame
  · intro x hx hne
    rcases hback x hx with hxs | hxs
    · rw [hxs]
      constructor
      · exact haligned
      · exact Nat.mul_mod_right 4096 _
      · show r.ret / 4096 + 4096 * sectionPages size / 4096 <=
          r.state.totalPages
        rw [hpages, hgrows.total_eq]
        exact hgrant.inside
      · intro p hp
        rw [hpages] at hp
        exact hgrant.taken p hp
    · exact (hinv.valid x hxs hne).grows hgrows
  · intro x y hx hy hxne hyne hdiff
    rcases hback x hx with hxs | hxs
    · rcases hback y hy with hys | hys
      · rw [hxs, hys] at hdiff
        exact absurd rfl hdiff
      · rw [hxs]
        show Disjoint (pageRange r.ret (4096 * sectionPages size / 4096)) _
        rw [hpages]
        exact hnew y hys hyne
    · rcases hback y hy with hys | hys
      · rw [hys]
        show Disjoint _ (pageRange r.ret (4096 * sectionPages size / 4096))
        rw [hpages]
        exact (hnew x hxs hxne).symm
      · exact hinv.apart x y hxs hys hxne hyne hdiff

/-!
# The section space

The mappings lie one behind the other from `0x8000000000` on.
-/

structure SpaceInvariant (s : SectionRun) : Prop where
  base_le : sectionBase <= s.alpc.nextSectionVirt
  next_lt : s.alpc.nextSectionVirt < 2 ^ 48
  aligned : s.alpc.nextSectionVirt % 4096 = 0
  created_ne : forall id, id ∈ s.created -> id ≠ 0
  sections : forall m, m ∈ s.maps -> m.sec ∈ s.alpc.sections ∧ m.sec.id ≠ 0
  start_le : forall m, m ∈ s.maps -> sectionBase <= m.virt
  end_le : forall m, m ∈ s.maps ->
    m.virt + m.sec.size <= s.alpc.nextSectionVirt
  virt_aligned : forall m, m ∈ s.maps -> m.virt % 4096 = 0
  ordered : s.maps.Pairwise (fun a b => a.virt + a.sec.size <= b.virt)

def Mapping.calls (m : Mapping) : List MapCall :=
  sectionCalls m.virt m.sec.physAddr 0 (m.sec.size / 4096)

structure SectionInvariant (root : Nat) (earlier : List MapCall)
    (s : SectionRun) : Prop where
  table : TableInvariant s.alpc
  space : SpaceInvariant s
  vmm : VmmInvariant root (earlier ++ s.maps.flatMap Mapping.calls) s.alpc.vmm

theorem sectionInvariant_init {root : Nat} {earlier : List MapCall}
    {vmm : VmmState PmmState} (htotal : vmm.frames.totalPages < 2 ^ 52)
    (hvmm : VmmInvariant root earlier vmm) :
    SectionInvariant root earlier
      { alpc := alpcInit vmm, created := [], maps := [] } := by
  constructor
  · exact tableInvariant_init htotal
  · constructor
    · exact Nat.le_refl _
    · show 0x8000000000 < 2 ^ 48
      decide
    · show 0x8000000000 % 4096 = 0
      decide
    · intro id hid
      cases hid
    · intro m hm
      cases hm
    · intro m hm
      cases hm
    · intro m hm
      cases hm
    · intro m hm
      cases hm
    · exact List.Pairwise.nil
  · show VmmInvariant root (earlier ++ []) vmm
    rw [List.append_nil]
    exact hvmm

section Steps

variable {root : Nat} {earlier : List MapCall} {s : SectionRun}

theorem sectionInvariant_create {alpc : SectionState} {tid size id : Nat}
    {r : AllocResult} (hinv : SectionInvariant root earlier s)
    (halloc : pmmAlloc s.alpc.vmm.frames (sectionPages size) = some r)
    (hgrant : GrantsPages s.alpc.vmm.frames (sectionPages size) r)
    (h : alpcCreateSection s.alpc tid size = some (id, alpc)) (hid : id ≠ 0) :
    SectionInvariant root earlier
      { s with alpc := alpc, created := s.created ++ [id] } := by
  have htable := tableInvariant_create hinv.table halloc hgrant h hid
  have hspace := hinv.space
  rcases alpcCreateSection_cases halloc h hid with ⟨_, sections, hfill, heq⟩
  rcases fillSlot_spec hfill with ⟨_, _, hkeep, _⟩
  constructor
  · exact htable
  · rw [heq]
    constructor
    · exact hspace.base_le
    · exact hspace.next_lt
    · exact hspace.aligned
    · intro id' hid'
      rcases List.mem_append.mp hid' with hold | hnew
      · exact hspace.created_ne id' hold
      · rw [List.mem_singleton.mp hnew]
        exact hid
    · intro m hm
      rcases hspace.sections m hm with ⟨hsec, hne⟩
      exact ⟨hkeep m.sec hsec hne, hne⟩
    · exact hspace.start_le
    · exact hspace.end_le
    · exact hspace.virt_aligned
    · exact hspace.ordered
  · rw [heq]
    exact ⟨hinv.vmm.tables, hinv.vmm.calls⟩

theorem alpcMapSection_cases {a a' : SectionState} {sec : AlpcSection}
    {id virt : Nat} (hfind : findSection id a.sections = some sec)
    (h : alpcMapSection a root id = some (virt, a')) :
    virt = a.nextSectionVirt ∧ exists vmm,
      mapPages pmmFrame root a.nextSectionVirt sec.physAddr sec.size mapFuel
        a.vmm 0 = some vmm ∧
      a' =
        { a with
          nextSectionVirt := Word.add a.nextSectionVirt sec.size
          vmm := vmm } := by
  unfold alpcMapSection at h
  rw [hfind] at h
  rcases Option.bind_eq_some_iff.mp h with ⟨vmm, hmap, heq⟩
  cases heq
  refine ⟨rfl, vmm, mapPages_weaker ?_ hmap, rfl⟩
  intro a r hr
  exact (tableFrame_eq_some_iff.mp hr).left

theorem sectionInvariant_map {alpc : SectionState} {sec : AlpcSection}
    {id virt : Nat} (hinv : SectionInvariant root earlier s)
    (hcreated : id ∈ s.created)
    (hfind : findSection id s.alpc.sections = some sec)
    (hend : s.alpc.nextSectionVirt + sec.size < 2 ^ 48)
    (hfresh : FreshPages pmmFrame root s.alpc.nextSectionVirt sec.physAddr
      sec.size mapFuel s.alpc.vmm 0)
    (h : alpcMapSection s.alpc root id = some (virt, alpc)) :
    SectionInvariant root earlier
      { s with
        alpc := alpc
        maps := s.maps ++ [{ sec := sec, virt := virt }] } := by
  have hspace := hinv.space
  have htotal := hinv.table.total_lt
  rcases alpcMapSection_cases hfind h with ⟨hvirt, vmm, hmap, heq⟩
  rcases findSection_spec hfind with ⟨hsec, hsid⟩
  have hne : sec.id ≠ 0 := by
    rw [hsid]
    exact hspace.created_ne id hcreated
  have hvalid := hinv.table.valid sec hsec hne
  have hsize := hvalid.size_aligned
  have hphys := hvalid.phys_aligned
  have hinside := hvalid.inside
  have hbump : Word.add s.alpc.nextSectionVirt sec.size =
      s.alpc.nextSectionVirt + sec.size := Word.add_of_lt (by lia)
  have hrun := mapPages_runs (k := 0) (n := sec.size / 4096) (by lia) (by lia)
    (by lia) hfresh hmap
  have hvmm := vmmInvariant_runs hinv.vmm hrun
  rw [heq, hvirt, hbump]
  constructor
  · apply hinv.table.grows
    · rfl
    · rfl
    · exact mapPages_grows hmap
  · constructor
    · exact Nat.le_add_right_of_le hspace.base_le
    · exact hend
    · have haligned := hspace.aligned
      show (s.alpc.nextSectionVirt + sec.size) % 4096 = 0
      lia
    · exact hspace.created_ne
    · intro m hm
      rcases List.mem_append.mp hm with hold | hnew
      · exact hspace.sections m hold
      · rw [List.mem_singleton.mp hnew]
        exact ⟨hsec, hne⟩
    · intro m hm
      rcases List.mem_append.mp hm with hold | hnew
      · exact hspace.start_le m hold
      · rw [List.mem_singleton.mp hnew]
        exact hspace.base_le
    · intro m hm
      rcases List.mem_append.mp hm with hold | hnew
      · exact Nat.le_add_right_of_le (hspace.end_le m hold)
      · rw [List.mem_singleton.mp hnew]
    · intro m hm
      rcases List.mem_append.mp hm with hold | hnew
      · exact hspace.virt_aligned m hold
      · rw [List.mem_singleton.mp hnew]
        exact hspace.aligned
    · rw [List.pairwise_append]
      refine ⟨hspace.ordered, List.pairwise_singleton _ _, ?_⟩
      intro m hm n hn
      rw [List.mem_singleton.mp hn]
      exact hspace.end_le m hm
  · rw [List.flatMap_append, ← List.append_assoc]
    simpa [Mapping.calls] using hvmm

theorem sectionInvariant_step {event : SectionEvent} {s' : SectionRun}
    (hinv : SectionInvariant root earlier s)
    (hstep : SectionStep root s event s') :
    SectionInvariant root earlier s' := by
  cases hstep with
  | create _ halloc hgrant h hid =>
      exact sectionInvariant_create hinv halloc hgrant h hid
  | map hcreated hfind hend hfresh h =>
      exact sectionInvariant_map hinv hcreated hfind hend hfresh h

end Steps

end Alpc
end Barium
