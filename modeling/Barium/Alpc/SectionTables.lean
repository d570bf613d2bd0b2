import Barium.Vmm.TableNeed
import Barium.Alpc.SharedMemory

/-!
# Mapping by id

A slot that is not in use has id 0, so `alpc_map_section(0)` finds one as long
as the table of sections is not full.  For a section that is there the call
returns when there is a frame for each page table that the mapping lacks;
otherwise it ends in a page fault.
-/

namespace Barium
namespace Alpc

open Foundation
open Foundation.RunSearch
open TransitionSystem
open Pmm
open Vmm

/-!
# Frames for page tables
-/

def clearBelow (pmm : PmmState) : Finset Nat :=
  (Finset.range (pmm.totalPages - 1)).filter
    (fun p => bitmapTest pmm p = false)

/-- `pmm_alloc(1)` can be answered `n` times.  It does not try the last page,
unless `last_search_index` is behind it and no other page is clear. -/
def FramesInReach (pmm : PmmState) (n : Nat) : Prop :=
  n <= (clearBelow pmm).card ∨
    (n = 1 ∧ pmm.lastSearchIndex = pmm.totalPages ∧
      bitmapTest pmm (pmm.totalPages - 1) = false)

structure PmmReady (pmm : PmmState) : Prop extends PmmGood pmm where
  zero : bitmapTest pmm 0 = true

section Frames

variable {pmm : PmmState}

theorem mem_clearBelow {p : Nat} :
    p ∈ clearBelow pmm <->
      p < pmm.totalPages - 1 ∧ bitmapTest pmm p = false := by
  unfold clearBelow
  rw [Finset.mem_filter, Finset.mem_range]

theorem freeRun_one_iff {p : Nat} :
    FreeRun (bitmapTest pmm) p 1 <-> bitmapTest pmm p = false := by
  constructor
  · intro h
    exact h 0 (by decide)
  · intro h k hk
    rw [show k = 0 by lia]
    exact h

theorem PmmReady.tableFrame_found (h : PmmReady pmm) {i : Nat}
    {tested : List Nat} (hrun : pmmAlloc pmm 1 =
      some (allocFound pmm i 1 tested)) (hi : i < pmm.totalPages)
    (hclear : bitmapTest pmm i = false) :
    tableFrame pmm = some (i * 4096, takeRun pmm i 1) := by
  have htotal := h.total_lt
  have hne : i ≠ 0 := by
    intro heq
    rw [heq, h.zero] at hclear
    cases hclear
  have hret : (allocFound pmm i 1 tested).ret = i * 4096 :=
    Word.mul_of_lt (by unfold pageSize; lia)
  refine tableFrame_eq_some_iff.mpr ⟨?_, by lia⟩
  exact Option.map_eq_some_iff.mpr ⟨_, hrun, by rw [hret]; rfl⟩

inductive FrameAnswer (pmm : PmmState) : Prop where
  | below (i : Nat) : i ∈ clearBelow pmm ->
      tableFrame pmm = some (i * 4096, takeRun pmm i 1) -> FrameAnswer pmm
  | last : clearBelow pmm = ∅ -> pmm.lastSearchIndex = pmm.totalPages ->
      bitmapTest pmm (pmm.totalPages - 1) = false ->
      tableFrame pmm = some ((pmm.totalPages - 1) * 4096,
        takeRun pmm (pmm.totalPages - 1) 1) -> FrameAnswer pmm
  | fault : clearBelow pmm = ∅ ->
      ¬ (pmm.lastSearchIndex = pmm.totalPages ∧
        bitmapTest pmm (pmm.totalPages - 1) = false) ->
      tableFrame pmm = none -> FrameAnswer pmm

theorem PmmReady.answer (h : PmmReady pmm) : FrameAnswer pmm := by
  have htotal := h.total_lt
  have hpos := h.total_pos
  have hlast := h.last_le
  rcases pmmAlloc_outcome (show pmm.totalPages < 2 ^ 64 by lia)
    (show 1 <= pmm.totalPages from hpos) (by lia) Nat.one_pos with
    ⟨r, hrun, houtcome⟩
  cases houtcome with
  | @first i tested hspec =>
      rcases hspec.first with ⟨_, hlt, hfree, _, _⟩
      have hclear := freeRun_one_iff.mp hfree
      exact FrameAnswer.below i (mem_clearBelow.mpr ⟨hlt, hclear⟩)
        (h.tableFrame_found hrun (by lia) hclear)
  | @second i tested tested' hnone hspec =>
      rcases hspec.first with ⟨_, hlt, hfree, _, hleast⟩
      have hclear := freeRun_one_iff.mp hfree
      have hframe := h.tableFrame_found hrun (by lia) hclear
      by_cases hi : i < pmm.totalPages - 1
      · exact FrameAnswer.below i (mem_clearBelow.mpr ⟨hi, hclear⟩) hframe
      · have hend : i = pmm.totalPages - 1 := by lia
        rw [hend] at hclear hframe
        refine FrameAnswer.last ?_ (by lia) hclear hframe
        refine Finset.eq_empty_of_forall_notMem ?_
        intro p hp
        rcases mem_clearBelow.mp hp with ⟨hlow, hbit⟩
        exact hleast p (Nat.zero_le p) (by lia) (freeRun_one_iff.mpr hbit)
  | fail hfirst hsecond _ =>
      have hnone : forall p, p < pmm.lastSearchIndex ∨
          p < pmm.totalPages - 1 -> bitmapTest pmm p ≠ false := by
        intro p hp hbit
        have hfree := freeRun_one_iff.mpr hbit
        by_cases hlow : p < pmm.lastSearchIndex
        · exact hsecond.first p (Nat.zero_le p) hlow hfree
        · exact hfirst.first p (by lia) (by lia) hfree
      refine FrameAnswer.fault ?_ ?_ ?_
      · refine Finset.eq_empty_of_forall_notMem ?_
        intro p hp
        rcases mem_clearBelow.mp hp with ⟨hlow, hbit⟩
        exact hnone p (Or.inr hlow) hbit
      · rintro ⟨hend, hbit⟩
        exact hnone _ (Or.inl (by lia)) hbit
      · unfold tableFrame pmmFrame
        rw [hrun]
        rfl

theorem PmmReady.taken (h : PmmReady pmm) {i : Nat}
    (hi : i < pmm.totalPages) : PmmReady (takeRun pmm i 1) :=
  ⟨h.toPmmGood.taken hi, (takeRun_grows pmm i 1).set 0 h.zero⟩

theorem takeRun_one (pmm : PmmState) {i : Nat} (hi : i + 1 < 2 ^ 64) :
    (takeRun pmm i 1).totalPages = pmm.totalPages ∧
      (takeRun pmm i 1).lastSearchIndex = i + 1 ∧
      forall p, bitmapTest (takeRun pmm i 1) p = false <->
        p ≠ i ∧ bitmapTest pmm p = false := by
  rcases takeRun_spec (s := pmm) (show i + 1 <= 2 ^ 64 by lia) with
    ⟨ram, heq, hbits⟩
  refine ⟨by rw [heq], by rw [heq]; exact Word.add_of_lt hi, ?_⟩
  intro p
  have hp : bitmapTest (takeRun pmm i 1) p = true <->
      (i <= p ∧ p < i + 1) ∨ bitmapTest pmm p = true := by
    rw [heq]
    exact hbits p
  rw [← Bool.not_eq_true, ← Bool.not_eq_true, hp, not_or]
  refine and_congr_left ?_
  intro _
  lia

theorem clearBelow_taken {i : Nat} (hi : i + 1 < 2 ^ 64) :
    clearBelow (takeRun pmm i 1) = (clearBelow pmm).erase i := by
  rcases takeRun_one pmm hi with ⟨htotal, _, hbits⟩
  ext p
  rw [Finset.mem_erase, mem_clearBelow, mem_clearBelow, htotal, hbits]
  exact and_left_comm

theorem FreeTail.inReach {k : Nat} (h : FreeTail k pmm) :
    FramesInReach pmm k := by
  have hroom := h.room
  have hsub : Finset.Ico pmm.lastSearchIndex (pmm.totalPages - 1) ⊆
      clearBelow pmm := by
    intro p hp
    rw [Finset.mem_Ico] at hp
    exact mem_clearBelow.mpr ⟨hp.right, h.free p hp.left⟩
  have hcard := Finset.card_le_card hsub
  rw [Nat.card_Ico] at hcard
  exact Or.inl (by lia)

theorem FramesInReach.mono {m n : Nat} (h : FramesInReach pmm n)
    (hle : m <= n) : FramesInReach pmm m := by
  unfold FramesInReach at h ⊢
  lia

theorem provides_tableFrame_iff (h : PmmReady pmm) (n : Nat) :
    Provides tableFrame n pmm <-> FramesInReach pmm n := by
  induction n generalizing pmm with
  | zero => exact iff_of_true trivial (Or.inl (Nat.zero_le _))
  | succ n ih =>
      have htotal := h.total_lt
      have hpos := h.total_pos
      cases h.answer with
      | below i hin hframe =>
          have hi := (mem_clearBelow.mp hin).left
          rcases takeRun_one pmm (show i + 1 < 2 ^ 64 by lia) with
            ⟨htotal', hlast', _⟩
          have hrest := ih (h.taken (show i < pmm.totalPages by lia))
          have hcard := Finset.card_erase_add_one hin
          unfold FramesInReach at hrest ⊢
          rw [clearBelow_taken (by lia), htotal', hlast'] at hrest
          rw [provides_succ_iff hframe, hrest]
          lia
      | last hnone hend hclear hframe =>
          rcases takeRun_one pmm (i := pmm.totalPages - 1)
            (by lia) with ⟨htotal', _, hbits⟩
          have hrest := ih (h.taken (show pmm.totalPages - 1 < pmm.totalPages
            by lia))
          have htaken := (hbits (pmm.totalPages - 1)).not.mpr
            (fun hboth => hboth.left rfl)
          unfold FramesInReach at hrest ⊢
          rw [clearBelow_taken (by lia), htotal', hnone, Finset.erase_empty,
            Finset.card_empty] at hrest
          rw [provides_succ_iff hframe, hrest, hnone, Finset.card_empty]
          constructor
          · rintro (hzero | ⟨_, _, hbit⟩)
            · exact Or.inr ⟨by lia, hend, hclear⟩
            · exact absurd hbit htaken
          · rintro (hzero | ⟨hone, _⟩)
            · lia
            · exact Or.inl (by lia)
      | fault hnone hnot hframe =>
          unfold FramesInReach
          rw [hnone, Finset.card_empty]
          constructor
          · rintro ⟨f, a', halloc, _⟩
            rw [hframe] at halloc
            cases halloc
          · rintro (hzero | ⟨_, hlast⟩)
            · lia
            · exact absurd hlast hnot

end Frames

theorem tableFrame_source : TableSource tableFrame PmmReady frameMarked := by
  constructor
  · constructor
    · intro a f a' hready halloc hne
      have hframe := (tableFrame_eq_some_iff.mp halloc).left
      rcases pmmFrame_marks.fresh a f a' hready.toPmmGood hframe hne with
        ⟨hgood, hfresh⟩
      exact ⟨⟨hgood, (pmmFrame_grows hframe).set 0 hready.zero⟩, hfresh⟩
    · intro a f a' g halloc hg
      exact pmmFrame_marks.keep a f a' g
        (tableFrame_eq_some_iff.mp halloc).left hg
  · intro a f a' halloc
    exact (tableFrame_eq_some_iff.mp halloc).right
  · intro a f a' hready halloc
    rcases tableFrame_eq_some_iff.mp halloc with ⟨hframe, hne⟩
    have htotal := hready.total_lt
    have hlt := (pmmFrame_taken hready.toPmmGood hframe hne).lt
    rcases Option.map_eq_some_iff.mp hframe with ⟨r, hrun, heq⟩
    cases heq
    have haligned := pmmAlloc_ret_aligned hrun
    unfold pageSize at haligned
    unfold ValidFrame
    lia

/-!
# The pages of a section
-/

/-- The paths to the tables for a section at `virt`. -/
def sectionPaths (virt size : Nat) : Finset (List Index) :=
  (Finset.range (size / 4096)).biUnion
    (fun k => (tablePaths (Word.add virt (4096 * k))).toFinset)

section Pages

variable {alloc : FrameAllocator alpha} {good : alpha -> Prop}
  {marked : alpha -> Nat -> Prop} {root virt phys size fuel : Nat}
  {paths : Finset (List Index)} {s s' : VmmState alpha}

theorem mem_sectionPaths {path : List Index} :
    path ∈ sectionPaths virt size <->
      exists k, k < size / 4096 ∧
        path ∈ tablePaths (Word.add virt (4096 * k)) := by
  unfold sectionPaths
  simp

theorem sectionPaths_short {path : List Index}
    (h : path ∈ sectionPaths virt size) : path.length <= 3 := by
  rcases mem_sectionPaths.mp h with ⟨k, _, hpath⟩
  simp only [tablePaths, List.mem_cons, List.not_mem_nil, or_false] at hpath
  rcases hpath with rfl | rfl | rfl
  · exact Nat.le_add_left 1 2
  · exact Nat.le_add_left 2 1
  · exact Nat.le_refl 3

theorem mapPages_paid (hsource : TableSource alloc good marked)
    (hshort : forall other, other ∈ paths -> other.length <= 3) {k n : Nat}
    (hsize : size = 4096 * (k + n)) (hword : size < 2 ^ 64)
    (h : SoundTables good marked root s)
    (hpaths : forall j, k <= j -> j < k + n -> forall path,
      path ∈ tablePaths (Word.add virt (4096 * j)) -> path ∈ paths)
    (hrun : mapPages alloc root virt phys size fuel s (4096 * k) = some s') :
    Paid alloc good marked root paths s s' ∧
      forall j, k <= j -> j < k + n -> forall path,
        path ∈ tablePaths (Word.add virt (4096 * j)) ->
        path ∉ absentTables root s'.mem paths := by
  induction n generalizing fuel k s with
  | zero =>
      cases fuel with
      | zero => cases hrun
      | succ fuel =>
          unfold mapPages at hrun
          rw [if_neg (by lia)] at hrun
          cases hrun
          refine ⟨Paid.refl h, ?_⟩
          intro j hlow hhigh
          lia
  | succ n ih =>
      cases fuel with
      | zero => cases hrun
      | succ fuel =>
          have hnext : Word.add (4096 * k) 4096 = 4096 * (k + 1) :=
            Word.add_of_lt (by lia)
          unfold mapPages at hrun
          rw [if_pos (by lia), hnext] at hrun
          rcases Option.bind_eq_some_iff.mp hrun with ⟨s1, hmap, hrest⟩
          rcases vmmMap_paid hsource hshort h
            (hpaths k (Nat.le_refl k) (by lia)) hmap with ⟨hpaid, hnow⟩
          rcases ih (k := k + 1) (by lia) (hpaid.sound h)
            (fun j hlow hhigh => hpaths j (by lia) (by lia)) hrest with
            ⟨hpaid', hlater⟩
          refine ⟨hpaid.trans hpaid', ?_⟩
          intro j hlow hhigh path hpath
          by_cases hj : j = k
          · rw [hj] at hpath
            exact fun hin => hnow path hpath (hpaid'.absent hin)
          · exact hlater j (by lia) (by lia) path hpath

theorem mapPages_served (hsource : TableSource alloc good marked)
    (hshort : forall other, other ∈ paths -> other.length <= 3) {k n : Nat}
    (hsize : size = 4096 * (k + n)) (hword : size < 2 ^ 64)
    (hfuel : n < fuel) (h : SoundTables good marked root s)
    (hpaths : forall j, k <= j -> j < k + n -> forall path,
      path ∈ tablePaths (Word.add virt (4096 * j)) -> path ∈ paths)
    (hprovides : Provides alloc (absentTables root s.mem paths).card
      s.frames) :
    exists s', mapPages alloc root virt phys size fuel s (4096 * k) =
      some s' := by
  induction n generalizing fuel k s with
  | zero =>
      cases fuel with
      | zero => lia
      | succ fuel =>
          unfold mapPages
          rw [if_neg (by lia)]
          exact ⟨s, rfl⟩
  | succ n ih =>
      cases fuel with
      | zero => lia
      | succ fuel =>
          have hnext : Word.add (4096 * k) 4096 = 4096 * (k + 1) :=
            Word.add_of_lt (by lia)
          have hk := hpaths k (Nat.le_refl k) (by lia)
          rcases vmmMap_served hsource hshort h hk hprovides
            (Word.add phys (4096 * k)) sectionFlags with ⟨s1, hmap⟩
          have hpaid := (vmmMap_paid hsource hshort h hk hmap).left
          unfold mapPages
          rw [if_pos (by lia), hmap, hnext]
          exact ih (by lia) (by lia) (hpaid.sound h)
            (fun j hlow hhigh => hpaths j (by lia) (by lia))
            (hpaid.left hprovides)

theorem mapPages_returns_iff (virt phys : Nat)
    (hsource : TableSource alloc good marked)
    (h : SoundTables good marked root s) {n : Nat} (hsize : size = 4096 * n)
    (hword : size < 2 ^ 64) (hfuel : n < fuel) :
    (exists s', mapPages alloc root virt phys size fuel s 0 = some s') <->
      Provides alloc (absentTables root s.mem (sectionPaths virt size)).card
        s.frames := by
  have hsize0 : size = 4096 * (0 + n) := by lia
  have hpages : size / 4096 = n := by lia
  have hpaths : forall j, 0 <= j -> j < 0 + n -> forall path,
      path ∈ tablePaths (Word.add virt (4096 * j)) ->
      path ∈ sectionPaths virt size := by
    intro j _ hj path hpath
    exact mem_sectionPaths.mpr ⟨j, by lia, hpath⟩
  constructor
  · rintro ⟨s', hrun⟩
    rcases mapPages_paid hsource (fun _ => sectionPaths_short) hsize0 hword h
      hpaths hrun with ⟨hpaid, hpresent⟩
    -- all the tables are there in the end
    have hnone : absentTables root s'.mem (sectionPaths virt size) = ∅ := by
      refine Finset.eq_empty_of_forall_notMem ?_
      intro path hin
      rcases mem_sectionPaths.mp (mem_absentTables.mp hin).left with
        ⟨j, hj, hpath⟩
      exact hpresent j (Nat.zero_le j) (by lia) path hpath hin
    have hiff := hpaid.provides 0
    rw [hnone, Nat.zero_add] at hiff
    exact hiff.mpr trivial
  · intro hprovides
    exact mapPages_served hsource (fun _ => sectionPaths_short) hsize0 hword
      hfuel h hpaths hprovides

end Pages

/-!
# The calls inside the memory
-/

/-- The calls as long as `last_search_index` stays inside the memory. -/
def insideSystem (root : Nat) (vmm : VmmState PmmState) :
    TransitionSystem CallRun CallEvent where
  Init := fun s => s = callStart vmm
  Step := fun s event s' => CallStep root s event s' ∧
    s'.alpc.vmm.frames.lastSearchIndex <= s'.alpc.vmm.frames.totalPages

structure InsideInvariant (root : Nat) (s : CallRun) : Prop where
  slots : SlotInvariant s
  sound : SoundTables PmmReady frameMarked root s.alpc.vmm
  owned_set : forall p, p ∈ s.owned -> bitmapTest s.alpc.vmm.frames p = true
  owned_ne : forall p, p ∈ s.owned -> p ≠ 0
  owned_tables : forall p t, p ∈ s.owned -> IsTable root s.alpc.vmm.mem t ->
    t / 4096 ≠ p
  owned_lt : forall p, p ∈ s.owned -> p < 2 ^ 64

section Inside

variable {root : Nat} {s : CallRun}

theorem insideInvariant_init {vmm : VmmState PmmState}
    (hwords : PmmWords vmm.frames)
    (hsound : SoundTables PmmReady frameMarked root vmm) :
    InsideInvariant root (callStart vmm) := by
  refine ⟨slotInvariant_init hwords, hsound, ?_, ?_, ?_, ?_⟩
  · intro p hp
    cases hp
  · intro p hp
    cases hp
  · intro p t hp
    cases hp
  · intro p hp
    cases hp

/-- Frames have been taken, and the page tables are the same. -/
theorem SoundTables.takes {vmm : VmmState PmmState} {r : AllocResult}
    (h : SoundTables PmmReady frameMarked root vmm)
    (htakes : TakesSet vmm.frames r)
    (hlast : r.state.lastSearchIndex <= r.state.totalPages) :
    SoundTables PmmReady frameMarked root { vmm with frames := r.state } := by
  have hset : forall p, bitmapTest vmm.frames p = true ->
      bitmapTest r.state p = true :=
    fun p hp => (htakes.bits p).mpr (Or.inr hp)
  refine ⟨⟨⟨?_, ?_, hlast⟩, hset 0 h.good.zero⟩, h.tables, ?_⟩
  · show 0 < r.state.totalPages
    rw [htakes.total_eq]
    exact h.good.total_pos
  · show r.state.totalPages < 2 ^ 52
    rw [htakes.total_eq]
    exact h.good.total_lt
  · intro path t hlength ht
    exact hset _ (h.marked path t hlength ht)

theorem InsideInvariant.set_free (h : InsideInvariant root s)
    {r : AllocResult} (htakes : TakesSet s.alpc.vmm.frames r) {p : Nat}
    (hp : p ∈ r.set) :
    p ≠ 0 ∧ forall t, IsTable root s.alpc.vmm.mem t -> t / 4096 ≠ p := by
  have hclear := htakes.clear p hp
  constructor
  · intro heq
    rw [heq, h.sound.good.zero] at hclear
    cases hclear
  · rintro t ⟨path, hlength, ht⟩ heq
    have hset := h.sound.marked path t hlength ht
    unfold frameMarked at hset
    rw [heq, hclear] at hset
    cases hset

theorem insideInvariant_map (h : InsideInvariant root s) {alpc : SectionState}
    {id virt : Nat}
    (hrun : alpcMapSection s.alpc root id = some (virt, alpc)) :
    InsideInvariant root { s with alpc := alpc } := by
  have hslots := slotInvariant_map h.slots hrun
  cases hfind : findSection id s.alpc.sections with
  | none =>
      unfold alpcMapSection at hrun
      rw [hfind] at hrun
      cases hrun
      exact h
  | some sec =>
      rcases h.slots.sizes sec (findSection_spec hfind).left with
        ⟨n, hsize, hword⟩
      unfold alpcMapSection at hrun
      rw [hfind] at hrun
      rcases Option.bind_eq_some_iff.mp hrun with ⟨vmm, hloop, heq⟩
      cases heq
      have hpaths : forall j, 0 <= j -> j < 0 + n -> forall path,
          path ∈ tablePaths (Word.add s.alpc.nextSectionVirt (4096 * j)) ->
          path ∈ sectionPaths s.alpc.nextSectionVirt sec.size :=
        fun j _ hj path hpath => mem_sectionPaths.mpr ⟨j, by lia, hpath⟩
      have hpaid := (mapPages_paid tableFrame_source
        (fun _ => sectionPaths_short) (by lia) hword h.sound hpaths hloop).left
      refine ⟨hslots, hpaid.sound h.sound, ?_, h.owned_ne, ?_, h.owned_lt⟩
      · intro p hp
        exact keeps_page hpaid.foot.keep (h.owned_set p hp)
      · intro p t hp ht
        by_cases hold : IsTable root s.alpc.vmm.mem t
        · exact h.owned_tables p t hp hold
        · intro heq
          have hnew := (hpaid.foot.new t ht hold).right
          unfold frameMarked at hnew
          rw [heq] at hnew
          exact hnew (h.owned_set p hp)

theorem insideInvariant_alloc (h : InsideInvariant root s) {count : Nat}
    {r : AllocResult} (hrun : pmmAlloc s.alpc.vmm.frames count = some r)
    (hlast : r.state.lastSearchIndex <= r.state.totalPages)
    (hslots : SlotInvariant
      { s with
        alpc := withFrames s.alpc r.state
        owned := s.owned ∪ r.set.toFinset }) :
    InsideInvariant root
      { s with
        alpc := withFrames s.alpc r.state
        owned := s.owned ∪ r.set.toFinset } := by
  have htakes := pmmAlloc_takesSet hrun
  have hsplit : forall p, p ∈ s.owned ∪ r.set.toFinset ->
      p ∈ s.owned ∨ p ∈ r.set := by
    intro p hp
    rwa [Finset.mem_union, List.mem_toFinset] at hp
  refine ⟨hslots, SoundTables.takes h.sound htakes hlast, ?_, ?_, ?_, ?_⟩
  · intro p hp
    refine (htakes.bits p).mpr ?_
    rcases hsplit p hp with hold | hnew
    · exact Or.inr (h.owned_set p hold)
    · exact Or.inl hnew
  · intro p hp
    rcases hsplit p hp with hold | hnew
    · exact h.owned_ne p hold
    · exact (h.set_free htakes hnew).left
  · intro p t hp ht
    rcases hsplit p hp with hold | hnew
    · exact h.owned_tables p t hold ht
    · exact (h.set_free htakes hnew).right t ht
  · intro p hp
    rcases hsplit p hp with hold | hnew
    · exact h.owned_lt p hold
    · exact htakes.lt p hnew

theorem insideInvariant_create (h : InsideInvariant root s)
    {alpc : SectionState} {r : AllocResult} {count : Nat}
    {returned : List Nat}
    (hrun : pmmAlloc s.alpc.vmm.frames count = some r)
    (hvmm : alpc.vmm = { s.alpc.vmm with frames := r.state })
    (hlast : r.state.lastSearchIndex <= r.state.totalPages)
    (hslots : SlotInvariant
      { s with alpc := alpc, returned := returned }) :
    InsideInvariant root { s with alpc := alpc, returned := returned } := by
  have htakes := pmmAlloc_takesSet hrun
  refine ⟨hslots, ?_, ?_, h.owned_ne, ?_, h.owned_lt⟩
  · show SoundTables PmmReady frameMarked root alpc.vmm
    rw [hvmm]
    exact SoundTables.takes h.sound htakes hlast
  · intro p hp
    show bitmapTest alpc.vmm.frames p = true
    rw [hvmm]
    exact (htakes.bits p).mpr (Or.inr (h.owned_set p hp))
  · intro p t hp ht
    have hold : IsTable root alpc.vmm.mem t := ht
    rw [hvmm] at hold
    exact h.owned_tables p t hp hold

theorem insideInvariant_free (h : InsideInvariant root s) {ptr count : Nat}
    (howned : pageRange ptr count ⊆ s.owned) (hptr : ptr < 2 ^ 64)
    (hslots : SlotInvariant
      { s with
        alpc := withFrames s.alpc (pmmFree s.alpc.vmm.frames ptr count)
        owned := s.owned \ pageRange ptr count }) :
    InsideInvariant root
      { s with
        alpc := withFrames s.alpc (pmmFree s.alpc.vmm.frames ptr count)
        owned := s.owned \ pageRange ptr count } := by
  have hfrees := pmmFree_owned h.slots.words h.owned_lt hptr howned
  refine ⟨hslots, ⟨⟨h.sound.good.toPmmGood.freed hfrees, ?_⟩, h.sound.tables,
    ?_⟩, ?_, ?_, ?_, ?_⟩
  · exact hfrees.keep 0 (fun hin => h.owned_ne 0 (howned hin) rfl)
      h.sound.good.zero
  · intro path t hlength ht
    refine hfrees.keep _ ?_ (h.sound.marked path t hlength ht)
    intro hin
    exact h.owned_tables _ t (howned hin) ⟨path, hlength, ht⟩ rfl
  · intro p hp
    rcases Finset.mem_sdiff.mp hp with ⟨hin, hout⟩
    exact hfrees.keep p hout (h.owned_set p hin)
  · intro p hp
    exact h.owned_ne p (Finset.mem_sdiff.mp hp).left
  · intro p t hp ht
    exact h.owned_tables p t (Finset.mem_sdiff.mp hp).left ht
  · intro p hp
    exact h.owned_lt p (Finset.mem_sdiff.mp hp).left

theorem insideInvariant_step {event : CallEvent} {s' : CallRun}
    (h : InsideInvariant root s) (hstep : CallStep root s event s')
    (hlast : s'.alpc.vmm.frames.lastSearchIndex <=
      s'.alpc.vmm.frames.totalPages) : InsideInvariant root s' := by
  have hslots := slotInvariant_step h.slots hstep
  cases hstep with
  | create _ hrun =>
      rcases alpcCreateSection_created hrun with ⟨r, halloc, hcreated⟩
      cases hcreated with
      | stored _ => exact insideInvariant_create h halloc rfl hlast hslots
      | refused _ => exact insideInvariant_create h halloc rfl hlast hslots
  | map hrun => exact insideInvariant_map h hrun
  | alloc halloc => exact insideInvariant_alloc h halloc hlast hslots
  | free hptr howned => exact insideInvariant_free h howned hptr hslots

theorem insideInvariant_reachable {vmm : VmmState PmmState}
    (hwords : PmmWords vmm.frames)
    (hsound : SoundTables PmmReady frameMarked root vmm)
    (hreach : (insideSystem root vmm).Reachable s) :
    InsideInvariant root s := by
  apply reachable_invariant _ _ hreach
  · intro t ht
    rw [show t = callStart vmm from ht]
    exact insideInvariant_init hwords hsound
  · intro t event u ht hstep
    exact insideInvariant_step ht hstep.left hstep.right

end Inside

/-!
# Ids
-/

/-- `alpc_map_section(id)` returns an address for the ids that have been
returned, and for others it changes nothing. -/
def MapsExisting (root : Nat) (s : CallRun) (id : Nat) : Prop :=
  exists virt alpc, alpcMapSection s.alpc root id = some (virt, alpc) ∧
    (virt ≠ 0 <-> id ∈ s.returned) ∧
    (id ∉ s.returned ->
      alpc.nextSectionVirt = s.alpc.nextSectionVirt ∧
      alpc.vmm.mem = s.alpc.vmm.mem)

/-- The tables that a mapping of `sec` lacks. -/
def missingTables (root : Nat) (a : SectionState) (sec : AlpcSection) :
    Finset (List Index) :=
  absentTables root a.vmm.mem (sectionPaths a.nextSectionVirt sec.size)

structure MapSafe (root : Nat) (s : CallRun) (id : Nat) : Prop where
  zero : id = 0 -> TableFull s.alpc ∨ s.alpc.nextSectionVirt = 0
  room : id ∈ s.returned -> s.alpc.nextSectionVirt ≠ 0
  frames : id ∈ s.returned -> forall sec,
    findSection id s.alpc.sections = some sec ->
    FramesInReach s.alpc.vmm.frames (missingTables root s.alpc sec).card

section Existing

variable {s : CallRun} {root id : Nat}

theorem SlotInvariant.found_iff (h : SlotInvariant s) :
    findSection id s.alpc.sections ≠ none <->
      id ∈ s.returned ∨ (id = 0 ∧ ¬ TableFull s.alpc) := by
  rw [ne_eq, findSection_eq_none_iff, h.returned_iff]
  unfold TableFull
  by_cases hid0 : id = 0
  · rw [hid0]
    simp
  · simp [hid0]

theorem SlotInvariant.map_zero (h : SlotInvariant s) (root : Nat)
    (hroom : ¬ TableFull s.alpc) :
    alpcMapSection s.alpc root 0 = some (s.alpc.nextSectionVirt,
      { s.alpc with
        nextSectionVirt := Word.add s.alpc.nextSectionVirt 0 }) := by
  cases hfind : findSection 0 s.alpc.sections with
  | none => exact absurd (findSection_eq_none_iff.mp hfind) hroom
  | some sec =>
      rcases findSection_spec hfind with ⟨hmem, hid⟩
      have hempty := h.empty sec hmem hid
      unfold alpcMapSection
      rw [hfind, hempty]
      rfl

/-- The call for a section that is there returns exactly if there are frames
for its tables, and then it returns the next address. -/
theorem InsideInvariant.maps_iff (h : InsideInvariant root s)
    {sec : AlpcSection} (hfind : findSection id s.alpc.sections = some sec) :
    (exists virt alpc, alpcMapSection s.alpc root id = some (virt, alpc)) <->
      FramesInReach s.alpc.vmm.frames (missingTables root s.alpc sec).card := by
  rcases h.slots.sizes sec (findSection_spec hfind).left with
    ⟨n, hsize, hword⟩
  have hfuel : n < mapFuel := by
    unfold mapFuel
    lia
  have hloop := mapPages_returns_iff s.alpc.nextSectionVirt sec.physAddr
    tableFrame_source h.sound hsize hword hfuel
  rw [provides_tableFrame_iff h.sound.good] at hloop
  rw [missingTables, ← hloop]
  unfold alpcMapSection
  rw [hfind]
  constructor
  · rintro ⟨virt, alpc, hrun⟩
    rcases Option.bind_eq_some_iff.mp hrun with ⟨vmm, hpages, _⟩
    exact ⟨vmm, hpages⟩
  · rintro ⟨vmm, hpages⟩
    exact ⟨_, _, Option.bind_eq_some_iff.mpr ⟨vmm, hpages, rfl⟩⟩

theorem mapsExisting_unknown (hfind : findSection id s.alpc.sections = none)
    (hnot : id ∉ s.returned) : MapsExisting root s id := by
  have hrun : alpcMapSection s.alpc root id = some (0, s.alpc) := by
    unfold alpcMapSection
    rw [hfind]
  refine ⟨0, s.alpc, hrun, ?_, fun _ => ⟨rfl, rfl⟩⟩
  exact iff_of_false (fun hne => hne rfl) hnot

theorem mapsExisting_returned (h : InsideInvariant root s)
    {sec : AlpcSection} (hfind : findSection id s.alpc.sections = some sec)
    (hid : id ∈ s.returned) : MapsExisting root s id <-> MapSafe root s id := by
  have hne := ((h.slots.returned_iff id).mp hid).left
  have hmaps_iff := h.maps_iff hfind
  constructor
  · rintro ⟨virt, alpc, hrun, hiff, _⟩
    have hvirt := (alpcMapSection_cases hfind hrun).left
    refine ⟨fun heq => absurd heq hne, fun _ => ?_, ?_⟩
    · rw [← hvirt]
      exact hiff.mpr hid
    · intro _ sec' hsec'
      rw [hfind] at hsec'
      cases hsec'
      exact hmaps_iff.mp ⟨virt, alpc, hrun⟩
  · intro hsafe
    rcases hmaps_iff.mpr (hsafe.frames hid sec hfind) with ⟨virt, alpc, hrun⟩
    have hvirt := (alpcMapSection_cases hfind hrun).left
    refine ⟨virt, alpc, hrun, ?_, fun hnot => absurd hid hnot⟩
    rw [hvirt]
    exact iff_of_true (hsafe.room hid) hid

theorem mapsExisting_zero_iff (h : SlotInvariant s)
    (hroom : ¬ TableFull s.alpc) (hnot : 0 ∉ s.returned) :
    MapsExisting root s 0 <-> s.alpc.nextSectionVirt = 0 := by
  have hrun := h.map_zero root hroom
  constructor
  · rintro ⟨virt, alpc, hrun', hiff, _⟩
    rw [hrun] at hrun'
    cases hrun'
    exact not_not.mp (fun hne => hnot (hiff.mp hne))
  · intro hvirt
    refine ⟨_, _, hrun, ?_, fun _ => ⟨?_, rfl⟩⟩
    · exact iff_of_false (fun hne => hne hvirt) hnot
    · show Word.add s.alpc.nextSectionVirt 0 = s.alpc.nextSectionVirt
      rw [hvirt]
      rfl

theorem mapSafe_iff (hnot : id ∉ s.returned) :
    MapSafe root s id <->
      (id = 0 -> TableFull s.alpc ∨ s.alpc.nextSectionVirt = 0) := by
  constructor
  · intro hsafe
    exact hsafe.zero
  · intro hzero
    exact ⟨hzero, fun hid => absurd hid hnot, fun hid => absurd hid hnot⟩

theorem mapsExisting_iff (h : InsideInvariant root s) :
    MapsExisting root s id <-> MapSafe root s id := by
  have hfound := @SlotInvariant.found_iff s id h.slots
  cases hfind : findSection id s.alpc.sections with
  | none =>
      -- an unknown id, or 0 with a full table
      have hnot := hfound.not.mp (not_not.mpr hfind)
      rw [not_or, not_and_not_right] at hnot
      refine iff_of_true (mapsExisting_unknown hfind hnot.left) ?_
      exact (mapSafe_iff hnot.left).mpr (fun hzero => Or.inl (hnot.right hzero))
  | some sec =>
      rcases hfound.mp (by rw [hfind]; simp) with hid | ⟨hzero, hroom⟩
      · exact mapsExisting_returned h hfind hid
      · cases hzero
        have hnot : 0 ∉ s.returned := by
          intro hid
          exact ((h.slots.returned_iff 0).mp hid).left rfl
        rw [mapsExisting_zero_iff h.slots hroom hnot, mapSafe_iff hnot]
        simp [hroom]

theorem alpcMapSection_existing_iff {vmm : VmmState PmmState}
    (hwords : PmmWords vmm.frames)
    (hsound : SoundTables PmmReady frameMarked root vmm)
    (hreach : (insideSystem root vmm).Reachable s) :
    MapsExisting root s id <-> MapSafe root s id :=
  mapsExisting_iff (insideInvariant_reachable hwords hsound hreach)

end Existing

theorem smallTables_sound :
    SoundTables PmmReady frameMarked 0x1000 smallTables := by
  have hroot : EmptyRoot smallTables.mem 0x1000 :=
    ⟨⟨by decide, by decide⟩, fun i => rfl⟩
  refine ⟨⟨⟨by decide, by decide, by decide⟩, by decide⟩,
    ⟨_, pageTables_empty hroot⟩, ?_⟩
  intro path t _ ht
  rw [(emptyRoot_tableAt hroot ht).right]
  show bitmapTest smallTables.frames 1 = true
  decide

theorem insideStart_reachable (root : Nat) (vmm : VmmState PmmState) :
    (insideSystem root vmm).Reachable (callStart vmm) :=
  ⟨callStart vmm, [], rfl, Runs.nil _⟩

theorem sectionPaths_onePage (virt : Nat) :
    (sectionPaths virt 4096).card <= 3 := by
  unfold sectionPaths
  rw [show 4096 / 4096 = 1 from rfl, Finset.range_one,
    Finset.singleton_biUnion]
  exact List.toFinset_card_le _

theorem alpcMapSection_existing_iff_first :
    exists s, (insideSystem 0x1000 smallTables).Reachable s ∧
      1 ∈ s.returned ∧ MapsExisting 0x1000 s 1 := by
  rcases smallPool_create with ⟨tested, hcreate⟩
  have htail : FreeTail 3 (allocFound smallPool smallPool.lastSearchIndex 1
      tested).state := smallPool_freeTail.taken.right
  generalize allocFound smallPool smallPool.lastSearchIndex 1 tested = r
    at hcreate htail
  have hroom := htail.room
  have hreach := reachable_step (T := insideSystem 0x1000 smallTables)
    (insideStart_reachable 0x1000 smallTables)
    ⟨CallStep.create (by decide) hcreate, show r.state.lastSearchIndex <=
      r.state.totalPages by lia⟩
  refine ⟨_, hreach, List.mem_singleton_self 1, ?_⟩
  apply (alpcMapSection_existing_iff smallPool_words smallTables_sound
    hreach).mpr
  constructor
  · intro hzero
    cases hzero
  · intro _
    show sectionBase ≠ 0
    decide
  · intro _ sec hfind
    have hsec : sec = firstSection r.ret := (Option.some.inj hfind).symm
    rw [hsec]
    refine htail.inReach.mono ?_
    exact Nat.le_trans (absentTables_card_le _ _ _) (sectionPaths_onePage _)

/-- Right after `alpc_init`, without any section, `alpc_map_section(0)` returns
`0x8000000000`. -/
theorem alpcMapSection_zero :
    (insideSystem 0x1000 smallTables).Reachable (callStart smallTables) ∧
      ¬ MapsExisting 0x1000 (callStart smallTables) 0 := by
  refine ⟨insideStart_reachable 0x1000 smallTables, ?_⟩
  intro hmaps
  have hsafe := (mapsExisting_iff (insideInvariant_init smallPool_words
    smallTables_sound)).mp hmaps
  rcases hsafe.zero rfl with hfull | hvirt
  · exact hfull emptySection (List.mem_replicate.mpr ⟨by decide, rfl⟩) rfl
  · exact absurd hvirt (by decide)

end Alpc
end Barium
