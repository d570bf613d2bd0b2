import Barium.Alpc.SectionRuns

/-!
# Sections stay where they are mapped

Every mapping gets addresses of its own, and the page tables lead them to the
frames of its section for as long as the run goes on.
-/

namespace Barium
namespace Alpc

open Foundation
open TransitionSystem
open Pmm
open Vmm

/-!
# What the page tables say
-/

/-- What holds at the end of a run that started on the tables `mem`. -/
structure SectionsShared (root : Nat) (mem : Nat -> Nat) (s : SectionRun) :
    Prop where
  disjoint : s.maps.Pairwise (fun a b =>
    Disjoint (Finset.Ico a.virt (a.virt + a.sec.size))
      (Finset.Ico b.virt (b.virt + b.sec.size)))
  translate : forall m, m ∈ s.maps -> forall j, j < m.sec.size ->
    vmmGetPhys s.alpc.vmm.mem root (m.virt + j) + j % 4096 =
      m.sec.physAddr + j
  permissions : forall m, m ∈ s.maps -> forall j, j < m.sec.size ->
    effectivePermissions s.alpc.vmm.mem root (m.virt + j) =
      pageWritable ||| pageUser
  same_section : forall a b, a ∈ s.maps -> b ∈ s.maps ->
    a.sec.id = b.sec.id -> a.sec = b.sec ∧ forall j, j < a.sec.size ->
      vmmGetPhys s.alpc.vmm.mem root (a.virt + j) =
        vmmGetPhys s.alpc.vmm.mem root (b.virt + j)
  other_section : forall a b, a ∈ s.maps -> b ∈ s.maps ->
    a.sec.id ≠ b.sec.id -> forall i j, i < a.sec.size -> j < b.sec.size ->
      vmmGetPhys s.alpc.vmm.mem root (a.virt + i) ≠
        vmmGetPhys s.alpc.vmm.mem root (b.virt + j)
  below : forall virt, virt < sectionBase ->
    vmmGetPhys s.alpc.vmm.mem root virt = vmmGetPhys mem root virt

theorem pageNumber_of_lt {virt : Nat} (h : virt < 2 ^ 48) :
    pageNumber virt = virt / 4096 := by
  unfold pageNumber
  lia

def SameOrApart (a b : Mapping) : Prop :=
  a = b ∨ a.virt + a.sec.size <= b.virt ∨ b.virt + b.sec.size <= a.virt

section EndOfRun

variable {root : Nat} {earlier : List MapCall} {s : SectionRun}

theorem SpaceInvariant.ranges (h : SpaceInvariant s) {a b : Mapping}
    (ha : a ∈ s.maps) (hb : b ∈ s.maps) : SameOrApart a b := by
  have hpairs : s.maps.Pairwise SameOrApart :=
    h.ordered.imp (fun hab => Or.inr (Or.inl hab))
  have hsymm : Std.Symm SameOrApart := by
    constructor
    intro x y hxy
    rcases hxy with hxy | hxy | hxy
    · exact Or.inl hxy.symm
    · exact Or.inr (Or.inr hxy)
    · exact Or.inr (Or.inl hxy)
  have hrefl : forall x, x ∈ s.maps -> SameOrApart x x :=
    fun x _ => Or.inl rfl
  exact hpairs.forall_of_forall hrefl ha hb

theorem mem_mapCalls {c : MapCall} (h : c ∈ s.maps.flatMap Mapping.calls) :
    exists m k, m ∈ s.maps ∧ k < m.sec.size / 4096 ∧
      c = pageCall m.virt m.sec.physAddr k := by
  rcases List.mem_flatMap.mp h with ⟨m, hm, hc⟩
  rcases mem_sectionCalls hc with ⟨k, hk, heq⟩
  exact ⟨m, k, hm, hk, heq⟩

theorem SpaceInvariant.call_page (h : SpaceInvariant s) {m : Mapping} {k : Nat}
    (hm : m ∈ s.maps) (hk : k < m.sec.size / 4096) :
    pageNumber (pageCall m.virt m.sec.physAddr k).virt =
      m.virt / 4096 + k := by
  have hend := h.end_le m hm
  have hnext := h.next_lt
  show pageNumber (m.virt + 4096 * k) = _
  rw [pageNumber_of_lt (by lia)]
  lia

/-- The last call for an address of a mapping is the mapping's own. -/
theorem mapping_lastCall (hinv : SectionInvariant root earlier s)
    (hearlier : forall c, c ∈ earlier -> c.virt < sectionBase)
    {m : Mapping} (hm : m ∈ s.maps) {j : Nat} (hj : j < m.sec.size) :
    lastCall (earlier ++ s.maps.flatMap Mapping.calls) (m.virt + j) =
      some (pageCall m.virt m.sec.physAddr (j / 4096)) := by
  have hspace := hinv.space
  have hnext := hspace.next_lt
  have hstart := hspace.start_le m hm
  have hend := hspace.end_le m hm
  have haligned := hspace.virt_aligned m hm
  rcases hspace.sections m hm with ⟨hsec, hne⟩
  have hsize := (hinv.table.valid m.sec hsec hne).size_aligned
  have hk : j / 4096 < m.sec.size / 4096 := by lia
  have hpage : pageNumber (m.virt + j) = m.virt / 4096 + j / 4096 := by
    rw [pageNumber_of_lt (by lia)]
    lia
  apply lastCall_unique
  · apply List.mem_append_right
    exact List.mem_flatMap.mpr ⟨m, hm, pageCall_mem hk⟩
  · rw [hspace.call_page hm hk, hpage]
  · intro d hd hsame
    rw [hpage] at hsame
    rcases List.mem_append.mp hd with hd | hd
    · have hlow := hearlier d hd
      unfold sectionBase at hlow hstart
      rw [pageNumber_of_lt (by lia)] at hsame
      lia
    · rcases mem_mapCalls hd with ⟨n, k, hn, hkn, heq⟩
      rw [heq, hspace.call_page hn hkn] at hsame
      have hnaligned := hspace.virt_aligned n hn
      rcases hspace.ranges hm hn with hmn | hmn | hmn
      · rw [heq, ← hmn]
        rw [← hmn] at hsame
        rw [show k = j / 4096 by lia]
      · lia
      · lia

theorem sectionFrame {pmm : PmmState} {x : AlpcSection} {j : Nat}
    (h : SectionValid pmm x) (htotal : pmm.totalPages < 2 ^ 52)
    (hj : j < x.size) :
    (x.physAddr + 4096 * (j / 4096)) &&& frameMask =
      x.physAddr + 4096 * (j / 4096) := by
  have hphys := h.phys_aligned
  have hinside := h.inside
  have hsize := h.size_aligned
  unfold frameMask
  rw [Word.and_high_mask (by lia) (by decide)]
  lia

theorem mapping_translate (hinv : SectionInvariant root earlier s)
    (hearlier : forall c, c ∈ earlier -> c.virt < sectionBase)
    {m : Mapping} (hm : m ∈ s.maps) {j : Nat} (hj : j < m.sec.size) :
    vmmGetPhys s.alpc.vmm.mem root (m.virt + j) =
        m.sec.physAddr + 4096 * (j / 4096) ∧
      effectivePermissions s.alpc.vmm.mem root (m.virt + j) =
        pageWritable ||| pageUser := by
  have hnext := hinv.space.next_lt
  have hend := hinv.space.end_le m hm
  rcases hinv.space.sections m hm with ⟨hsec, hne⟩
  have hvalid := hinv.table.valid m.sec hsec hne
  have hlast := mapping_lastCall hinv hearlier hm hj
  have hmap := vmmInvariant_refines hinv.vmm
  constructor
  · rw [hmap.translate _ (by lia), hlast]
    exact sectionFrame hvalid hinv.table.total_lt hj
  · rw [hmap.permissions _ _ (by lia) hlast]
    show sectionFlags &&& (pageWritable ||| pageUser) = _
    decide

theorem mapping_other (hinv : SectionInvariant root earlier s)
    {a b : Mapping} (ha : a ∈ s.maps) (hb : b ∈ s.maps)
    (hne : a.sec.id ≠ b.sec.id) {i j : Nat} (hi : i < a.sec.size)
    (hj : j < b.sec.size) :
    a.sec.physAddr + 4096 * (i / 4096) ≠
      b.sec.physAddr + 4096 * (j / 4096) := by
  rcases hinv.space.sections a ha with ⟨hasec, hane⟩
  rcases hinv.space.sections b hb with ⟨hbsec, hbne⟩
  have hasize := (hinv.table.valid a.sec hasec hane).size_aligned
  have hbsize := (hinv.table.valid b.sec hbsec hbne).size_aligned
  have hapart := hinv.table.apart a.sec b.sec hasec hbsec hane hbne hne
  intro heq
  have hina : a.sec.physAddr / 4096 + i / 4096 ∈
      pageRange a.sec.physAddr (a.sec.size / 4096) :=
    mem_pageRange.mpr (by unfold pageSize; lia)
  have hinb : a.sec.physAddr / 4096 + i / 4096 ∈
      pageRange b.sec.physAddr (b.sec.size / 4096) :=
    mem_pageRange.mpr (by unfold pageSize; lia)
  exact Finset.disjoint_left.mp hapart hina hinb

theorem lastCall_below (hinv : SectionInvariant root earlier s) {virt : Nat}
    (hvirt : virt < sectionBase) :
    lastCall (earlier ++ s.maps.flatMap Mapping.calls) virt =
      lastCall earlier virt := by
  have hspace := hinv.space
  apply lastCall_append
  intro c hc hsame
  rcases mem_mapCalls hc with ⟨m, k, hm, hk, heq⟩
  have hstart := hspace.start_le m hm
  unfold sectionBase at hvirt hstart
  rw [heq, hspace.call_page hm hk, pageNumber_of_lt (by lia)] at hsame
  lia

theorem SectionInvariant.shared {mem : Nat -> Nat}
    (hinv : SectionInvariant root earlier s)
    (hearlier : forall c, c ∈ earlier -> c.virt < sectionBase)
    (hmem : RefinesMap mem root earlier) :
    SectionsShared root mem s := by
  constructor
  · apply hinv.space.ordered.imp
    intro a b hab
    rw [Finset.disjoint_left]
    intro w ha hb
    rw [Finset.mem_Ico] at ha hb
    lia
  · intro m hm j hj
    rw [(mapping_translate hinv hearlier hm hj).left]
    lia
  · intro m hm j hj
    exact (mapping_translate hinv hearlier hm hj).right
  · intro a b ha hb hid
    rcases hinv.space.sections a ha with ⟨hasec, hane⟩
    rcases hinv.space.sections b hb with ⟨hbsec, _⟩
    have hsame := hinv.table.unique a.sec b.sec hasec hbsec hane hid
    constructor
    · exact hsame
    · intro j hj
      rw [(mapping_translate hinv hearlier ha hj).left]
      rw [hsame] at hj ⊢
      rw [(mapping_translate hinv hearlier hb hj).left]
  · intro a b ha hb hid i j hi hj
    rw [(mapping_translate hinv hearlier ha hi).left,
      (mapping_translate hinv hearlier hb hj).left]
    exact mapping_other hinv ha hb hid hi hj
  · intro virt hvirt
    have hword : virt < 2 ^ 64 := by
      unfold sectionBase at hvirt
      lia
    rw [(vmmInvariant_refines hinv.vmm).translate virt hword,
      hmem.translate virt hword, lastCall_below hinv hvirt]

end EndOfRun

/-!
# The memory manager as a source of tables

While the pages from `last_search_index` on are free, `pmm_alloc` takes them one
after the other; its tables are fresh, and the mapping loop returns.
-/

/-- The pages from `last_search_index` on are free, and more than `k` of them
are left. -/
structure FreeTail (k : Nat) (s : PmmState) : Prop where
  free : forall p, s.lastSearchIndex <= p -> bitmapTest s p = false
  pos : 0 < s.lastSearchIndex
  room : s.lastSearchIndex + k < s.totalPages
  total_lt : s.totalPages < 2 ^ 52

section Tail

variable {s : PmmState} {k count : Nat}

theorem FreeTail.alloc (h : FreeTail (k + count) s) (hpos : 1 <= count) :
    exists tested, pmmAlloc s count =
      some (allocFound s s.lastSearchIndex count tested) := by
  have hroom := h.room
  have htotal := h.total_lt
  have hrun : RunSearch.FreeRun (bitmapTest s) s.lastSearchIndex count := by
    intro j _
    exact h.free _ (Nat.le_add_right _ _)
  rcases pmmAlloc_outcome (show s.totalPages < 2 ^ 64 by lia)
    (show count <= s.totalPages by lia) (by lia) hpos with
    ⟨r, halloc, houtcome⟩
  cases houtcome with
  | @first i tested hspec =>
      rcases hspec.first with ⟨hlow, _, _, _, hfirst⟩
      have hi : i = s.lastSearchIndex := by
        apply Nat.le_antisymm _ hlow
        apply Nat.le_of_not_lt
        intro hlt
        exact hfirst _ (Nat.le_refl _) hlt hrun
      rw [hi] at halloc
      exact ⟨tested, halloc⟩
  | second hspec _ =>
      exact absurd hrun (hspec.first _ (Nat.le_refl _) (by lia))
  | fail hspec _ _ =>
      exact absurd hrun (hspec.first _ (Nat.le_refl _) (by lia))

theorem FreeTail.taken (h : FreeTail (k + count) s) :
    (takeRun s s.lastSearchIndex count).lastSearchIndex =
        s.lastSearchIndex + count ∧
      FreeTail k (takeRun s s.lastSearchIndex count) := by
  have hroom := h.room
  have htotal := h.total_lt
  rcases takeRun_spec (s := s)
    (show s.lastSearchIndex + count <= 2 ^ 64 by lia) with ⟨ram, heq, hbits⟩
  have hnext : Word.add s.lastSearchIndex count = s.lastSearchIndex + count :=
    Word.add_of_lt (by lia)
  rw [heq, hnext]
  constructor
  · rfl
  · constructor
    · intro p hp
      have hlow : s.lastSearchIndex + count <= p := hp
      have hclear := h.free p (by lia)
      apply Bool.eq_false_iff.mpr
      intro hset
      rcases (hbits p).mp hset with hset | hset
      · lia
      · rw [hclear] at hset
        cases hset
    · exact Nat.add_pos_left h.pos _
    · show s.lastSearchIndex + count + k < s.totalPages
      lia
    · exact htotal

theorem FreeTail.ret (h : FreeTail (k + count) s) (tested : List Nat) :
    (allocFound s s.lastSearchIndex count tested).ret =
      s.lastSearchIndex * 4096 := by
  have hroom := h.room
  have htotal := h.total_lt
  exact Word.mul_of_lt (by unfold pageSize; lia)

theorem FreeTail.grants (h : FreeTail (k + count) s) (tested : List Nat) :
    GrantsPages s count (allocFound s s.lastSearchIndex count tested) := by
  have hroom := h.room
  have htotal := h.total_lt
  have hpos := h.pos
  have hrange : pageRange (s.lastSearchIndex * 4096) count =
      Finset.Ico s.lastSearchIndex (s.lastSearchIndex + count) := by
    unfold pageRange pageSize
    rw [Nat.mul_div_cancel _ (by decide)]
  rcases takeRun_spec (s := s)
    (show s.lastSearchIndex + count <= 2 ^ 64 by lia) with ⟨ram, heq, hbits⟩
  constructor
  · rw [h.ret]
    lia
  · rw [h.ret]
    unfold pageSize
    lia
  · intro p hp
    rw [h.ret, hrange, Finset.mem_Ico] at hp
    exact h.free p hp.left
  · intro p hp
    rw [h.ret, hrange, Finset.mem_Ico] at hp
    show bitmapTest (takeRun s s.lastSearchIndex count) p = true
    rw [heq]
    exact (hbits p).mpr (Or.inl hp)

end Tail

theorem pmmFrame_supply :
    Supply pmmFrame (fun s f => f / 4096 < s.lastSearchIndex) FreeTail := by
  constructor
  · intro k s h
    have hroom := h.room
    exact ⟨h.free, h.pos, by lia, h.total_lt⟩
  · intro k s h
    rcases h.alloc (Nat.le_refl 1) with ⟨tested, halloc⟩
    unfold pmmFrame
    rw [halloc]
    exact ⟨_, _, rfl⟩
  · intro k s f s' h hframe
    rcases h.alloc (Nat.le_refl 1) with ⟨tested, halloc⟩
    unfold pmmFrame at hframe
    rw [halloc] at hframe
    cases hframe
    have hpos := h.pos
    have hroom := h.room
    have htotal := h.total_lt
    unfold ValidFrame
    rw [h.ret]
    lia
  · intro k s f s' h hframe
    rcases h.alloc (Nat.le_refl 1) with ⟨tested, halloc⟩
    rcases h.taken with ⟨hlast, htail⟩
    unfold pmmFrame at hframe
    rw [halloc] at hframe
    cases hframe
    refine ⟨?_, ?_, htail⟩
    · show _ < (takeRun s s.lastSearchIndex 1).lastSearchIndex
      rw [h.ret, hlast]
      lia
    · intro g hg
      show g / 4096 < (takeRun s s.lastSearchIndex 1).lastSearchIndex
      rw [hlast]
      lia

/-- A source that hands out no frame 0 is one behind the page fault too. -/
theorem tableFrame_supply {marked : PmmState -> Nat -> Prop}
    {left : Nat -> PmmState -> Prop} (h : Supply pmmFrame marked left) :
    Supply tableFrame marked left := by
  constructor
  · exact h.less
  · intro k a hleft
    rcases h.returns k a hleft with ⟨f, a', halloc⟩
    have hne := (h.fresh k a f a' hleft halloc).left
    exact ⟨f, a', tableFrame_eq_some_iff.mpr ⟨halloc, hne⟩⟩
  · intro k a f a' hleft halloc
    exact h.fresh k a f a' hleft (tableFrame_eq_some_iff.mp halloc).left
  · intro k a f a' hleft halloc
    exact h.mark k a f a' hleft (tableFrame_eq_some_iff.mp halloc).left

/-- With three frames for each page left, the loop over the pages of a section
returns, and all the tables it allocates are fresh. -/
theorem mapPages_returns {alloc : FrameAllocator alpha}
    {marked : alpha -> Nat -> Prop} {left : Nat -> alpha -> Prop}
    (hsupply : Supply alloc marked left) {root size fuel k n : Nat}
    {s : VmmState alpha} {leaf : List Index -> Nat} (virt phys : Nat)
    (hsize : size = 4096 * (k + n)) (hword : size < 2 ^ 64)
    (h : PageTables s.mem root leaf) (hmarked : TablesMarked marked root s)
    (hleft : left (3 * n) s.frames) (hfuel : n < fuel) :
    FreshPages alloc root virt phys size fuel s (4096 * k) ∧
      exists s', mapPages alloc root virt phys size fuel s (4096 * k) =
        some s' := by
  induction n generalizing fuel k s leaf with
  | zero =>
      cases fuel with
      | zero => lia
      | succ fuel =>
          unfold FreshPages mapPages
          rw [if_neg (by lia)]
          constructor
          · intro hj
            lia
          · exact ⟨s, rfl⟩
  | succ n ih =>
      cases fuel with
      | zero => lia
      | succ fuel =>
          have hnext : Word.add (4096 * k) 4096 = 4096 * (k + 1) :=
            Word.add_of_lt (by lia)
          have hleast : left 3 s.frames := by
            have hdown : forall m, left (m + 3) s.frames ->
                left 3 s.frames := by
              intro m hm
              induction m with
              | zero =>
                  rw [Nat.zero_add] at hm
                  exact hm
              | succ m ihm =>
                  apply ihm
                  apply hsupply.less
                  rw [show m + 3 + 1 = m + 1 + 3 by lia]
                  exact hm
            exact hdown (3 * n) hleft
          have hfresh := hsupply.freshMap h hmarked hleast
            (Word.add virt (4096 * k))
          rcases hsupply.vmmMap h hmarked hleft (Word.add virt (4096 * k))
            (Word.add phys (4096 * k)) sectionFlags with
            ⟨s1, hmap, hmarked1, hleft1⟩
          have htables := vmmMap_spec h hfresh.atLookups hmap
          have hrest := ih (k := k + 1) (by lia) htables hmarked1 hleft1
            (show n < fuel by lia)
          unfold FreshPages mapPages
          rw [if_pos (by lia), hmap, hnext]
          constructor
          · intro _
            constructor
            · exact hfresh
            · intro s' hs'
              cases hs'
              exact hrest.left
          · exact hrest.right

theorem section_runs_shared {root : Nat} {boot vmm : VmmState PmmState}
    {earlier : List MapCall} {trace : List SectionEvent} {s s' : SectionRun}
    (hempty : EmptyRoot boot.mem root)
    (hboot : (vmmSystem pmmFrame root).Runs boot earlier vmm)
    (hearlier : forall c, c ∈ earlier -> c.virt < sectionBase)
    (htotal : vmm.frames.totalPages < 2 ^ 52)
    (hinit : (sectionSystem root vmm).Init s)
    (hrun : (sectionSystem root vmm).Runs s trace s') :
    SectionsShared root vmm.mem s' := by
  have hvmm := vmm_runs_invariant hempty hboot
  have hinv : SectionInvariant root earlier s' := by
    apply runs_invariant _ _ hrun
    · rw [show s = _ from hinit]
      exact sectionInvariant_init htotal hvmm
    · intro t event u ht hstep
      exact sectionInvariant_step ht hstep
  exact hinv.shared hearlier (vmmInvariant_refines hvmm)

def smallPool : PmmState where
  ram := fun a => if a < 2 then 255 else 0
  bitmap := 0
  totalPages := 64
  usablePages := 64
  freePages := 48
  lastSearchIndex := 16
  highestPhysAddress := 0x40000

def smallTables : VmmState PmmState where
  mem := fun _ => 0
  frames := smallPool

theorem smallPool_freeTail : FreeTail (3 + 1) smallPool := by
  refine ⟨?_, by decide, by decide, by decide⟩
  intro p hp
  have hlow : 16 <= p := hp
  have hbyte : ¬ (0 + p / 8 < 2) := by lia
  show Bitmap.test (fun a => if a < 2 then 255 else 0) 0 p = false
  rw [Bitmap.test_eq, if_neg hbyte]
  exact Nat.zero_testBit _

def firstSection (phys : Nat) : AlpcSection where
  id := 1
  physAddr := phys
  size := 4096
  ownerTid := 0

def firstState (r : AllocResult) : SectionState where
  sections := firstSection r.ret :: List.replicate 63 emptySection
  nextSectionId := 2
  nextSectionVirt := sectionBase
  vmm := { mem := smallTables.mem, frames := r.state }

def sharedStart : SectionRun where
  alpc := alpcInit smallTables
  created := []
  maps := []

theorem onePage_steps : exists s1 s2 m,
    SectionStep 0x1000 sharedStart (SectionEvent.create 1 1) s1 ∧
      SectionStep 0x1000 s1 (SectionEvent.map 1 sectionBase) s2 ∧
      m ∈ s2.maps ∧ m.sec.id = 1 ∧ m.sec.size = 4096 := by
  have hroot : EmptyRoot smallTables.mem 0x1000 :=
    ⟨⟨by decide, by decide⟩, fun i => rfl⟩
  rcases smallPool_freeTail.alloc (Nat.le_refl 1) with ⟨tested, halloc⟩
  have hgrant := smallPool_freeTail.grants tested
  rcases smallPool_freeTail.taken with ⟨hlast, htail⟩
  have hframes : (allocFound smallPool
      smallPool.lastSearchIndex 1 tested).state =
      takeRun smallPool smallPool.lastSearchIndex 1 := rfl
  generalize allocFound smallPool
    smallPool.lastSearchIndex 1 tested = r at halloc hgrant hframes
  have hcreate : alpcCreateSection (alpcInit smallTables) 0 1 =
      some (1, firstState r) := by
    unfold alpcCreateSection
    rw [show sectionPages 1 = 1 from rfl,
      show (alpcInit smallTables).vmm.frames = smallPool from rfl,
      halloc]
    rfl
  have hmarked : TablesMarked (fun s f => f / 4096 < s.lastSearchIndex) 0x1000
      (firstState r).vmm := by
    intro path t _ ht
    rw [(emptyRoot_tableAt hroot ht).right]
    show 0x1000 / 4096 < r.state.lastSearchIndex
    rw [hframes, hlast]
    decide
  have hleft : FreeTail (3 * 1) (firstState r).vmm.frames := by
    show FreeTail 3 r.state
    rw [hframes]
    exact htail
  have htables : PageTables (firstState r).vmm.mem 0x1000 (fun _ => 0) :=
    pageTables_empty hroot
  rcases mapPages_returns pmmFrame_supply sectionBase r.ret
    (show 4096 = 4096 * (0 + 1) from rfl) (by decide) htables hmarked hleft
    (show 1 < mapFuel by decide) with ⟨hfresh, _⟩
  rcases mapPages_returns (tableFrame_supply pmmFrame_supply) sectionBase r.ret
    (show 4096 = 4096 * (0 + 1) from rfl) (by decide) htables hmarked hleft
    (show 1 < mapFuel by decide) with ⟨_, vmm, hloop⟩
  have hfind : findSection 1 (firstState r).sections =
      some (firstSection r.ret) := rfl
  have hmap : alpcMapSection (firstState r) 0x1000 1 =
      some (sectionBase, { firstState r with
        nextSectionVirt := Word.add sectionBase 4096
        vmm := vmm }) := by
    unfold alpcMapSection
    rw [hfind]
    exact Option.bind_eq_some_iff.mpr ⟨vmm, hloop, rfl⟩
  have hfirst : SectionStep 0x1000 sharedStart (SectionEvent.create 1 1)
      { sharedStart with alpc := firstState r, created := [1] } :=
    SectionStep.create (by decide) halloc hgrant hcreate (by decide)
  have hroom : sectionBase + 4096 < 2 ^ 48 := by decide
  exact ⟨_, _, { sec := firstSection r.ret, virt := sectionBase }, hfirst,
    SectionStep.map (List.mem_singleton.mpr rfl) hfind hroom hfresh hmap,
    List.mem_singleton.mpr rfl, rfl, rfl⟩

theorem section_runs_shared_onePage :
    exists s', (sectionSystem 0x1000 smallTables).Runs
        { alpc := alpcInit smallTables, created := [], maps := [] }
        [SectionEvent.create 1 1, SectionEvent.map 1 sectionBase] s' ∧
      SectionsShared 0x1000 smallTables.mem s' := by
  rcases onePage_steps with ⟨s1, s2, _, hfirst, hsecond, _⟩
  have hrun := TransitionSystem.Runs.snoc (runs_single
    (T := sectionSystem 0x1000 smallTables) hfirst) hsecond
  have hroot : EmptyRoot smallTables.mem 0x1000 :=
    ⟨⟨by decide, by decide⟩, fun i => rfl⟩
  exact ⟨_, hrun, section_runs_shared hroot
    (TransitionSystem.Runs.nil smallTables) (fun c hc => by cases hc)
    (by decide) rfl hrun⟩

end Alpc
end Barium
