import Barium.Foundation.WordBytes
import Barium.Vmm.Footprint
import Barium.Vmm.Tlb
import Barium.Alpc.SectionBacking

/-!
# Sections as shared memory

Programs read and write the bytes of a section through the addresses that
`alpc_map_section` has returned.  There is one physical memory, in which the
page tables lie as well.  What the programs see is one array of bytes for each
section, whichever of its mappings they use.
-/

namespace Barium
namespace Alpc

open Foundation
open Function
open Foundation.WordBytes
open TransitionSystem
open Pmm
open Vmm

/-!
# Frames of the page tables
-/

def frameMarked (pmm : PmmState) (f : Nat) : Prop :=
  bitmapTest pmm (f / 4096) = true

theorem keeps_page {pmm pmm' : PmmState} {p : Nat}
    (h : forall f, frameMarked pmm f -> frameMarked pmm' f)
    (hp : bitmapTest pmm p = true) : bitmapTest pmm' p = true := by
  have hkeep := h (p * 4096)
  unfold frameMarked at hkeep
  rw [Nat.mul_div_cancel p (by decide)] at hkeep
  exact hkeep hp

structure PmmGood (pmm : PmmState) : Prop where
  total_pos : 0 < pmm.totalPages
  total_lt : pmm.totalPages < 2 ^ 52
  last_le : pmm.lastSearchIndex <= pmm.totalPages

section Requests

variable {pmm : PmmState} {count : Nat} {r : AllocResult}

theorem PmmGood.found_lt (h : PmmGood pmm) (hcount : count <= pmm.totalPages)
    {i : Nat} (hfound : ClearRun pmm count i) : i < pmm.totalPages := by
  have htotal := h.total_lt
  have hlast := h.last_le
  have hsub := Word.sub_of_le (by lia) hcount
  have hstart := hfound.start
  rw [hsub] at hstart
  lia

theorem PmmGood.taken (h : PmmGood pmm) {i : Nat}
    (hend : i + count <= pmm.totalPages) : PmmGood (takeRun pmm i count) := by
  have htotal := h.total_lt
  have hword : i + count <= 2 ^ 64 := by lia
  rcases takeRun_spec (s := pmm) hword with ⟨ram, htake, _⟩
  rw [htake]
  refine ⟨h.total_pos, h.total_lt, ?_⟩
  show Word.add i count <= pmm.totalPages
  rw [Word.add_of_lt (by lia)]
  exact hend

theorem PmmGood.freed (h : PmmGood pmm) {pmm' : PmmState} {ptr : Nat}
    (hfrees : FreesPages pmm pmm' ptr count) : PmmGood pmm' := by
  constructor
  · rw [hfrees.total_eq]
    exact h.total_pos
  · rw [hfrees.total_eq]
    exact h.total_lt
  · rw [hfrees.total_eq, hfrees.last_eq]
    exact h.last_le

structure TakenPage (a a' : PmmState) (f : Nat) : Prop where
  good : PmmGood a'
  lt : f / 4096 < a.totalPages
  free : bitmapTest a (f / 4096) = false
  taken : bitmapTest a' (f / 4096) = true

theorem pmmFrame_taken {a a' : PmmState} {f : Nat} (hgood : PmmGood a)
    (halloc : pmmFrame a = some (f, a')) (hne : f ≠ 0) : TakenPage a a' f := by
  rcases Option.map_eq_some_iff.mp halloc with ⟨r, hrun, heq⟩
  cases heq
  have htakes := pmmAlloc_takesSet hrun
  rcases pmmAlloc_found hrun with ⟨i, tested, hr, hfound⟩ | hfailed
  · have htotal := hgood.total_lt
    have hlt : i < a.totalPages := hgood.found_lt hgood.total_pos hfound
    have hret : r.ret / 4096 = i := by
      rw [hr]
      show Word.mul i 4096 / 4096 = i
      rw [Word.mul_of_lt (by lia)]
      lia
    have hset : i ∈ r.set := by
      rw [hr]
      show i ∈ runPages i 1
      rw [mem_runPages (by lia)]
      lia
    refine ⟨?_, ?_, ?_, ?_⟩
    · rw [hr]
      exact hgood.taken hlt
    · rw [hret]
      exact hlt
    · rw [hret]
      exact htakes.clear i hset
    · rw [hret, htakes.bits]
      exact Or.inl hset
  · exact absurd hfailed.left hne

theorem pmmFrame_marks : Marks pmmFrame PmmGood frameMarked := by
  constructor
  · intro a f a' hgood halloc hne
    have htaken := pmmFrame_taken hgood halloc hne
    refine ⟨htaken.good, ?_, htaken.taken⟩
    unfold frameMarked
    rw [htaken.free]
    decide
  · intro a f a' g halloc hg
    exact (pmmFrame_grows halloc).set _ hg

theorem PmmGood.granted (h : PmmGood pmm)
    (hrun : pmmAlloc pmm count = some r) (hgrant : GrantsPages pmm count r) :
    PmmGood r.state := by
  have htotal := h.total_lt
  have hinside := hgrant.inside
  rcases pmmAlloc_found hrun with ⟨i, tested, hr, hfound⟩ | hfailed
  · have hlt : i < pmm.totalPages := h.found_lt (by lia) hfound
    rw [hr, ret_page, Nat.mod_eq_of_lt (by lia)] at hinside
    rw [hr]
    exact h.taken hinside
  · exact absurd hfailed.left hgrant.ret_ne

end Requests

/-!
# Accesses
-/

def userAddress (mem : Nat -> Nat) (root virt : Nat) : Option Nat :=
  (hardwareWalk mem root virt).bind (fun e =>
    if e.2 = pageWritable ||| pageUser then some (e.1 + virt % 4096) else none)

def SectionRun.mem (s : SectionRun) : Nat -> Nat :=
  s.alpc.vmm.mem

def SectionRun.withMem (s : SectionRun) (mem : Nat -> Nat) : SectionRun :=
  { s with alpc := { s.alpc with vmm := { s.alpc.vmm with mem := mem } } }

inductive SharedEvent where
  | alpc (event : SectionEvent)
  | store (id j b : Nat)
  | load (id j b : Nat)
  | other

inductive SharedStep (root : Nat) :
    SectionRun -> SharedEvent -> SectionRun -> Prop where
  | alpc {s s' : SectionRun} {event : SectionEvent} :
      SectionStep root s event s' ->
      SharedStep root s (SharedEvent.alpc event) s'
  | store {s : SectionRun} {m : Mapping} {j b p : Nat} :
      m ∈ s.maps -> j < m.sec.size -> b < 256 ->
      userAddress s.mem root (m.virt + j) = some p ->
      SharedStep root s (SharedEvent.store m.sec.id j b)
        (s.withMem (setByte s.mem p b))
  | load {s : SectionRun} {m : Mapping} {j p : Nat} :
      m ∈ s.maps -> j < m.sec.size ->
      userAddress s.mem root (m.virt + j) = some p ->
      SharedStep root s (SharedEvent.load m.sec.id j (byteAt s.mem p)) s
  -- stacks, the heap, pages that nobody has asked for
  | other {s : SectionRun} {p b : Nat} :
      b < 256 -> OffTables root s.mem p ->
      (forall x, x ∈ s.alpc.sections -> x.id ≠ 0 ->
        p / 4096 ∉ sectionFrames x) ->
      SharedStep root s SharedEvent.other (s.withMem (setByte s.mem p b))

def sharedSystem (root : Nat) (vmm : VmmState PmmState) :
    TransitionSystem SectionRun SharedEvent where
  Init := fun s => s = { alpc := alpcInit vmm, created := [], maps := [] }
  Step := SharedStep root

/-!
# Arrays
-/

abbrev SectionArrays := Nat -> Nat -> Nat

/-- A new section holds any bytes: `alpc_create_section` does not clear it. -/
inductive ArrayStep : SectionArrays -> SharedEvent -> SectionArrays -> Prop where
  | create {arrays : SectionArrays} {size id : Nat} (bytes : Nat -> Nat) :
      ArrayStep arrays (SharedEvent.alpc (SectionEvent.create size id))
        (update arrays id bytes)
  | map {arrays : SectionArrays} {id virt : Nat} :
      ArrayStep arrays (SharedEvent.alpc (SectionEvent.map id virt)) arrays
  | store {arrays : SectionArrays} {id j b : Nat} :
      ArrayStep arrays (SharedEvent.store id j b)
        (update arrays id (update (arrays id) j b))
  | load {arrays : SectionArrays} {id j b : Nat} :
      arrays id j = b -> ArrayStep arrays (SharedEvent.load id j b) arrays
  | other {arrays : SectionArrays} :
      ArrayStep arrays SharedEvent.other arrays

def arraySystem : TransitionSystem SectionArrays SharedEvent where
  Init := fun _ => True
  Step := ArrayStep

/-!
# The memory holds the arrays
-/

structure SharedInvariant (root : Nat) (earlier : List MapCall)
    (s : SectionRun) (arrays : SectionArrays) : Prop where
  base : SectionInvariant root earlier s
  good : PmmGood s.alpc.vmm.frames
  marked : forall t, IsTable root s.mem t -> frameMarked s.alpc.vmm.frames t
  apart : forall x, x ∈ s.alpc.sections -> x.id ≠ 0 ->
    forall t, IsTable root s.mem t -> t / 4096 ∉ sectionFrames x
  bytes : forall x, x ∈ s.alpc.sections -> x.id ≠ 0 ->
    forall j, j < x.size -> byteAt s.mem (x.physAddr + j) = arrays x.id j

theorem sectionByte_page {pmm : PmmState} {x : AlpcSection} {j : Nat}
    (h : SectionValid pmm x) (hj : j < x.size) :
    (x.physAddr + j) / 4096 ∈ sectionFrames x := by
  have hphys := h.phys_aligned
  have hsize := h.size_aligned
  apply mem_pageRange.mpr
  show x.physAddr / 4096 <= _ ∧ _ < x.physAddr / 4096 + x.size / 4096
  lia

section Steps

variable {root : Nat} {earlier : List MapCall} {s s' : SectionRun}
  {arrays : SectionArrays}

theorem isTable_valid {leaf : List Index -> Nat} {mem : Nat -> Nat}
    (h : PageTables mem root leaf) {t : Nat} (ht : IsTable root mem t) :
    ValidFrame t := by
  rcases ht with ⟨path, hpath, ht⟩
  exact h.tree.valid path t hpath ht

theorem offTables_of_page {leaf : List Index -> Nat} {mem : Nat -> Nat}
    {a : Nat} (h : PageTables mem root leaf)
    (hpage : forall t, IsTable root mem t -> t / 4096 ≠ a / 4096) :
    OffTables root mem a := by
  intro t ht hinside
  have haligned := (isTable_valid h ht).left
  have hne := hpage t ht
  lia

theorem SharedInvariant.byte_off (h : SharedInvariant root earlier s arrays)
    {x : AlpcSection} (hx : x ∈ s.alpc.sections) (hne : x.id ≠ 0) {j : Nat}
    (hj : j < x.size) :
    OffTables root s.mem (wordAddr (x.physAddr + j)) := by
  refine offTables_of_page h.base.vmm.tables ?_
  intro t ht heq
  rw [wordAddr_page] at heq
  refine h.apart x hx hne t ht ?_
  rw [heq]
  exact sectionByte_page (h.base.table.valid x hx hne) hj

theorem SharedInvariant.byte_unique
    (h : SharedInvariant root earlier s arrays) {x y : AlpcSection}
    (hx : x ∈ s.alpc.sections) (hxid : x.id ≠ 0)
    (hy : y ∈ s.alpc.sections) (hyid : y.id ≠ 0) {i j : Nat}
    (hi : i < x.size) (hj : j < y.size)
    (heq : x.physAddr + i = y.physAddr + j) : x = y ∧ i = j := by
  by_cases hid : x.id = y.id
  · have hsame := h.base.table.unique x y hx hy hxid hid
    rw [hsame] at heq
    exact ⟨hsame, Nat.add_left_cancel heq⟩
  · have hdisjoint := h.base.table.apart x y hx hy hxid hyid hid
    have hxpage := sectionByte_page (h.base.table.valid x hx hxid) hi
    have hypage := sectionByte_page (h.base.table.valid y hy hyid) hj
    rw [heq] at hxpage
    exact absurd hypage (Finset.disjoint_left.mp hdisjoint hxpage)

/-- An access through a mapping comes to the section's own byte. -/
theorem mapping_address (hinv : SectionInvariant root earlier s)
    (hearlier : forall c, c ∈ earlier -> c.virt < sectionBase)
    {m : Mapping} (hm : m ∈ s.maps) {j : Nat} (hj : j < m.sec.size) :
    userAddress s.mem root (m.virt + j) = some (m.sec.physAddr + j) := by
  have halign := hinv.space.virt_aligned m hm
  rcases hinv.space.sections m hm with ⟨hsec, hne⟩
  have hvalid := hinv.table.valid m.sec hsec hne
  have hframe := sectionFrame hvalid hinv.table.total_lt hj
  have hflags : sectionFlags &&& (pageWritable ||| pageUser) =
      pageWritable ||| pageUser := by decide
  have hpage : callPage (pageCall m.virt m.sec.physAddr (j / 4096)) =
      (m.sec.physAddr + 4096 * (j / 4096), pageWritable ||| pageUser) := by
    unfold callPage pageCall
    dsimp only
    rw [hframe, hflags]
  unfold userAddress SectionRun.mem
  rw [hardwareWalk_lastCall hinv.vmm, mapping_lastCall hinv hearlier hm hj,
    Option.map_some, Option.bind_some, hpage, if_pos rfl]
  congr 1
  dsimp only
  lia

/-!
# Stores
-/

theorem sectionInvariant_withMem (h : SectionInvariant root earlier s)
    {mem : Nat -> Nat}
    (hsame : forall a, ¬ OffTables root s.mem a -> mem a = s.mem a) :
    SectionInvariant root earlier (s.withMem mem) := by
  refine ⟨?_, ?_, ?_⟩
  · exact h.table.grows rfl rfl (PmmGrows.refl _)
  · have hspace := h.space
    exact ⟨hspace.base_le, hspace.next_lt, hspace.aligned, hspace.created_ne,
      hspace.sections, hspace.start_le, hspace.end_le, hspace.virt_aligned,
      hspace.ordered⟩
  · exact ⟨pageTables_untouched h.vmm.tables hsame, h.vmm.calls⟩

theorem SharedInvariant.setByte (h : SharedInvariant root earlier s arrays)
    {p b : Nat} (hoff : OffTables root s.mem (wordAddr p))
    {arrays' : SectionArrays}
    (hbytes : forall x, x ∈ s.alpc.sections -> x.id ≠ 0 ->
      forall j, j < x.size ->
        byteAt (WordBytes.setByte s.mem p b) (x.physAddr + j) =
          arrays' x.id j) :
    SharedInvariant root earlier (s.withMem (WordBytes.setByte s.mem p b))
      arrays' := by
  have hsame : forall a, ¬ OffTables root s.mem a ->
      WordBytes.setByte s.mem p b a = s.mem a := by
    intro a ha
    refine setByte_word s.mem b ?_
    intro heq
    rw [heq] at ha
    exact ha hoff
  have htable := isTable_untouched hsame
  refine ⟨sectionInvariant_withMem h.base hsame, h.good, ?_, ?_, hbytes⟩
  · intro t ht
    exact h.marked t ((htable t).mp ht)
  · intro x hx hne t ht
    exact h.apart x hx hne t ((htable t).mp ht)

theorem sharedInvariant_store (h : SharedInvariant root earlier s arrays)
    {m : Mapping} (hm : m ∈ s.maps) {j b : Nat} (hj : j < m.sec.size)
    (hb : b < 256) :
    SharedInvariant root earlier
      (s.withMem (setByte s.mem (m.sec.physAddr + j) b))
      (update arrays m.sec.id
        (update (arrays m.sec.id) j b)) := by
  rcases h.base.space.sections m hm with ⟨hsec, hne⟩
  refine h.setByte (h.byte_off hsec hne hj) ?_
  intro x hx hxid i hi
  by_cases heq : x.physAddr + i = m.sec.physAddr + j
  · rcases h.byte_unique hx hxid hsec hne hi hj heq with ⟨hsame, hij⟩
    rw [heq, byteAt_setByte_self _ _ hb, hsame, hij, update_self,
      update_self]
  · rw [byteAt_setByte_other _ hb heq, h.bytes x hx hxid i hi]
    by_cases hid : x.id = m.sec.id
    · have hsame := h.base.table.unique x m.sec hx hsec hxid hid
      have hij : i ≠ j := by
        intro hij
        rw [hsame, hij] at heq
        exact heq rfl
      rw [hid, update_self, update_of_ne hij]
    · rw [update_of_ne hid]

theorem sharedInvariant_other (h : SharedInvariant root earlier s arrays)
    {p b : Nat} (hb : b < 256) (hoff : OffTables root s.mem p)
    (hpage : forall x, x ∈ s.alpc.sections -> x.id ≠ 0 ->
      p / 4096 ∉ sectionFrames x) :
    SharedInvariant root earlier (s.withMem (setByte s.mem p b)) arrays := by
  refine h.setByte ?_ ?_
  · refine offTables_of_page h.base.vmm.tables ?_
    intro t ht heq
    rw [wordAddr_page] at heq
    have haligned := (isTable_valid h.base.vmm.tables ht).left
    refine hoff t ht ?_
    lia
  · intro x hx hne j hj
    have hother : x.physAddr + j ≠ p := by
      intro heq
      refine hpage x hx hne ?_
      rw [← heq]
      exact sectionByte_page (h.base.table.valid x hx hne) hj
    rw [byteAt_setByte_other _ hb hother]
    exact h.bytes x hx hne j hj

/-!
# Calls
-/

theorem sharedInvariant_create (h : SharedInvariant root earlier s arrays)
    {alpc : SectionState} {tid size id : Nat} {r : AllocResult}
    (halloc : pmmAlloc s.alpc.vmm.frames (sectionPages size) = some r)
    (hgrant : GrantsPages s.alpc.vmm.frames (sectionPages size) r)
    (hcreate : alpcCreateSection s.alpc tid size = some (id, alpc))
    (hid : id ≠ 0) :
    SharedInvariant root earlier
      { s with alpc := alpc, created := s.created ++ [id] }
      (update arrays id (fun j => byteAt s.mem (r.ret + j))) := by
  have hbase := sectionInvariant_create h.base halloc hgrant hcreate hid
  have hgrows := pmmAlloc_grows halloc
  rcases alpcCreateSection_cases halloc hcreate hid with
    ⟨heq, sections, hfill, halpc⟩
  rw [halpc] at hbase ⊢
  have hmem : forall x, x ∈ sections ->
      x = newSection s.alpc r tid size ∨ x ∈ s.alpc.sections :=
    (fillSlot_spec hfill).right.left
  refine ⟨hbase, h.good.granted halloc hgrant, ?_, ?_, ?_⟩
  · intro t ht
    exact hgrows.set _ (h.marked t ht)
  · intro x hx hne t ht
    rcases hmem x hx with hnew | hold
    · -- the tables are marked, the pages of the section were free
      rw [hnew, sectionFrames_new]
      intro hpage
      have hfree := hgrant.free _ hpage
      have hmarked := h.marked t ht
      unfold frameMarked at hmarked
      rw [hfree] at hmarked
      cases hmarked
    · exact h.apart x hold hne t ht
  · intro x hx hne j hj
    rcases hmem x hx with hnew | hold
    · rw [hnew]
      show byteAt s.mem (r.ret + j) = update arrays id _
        s.alpc.nextSectionId j
      rw [heq, update_self]
    · have hlt := h.base.table.id_lt x hold
      have hother : x.id ≠ id := by lia
      rw [update_of_ne hother]
      exact h.bytes x hold hne j hj

theorem sharedInvariant_map (h : SharedInvariant root earlier s arrays)
    {alpc : SectionState} {sec : AlpcSection} {id virt : Nat}
    (hcreated : id ∈ s.created)
    (hfind : findSection id s.alpc.sections = some sec)
    (hend : s.alpc.nextSectionVirt + sec.size < 2 ^ 48)
    (hfresh : FreshPages pmmFrame root s.alpc.nextSectionVirt sec.physAddr
      sec.size mapFuel s.alpc.vmm 0)
    (hmap : alpcMapSection s.alpc root id = some (virt, alpc)) :
    SharedInvariant root earlier
      { s with
        alpc := alpc
        maps := s.maps ++ [{ sec := sec, virt := virt }] } arrays := by
  have hbase := sectionInvariant_map h.base hcreated hfind hend hfresh hmap
  rcases alpcMapSection_cases hfind hmap with ⟨hvirt, vmm, hpages, halpc⟩
  rcases findSection_spec hfind with ⟨hsec, hsid⟩
  have hne : sec.id ≠ 0 := by
    rw [hsid]
    exact h.base.space.created_ne id hcreated
  have hvalid := h.base.table.valid sec hsec hne
  have hsize := hvalid.size_aligned
  have hphys := hvalid.phys_aligned
  have hinside := hvalid.inside
  have htotal := h.base.table.total_lt
  have hrun := mapPages_runs (k := 0) (n := sec.size / 4096) (by lia) (by lia)
    (by lia) hfresh hpages
  have hfoot : MapFootprint PmmGood frameMarked root s.alpc.vmm vmm :=
    vmmRuns_footprint pmmFrame_marks h.base.vmm h.good hrun
  rw [halpc] at hbase ⊢
  have hapart : forall x, x ∈ s.alpc.sections -> x.id ≠ 0 ->
      forall t, IsTable root vmm.mem t -> t / 4096 ∉ sectionFrames x := by
    intro x hx hxid t ht
    by_cases hold : IsTable root s.alpc.vmm.mem t
    · exact h.apart x hx hxid t hold
    · intro hpage
      exact (hfoot.new t ht hold).right
        ((h.base.table.valid x hx hxid).taken _ hpage)
  refine ⟨hbase, hfoot.good, ?_, hapart, ?_⟩
  · intro t ht
    by_cases hold : IsTable root s.alpc.vmm.mem t
    · exact hfoot.keep t (h.marked t hold)
    · exact (hfoot.new t ht hold).left
  · intro x hx hxid j hj
    rw [← h.bytes x hx hxid j hj]
    refine byteAt_congr (hfoot.writes _ ?_)
    refine offTables_of_page hbase.vmm.tables ?_
    intro t ht heq
    rw [wordAddr_page] at heq
    refine hapart x hx hxid t ht ?_
    rw [heq]
    exact sectionByte_page (h.base.table.valid x hx hxid) hj

/-!
# Runs
-/

theorem sharedInvariant_step
    (hearlier : forall c, c ∈ earlier -> c.virt < sectionBase)
    (h : SharedInvariant root earlier s arrays) {event : SharedEvent}
    (hstep : SharedStep root s event s') :
    exists arrays', ArrayStep arrays event arrays' ∧
      SharedInvariant root earlier s' arrays' := by
  cases hstep with
  | alpc hstep =>
      cases hstep with
      | create hsize halloc hgrant hcreate hid =>
          exact ⟨_, ArrayStep.create _,
            sharedInvariant_create h halloc hgrant hcreate hid⟩
      | map hcreated hfind hend hfresh hmap =>
          exact ⟨_, ArrayStep.map,
            sharedInvariant_map h hcreated hfind hend hfresh hmap⟩
  | store hm hj hb hp =>
      rw [mapping_address h.base hearlier hm hj] at hp
      cases hp
      exact ⟨_, ArrayStep.store, sharedInvariant_store h hm hj hb⟩
  | load hm hj hp =>
      rw [mapping_address h.base hearlier hm hj] at hp
      cases hp
      rcases h.base.space.sections _ hm with ⟨hsec, hne⟩
      exact ⟨_, ArrayStep.load (h.bytes _ hsec hne _ hj).symm, h⟩
  | other hb hoff hpage =>
      exact ⟨_, ArrayStep.other, sharedInvariant_other h hb hoff hpage⟩

theorem sharedInvariant_init {boot vmm : VmmState PmmState}
    (hempty : EmptyRoot boot.mem root) (hroot : frameMarked boot.frames root)
    (hgood : PmmGood boot.frames)
    (hboot : (vmmSystem pmmFrame root).Runs boot earlier vmm) :
    SharedInvariant root earlier
      { alpc := alpcInit vmm, created := [], maps := [] } arrays := by
  have hstart : VmmInvariant root [] boot :=
    vmm_runs_invariant hempty (@Runs.nil _ _ (vmmSystem pmmFrame root) boot)
  have hvmm := vmm_runs_invariant hempty hboot
  have hfoot : MapFootprint PmmGood frameMarked root boot vmm :=
    vmmRuns_footprint pmmFrame_marks hstart hgood hboot
  have hslots : forall x, x ∈ (alpcInit vmm).sections -> x.id = 0 := by
    intro x hx
    rw [List.eq_of_mem_replicate hx]
    rfl
  refine ⟨sectionInvariant_init hfoot.good.total_lt hvmm, hfoot.good, ?_, ?_,
    ?_⟩
  · intro t ht
    by_cases hold : IsTable root boot.mem t
    · rcases hold with ⟨path, _, hpath⟩
      rw [(emptyRoot_tableAt hempty hpath).right]
      exact hfoot.keep root hroot
    · exact (hfoot.new t ht hold).left
  · intro x hx hne
    exact absurd (hslots x hx) hne
  · intro x hx hne
    exact absurd (hslots x hx) hne

end Steps

end Alpc
end Barium
