import Barium.Alpc.Sharing

/-!
# All calls on sections

Any calls of `alpc_create_section` and `alpc_map_section`, those that fail
included, while others take pages from the physical memory manager and give
theirs back.
-/

namespace Barium
namespace Alpc

open Foundation
open Pmm
open Vmm

/-- The sections, the pages that others hold, and the ids that
`alpc_create_section` has returned. -/
structure CallRun where
  alpc : SectionState
  owned : Finset Nat
  returned : List Nat

inductive CallEvent where
  | create (size id : Nat)
  | map (id virt : Nat)
  | alloc (count ret : Nat)
  | free (ptr count : Nat)

def withFrames (a : SectionState) (pmm : PmmState) : SectionState :=
  { a with vmm := { a.vmm with frames := pmm } }

inductive CallStep (root : Nat) : CallRun -> CallEvent -> CallRun -> Prop where
  | create {s : CallRun} {alpc : SectionState} {tid size id : Nat} :
      size < 2 ^ 64 -> alpcCreateSection s.alpc tid size = some (id, alpc) ->
      CallStep root s (CallEvent.create size id)
        { s with
          alpc := alpc
          returned := if id = 0 then s.returned else s.returned ++ [id] }
  | map {s : CallRun} {alpc : SectionState} {id virt : Nat} :
      alpcMapSection s.alpc root id = some (virt, alpc) ->
      CallStep root s (CallEvent.map id virt) { s with alpc := alpc }
  | alloc {s : CallRun} {count : Nat} {r : AllocResult} :
      pmmAlloc s.alpc.vmm.frames count = some r ->
      CallStep root s (CallEvent.alloc count r.ret)
        { s with
          alpc := withFrames s.alpc r.state
          owned := s.owned ∪ r.set.toFinset }
  | free {s : CallRun} {ptr count : Nat} :
      ptr < 2 ^ 64 -> pageRange ptr count ⊆ s.owned ->
      CallStep root s (CallEvent.free ptr count)
        { s with
          alpc := withFrames s.alpc (pmmFree s.alpc.vmm.frames ptr count)
          owned := s.owned \ pageRange ptr count }

def callStart (vmm : VmmState PmmState) : CallRun where
  alpc := alpcInit vmm
  owned := ∅
  returned := []

def callSystem (root : Nat) (vmm : VmmState PmmState) :
    TransitionSystem CallRun CallEvent where
  Init := fun s => s = callStart vmm
  Step := CallStep root

/-!
# One call of the memory manager
-/

section Frames

variable {s : PmmState} {count limit : Nat}

theorem scan_found {fuel i j : Nat} {tested : List Nat}
    (h : scan s count limit fuel i = some (some j, tested)) :
    j < limit ∧ forall k, k < count -> bitmapTest s (Word.add j k) = false := by
  induction fuel generalizing i tested with
  | zero => cases h
  | succ fuel ih =>
      rw [scan] at h
      by_cases hlt : i < limit
      · rw [if_pos hlt] at h
        rcases hrun : testRun s i count 0 with ⟨blocked, tested'⟩
        rw [hrun] at h
        cases blocked with
        | none =>
            cases h
            refine ⟨hlt, ?_⟩
            intro k hk
            exact (testRun_none hrun).left k (Nat.zero_le k) (by lia)
        | some m =>
            rcases Option.map_eq_some_iff.mp h with ⟨⟨found, rest⟩, hscan, heq⟩
            cases heq
            exact ih hscan
      · rw [if_neg hlt] at h
        cases h

/-- A page that a scan of `pmm_alloc` may come to, with `count` clear pages from
there on in 64-bit arithmetic. -/
structure ClearRun (s : PmmState) (count i : Nat) : Prop where
  start : i < Word.sub s.totalPages count ∨ i < s.lastSearchIndex
  clear : forall k, k < count -> bitmapTest s (Word.add i k) = false

theorem pmmAlloc_found {r : AllocResult} (h : pmmAlloc s count = some r) :
    (exists i tested, r = allocFound s i count tested ∧ ClearRun s count i) ∨
      (r.ret = 0 ∧ r.state = s ∧ r.set = []) := by
  rcases Option.bind_eq_some_iff.mp h with ⟨⟨found, tested⟩, hscan, hrest⟩
  cases found with
  | some i =>
      cases hrest
      rcases scan_found hscan with ⟨hlt, hclear⟩
      exact Or.inl ⟨i, tested, rfl, Or.inl hlt, hclear⟩
  | none =>
      rcases Option.bind_eq_some_iff.mp hrest with
        ⟨⟨found', tested'⟩, hscan', hlast⟩
      cases found' with
      | some i =>
          cases hlast
          rcases scan_found hscan' with ⟨hlt, hclear⟩
          exact Or.inl ⟨i, tested ++ tested', rfl, Or.inr hlt, hclear⟩
      | none =>
          cases hlast
          exact Or.inr ⟨rfl, rfl, rfl⟩

/-- The counters of the memory manager are 64-bit words. -/
structure PmmWords (s : PmmState) : Prop where
  last_lt : s.lastSearchIndex < 2 ^ 64
  free_lt : s.freePages < 2 ^ 64

theorem PmmWords.alloc (hwords : PmmWords s) {r : AllocResult}
    (h : pmmAlloc s count = some r) : PmmWords r.state := by
  rcases pmmAlloc_found h with ⟨i, tested, hr, _⟩ | ⟨_, hsame, _⟩
  · rcases setRun_spec s i count 0 with ⟨ram, heq, _⟩
    rw [hr]
    show PmmWords (takeRun s i count)
    unfold takeRun
    rw [heq]
    exact ⟨Word.add_lt _ _, Word.sub_lt _ _⟩
  · rw [hsame]
    exact hwords

theorem PmmWords.free (hwords : PmmWords s) (ptr count : Nat) :
    PmmWords (pmmFree s ptr count) := by
  rcases clearPages_spec s (ptr / pageSize) count 0 hwords.free_lt with
    ⟨ram, heq, _⟩
  show PmmWords (clearPages s (ptr / pageSize) count 0)
  rw [heq]
  exact ⟨hwords.last_lt, Word.add_lt _ _⟩

theorem pmmFrame_words {s' : PmmState} {f : Nat}
    (h : pmmFrame s = some (f, s')) (hwords : PmmWords s) : PmmWords s' := by
  rcases Option.map_eq_some_iff.mp h with ⟨r, hrun, heq⟩
  cases heq
  exact hwords.alloc hrun

theorem mapPages_words {pml4 virt phys size fuel j : Nat}
    {v v' : VmmState PmmState}
    (h : mapPages pmmFrame pml4 virt phys size fuel v j = some v') :
    PmmWords v.frames -> PmmWords v'.frames :=
  mapPages_frames (R := fun a b => PmmWords a -> PmmWords b) (fun _ h => h)
    (fun hab hbc h => hbc (hab h)) (fun _ _ _ halloc => pmmFrame_words halloc)
    h

end Frames

/-!
# The table
-/

def TableFull (a : SectionState) : Prop :=
  forall x, x ∈ a.sections -> x.id ≠ 0

theorem fillSlot_eq_none_iff {sec : AlpcSection} {slots : List AlpcSection} :
    fillSlot sec slots = none <-> forall x, x ∈ slots -> x.id ≠ 0 := by
  induction slots with
  | nil =>
      constructor
      · intro _ x hx
        cases hx
      · intro _
        rfl
  | cons slot rest ih =>
      rw [List.forall_mem_cons, fillSlot]
      by_cases hfree : slot.id = 0
      · rw [if_pos hfree]
        constructor
        · intro h
          cases h
        · intro h
          exact absurd hfree h.left
      · rw [if_neg hfree, Option.map_eq_none_iff, ih]
        exact ⟨fun h => ⟨hfree, h⟩, fun h => h.right⟩

theorem findSection_eq_none_iff {id : Nat} {slots : List AlpcSection} :
    findSection id slots = none <-> forall x, x ∈ slots -> x.id ≠ id := by
  induction slots with
  | nil =>
      constructor
      · intro _ x hx
        cases hx
      · intro _
        rfl
  | cons slot rest ih =>
      rw [List.forall_mem_cons, findSection]
      by_cases hsame : slot.id = id
      · rw [if_pos hsame]
        constructor
        · intro h
          cases h
        · intro h
          exact absurd hsame h.left
      · rw [if_neg hsame, ih]
        exact ⟨fun h => ⟨hsame, h⟩, fun h => h.right⟩

/-- The record that `alpc_create_section` stores. -/
def newSection (a : SectionState) (r : AllocResult) (tid size : Nat) :
    AlpcSection where
  id := a.nextSectionId
  physAddr := r.ret
  size := Word.mul (sectionPages size) 4096
  ownerTid := tid

def counted (a : SectionState) (r : AllocResult) : SectionState :=
  { a with
    nextSectionId := Word.add a.nextSectionId 1
    vmm := { a.vmm with frames := r.state } }

inductive Created (a : SectionState) (tid size : Nat) (r : AllocResult) :
    Nat -> SectionState -> Prop where
  | stored {sections : List AlpcSection} :
      fillSlot (newSection a r tid size) a.sections = some sections ->
      Created a tid size r a.nextSectionId
        { counted a r with sections := sections }
  | refused :
      TableFull a -> Created a tid size r 0 (counted a r)

theorem alpcCreateSection_created {a a' : SectionState} {tid size id : Nat}
    (h : alpcCreateSection a tid size = some (id, a')) :
    exists r, pmmAlloc a.vmm.frames (sectionPages size) = some r ∧
      Created a tid size r id a' := by
  rcases Option.bind_eq_some_iff.mp h with ⟨r, halloc, hrest⟩
  refine ⟨r, halloc, ?_⟩
  simp only at hrest
  split at hrest
  · rename_i sections hfill
    cases hrest
    exact Created.stored hfill
  · rename_i hfill
    cases hrest
    exact Created.refused (fillSlot_eq_none_iff.mp hfill)

/-- As long as there is room, the ids are counted from 1 on. -/
structure NextId (a : SectionState) : Prop where
  pos : 1 <= a.nextSectionId
  slots : a.nextSectionId + a.sections.countP (fun x => x.id = 0) =
    sectionSlots + 1
  id_lt : forall x, x ∈ a.sections -> x.id < a.nextSectionId

structure SlotInvariant (s : CallRun) : Prop where
  words : PmmWords s.alpc.vmm.frames
  empty : forall x, x ∈ s.alpc.sections -> x.id = 0 -> x = emptySection
  sizes : forall x, x ∈ s.alpc.sections -> exists n, x.size = 4096 * n ∧
    x.size < 2 ^ 64
  ids : TableFull s.alpc ∨ NextId s.alpc
  unique : forall x y, x ∈ s.alpc.sections -> y ∈ s.alpc.sections ->
    x.id ≠ 0 -> x.id = y.id -> x = y
  returned_iff : forall id, id ∈ s.returned <->
    id ≠ 0 ∧ exists x, x ∈ s.alpc.sections ∧ x.id = id

section Slots

variable {s : CallRun}

theorem slotInvariant_init {vmm : VmmState PmmState}
    (hwords : PmmWords vmm.frames) : SlotInvariant (callStart vmm) := by
  have hempty : forall x, x ∈ (callStart vmm).alpc.sections ->
      x = emptySection :=
    fun x hx => List.eq_of_mem_replicate hx
  constructor
  · exact hwords
  · intro x hx _
    exact hempty x hx
  · intro x hx
    rw [hempty x hx]
    exact ⟨0, rfl, Nat.two_pow_pos 64⟩
  · right
    constructor
    · exact Nat.le_refl 1
    · rfl
    · intro x hx
      rw [hempty x hx]
      exact Nat.one_pos
  · intro x y hx hy _ _
    rw [hempty x hx, hempty y hy]
  · intro id
    constructor
    · intro hid
      cases hid
    · intro hid
      rcases hid with ⟨hne, x, hx, heq⟩
      rw [hempty x hx] at heq
      exact absurd heq.symm hne

theorem newSection_size (a : SectionState) (r : AllocResult) (tid size : Nat) :
    (newSection a r tid size).size = 4096 * sectionPages size ∧
      (newSection a r tid size).size < 2 ^ 64 := by
  refine ⟨sectionPages_size size, ?_⟩
  exact Nat.mod_lt _ (Nat.two_pow_pos 64)

theorem NextId.stored {a : SectionState} {r : AllocResult} {tid size : Nat}
    {sections : List AlpcSection} (h : NextId a)
    (hfill : fillSlot (newSection a r tid size) a.sections = some sections) :
    NextId { counted a r with sections := sections } := by
  have hpos := h.pos
  have hslots := h.slots
  unfold sectionSlots at hslots
  have hne : (newSection a r tid size).id ≠ 0 := Nat.ne_of_gt hpos
  rcases fillSlot_spec hfill with ⟨_, hback, _, hcount⟩
  have hfewer := hcount hne
  have hbump : Word.add a.nextSectionId 1 = a.nextSectionId + 1 :=
    Word.add_of_lt (by lia)
  constructor
  · show 1 <= Word.add a.nextSectionId 1
    rw [hbump]
    lia
  · show Word.add a.nextSectionId 1 + sections.countP _ = 64 + 1
    rw [hbump]
    lia
  · intro x hx
    show x.id < Word.add a.nextSectionId 1
    rw [hbump]
    rcases hback x hx with heq | hold
    · rw [heq]
      exact Nat.lt_succ_self a.nextSectionId
    · exact Nat.lt_succ_of_lt (h.id_lt x hold)

theorem slotInvariant_stored {r : AllocResult} {tid size : Nat}
    {sections : List AlpcSection} (h : SlotInvariant s)
    (halloc : pmmAlloc s.alpc.vmm.frames (sectionPages size) = some r)
    (hfill : fillSlot (newSection s.alpc r tid size) s.alpc.sections =
      some sections) :
    s.alpc.nextSectionId ≠ 0 ∧ s.alpc.nextSectionId ∉ s.returned ∧
      SlotInvariant
        { s with
          alpc := { counted s.alpc r with sections := sections }
          returned := s.returned ++ [s.alpc.nextSectionId] } := by
  have hnext : NextId s.alpc := by
    rcases h.ids with hfull | hnext
    · rw [fillSlot_eq_none_iff.mpr hfull] at hfill
      cases hfill
    · exact hnext
  have hne : s.alpc.nextSectionId ≠ 0 := Nat.ne_of_gt hnext.pos
  have hnew : forall x, x ∈ s.alpc.sections -> x.id ≠ s.alpc.nextSectionId :=
    fun x hx => Nat.ne_of_lt (hnext.id_lt x hx)
  rcases fillSlot_spec hfill with ⟨hmem, hback, hkeep, _⟩
  refine ⟨hne, ?_, ?_⟩
  · intro hid
    rcases (h.returned_iff _).mp hid with ⟨_, x, hx, heq⟩
    exact hnew x hx heq
  · constructor
    · exact h.words.alloc halloc
    · intro x hx hid
      rcases hback x hx with heq | hold
      · rw [heq] at hid
        exact absurd hid hne
      · exact h.empty x hold hid
    · intro x hx
      rcases hback x hx with heq | hold
      · rw [heq]
        exact ⟨_, newSection_size s.alpc r tid size⟩
      · exact h.sizes x hold
    · exact Or.inr (hnext.stored hfill)
    · intro x y hx hy hid heq
      rcases hback x hx with hxs | hxold
      · rcases hback y hy with hys | hyold
        · rw [hxs, hys]
        · rw [hxs] at heq
          exact absurd heq.symm (hnew y hyold)
      · rcases hback y hy with hys | hyold
        · rw [hys] at heq
          exact absurd heq (hnew x hxold)
        · exact h.unique x y hxold hyold hid heq
    · intro id
      rw [List.mem_append, List.mem_singleton, h.returned_iff]
      constructor
      · intro hid
        rcases hid with ⟨hid, x, hx, heq⟩ | heq
        · exact ⟨hid, x, hkeep x hx (heq ▸ hid), heq⟩
        · rw [heq]
          exact ⟨hne, _, hmem, rfl⟩
      · intro hid
        rcases hid with ⟨hid, x, hx, heq⟩
        rcases hback x hx with hxs | hold
        · right
          rw [← heq, hxs]
          rfl
        · exact Or.inl ⟨hid, x, hold, heq⟩

theorem SlotInvariant.same (h : SlotInvariant s) {alpc : SectionState}
    (owned : Finset Nat) (hsections : alpc.sections = s.alpc.sections)
    (hids : TableFull s.alpc ∨ alpc.nextSectionId = s.alpc.nextSectionId)
    (hwords : PmmWords alpc.vmm.frames) :
    SlotInvariant { s with alpc := alpc, owned := owned } := by
  constructor
  · exact hwords
  · rw [hsections]
    exact h.empty
  · rw [hsections]
    exact h.sizes
  · rcases hids with hfull | hid
    · left
      unfold TableFull
      rw [hsections]
      exact hfull
    · rcases h.ids with hfull | hnext
      · left
        unfold TableFull
        rw [hsections]
        exact hfull
      · right
        constructor
        · rw [hid]
          exact hnext.pos
        · rw [hid, hsections]
          exact hnext.slots
        · rw [hid, hsections]
          exact hnext.id_lt
  · rw [hsections]
    exact h.unique
  · rw [hsections]
    exact h.returned_iff

theorem slotInvariant_map {alpc : SectionState} {root id virt : Nat}
    (h : SlotInvariant s)
    (hrun : alpcMapSection s.alpc root id = some (virt, alpc)) :
    SlotInvariant { s with alpc := alpc } := by
  cases hfind : findSection id s.alpc.sections with
  | none =>
      unfold alpcMapSection at hrun
      rw [hfind] at hrun
      cases hrun
      exact h
  | some sec =>
      rcases alpcMapSection_cases hfind hrun with ⟨_, vmm, hloop, heq⟩
      rw [heq]
      exact h.same s.owned rfl (Or.inr rfl) (mapPages_words hloop h.words)

theorem slotInvariant_step {root : Nat} {event : CallEvent} {s' : CallRun}
    (h : SlotInvariant s) (hstep : CallStep root s event s') :
    SlotInvariant s' := by
  cases hstep with
  | create _ hrun =>
      rcases alpcCreateSection_created hrun with ⟨r, halloc, hcreated⟩
      cases hcreated with
      | stored hfill =>
          rcases slotInvariant_stored h halloc hfill with ⟨hne, _, hinv⟩
          rw [if_neg hne]
          exact hinv
      | refused hfull =>
          rw [if_pos rfl]
          exact h.same s.owned rfl (Or.inl hfull) (h.words.alloc halloc)
  | map hrun => exact slotInvariant_map h hrun
  | alloc halloc => exact h.same _ rfl (Or.inr rfl) (h.words.alloc halloc)
  | free _ _ => exact h.same _ rfl (Or.inr rfl) (h.words.free _ _)

theorem slotInvariant_reachable {root : Nat} {vmm : VmmState PmmState}
    (hwords : PmmWords vmm.frames)
    (hreach : (callSystem root vmm).Reachable s) : SlotInvariant s := by
  apply TransitionSystem.reachable_invariant _ _ hreach
  · intro t ht
    rw [show t = callStart vmm from ht]
    exact slotInvariant_init hwords
  · intro t event u ht hstep
    exact slotInvariant_step ht hstep

end Slots

theorem smallPool_words : PmmWords smallTables.frames :=
  ⟨by decide, by decide⟩

theorem callStart_reachable (root : Nat) (vmm : VmmState PmmState) :
    (callSystem root vmm).Reachable (callStart vmm) :=
  ⟨callStart vmm, [], rfl, TransitionSystem.Runs.nil _⟩

theorem smallPool_create : exists tested,
    alpcCreateSection (callStart smallTables).alpc 0 1 =
      some (1, firstState (allocFound smallPool smallPool.lastSearchIndex 1
        tested)) := by
  rcases smallPool_freeTail.alloc (Nat.le_refl 1) with ⟨tested, halloc⟩
  refine ⟨tested, ?_⟩
  unfold alpcCreateSection
  rw [show pmmAlloc (callStart smallTables).alpc.vmm.frames
    (sectionPages 1) = _ from halloc]
  rfl

end Alpc
end Barium
