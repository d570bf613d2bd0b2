import Barium.Boot
import Barium.Foundation.Ledger

/-!
# One owner for each frame

After boot the frames go to page tables, to sections and to callers of
`pmm_alloc`; some are kept by the kernel from the start.  The bitmap tells only
that a frame is in use.  Through every sequence of calls no frame comes to two
owners.
-/

namespace Barium
namespace Boot

open Foundation
open Foundation.Ledger
open TransitionSystem
open Pmm
open Vmm
open Alpc

/-- The low memory, the bitmap, what is not memory at all, and the heap belong
to the kernel. -/
inductive Owner where
  | kernel
  | table
  | shared (id : Nat)
  | caller
  deriving DecidableEq

inductive OwnerEvent where
  | call (event : CallEvent)
  | page (c : MapCall)

/-- Requests are met inside the memory, and the frames do not run out while
pages are mapped. -/
def Regular (root : Nat) (s : CallRun) : CallEvent -> Prop
  | .create size _ =>
      1 <= sectionPages size -> BackedRequest s.alpc.vmm.frames size
  | .map id _ =>
      forall sec, findSection id s.alpc.sections = some sec ->
        s.alpc.nextSectionVirt + sec.size < 2 ^ 48 ∧
          FreshPages pmmFrame root s.alpc.nextSectionVirt sec.physAddr
            sec.size mapFuel s.alpc.vmm 0
  | .alloc count _ =>
      1 <= count ∧ SafeRequest s.alpc.vmm.frames count
  | .free _ _ => True

inductive OwnerStep (root : Nat) : CallRun -> OwnerEvent -> CallRun -> Prop where
  | call {s s' : CallRun} {event : CallEvent} :
      CallStep root s event s' -> Regular root s event ->
      OwnerStep root s (OwnerEvent.call event) s'
  -- `apic_init` and the shell map single pages
  | page {s : CallRun} {vmm : VmmState PmmState} {c : MapCall} :
      VmmStep pmmFrame root s.alpc.vmm c vmm ->
      OwnerStep root s (OwnerEvent.page c)
        { s with alpc := { s.alpc with vmm := vmm } }

def ownerSystem (b : BootMemory) : TransitionSystem CallRun OwnerEvent where
  Init := fun s => s = callStart b.vmm
  Step := OwnerStep b.pml4

structure OneOwner (root : Nat) (kept : Nat -> Prop) (s : CallRun)
    (owner : Nat -> Option Owner) : Prop where
  kept : forall p, kept p -> owner p = some Owner.kernel
  tables : forall t, IsTable root s.alpc.vmm.mem t ->
    owner (t / 4096) = some Owner.table
  sections : forall x, x ∈ s.alpc.sections -> forall p,
    p ∈ sectionFrames x -> owner p = some (Owner.shared x.id)
  callers : forall p, p ∈ s.owned -> owner p = some Owner.caller
  used : forall p, owner p ≠ none -> bitmapTest s.alpc.vmm.frames p = true

structure OwnerInvariant (root : Nat) (kept : Nat -> Prop) (s : CallRun)
    (owner : Nat -> Option Owner) : Prop where
  one : OneOwner root kept s owner
  good : PmmGood s.alpc.vmm.frames
  words : PmmWords s.alpc.vmm.frames
  calls : exists trace, VmmInvariant root trace s.alpc.vmm
  inside : forall x, x ∈ s.alpc.sections -> exists n, x.size = 4096 * n ∧
    x.physAddr + x.size <= 2 ^ 64
  owned_lt : forall p, p ∈ s.owned -> p < 2 ^ 64

section Steps

variable {root : Nat} {kept : Nat -> Prop} {s : CallRun}
  {owner : Nat -> Option Owner}

theorem OwnerInvariant.grow (h : OwnerInvariant root kept s owner)
    {vmm : VmmState PmmState} (virt : Nat)
    (hfoot : MapFootprint PmmGood frameMarked root s.alpc.vmm vmm)
    (hwords : PmmWords vmm.frames)
    (hcalls : exists trace, VmmInvariant root trace vmm) :
    exists owner', OwnerInvariant root kept
      { s with alpc := { s.alpc with nextSectionVirt := virt, vmm := vmm } }
      owner' := by
  have hfree : forall p, (exists t, IsTable root vmm.mem t ∧
      ¬ IsTable root s.alpc.vmm.mem t ∧ t / 4096 = p) ->
      ¬ bitmapTest s.alpc.vmm.frames p = true := by
    rintro p ⟨t, ht, hold, rfl⟩
    exact (hfoot.new t ht hold).right
  have hset : forall p, bitmapTest s.alpc.vmm.frames p = true ->
      bitmapTest vmm.frames p = true :=
    fun _ => keeps_page hfoot.keep
  refine ⟨give owner (fun p => exists t, IsTable root vmm.mem t ∧
    ¬ IsTable root s.alpc.vmm.mem t ∧ t / 4096 = p) Owner.table,
    ⟨?_, ?_, ?_, ?_, ?_⟩, hfoot.good, hwords, hcalls, h.inside, h.owned_lt⟩
  · intro p hp
    exact give_keep h.one.used hfree (h.one.kept p hp)
  · intro t ht
    by_cases hold : IsTable root s.alpc.vmm.mem t
    · exact give_keep h.one.used hfree (h.one.tables t hold)
    · exact give_taken ⟨t, ht, hold, rfl⟩
  · intro x hx p hp
    exact give_keep h.one.used hfree (h.one.sections x hx p hp)
  · intro p hp
    exact give_keep h.one.used hfree (h.one.callers p hp)
  · intro p hp
    rcases give_cases hp with ⟨t, ht, hold, rfl⟩ | hbefore
    · exact (hfoot.new t ht hold).left
    · exact hset p (h.one.used p hbefore)

theorem ownerInvariant_page (h : OwnerInvariant root kept s owner)
    {vmm : VmmState PmmState} {c : MapCall}
    (hstep : VmmStep pmmFrame root s.alpc.vmm c vmm) :
    exists owner', OwnerInvariant root kept
      { s with alpc := { s.alpc with vmm := vmm } } owner' := by
  rcases h.calls with ⟨trace, hinv⟩
  have hrun := runs_single (T := vmmSystem pmmFrame root) hstep
  cases hstep with
  | map hvalid hfresh hmap =>
      have hwords : PmmWords vmm.frames :=
        vmmMap_frames (R := fun a b => PmmWords a -> PmmWords b) (fun _ h => h)
          (fun hab hbc h => hbc (hab h))
          (fun _ _ _ halloc => pmmFrame_words halloc) hmap h.words
      exact h.grow s.alpc.nextSectionVirt
        (vmmRuns_footprint pmmFrame_marks hinv h.good hrun) hwords
        ⟨_, vmmInvariant_runs hinv hrun⟩

theorem ownerInvariant_map (h : OwnerInvariant root kept s owner)
    {alpc : SectionState} {id virt : Nat}
    (hrun : alpcMapSection s.alpc root id = some (virt, alpc))
    (hregular : Regular root s (CallEvent.map id virt)) :
    exists owner', OwnerInvariant root kept { s with alpc := alpc } owner' := by
  cases hfind : findSection id s.alpc.sections with
  | none =>
      unfold alpcMapSection at hrun
      rw [hfind] at hrun
      cases hrun
      exact ⟨owner, h⟩
  | some sec =>
      rcases hregular sec hfind with ⟨hend, hfresh⟩
      rcases alpcMapSection_cases hfind hrun with ⟨_, vmm, hpages, halpc⟩
      rcases h.inside sec (findSection_spec hfind).left with
        ⟨n, hsize, hphys⟩
      rcases h.calls with ⟨trace, hinv⟩
      have hpages0 : sec.size = 4096 * (0 + n) := by lia
      have hruns := mapPages_runs hpages0 (by lia) hphys hfresh hpages
      rw [halpc]
      exact h.grow _ (vmmRuns_footprint pmmFrame_marks hinv h.good hruns)
        (mapPages_words hpages h.words) ⟨_, vmmInvariant_runs hinv hruns⟩

theorem pmmGood_of_safe {pmm : PmmState} {count : Nat} {r : AllocResult}
    (h : PmmGood pmm) (hpos : 1 <= count) (hsafe : SafeRequest pmm count)
    (hrun : pmmAlloc pmm count = some r) : PmmGood r.state := by
  have htotal := (pmmAlloc_takesSet hrun).total_eq
  rcases staysInside_of_safe h.total_lt h.last_le hpos hsafe with
    ⟨r', hrun', hinside⟩
  rw [hrun] at hrun'
  cases hrun'
  refine ⟨?_, ?_, ?_⟩
  · rw [htotal]
    exact h.total_pos
  · rw [htotal]
    exact h.total_lt
  · rw [htotal]
    exact hinside.last_le

theorem ownerInvariant_alloc (h : OwnerInvariant root kept s owner)
    {count : Nat} {r : AllocResult}
    (hrun : pmmAlloc s.alpc.vmm.frames count = some r)
    (hpos : 1 <= count) (hsafe : SafeRequest s.alpc.vmm.frames count) :
    exists owner', OwnerInvariant root kept
      { s with
        alpc := withFrames s.alpc r.state
        owned := s.owned ∪ r.set.toFinset } owner' := by
  have htakes := pmmAlloc_takesSet hrun
  rcases h.calls with ⟨trace, hinv⟩
  have hfree : forall p, p ∈ r.set ->
      ¬ bitmapTest s.alpc.vmm.frames p = true := by
    intro p hp
    rw [htakes.clear p hp]
    decide
  refine ⟨give owner (fun p => p ∈ r.set) Owner.caller, ⟨?_, ?_, ?_, ?_, ?_⟩,
    pmmGood_of_safe h.good hpos hsafe hrun, h.words.alloc hrun,
    ⟨trace, hinv.tables, hinv.calls⟩, h.inside, ?_⟩
  · intro p hp
    exact give_keep h.one.used hfree (h.one.kept p hp)
  · intro t ht
    exact give_keep h.one.used hfree (h.one.tables t ht)
  · intro x hx p hp
    exact give_keep h.one.used hfree (h.one.sections x hx p hp)
  · intro p hp
    rcases Finset.mem_union.mp hp with hold | hnew
    · exact give_keep h.one.used hfree (h.one.callers p hold)
    · exact give_taken (List.mem_toFinset.mp hnew)
  · intro p hp
    refine (htakes.bits p).mpr ?_
    rcases give_cases hp with hnew | hold
    · exact Or.inl hnew
    · exact Or.inr (h.one.used p hold)
  · intro p hp
    rcases Finset.mem_union.mp hp with hold | hnew
    · exact h.owned_lt p hold
    · exact htakes.lt p (List.mem_toFinset.mp hnew)

theorem ownerInvariant_free (h : OwnerInvariant root kept s owner)
    {ptr count : Nat} (hptr : ptr < 2 ^ 64)
    (howned : pageRange ptr count ⊆ s.owned) :
    exists owner', OwnerInvariant root kept
      { s with
        alpc := withFrames s.alpc (pmmFree s.alpc.vmm.frames ptr count)
        owned := s.owned \ pageRange ptr count } owner' := by
  have hfrees := pmmFree_owned h.words h.owned_lt hptr howned
  rcases h.calls with ⟨trace, hinv⟩
  have hown : forall p, p ∈ pageRange ptr count ->
      owner p = some Owner.caller := fun p hp => h.one.callers p (howned hp)
  refine ⟨release owner (fun p => p ∈ pageRange ptr count),
    ⟨?_, ?_, ?_, ?_, ?_⟩, ?_, h.words.free _ _,
    ⟨trace, hinv.tables, hinv.calls⟩, h.inside, ?_⟩
  · intro p hp
    exact release_keep hown (h.one.kept p hp) (by decide)
  · intro t ht
    exact release_keep hown (h.one.tables t ht) (by decide)
  · intro x hx p hp
    exact release_keep hown (h.one.sections x hx p hp) (by simp)
  · intro p hp
    rcases Finset.mem_sdiff.mp hp with ⟨hin, hout⟩
    rw [release_other hout]
    exact h.one.callers p hin
  · intro p hp
    rcases release_cases hp with ⟨hout, hold⟩
    exact hfrees.keep p hout (h.one.used p hold)
  · exact h.good.freed hfrees
  · intro p hp
    exact h.owned_lt p (Finset.mem_sdiff.mp hp).left

structure CreateFacts (size : Nat) (r : AllocResult) : Prop where
  good : PmmGood r.state
  pages : forall p, p ∈ pageRange r.ret (sectionPages size) -> p ∈ r.set
  end_le : r.ret + 4096 * sectionPages size <= 2 ^ 64

theorem createFacts {pmm : PmmState} {size : Nat} {r : AllocResult}
    (hgood : PmmGood pmm)
    (hback : 1 <= sectionPages size -> BackedRequest pmm size)
    (hrun : pmmAlloc pmm (sectionPages size) = some r) :
    CreateFacts size r := by
  have htotal := hgood.total_lt
  by_cases hpos : 1 <= sectionPages size
  · have hrequest := hback hpos
    have hsize : 1 <= size := by
      by_contra hzero
      have hnone : size = 0 := by lia
      rw [hnone] at hpos
      exact absurd hpos (by decide)
    rcases hrequest.pages htotal hsize hrun with ⟨_, hinside, hpages⟩
    have haligned := pmmAlloc_ret_aligned hrun
    refine ⟨pmmGood_of_safe hgood hpos hrequest.run.safe hrun,
      fun p hp => (hpages p).mp hp, ?_⟩
    unfold pageSize at hinside haligned
    lia
  · have hzero : sectionPages size = 0 := by lia
    rw [hzero] at hrun
    have hempty : forall p, p ∉ pageRange r.ret (sectionPages size) := by
      intro p hp
      rw [hzero, mem_pageRange] at hp
      lia
    rcases pmmAlloc_found hrun with ⟨i, tested, hr, hfound⟩ | ⟨hret, hstate, _⟩
    · have hlt := hgood.found_lt (Nat.zero_le _) hfound
      refine ⟨?_, fun p hp => absurd hp (hempty p), ?_⟩
      · rw [hr]
        exact hgood.taken hlt.le
      · have hword : r.ret < 2 ^ 64 := by
          rw [hr]
          exact Nat.mod_lt _ (by decide)
        lia
    · refine ⟨?_, fun p hp => absurd hp (hempty p), ?_⟩
      · rw [hstate]
        exact hgood
      · lia

theorem ownerInvariant_create (h : OwnerInvariant root kept s owner)
    {alpc : SectionState} {tid size id : Nat} {returned : List Nat}
    (hrun : alpcCreateSection s.alpc tid size = some (id, alpc))
    (hback : 1 <= sectionPages size -> BackedRequest s.alpc.vmm.frames size) :
    exists owner', OwnerInvariant root kept
      { s with alpc := alpc, returned := returned } owner' := by
  rcases alpcCreateSection_created hrun with ⟨r, halloc, hcreated⟩
  have hfacts := createFacts h.good hback halloc
  have htakes := pmmAlloc_takesSet halloc
  rcases h.calls with ⟨trace, hinv⟩
  have hfree : forall p, p ∈ r.set ->
      ¬ bitmapTest s.alpc.vmm.frames p = true := by
    intro p hp
    rw [htakes.clear p hp]
    decide
  cases hcreated with
  | stored hfill =>
      have hmem := (fillSlot_spec hfill).right.left
      refine ⟨give owner (fun p => p ∈ r.set)
        (Owner.shared s.alpc.nextSectionId), ⟨?_, ?_, ?_, ?_, ?_⟩,
        hfacts.good, h.words.alloc halloc, ⟨trace, hinv.tables, hinv.calls⟩,
        ?_, h.owned_lt⟩
      · intro p hp
        exact give_keep h.one.used hfree (h.one.kept p hp)
      · intro t ht
        exact give_keep h.one.used hfree (h.one.tables t ht)
      · intro x hx p hp
        rcases hmem x hx with hnew | hold
        · rw [hnew, sectionFrames_new] at hp
          rw [hnew]
          exact give_taken (hfacts.pages p hp)
        · exact give_keep h.one.used hfree (h.one.sections x hold p hp)
      · intro p hp
        exact give_keep h.one.used hfree (h.one.callers p hp)
      · intro p hp
        refine (htakes.bits p).mpr ?_
        rcases give_cases hp with hnew | hold
        · exact Or.inl hnew
        · exact Or.inr (h.one.used p hold)
      · intro x hx
        rcases hmem x hx with hnew | hold
        · rw [hnew]
          have hsize := (newSection_size s.alpc r tid size).left
          refine ⟨sectionPages size, hsize, ?_⟩
          rw [hsize]
          exact hfacts.end_le
        · exact h.inside x hold
  | refused hfull =>
      -- the pages are lost: they are in use and nobody has them
      refine ⟨owner, ⟨h.one.kept, h.one.tables, h.one.sections, h.one.callers,
        ?_⟩, hfacts.good, h.words.alloc halloc,
        ⟨trace, hinv.tables, hinv.calls⟩, h.inside, h.owned_lt⟩
      intro p hp
      exact (htakes.bits p).mpr (Or.inr (h.one.used p hp))

theorem ownerInvariant_step (h : OwnerInvariant root kept s owner)
    {event : OwnerEvent} {s' : CallRun}
    (hstep : OwnerStep root s event s') :
    exists owner', OwnerInvariant root kept s' owner' := by
  cases hstep with
  | call hcall hregular =>
      cases hcall with
      | create _ hrun => exact ownerInvariant_create h hrun hregular
      | map hrun => exact ownerInvariant_map h hrun hregular
      | alloc hrun =>
          exact ownerInvariant_alloc h hrun hregular.left hregular.right
      | free hptr howned => exact ownerInvariant_free h hptr howned
  | page hstep => exact ownerInvariant_page h hstep

end Steps

/-!
# Runs from boot
-/

/-- The heap, and every page that `pmm_init` has not left free. -/
def Kept (info : BootInfo) (b : BootMemory) (p : Nat) : Prop :=
  p ∈ pageRange b.pool heapPages ∨
    (p < b.vmm.frames.totalPages ∧ ¬ FreeAtBoot info p)

section Start

open Classical

theorem BootLayout.ownerInvariant {info : BootInfo} {b : BootMemory}
    (h : BootLayout info b) :
    exists owner,
      OwnerInvariant b.pml4 (Kept info b) (callStart b.vmm) owner := by
  have hslots : forall x, x ∈ (callStart b.vmm).alpc.sections ->
      x = emptySection := fun x hx => List.eq_of_mem_replicate hx
  have hkept : forall p, Kept info b p -> bitmapTest b.vmm.frames p = true := by
    rintro p (hp | ⟨hlt, hfree⟩)
    · exact h.used p (Or.inl hp)
    · exact h.kept p hlt hfree
  have htable : forall t, IsTable b.pml4 b.vmm.mem t ->
      ¬ Kept info b (t / 4096) := by
    rintro t ht (hp | ⟨_, hfree⟩)
    · exact h.apart t ht hp
    · exact hfree (h.free _ (Or.inr ⟨t, ht, rfl⟩))
  refine ⟨fun p => if Kept info b p then some Owner.kernel
    else if exists t, IsTable b.pml4 b.vmm.mem t ∧ t / 4096 = p
      then some Owner.table else none, ⟨?_, ?_, ?_, ?_, ?_⟩, h.good, h.words,
    ⟨_, h.tables⟩, ?_, ?_⟩
  · intro p hp
    rw [if_pos hp]
  · intro t ht
    rw [if_neg (htable t ht), if_pos ⟨t, ht, rfl⟩]
  · intro x hx p hp
    rw [hslots x hx, sectionFrames_empty] at hp
    cases hp
  · intro p hp
    cases hp
  · intro p hp
    by_cases hk : Kept info b p
    · exact hkept p hk
    · rw [if_neg hk] at hp
      by_cases ht : exists t, IsTable b.pml4 b.vmm.mem t ∧ t / 4096 = p
      · exact h.used p (Or.inr ht)
      · rw [if_neg ht] at hp
        exact absurd rfl hp
  · intro x hx
    rw [hslots x hx]
    exact ⟨0, rfl, by decide⟩
  · intro p hp
    cases hp

end Start

/-- No frame is part of two of these: the kernel's own memory, the page tables,
the sections, and what callers have got and not yet freed. -/
theorem frames_one_owner {info : BootInfo} {b : BootMemory}
    {trace : List OwnerEvent} {s s' : CallRun} (hlayout : BootLayout info b)
    (hinit : (ownerSystem b).Init s)
    (hrun : (ownerSystem b).Runs s trace s') :
    exists owner, OneOwner b.pml4 (Kept info b) s' owner := by
  have hstart : exists owner,
      OwnerInvariant b.pml4 (Kept info b) s owner := by
    rw [hinit]
    exact hlayout.ownerInvariant
  have hend : exists owner,
      OwnerInvariant b.pml4 (Kept info b) s' owner := by
    refine runs_invariant
      (P := fun t => exists owner,
        OwnerInvariant b.pml4 (Kept info b) t owner) hstart ?_ hrun
    rintro t event t' ⟨owner, ht⟩ hstep
    exact ownerInvariant_step ht hstep
  rcases hend with ⟨owner, hinv⟩
  exact ⟨owner, hinv.one⟩

/-- The page that was taken last is in use, so that a search ends there. -/
theorem PoolRun.safe_one {s' : VmmState PmmState} {i : Nat} {r : AllocResult}
    (hpool : PoolRun s'.frames i r) (hgood : PmmGood s'.frames) :
    SafeRequest r.state 1 := by
  have hend := hpool.end_le
  have hlt := hgood.total_lt
  unfold heapPages at hend
  have hword : i + heapPages <= 2 ^ 64 := by
    unfold heapPages
    lia
  rcases takeRun_spec (s := s'.frames) hword with ⟨ram, htake, _⟩
  have htotal : r.state.totalPages = s'.frames.totalPages := by
    rw [hpool.state, htake]
  have hlast : r.state.lastSearchIndex = i + 1024 := by
    rw [hpool.state, htake]
    exact Word.add_of_lt (by unfold heapPages; lia)
  refine ⟨by lia, Or.inr (Or.inr ⟨i + 1023, by lia, by lia, ?_⟩)⟩
  refine (hpool.bits hgood _).mpr (Or.inl ?_)
  rw [hpool.range, Finset.mem_Ico]
  unfold heapPages
  lia

theorem frames_one_owner_plainBoot :
    exists b s' ret, BootLayout plainBoot b ∧
      (ownerSystem b).Runs (callStart b.vmm)
        [OwnerEvent.call (CallEvent.alloc 1 ret)] s' ∧
      exists owner, OneOwner b.pml4 (Kept plainBoot b) s' owner := by
  rcases plainBoot_room.layout (fun _ => 0) with
    ⟨root, s', i, r, _, hgood, hpool, hlayout⟩
  have hsafe : SafeRequest (bootResult root s' r).vmm.frames 1 :=
    hpool.safe_one hgood
  rcases staysInside_of_safe hlayout.good.total_lt hlayout.good.last_le
    (Nat.le_refl 1) hsafe with ⟨r', hrun, _⟩
  have hruns := runs_single (T := ownerSystem (bootResult root s' r))
    (OwnerStep.call
      (CallStep.alloc (s := callStart (bootResult root s' r).vmm) hrun)
      ⟨Nat.le_refl 1, hsafe⟩)
  exact ⟨_, _, _, hlayout, hruns, frames_one_owner hlayout rfl hruns⟩

end Boot
end Barium
