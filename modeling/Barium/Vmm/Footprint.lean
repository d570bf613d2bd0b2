import Barium.Vmm.Runs

/-!
# What a call changes

`vmm_map` writes to page tables only: to those it finds and to frames that it
takes for new ones.  A frame in use that is no table stays as it is and does not
become one.
-/

namespace Barium
namespace Vmm

open Foundation
open TransitionSystem

/-- The tables that a walk from `root` may come to. -/
def IsTable (root : Nat) (mem : Nat -> Nat) (t : Nat) : Prop :=
  exists path : List Index, path.length <= 3 ∧
    pageFormat.tableAt mem root path = some t

def OffTables (root : Nat) (mem : Nat -> Nat) (a : Nat) : Prop :=
  forall t, IsTable root mem t -> ¬ (t <= a ∧ a < t + 4096)

/-!
# Tables stay when other memory changes
-/

section Untouched

variable {mem mem' : Nat -> Nat} {root : Nat} {leaf : List Index -> Nat}

theorem slot_inside (t : Nat) (i : Index) :
    t <= pageFormat.slot t i ∧ pageFormat.slot t i < t + 4096 := by
  have hi := i.isLt
  unfold pageFormat entryAddr
  lia

theorem tableAt_untouched
    (h : forall a, ¬ OffTables root mem a -> mem' a = mem a) :
    forall path : List Index, path.length <= 4 ->
      pageFormat.tableAt mem' root path = pageFormat.tableAt mem root path := by
  intro other hother
  refine TableFormat.tableAt_agree ?_ other hother
  intro path t i hpath ht
  refine h _ ?_
  intro hoff
  exact hoff t ⟨path, hpath, ht⟩ (slot_inside t i)

theorem pageTables_untouched (htables : PageTables mem root leaf)
    (h : forall a, ¬ OffTables root mem a -> mem' a = mem a) :
    PageTables mem' root leaf := by
  have hsame := tableAt_untouched h
  have hslot : forall (path : List Index) t i, path.length <= 3 ->
      pageFormat.tableAt mem root path = some t ->
      mem' (pageFormat.slot t i) = mem (pageFormat.slot t i) := by
    intro path t i hpath ht
    refine h _ ?_
    intro hoff
    exact hoff t ⟨path, hpath, ht⟩ (slot_inside t i)
  constructor
  · exact htables.tree.of_tableAt (fun other hother => hsame other (by lia))
  · intro path t i hpath ht
    rw [hsame path (by lia)] at ht
    rw [hslot path t i (by lia) ht]
    exact htables.inner path t i hpath ht
  · intro path t i hpath ht
    rw [hsame path (by lia)] at ht
    rw [hslot path t i (by lia) ht]
    exact htables.leaf_eq path t i hpath ht
  · intro path i hpath ht
    rw [hsame path (by lia)] at ht
    exact htables.leaf_none path i hpath ht

theorem isTable_untouched
    (h : forall a, ¬ OffTables root mem a -> mem' a = mem a) (t : Nat) :
    IsTable root mem' t <-> IsTable root mem t := by
  have hsame := tableAt_untouched h
  constructor
  · rintro ⟨path, hpath, ht⟩
    rw [hsame path (by lia)] at ht
    exact ⟨path, hpath, ht⟩
  · rintro ⟨path, hpath, ht⟩
    rw [← hsame path (by lia)] at ht
    exact ⟨path, hpath, ht⟩

end Untouched

/-!
# Allocators that mark their frames
-/

/-- In a good state the allocator marks the frames that it gives away, and gives
none away that is marked. -/
structure Marks (alloc : FrameAllocator alpha) (good : alpha -> Prop)
    (marked : alpha -> Nat -> Prop) : Prop where
  fresh : forall a f a', good a -> alloc a = some (f, a') -> f ≠ 0 ->
    good a' ∧ ¬ marked a f ∧ marked a' f
  keep : forall a f a' g, alloc a = some (f, a') -> marked a g -> marked a' g

structure MapFootprint (good : alpha -> Prop) (marked : alpha -> Nat -> Prop)
    (root : Nat) (s s' : VmmState alpha) : Prop where
  good : good s'.frames
  keep : forall g, marked s.frames g -> marked s'.frames g
  stay : forall t, IsTable root s.mem t -> IsTable root s'.mem t
  new : forall t, IsTable root s'.mem t -> ¬ IsTable root s.mem t ->
    marked s'.frames t ∧ ¬ marked s.frames t
  writes : forall a, OffTables root s'.mem a -> s'.mem a = s.mem a

section Footprints

variable {alloc : FrameAllocator alpha} {good : alpha -> Prop}
  {marked : alpha -> Nat -> Prop} {root : Nat} {s s' s'' : VmmState alpha}
  {leaf : List Index -> Nat}

theorem MapFootprint.refl (hgood : good s.frames) :
    MapFootprint good marked root s s :=
  ⟨hgood, fun _ h => h, fun _ h => h, fun _ h hnot => absurd h hnot,
    fun _ _ => rfl⟩

theorem MapFootprint.off_before (h : MapFootprint good marked root s s')
    {a : Nat} (ha : OffTables root s'.mem a) : OffTables root s.mem a :=
  fun t ht => ha t (h.stay t ht)

theorem MapFootprint.trans (h : MapFootprint good marked root s s')
    (h' : MapFootprint good marked root s' s'') :
    MapFootprint good marked root s s'' := by
  refine ⟨h'.good, fun g hg => h'.keep g (h.keep g hg),
    fun t ht => h'.stay t (h.stay t ht), ?_, ?_⟩
  · intro t ht hnot
    by_cases hmid : IsTable root s'.mem t
    · rcases h.new t hmid hnot with ⟨hmarked, hfresh⟩
      exact ⟨h'.keep t hmarked, hfresh⟩
    · rcases h'.new t ht hmid with ⟨hmarked, hfresh⟩
      exact ⟨hmarked, fun hold => hfresh (h.keep t hold)⟩
  · intro a ha
    rw [h'.writes a ha, h.writes a (h'.off_before ha)]

theorem linkTable_off {mem : Nat -> Nat} {t f a : Nat} {i : Index}
    (hslot : ¬ (t <= a ∧ a < t + 4096)) (hframe : ¬ (f <= a ∧ a < f + 4096)) :
    linkTable mem t i f a = mem a := by
  have hne : a ≠ entryAddr t i.val := by
    intro heq
    rw [heq] at hslot
    exact hslot (slot_inside t i)
  unfold linkTable
  rw [Function.update_of_ne hne, zeroFrame, if_neg hframe]

theorem ensureTable_footprint (hmarks : Marks alloc good marked)
    (h : PageTables s.mem root leaf) (hgood : good s.frames)
    (path : List Index) (i : Index) {t u : Nat} (hpath : path.length < 3)
    (ht : pageFormat.tableAt s.mem root path = some t)
    (hfresh : FreshAlloc alloc root s t i.val)
    (hrun : ensureTable alloc s t i.val = some (s', u)) :
    MapFootprint good marked root s s' := by
  unfold ensureTable at hrun
  by_cases habsent : s.mem (entryAddr t i.val) &&& pagePresent = 0
  · rw [if_pos habsent] at hrun
    rcases Option.bind_eq_some_iff.mp hrun with ⟨⟨f, frames⟩, halloc, hs⟩
    cases hs
    have hframe := hfresh habsent f frames halloc
    have hzero : s.mem (pageFormat.slot t i) = 0 :=
      innerEntry_absent (h.inner path t i hpath ht) habsent
    have hcase := (linkTable_tableAt h hpath ht hzero
      hframe.toUnusedFrame).right
    have hnone : pageFormat.tableAt s.mem root (path ++ [i]) = none := by
      rw [TableFormat.tableAt_snoc ht, hzero]
      exact child_zero
    have hlength : (path ++ [i]).length <= 3 := by
      rw [List.length_append, List.length_singleton]
      lia
    have hnew : IsTable root (linkTable s.mem t i f) f :=
      ⟨path ++ [i], hlength, (hcase _ hlength).left rfl⟩
    have hstay : forall v, IsTable root s.mem v ->
        IsTable root (linkTable s.mem t i f) v := by
      rintro v ⟨other, hother, hv⟩
      refine ⟨other, hother, ?_⟩
      rw [(hcase other hother).right ?_]
      · exact hv
      · intro heq
        rw [heq, hnone] at hv
        cases hv
    rcases hmarks.fresh _ _ _ hgood halloc hframe.ne_zero with
      ⟨hgood', hunmarked, hmarked⟩
    refine ⟨hgood', fun g hg => hmarks.keep _ _ _ g halloc hg, hstay, ?_, ?_⟩
    · rintro v ⟨other, hother, hv⟩ hnot
      by_cases heq : other = path ++ [i]
      · have hsame := ((hcase other hother).left heq).symm.trans hv
        cases hsame
        exact ⟨hmarked, hunmarked⟩
      · have hold := ((hcase other hother).right heq).symm.trans hv
        exact absurd ⟨other, hother, hold⟩ hnot
    · intro a ha
      exact linkTable_off (ha t (hstay t ⟨path, by lia, ht⟩)) (ha f hnew)
  · rw [if_neg habsent] at hrun
    cases hrun
    exact MapFootprint.refl hgood

theorem store_footprint {t e : Nat} {path : List Index} {i : Index}
    (h : PageTables s.mem root leaf) (hgood : good s.frames)
    (hpath : path.length = 3)
    (ht : pageFormat.tableAt s.mem root path = some t) :
    MapFootprint good marked root s
      { s with mem := Function.update s.mem (pageFormat.slot t i) e } := by
  have hsame := h.tableAt_store (i := i) hpath ht e
  refine ⟨hgood, fun g hg => hg, ?_, ?_, ?_⟩
  · rintro v ⟨other, hother, hv⟩
    exact ⟨other, hother, (hsame other hother).trans hv⟩
  · rintro v ⟨other, hother, hv⟩ hnot
    exact absurd ⟨other, hother, (hsame other hother).symm.trans hv⟩ hnot
  · intro a ha
    have htable : IsTable root
        (Function.update s.mem (pageFormat.slot t i) e) t :=
      ⟨path, hpath.le, (hsame path hpath.le).trans ht⟩
    refine Function.update_of_ne ?_ _ _
    intro heq
    rw [heq] at ha
    exact ha t htable (slot_inside t i)

theorem vmmMap_footprint (hmarks : Marks alloc good marked)
    {virt phys flags : Nat} (h : PageTables s.mem root leaf)
    (hgood : good s.frames) (hfresh : FreshMap alloc root s virt)
    (hrun : vmmMap alloc s root virt phys flags = some s') :
    MapFootprint good marked root s s' := by
  have hkeep : LookupKeeps alloc root virt (FreshAlloc alloc root)
      (fun _ v => PageTables v.mem root leaf ∧
        MapFootprint good marked root s v) := by
    rintro path i t v v' u hpath _ ht ⟨hv, hfoot⟩ hfresh hlookup
    rcases ensureTable_spec path i hv hpath ht hfresh.unusedAlloc hlookup with
      ⟨hv', hu⟩
    exact ⟨⟨hv', hfoot.trans (ensureTable_footprint hmarks hv hfoot.good path i
      hpath ht hfresh hlookup)⟩, hu⟩
  rcases hkeep.vmmMap hfresh ⟨h, MapFootprint.refl hgood⟩ hrun with
    ⟨v, pt, ⟨hv, hfoot⟩, hpt, heq⟩
  rw [heq]
  exact hfoot.trans (store_footprint hv hfoot.good rfl hpt)

theorem vmmRuns_footprint (hmarks : Marks alloc good marked)
    {trace calls : List MapCall} (hinv : VmmInvariant root trace s)
    (hgood : good s.frames)
    (hrun : (vmmSystem alloc root).Runs s calls s') :
    MapFootprint good marked root s s' := by
  have hboth : VmmInvariant root (trace ++ calls) s' ∧
      MapFootprint good marked root s s' := by
    refine runs_history_invariant
      (P := fun events t => VmmInvariant root (trace ++ events) t ∧
        MapFootprint good marked root s t) ?_ ?_ hrun
    · rw [List.append_nil]
      exact ⟨hinv, MapFootprint.refl hgood⟩
    · rintro earlier t c t' ⟨hbefore, hfoot⟩ hstep
      constructor
      · rw [← List.append_assoc]
        exact vmmInvariant_step hbefore hstep
      · cases hstep with
        | map hvalid hfresh hmap =>
            exact hfoot.trans (vmmMap_footprint hmarks hbefore.tables
              hfoot.good hfresh hmap)
  exact hboth.right

end Footprints

end Vmm
end Barium
