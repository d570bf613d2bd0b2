import Barium.Vmm.Footprint
import Barium.Vmm.TableCount

/-!
# A frame for every table

The calls take one frame for each table that is not there yet.  An allocator
that has no frame left does not return, so the calls return exactly when it can
answer as many requests as there are tables missing.
-/

namespace Barium
namespace Vmm

open Foundation

/-- The allocator answers `n` requests one after the other. -/
def Provides (alloc : FrameAllocator alpha) : Nat -> alpha -> Prop
  | 0, _ => True
  | n + 1, a => exists f a', alloc a = some (f, a') ∧ Provides alloc n a'

theorem provides_succ_iff {alloc : FrameAllocator alpha} {a a' : alpha}
    {f n : Nat} (halloc : alloc a = some (f, a')) :
    Provides alloc (n + 1) a <-> Provides alloc n a' := by
  constructor
  · rintro ⟨g, b, hb, hrest⟩
    rw [halloc] at hb
    cases hb
    exact hrest
  · intro hrest
    exact ⟨f, a', halloc, hrest⟩

/-- In a good state every answer is a frame that may become a table. -/
structure TableSource (alloc : FrameAllocator alpha) (good : alpha -> Prop)
    (marked : alpha -> Nat -> Prop) : Prop
    extends Marks alloc good marked where
  ne_zero : forall a f a', alloc a = some (f, a') -> f ≠ 0
  valid : forall a f a', good a -> alloc a = some (f, a') -> ValidFrame f

structure SoundTables (good : alpha -> Prop) (marked : alpha -> Nat -> Prop)
    (root : Nat) (s : VmmState alpha) : Prop where
  good : good s.frames
  tables : exists leaf, PageTables s.mem root leaf
  marked : TablesMarked marked root s

/-- The way from `s` to `s'` has taken one frame for each of the `paths` that it
has added. -/
structure Paid (alloc : FrameAllocator alpha) (good : alpha -> Prop)
    (marked : alpha -> Nat -> Prop) (root : Nat) (paths : Finset (List Index))
    (s s' : VmmState alpha) : Prop where
  tables : exists leaf, PageTables s'.mem root leaf
  foot : MapFootprint good marked root s s'
  absent : absentTables root s'.mem paths ⊆ absentTables root s.mem paths
  provides : forall m,
    Provides alloc (m + (absentTables root s.mem paths).card) s.frames <->
      Provides alloc (m + (absentTables root s'.mem paths).card) s'.frames

section Need

variable {alloc : FrameAllocator alpha} {good : alpha -> Prop}
  {marked : alpha -> Nat -> Prop} {root : Nat} {paths : Finset (List Index)}
  {s s' s'' : VmmState alpha}

theorem Paid.refl (h : SoundTables good marked root s) :
    Paid alloc good marked root paths s s :=
  ⟨h.tables, MapFootprint.refl h.good, Finset.Subset.refl _, fun _ => Iff.rfl⟩

theorem Paid.trans (h : Paid alloc good marked root paths s s')
    (h' : Paid alloc good marked root paths s' s'') :
    Paid alloc good marked root paths s s'' :=
  ⟨h'.tables, h.foot.trans h'.foot, h'.absent.trans h.absent,
    fun m => (h.provides m).trans (h'.provides m)⟩

theorem Paid.sound (hpaid : Paid alloc good marked root paths s s')
    (h : SoundTables good marked root s) :
    SoundTables good marked root s' := by
  refine ⟨hpaid.foot.good, hpaid.tables, ?_⟩
  intro path t hlength ht
  by_cases hold : IsTable root s.mem t
  · rcases hold with ⟨other, hother, ht'⟩
    exact hpaid.foot.keep t (h.marked other t hother ht')
  · exact (hpaid.foot.new t ⟨path, hlength, ht⟩ hold).left

/-- The frames that are left are enough for the paths that are left. -/
theorem Paid.left (hpaid : Paid alloc good marked root paths s s')
    (h : Provides alloc (absentTables root s.mem paths).card s.frames) :
    Provides alloc (absentTables root s'.mem paths).card s'.frames := by
  have hiff := hpaid.provides 0
  rw [Nat.zero_add, Nat.zero_add] at hiff
  exact hiff.mp h

theorem SoundTables.freshAlloc (h : SoundTables good marked root s)
    (hsource : TableSource alloc good marked) (t idx : Nat) :
    FreshAlloc alloc root s t idx := by
  intro _ f a' halloc
  have hne := hsource.ne_zero _ _ _ halloc
  have hunmarked := (hsource.fresh _ _ _ h.good halloc hne).right.left
  refine ⟨⟨hsource.valid _ _ _ h.good halloc, ?_⟩, hne⟩
  intro path hlength ht
  exact hunmarked (h.marked path f hlength ht)

/-!
# One lookup
-/

section Lookup

variable {path : List Index} {i : Index} {t u : Nat}

theorem SoundTables.absent_path (h : SoundTables good marked root s)
    (hpath : path.length < 3)
    (ht : pageFormat.tableAt s.mem root path = some t)
    (hmem : path ++ [i] ∈ paths)
    (habsent : s.mem (entryAddr t i.val) &&& pagePresent = 0) :
    s.mem (pageFormat.slot t i) = 0 ∧
      path ++ [i] ∈ absentTables root s.mem paths := by
  rcases h.tables with ⟨leaf, htables⟩
  have hzero : s.mem (pageFormat.slot t i) = 0 :=
    innerEntry_absent (htables.inner path t i hpath ht) habsent
  refine ⟨hzero, mem_absentTables.mpr ⟨hmem, ?_⟩⟩
  rw [TableFormat.tableAt_snoc ht, hzero]
  exact child_zero

theorem ensureTable_paid (hsource : TableSource alloc good marked)
    (hshort : forall other, other ∈ paths -> other.length <= 3)
    (h : SoundTables good marked root s) (path : List Index) (i : Index)
    (hpath : path.length < 3)
    (ht : pageFormat.tableAt s.mem root path = some t)
    (hmem : path ++ [i] ∈ paths)
    (hrun : ensureTable alloc s t i.val = some (s', u)) :
    Paid alloc good marked root paths s s' ∧
      pageFormat.tableAt s'.mem root (path ++ [i]) = some u := by
  rcases h.tables with ⟨leaf, htables⟩
  have hfresh := h.freshAlloc hsource t i.val
  have hspec := ensureTable_spec path i htables hpath ht hfresh.unusedAlloc hrun
  have hfoot := ensureTable_footprint hsource.toMarks htables h.good path i
    hpath ht hfresh hrun
  refine ⟨?_, hspec.right⟩
  by_cases habsent : s.mem (entryAddr t i.val) &&& pagePresent = 0
  · rcases h.absent_path hpath ht hmem habsent with ⟨hzero, hin⟩
    unfold ensureTable at hrun
    rw [if_pos habsent] at hrun
    rcases Option.bind_eq_some_iff.mp hrun with ⟨⟨f, frames⟩, halloc, hs⟩
    cases hs
    have hcase := (linkTable_tableAt htables hpath ht hzero
      (hfresh habsent f frames halloc).toUnusedFrame).right
    have herase : absentTables root (linkTable s.mem t i f) paths =
        (absentTables root s.mem paths).erase (path ++ [i]) :=
      absentTables_link hshort hcase
    have hcard : (absentTables root s.mem paths).card =
        (absentTables root (linkTable s.mem t i f) paths).card + 1 := by
      rw [herase, Finset.card_erase_add_one hin]
    refine ⟨⟨leaf, hspec.left⟩, hfoot, ?_, ?_⟩
    · show absentTables root (linkTable s.mem t i f) paths ⊆ _
      rw [herase]
      exact Finset.erase_subset _ _
    · intro m
      rw [hcard, ← Nat.add_assoc]
      exact provides_succ_iff halloc
  · unfold ensureTable at hrun
    rw [if_neg habsent] at hrun
    cases hrun
    exact Paid.refl h

theorem ensureTable_served (h : SoundTables good marked root s)
    (path : List Index) (i : Index) (hpath : path.length < 3)
    (ht : pageFormat.tableAt s.mem root path = some t)
    (hmem : path ++ [i] ∈ paths)
    (hprovides : Provides alloc (absentTables root s.mem paths).card
      s.frames) :
    exists s' u, ensureTable alloc s t i.val = some (s', u) := by
  unfold ensureTable
  by_cases habsent : s.mem (entryAddr t i.val) &&& pagePresent = 0
  · have hin := (h.absent_path hpath ht hmem habsent).right
    rw [← Finset.card_erase_add_one hin] at hprovides
    rcases hprovides with ⟨f, frames, halloc, _⟩
    rw [if_pos habsent, halloc]
    exact ⟨_, _, rfl⟩
  · rw [if_neg habsent]
    exact ⟨_, _, rfl⟩

theorem Paid.store (hpaid : Paid alloc good marked root paths s s')
    (hshort : forall other, other ∈ paths -> other.length <= 3)
    (hpath : path.length = 3)
    (ht : pageFormat.tableAt s'.mem root path = some t) (e : Nat) :
    Paid alloc good marked root paths s
      { s' with mem := Function.update s'.mem (pageFormat.slot t i) e } := by
  rcases hpaid.tables with ⟨leaf, htables⟩
  have habsent := absentTables_store (i := i) hshort htables hpath ht e
  refine ⟨⟨_, pageTables_store htables hpath ht e⟩,
    hpaid.foot.trans (store_footprint htables hpaid.foot.good hpath ht), ?_, ?_⟩
  · show absentTables root (Function.update s'.mem _ e) paths ⊆ _
    rw [habsent]
    exact hpaid.absent
  · intro m
    show _ <-> Provides alloc (m + (absentTables root
      (Function.update s'.mem (pageFormat.slot t i) e) paths).card) s'.frames
    rw [habsent]
    exact hpaid.provides m

end Lookup

/-!
# One call
-/

section Call

variable {virt phys flags : Nat}

theorem tablePaths_unique {path other : List Index}
    (h : path ∈ tablePaths virt) (hother : other ∈ tablePaths virt)
    (hlength : path.length = other.length) : path = other := by
  simp only [tablePaths, innerPath, List.mem_cons, List.not_mem_nil,
    or_false] at h hother
  rcases h with rfl | rfl | rfl <;> rcases hother with rfl | rfl | rfl <;>
    simp at hlength <;> rfl

theorem lookupKeeps_paid (hsource : TableSource alloc good marked)
    (hshort : forall other, other ∈ paths -> other.length <= 3)
    (h : SoundTables good marked root s)
    (hpaths : forall path, path ∈ tablePaths virt -> path ∈ paths)
    (P : VmmState alpha -> Nat -> Nat -> Prop) :
    LookupKeeps alloc root virt P (fun path v =>
      Paid alloc good marked root paths s v ∧
        forall other, other ∈ tablePaths virt ->
          other.length <= path.length ->
          other ∉ absentTables root v.mem paths) := by
  rintro path i t v v' u hpath hin ht ⟨hpaid, hfound⟩ _ hrun
  rcases ensureTable_paid hsource hshort (hpaid.sound h) path i hpath ht
    (hpaths _ hin) hrun with ⟨hpaid', hu⟩
  refine ⟨⟨hpaid.trans hpaid', ?_⟩, hu⟩
  intro other hother hlength habsent
  by_cases hshorter : other.length <= path.length
  · exact hfound other hother hshorter (hpaid'.absent habsent)
  · -- the page needs one table on each level
    rw [List.length_append, List.length_singleton] at hlength
    rw [tablePaths_unique hother hin (by simp; lia)] at habsent
    have hnone := (mem_absentTables.mp habsent).right
    rw [hu] at hnone
    cases hnone

theorem vmmMap_paid (hsource : TableSource alloc good marked)
    (hshort : forall other, other ∈ paths -> other.length <= 3)
    (h : SoundTables good marked root s)
    (hpaths : forall path, path ∈ tablePaths virt -> path ∈ paths)
    (hrun : vmmMap alloc s root virt phys flags = some s') :
    Paid alloc good marked root paths s s' ∧
      forall path, path ∈ tablePaths virt ->
        path ∉ absentTables root s'.mem paths := by
  have hkeep := lookupKeeps_paid hsource hshort h hpaths (fun _ _ _ => True)
  rcases hkeep.vmmMap ⟨trivial, fun _ _ _ => ⟨trivial, fun _ _ _ => trivial⟩⟩
    ⟨Paid.refl h, by simp [tablePaths, innerPath]⟩ hrun with
    ⟨v, pt, ⟨hpaid, hfound⟩, hpt, heq⟩
  have hkept : Paid alloc good marked root paths v v :=
    Paid.refl (hpaid.sound h)
  have hstore := hkept.store (i := lastIndex virt) hshort rfl hpt
    ((phys &&& frameMask) ||| flags)
  rw [heq]
  refine ⟨hpaid.trans hstore, ?_⟩
  intro path hpath habsent
  exact hfound path hpath (hshort path (hpaths path hpath))
    (hstore.absent habsent)

theorem vmmMap_served (hsource : TableSource alloc good marked)
    (hshort : forall other, other ∈ paths -> other.length <= 3)
    (h : SoundTables good marked root s)
    (hpaths : forall path, path ∈ tablePaths virt -> path ∈ paths)
    (hprovides : Provides alloc (absentTables root s.mem paths).card
      s.frames) (phys flags : Nat) :
    exists s', vmmMap alloc s root virt phys flags = some s' := by
  refine AtLookups.returns ?_ phys flags
  refine (lookupKeeps_paid hsource hshort h hpaths _).atLookups ?_
    ⟨Paid.refl h, by simp [tablePaths, innerPath]⟩
  rintro path i t v hpath hin ht ⟨hpaid, _⟩
  exact ensureTable_served (hpaid.sound h) path i hpath ht (hpaths _ hin)
    (hpaid.left hprovides)

end Call

end Need

end Vmm
end Barium
