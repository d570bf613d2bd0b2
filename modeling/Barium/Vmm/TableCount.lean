import Barium.Vmm.Init

/-!
# How many tables the calls need

A call takes a frame for each table that it does not find.  A sequence of calls
takes one for each path that leads to a table of its pages, however many calls
share it.
-/

namespace Barium
namespace Vmm

open Foundation

theorem tablePaths_congr {v w : Nat} (h : v / 2 ^ 21 = w / 2 ^ 21) :
    tablePaths v = tablePaths w := by
  have h4 : pml4Idx v = pml4Idx w := by
    unfold pml4Idx
    rw [Nat.shiftRight_eq_div_pow, Nat.shiftRight_eq_div_pow]
    have hsame : v / 2 ^ 39 = w / 2 ^ 39 := by lia
    rw [hsame]
  have h3 : pdptIdx v = pdptIdx w := by
    unfold pdptIdx
    rw [Nat.shiftRight_eq_div_pow, Nat.shiftRight_eq_div_pow]
    have hsame : v / 2 ^ 30 = w / 2 ^ 30 := by lia
    rw [hsame]
  have h2 : pdIdx v = pdIdx w := by
    unfold pdIdx
    rw [Nat.shiftRight_eq_div_pow, Nat.shiftRight_eq_div_pow, h]
  unfold tablePaths innerPath levelIndex
  simp only [h4, h3, h2]

def absentTables (root : Nat) (mem : Nat -> Nat)
    (paths : Finset (List Index)) : Finset (List Index) :=
  paths.filter (fun path => pageFormat.tableAt mem root path = none)

theorem mem_absentTables {root : Nat} {mem : Nat -> Nat}
    {paths : Finset (List Index)} {path : List Index} :
    path ∈ absentTables root mem paths <->
      path ∈ paths ∧ pageFormat.tableAt mem root path = none :=
  Finset.mem_filter

theorem absentTables_card_le (root : Nat) (mem : Nat -> Nat)
    (paths : Finset (List Index)) :
    (absentTables root mem paths).card <= paths.card := by
  unfold absentTables
  exact Finset.card_filter_le _ _

section Counted

variable {alloc : FrameAllocator alpha} {marked : alpha -> Nat -> Prop}
  {left : Nat -> alpha -> Prop} {root : Nat} {s s' : VmmState alpha}
  {leaf : List Index -> Nat} {paths : Finset (List Index)}

structure CountedState (marked : alpha -> Nat -> Prop)
    (left : Nat -> alpha -> Prop) (root : Nat) (paths : Finset (List Index))
    (s : VmmState alpha) : Prop where
  short : forall path, path ∈ paths -> path.length <= 3
  marked : TablesMarked marked root s
  left : left (absentTables root s.mem paths).card s.frames

theorem absentTables_link {mem mem' : Nat -> Nat} {path : List Index}
    (hshort : forall other, other ∈ paths -> other.length <= 3) {f : Nat}
    (hcase : forall other : List Index, other.length <= 3 ->
      (other = path -> pageFormat.tableAt mem' root other = some f) ∧
      (other ≠ path -> pageFormat.tableAt mem' root other =
        pageFormat.tableAt mem root other)) :
    absentTables root mem' paths =
      (absentTables root mem paths).erase path := by
  ext other
  rw [Finset.mem_erase, mem_absentTables, mem_absentTables]
  constructor
  · rintro ⟨hmem, hnone⟩
    have hne : other ≠ path := by
      intro heq
      rw [(hcase other (hshort other hmem)).left heq] at hnone
      cases hnone
    rw [(hcase other (hshort other hmem)).right hne] at hnone
    exact ⟨hne, hmem, hnone⟩
  · rintro ⟨hne, hmem, hnone⟩
    refine ⟨hmem, ?_⟩
    rw [(hcase other (hshort other hmem)).right hne]
    exact hnone

theorem absentTables_store {mem : Nat -> Nat} {path : List Index} {i : Index}
    {t : Nat} (hshort : forall other, other ∈ paths -> other.length <= 3)
    (h : PageTables mem root leaf) (hpath : path.length = 3)
    (ht : pageFormat.tableAt mem root path = some t) (e : Nat) :
    absentTables root (Function.update mem (pageFormat.slot t i) e) paths =
      absentTables root mem paths := by
  ext other
  rw [mem_absentTables, mem_absentTables]
  refine and_congr_right ?_
  intro hmem
  rw [h.tableAt_store hpath ht e other (hshort other hmem)]

theorem CountedState.supplied (hsupply : Supply alloc marked left)
    (hcount : CountedState marked left root paths s)
    (h : PageTables s.mem root leaf) (path : List Index) (i : Index) {t : Nat}
    (hpath : path.length < 3)
    (ht : pageFormat.tableAt s.mem root path = some t)
    (hmem : path ++ [i] ∈ paths) : Supplied alloc root s t i.val := by
  intro habsent
  have hzero : s.mem (pageFormat.slot t i) = 0 :=
    innerEntry_absent (h.inner path t i hpath ht) habsent
  have hnone : pageFormat.tableAt s.mem root (path ++ [i]) = none := by
    rw [TableFormat.tableAt_snoc ht, hzero]
    exact child_zero
  have hpos : 0 < (absentTables root s.mem paths).card :=
    Finset.card_pos.mpr ⟨path ++ [i], mem_absentTables.mpr ⟨hmem, hnone⟩⟩
  obtain ⟨k, hk⟩ := Nat.exists_eq_add_of_lt hpos
  have hleft := hcount.left
  rw [hk, Nat.zero_add] at hleft
  exact hsupply.supplied hcount.marked hleft t i.val habsent

theorem CountedState.ensureTable (hsupply : Supply alloc marked left)
    (hcount : CountedState marked left root paths s)
    (h : PageTables s.mem root leaf) (path : List Index) (i : Index)
    {t u : Nat} (hpath : path.length < 3)
    (ht : pageFormat.tableAt s.mem root path = some t)
    (hmem : path ++ [i] ∈ paths)
    (hrun : Vmm.ensureTable alloc s t i.val = some (s', u)) :
    CountedState marked left root paths s' := by
  have hsupplied := hcount.supplied hsupply h path i hpath ht hmem
  by_cases habsent : s.mem (entryAddr t i.val) &&& pagePresent = 0
  · have hzero : s.mem (pageFormat.slot t i) = 0 :=
      innerEntry_absent (h.inner path t i hpath ht) habsent
    have hnone : pageFormat.tableAt s.mem root (path ++ [i]) = none := by
      rw [TableFormat.tableAt_snoc ht, hzero]
      exact child_zero
    have hin : path ++ [i] ∈ absentTables root s.mem paths :=
      mem_absentTables.mpr ⟨hmem, hnone⟩
    obtain ⟨k, hk⟩ := Nat.exists_eq_add_of_lt (Finset.card_pos.mpr ⟨_, hin⟩)
    have hleft := hcount.left
    rw [hk, Nat.zero_add] at hleft
    have hnew := hsupply.ensureTable h hcount.marked hleft path i hpath ht hrun
    unfold Vmm.ensureTable at hrun
    rw [if_pos habsent] at hrun
    rcases Option.bind_eq_some_iff.mp hrun with ⟨⟨f, frames⟩, halloc, hs⟩
    cases hs
    have hfresh := hsupplied.freshAlloc habsent f frames halloc
    have hcase := (linkTable_tableAt h hpath ht hzero
      hfresh.toUnusedFrame).right
    refine ⟨hcount.short, hnew.left, ?_⟩
    show left (absentTables root (linkTable s.mem t i f) paths).card frames
    rw [absentTables_link hcount.short hcase, Finset.card_erase_of_mem hin, hk]
    have hpred : 0 + k + 1 - 1 = k := by lia
    rw [hpred]
    exact hnew.right
  · unfold Vmm.ensureTable at hrun
    rw [if_neg habsent] at hrun
    cases hrun
    exact hcount

theorem CountedState.store (hcount : CountedState marked left root paths s)
    (h : PageTables s.mem root leaf) {path : List Index} {i : Index} {t : Nat}
    (hpath : path.length = 3)
    (ht : pageFormat.tableAt s.mem root path = some t) (e : Nat) :
    CountedState marked left root paths
      { s with mem := Function.update s.mem (pageFormat.slot t i) e } := by
  have hsame := h.tableAt_store (i := i) hpath ht e
  have habsent := absentTables_store (i := i) hcount.short h hpath ht e
  refine ⟨hcount.short, ?_, ?_⟩
  · intro other v hlength hv
    exact hcount.marked other v hlength ((hsame other hlength).symm.trans hv)
  · show left (absentTables root
      (Function.update s.mem (pageFormat.slot t i) e) paths).card s.frames
    rw [habsent]
    exact hcount.left

theorem CountedState.lookupKeeps (hsupply : Supply alloc marked left)
    {virt : Nat} (hpaths : forall path, path ∈ tablePaths virt -> path ∈ paths) :
    LookupKeeps alloc root virt (Supplied alloc root)
      (fun _ v => CountedState marked left root paths v ∧
        PageTables v.mem root leaf) := by
  rintro path i t v v' u hpath hin ht ⟨hcount, htables⟩ hsupplied hrun
  rcases ensureTable_spec path i htables hpath ht
    hsupplied.freshAlloc.unusedAlloc hrun with ⟨htables', hu⟩
  exact ⟨⟨hcount.ensureTable hsupply htables path i hpath ht (hpaths _ hin)
    hrun, htables'⟩, hu⟩

theorem CountedState.suppliedMap (hsupply : Supply alloc marked left)
    (hcount : CountedState marked left root paths s)
    (h : PageTables s.mem root leaf) {virt : Nat}
    (hpaths : forall path, path ∈ tablePaths virt -> path ∈ paths) :
    SuppliedMap alloc root s virt := by
  refine (lookupKeeps hsupply hpaths).atLookups ?_ ⟨hcount, h⟩
  rintro path i t v hpath hin ht ⟨hcount, htables⟩
  exact hcount.supplied hsupply htables path i hpath ht (hpaths _ hin)

theorem CountedState.vmmMap (hsupply : Supply alloc marked left)
    (hcount : CountedState marked left root paths s)
    (h : PageTables s.mem root leaf) {virt phys flags : Nat}
    (hpaths : forall path, path ∈ tablePaths virt -> path ∈ paths)
    (hrun : Vmm.vmmMap alloc s root virt phys flags = some s') :
    CountedState marked left root paths s' := by
  rcases (lookupKeeps hsupply hpaths).vmmMap
    (hcount.suppliedMap hsupply h hpaths) ⟨hcount, h⟩ hrun with
    ⟨v, pt, ⟨hcount', htables⟩, hpt, heq⟩
  rw [heq]
  exact hcount'.store htables rfl hpt _

/-- The calls are supplied, and frames are left for the paths that no call has
needed. -/
theorem CountedState.mapCalls (hsupply : Supply alloc marked left)
    {calls : List MapCall} (hcount : CountedState marked left root paths s)
    (h : PageTables s.mem root leaf)
    (hpaths : forall c, c ∈ calls -> forall path, path ∈ tablePaths c.virt ->
      path ∈ paths) :
    SuppliedCalls alloc root calls s ∧
      forall s', Vmm.mapCalls alloc root calls s = some s' ->
        CountedState marked left root paths s' := by
  induction calls generalizing s leaf with
  | nil =>
      refine ⟨trivial, ?_⟩
      intro s' hs'
      cases hs'
      exact hcount
  | cons c rest ih =>
      have hc := hpaths c List.mem_cons_self
      have hsupplied := hcount.suppliedMap hsupply h hc
      have hnext : forall t, Vmm.vmmMap alloc s root c.virt c.phys c.flags =
          some t -> SuppliedCalls alloc root rest t ∧
            forall s', Vmm.mapCalls alloc root rest t = some s' ->
              CountedState marked left root paths s' := by
        intro t ht
        exact ih (hcount.vmmMap hsupply h hc ht)
          (vmmMap_spec h hsupplied.freshMap.atLookups ht)
          (fun d hd => hpaths d (List.mem_cons_of_mem _ hd))
      refine ⟨⟨hsupplied, fun t ht => (hnext t ht).left⟩, ?_⟩
      intro s' hs'
      rcases Option.bind_eq_some_iff.mp hs' with ⟨t, ht, hrest⟩
      exact (hnext t ht).right s' hrest

end Counted

end Vmm
end Barium
