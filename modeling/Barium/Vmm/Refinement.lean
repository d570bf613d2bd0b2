import Barium.Foundation.Run
import Barium.Vmm.Model

/-!
# Page tables as a map

The tables in memory represent a function from index paths to entries.  Mapping
an address changes this function at one path.
-/

namespace Barium
namespace Vmm

open Foundation
open Function

/-!
# Entries
-/

def ValidFrame (t : Nat) : Prop :=
  t % 2 ^ 12 = 0 ∧ t < 2 ^ 64

/-- The entries of the three inner levels: empty, or a table with all
permissions. -/
def InnerEntry (e : Nat) : Prop :=
  e = 0 ∨ exists f, ValidFrame f ∧ e = f + 7

theorem validFrame_add_lt {f flags : Nat} (hf : ValidFrame f)
    (hflags : flags < 2 ^ 12) : f + flags < 2 ^ 64 := by
  unfold ValidFrame at hf
  lia

theorem frame_of_entry {f flags : Nat} (hf : ValidFrame f)
    (hflags : flags < 2 ^ 12) : (f + flags) &&& frameMask = f := by
  have haligned := hf.left
  unfold frameMask
  rw [Word.and_high_mask (validFrame_add_lt hf hflags) (by decide)]
  lia

theorem flags_of_entry {f flags mask : Nat} (hf : ValidFrame f)
    (hflags : flags < 2 ^ 12) (hmask : mask < 2 ^ 12) :
    (f + flags) &&& mask = flags &&& mask :=
  Word.and_flags hf.left hflags hmask

theorem table_entry {f : Nat} (hf : ValidFrame f) :
    f ||| pagePresent ||| pageWritable ||| pageUser = f + 7 := by
  rw [Nat.or_assoc, Nat.or_assoc]
  exact Word.or_flags hf.left (by decide)

theorem validFrame_mask {phys : Nat} (hphys : phys < 2 ^ 64) :
    ValidFrame (phys &&& frameMask) := by
  unfold frameMask
  rw [Word.and_high_mask hphys (by decide)]
  unfold ValidFrame
  lia

theorem leaf_entry {phys flags : Nat} (hphys : phys < 2 ^ 64)
    (hflags : flags < 2 ^ 12) :
    (phys &&& frameMask) ||| flags = (phys &&& frameMask) + flags :=
  Word.or_flags (validFrame_mask hphys).left hflags

theorem child_zero : pageFormat.child 0 = none := by
  decide

theorem child_table {f : Nat} (hf : ValidFrame f) :
    pageFormat.child (f + 7) = some f := by
  have hpresent : (f + 7) &&& pagePresent = 7 &&& pagePresent :=
    flags_of_entry hf (by decide) (by decide)
  unfold pageFormat
  simp only [hpresent]
  rw [if_neg (by decide), frame_of_entry hf (by decide)]

theorem slots_distinct : pageFormat.SlotsDistinct ValidFrame := by
  intro t u i j ht hu heq
  have haddr : t + 8 * i.val = u + 8 * j.val := heq
  have hi := i.isLt
  have hj := j.isLt
  unfold ValidFrame at ht hu
  constructor
  · lia
  · apply Fin.ext
    lia

/-!
# The representation
-/

/-- The tables under `root` hold the entries `leaf`, one for each path of four
indices. -/
structure PageTables (mem : Nat -> Nat) (root : Nat)
    (leaf : List Index -> Nat) : Prop where
  tree : pageFormat.Tree ValidFrame mem root 3
  inner : forall path t (i : Index), path.length < 3 ->
    pageFormat.tableAt mem root path = some t ->
    InnerEntry (mem (pageFormat.slot t i))
  leaf_eq : forall path t (i : Index), path.length = 3 ->
    pageFormat.tableAt mem root path = some t ->
    mem (pageFormat.slot t i) = leaf (path ++ [i])
  leaf_none : forall path (i : Index), path.length = 3 ->
    pageFormat.tableAt mem root path = none -> leaf (path ++ [i]) = 0

structure EmptyRoot (mem : Nat -> Nat) (root : Nat) : Prop where
  valid : ValidFrame root
  zero : forall i : Index, mem (pageFormat.slot root i) = 0

theorem emptyRoot_tableAt {mem : Nat -> Nat} {root t : Nat}
    {path : List Index} (h : EmptyRoot mem root)
    (ht : pageFormat.tableAt mem root path = some t) :
    path = [] ∧ t = root := by
  cases path with
  | nil => exact ⟨rfl, (Option.some.inj ht).symm⟩
  | cons i rest =>
      rw [TableFormat.tableAt_cons, h.zero i, child_zero] at ht
      cases ht

theorem pageTables_empty {mem : Nat -> Nat} {root : Nat}
    (h : EmptyRoot mem root) : PageTables mem root (fun _ => 0) := by
  constructor
  · constructor
    · intro path t _ ht
      rw [(emptyRoot_tableAt h ht).right]
      exact h.valid
    · intro left right t _ _ hl hr
      rw [(emptyRoot_tableAt h hl).left, (emptyRoot_tableAt h hr).left]
  · intro path t i _ ht
    rw [(emptyRoot_tableAt h ht).right, h.zero i]
    exact Or.inl rfl
  · intro path t i hlength ht
    rw [(emptyRoot_tableAt h ht).left] at hlength
    cases hlength
  · intro path i _ _
    rfl

/-!
# Inner levels
-/

structure UnusedFrame (mem : Nat -> Nat) (root f : Nat) : Prop where
  valid : ValidFrame f
  unused : forall path : List Index, path.length <= 3 ->
    pageFormat.tableAt mem root path ≠ some f

/-- A frame that may become a table: nonzero, aligned and not in use as one. -/
structure FreshFrame (mem : Nat -> Nat) (root f : Nat) : Prop
    extends UnusedFrame mem root f where
  ne_zero : f ≠ 0

section Inner

variable {mem : Nat -> Nat} {root t f : Nat} {leaf : List Index -> Nat}
  {path : List Index} {i : Index}

/-- Memory after a new table `f` has been put under entry `i` of `t`. -/
def linkTable (mem : Nat -> Nat) (t : Nat) (i : Index) (f : Nat) : Nat -> Nat :=
  update (zeroFrame mem f) (entryAddr t i.val)
    (f ||| pagePresent ||| pageWritable ||| pageUser)

theorem zeroFrame_other {u : Nat} {j : Index} (hu : ValidFrame u)
    (hf : ValidFrame f) (hne : u ≠ f) :
    zeroFrame mem f (pageFormat.slot u j) = mem (pageFormat.slot u j) := by
  have hj := j.isLt
  unfold ValidFrame at hu hf
  apply if_neg
  show ¬ (f <= u + 8 * j.val ∧ u + 8 * j.val < f + 4096)
  lia

theorem zeroFrame_self {j : Index} :
    zeroFrame mem f (pageFormat.slot f j) = 0 := by
  have hj := j.isLt
  apply if_pos
  show f <= f + 8 * j.val ∧ f + 8 * j.val < f + 4096
  lia

theorem linkTable_slot (hf : ValidFrame f) :
    linkTable mem t i f (pageFormat.slot t i) = f + 7 := by
  unfold linkTable
  rw [table_entry hf]
  exact update_self _ _ _

theorem linkTable_agree (h : PageTables mem root leaf)
    (hfresh : UnusedFrame mem root f) (hvalid : ValidFrame t) :
    pageFormat.AgreeExcept mem (linkTable mem t i f) root 3 t i := by
  intro other u j hlength hu hother
  have hu' := h.tree.valid other u hlength hu
  have hne : u ≠ f := by
    intro heq
    exact hfresh.unused other hlength (heq ▸ hu)
  have hslot : pageFormat.slot u j ≠ pageFormat.slot t i := by
    intro heq
    exact hother (slots_distinct u t j i hu' hvalid heq)
  unfold linkTable
  rw [show entryAddr t i.val = pageFormat.slot t i from rfl,
    update_of_ne hslot]
  exact zeroFrame_other hu' hfresh.valid hne

theorem linkTable_empty (hne : f ≠ t) (ht : ValidFrame t)
    (hf : ValidFrame f) (j : Index) :
    linkTable mem t i f (pageFormat.slot f j) = 0 := by
  have hslot : pageFormat.slot f j ≠ pageFormat.slot t i := by
    intro heq
    exact hne (slots_distinct f t j i hf ht heq).left
  unfold linkTable
  rw [show entryAddr t i.val = pageFormat.slot t i from rfl,
    update_of_ne hslot]
  exact zeroFrame_self

/-- The new table is reached through its entry, and the other paths lead where
they led. -/
theorem linkTable_tableAt (h : PageTables mem root leaf)
    (hpath : path.length < 3) (ht : pageFormat.tableAt mem root path = some t)
    (habsent : mem (pageFormat.slot t i) = 0)
    (hfresh : UnusedFrame mem root f) :
    pageFormat.Tree ValidFrame (linkTable mem t i f) root 3 ∧
      forall other : List Index, other.length <= 3 ->
        (other = path ++ [i] ->
          pageFormat.tableAt (linkTable mem t i f) root other = some f) ∧
        (other ≠ path ++ [i] ->
          pageFormat.tableAt (linkTable mem t i f) root other =
            pageFormat.tableAt mem root other) := by
  have hvalid := h.tree.valid path t (Nat.le_of_lt hpath) ht
  have hne : f ≠ t := by
    intro heq
    exact hfresh.unused path (Nat.le_of_lt hpath) (heq ▸ ht)
  have hagree := linkTable_agree (i := i) h hfresh hvalid
  have hnone : pageFormat.child (mem (pageFormat.slot t i)) = none := by
    rw [habsent, child_zero]
  have hlink : pageFormat.child
      (linkTable mem t i f (pageFormat.slot t i)) = some f := by
    rw [linkTable_slot hfresh.valid, child_table hfresh.valid]
  have hnochild : forall j, pageFormat.child
      (linkTable mem t i f (pageFormat.slot f j)) = none := by
    intro j
    rw [linkTable_empty hne hvalid hfresh.valid j, child_zero]
  constructor
  · exact h.tree.link hpath ht hagree hnone hlink hnochild hfresh.valid
      hfresh.unused
  · exact h.tree.tableAt_link hpath ht hagree hnone hlink hnochild

theorem pageTables_link (h : PageTables mem root leaf)
    (hpath : path.length < 3) (ht : pageFormat.tableAt mem root path = some t)
    (habsent : mem (pageFormat.slot t i) = 0)
    (hfresh : UnusedFrame mem root f) :
    PageTables (linkTable mem t i f) root leaf ∧
      pageFormat.tableAt (linkTable mem t i f) root (path ++ [i]) = some f := by
  have hvalid := h.tree.valid path t (Nat.le_of_lt hpath) ht
  have hne : f ≠ t := by
    intro heq
    exact hfresh.unused path (Nat.le_of_lt hpath) (heq ▸ ht)
  have hagree := linkTable_agree (i := i) h hfresh hvalid
  have hempty : forall j, linkTable mem t i f (pageFormat.slot f j) = 0 :=
    linkTable_empty hne hvalid hfresh.valid
  rcases linkTable_tableAt h hpath ht habsent hfresh with ⟨htree, hcase⟩
  have hnew := (hcase (path ++ [i]) (by simp; lia)).left rfl
  constructor
  · constructor
    · exact htree
    · intro other u j hlength hu
      rcases Classical.em (other = path ++ [i]) with heq | hdiff
      · rw [heq, hnew] at hu
        cases hu
        rw [hempty j]
        exact Or.inl rfl
      · rw [(hcase other (by lia)).right hdiff] at hu
        by_cases hsame : u = t ∧ j = i
        · rw [hsame.left, hsame.right, linkTable_slot hfresh.valid]
          exact Or.inr ⟨f, hfresh.valid, rfl⟩
        · rw [hagree other u j (by lia) hu hsame]
          exact h.inner other u j hlength hu
    · intro other u j hlength hu
      by_cases hcond : other = path ++ [i]
      · rw [hcond, hnew] at hu
        cases hu
        rw [hempty j, hcond]
        rw [hcond] at hlength
        symm
        apply h.leaf_none _ j hlength
        rw [TableFormat.tableAt_snoc ht i, habsent]
        exact child_zero
      · rw [(hcase other (by lia)).right hcond] at hu
        rw [hagree other u j (by lia) hu]
        · exact h.leaf_eq other u j hlength hu
        · intro hsame
          rw [hsame.left] at hu
          have hpaths := h.tree.unique other path t (by lia) (by lia) hu ht
          rw [hpaths] at hlength
          lia
    · intro other j hlength hu
      by_cases hhere : other = path ++ [i]
      · rw [hhere, hnew] at hu
        cases hu
      · rw [(hcase other (by lia)).right hhere] at hu
        exact h.leaf_none other j hlength hu
  · exact hnew

def FreshAlloc (alloc : FrameAllocator alpha) (root : Nat)
    (s : VmmState alpha) (table idx : Nat) : Prop :=
  s.mem (entryAddr table idx) &&& pagePresent = 0 ->
    forall frame frames, alloc s.frames = some (frame, frames) ->
      FreshFrame s.mem root frame

def UnusedAlloc (alloc : FrameAllocator alpha) (root : Nat)
    (s : VmmState alpha) (table idx : Nat) : Prop :=
  s.mem (entryAddr table idx) &&& pagePresent = 0 ->
    forall frame frames, alloc s.frames = some (frame, frames) ->
      UnusedFrame s.mem root frame

theorem FreshAlloc.unusedAlloc {alloc : FrameAllocator alpha}
    {s : VmmState alpha} {table idx : Nat}
    (h : FreshAlloc alloc root s table idx) :
    UnusedAlloc alloc root s table idx := by
  intro habsent frame frames halloc
  exact (h habsent frame frames halloc).toUnusedFrame

theorem innerEntry_absent {e : Nat} (he : InnerEntry e)
    (habsent : e &&& pagePresent = 0) : e = 0 := by
  rcases he with he | ⟨g, hg, he⟩
  · exact he
  · rw [he, flags_of_entry hg (by decide) (by decide)] at habsent
    cases habsent

theorem ensureTable_spec {alloc : FrameAllocator alpha}
    {s s' : VmmState alpha} {u : Nat} (path : List Index) (i : Index)
    (h : PageTables s.mem root leaf) (hpath : path.length < 3)
    (ht : pageFormat.tableAt s.mem root path = some t)
    (hfresh : UnusedAlloc alloc root s t i.val)
    (hrun : ensureTable alloc s t i.val = some (s', u)) :
    PageTables s'.mem root leaf ∧
      pageFormat.tableAt s'.mem root (path ++ [i]) = some u := by
  unfold ensureTable at hrun
  by_cases habsent : s.mem (entryAddr t i.val) &&& pagePresent = 0
  · rw [if_pos habsent] at hrun
    rcases Option.bind_eq_some_iff.mp hrun with ⟨⟨frame, frames⟩, halloc, hs⟩
    cases hs
    have hframe := hfresh habsent frame frames halloc
    have hzero : s.mem (pageFormat.slot t i) = 0 :=
      innerEntry_absent (h.inner path t i hpath ht) habsent
    have hlinked := pageTables_link h hpath ht hzero hframe
    have hentry : update (zeroFrame s.mem frame)
        (entryAddr t i.val)
        (frame ||| pagePresent ||| pageWritable ||| pageUser)
        (entryAddr t i.val) &&& frameMask = frame := by
      rw [update_self, table_entry hframe.valid,
        frame_of_entry hframe.valid (by decide)]
    rw [hentry]
    exact hlinked
  · rw [if_neg habsent] at hrun
    cases hrun
    constructor
    · exact h
    · rw [TableFormat.tableAt_snoc ht i]
      exact if_neg habsent

end Inner

/-!
# The last level
-/

theorem PageTables.tableAt_store {mem : Nat -> Nat} {root t : Nat}
    {leaf : List Index -> Nat} {path : List Index} {i : Index}
    (h : PageTables mem root leaf) (hpath : path.length = 3)
    (ht : pageFormat.tableAt mem root path = some t) (e : Nat) :
    forall other : List Index, other.length <= 3 ->
      pageFormat.tableAt (update mem (pageFormat.slot t i) e) root
          other = pageFormat.tableAt mem root other := by
  have hvalid := h.tree.valid path t (Nat.le_of_eq hpath) ht
  exact h.tree.tableAt_bottom hpath ht
    (h.tree.agreeExcept_update slots_distinct hvalid e)

theorem pageTables_store {mem : Nat -> Nat} {root t : Nat}
    {leaf : List Index -> Nat} {path : List Index} {i : Index}
    (h : PageTables mem root leaf) (hpath : path.length = 3)
    (ht : pageFormat.tableAt mem root path = some t) (e : Nat) :
    PageTables (update mem (pageFormat.slot t i) e) root
      (update leaf (path ++ [i]) e) := by
  have hvalid := h.tree.valid path t (Nat.le_of_eq hpath) ht
  have hagree := h.tree.agreeExcept_update (i := i) slots_distinct hvalid e
  have hsame := h.tableAt_store (i := i) hpath ht e
  constructor
  · exact h.tree.of_tableAt hsame
  · intro other u j hlength hu
    rw [hsame other (by lia)] at hu
    rw [hagree other u j (by lia) hu]
    · exact h.inner other u j hlength hu
    · intro hsameEntry
      rw [hsameEntry.left] at hu
      have hpaths := h.tree.unique other path t (by lia) (by lia) hu ht
      rw [hpaths] at hlength
      lia
  · intro other u j hlength hu
    rw [hsame other (by lia)] at hu
    by_cases hsameEntry : u = t ∧ j = i
    · rw [hsameEntry.left] at hu ⊢
      rw [hsameEntry.right, update_self,
        h.tree.unique other path t (by lia) (by lia) hu ht,
        update_self]
    · rw [hagree other u j (by lia) hu hsameEntry]
      rw [update_of_ne]
      · exact h.leaf_eq other u j hlength hu
      · intro heq
        rcases List.append_inj heq (by lia) with ⟨hpaths, hindex⟩
        apply hsameEntry
        constructor
        · rw [hpaths, ht] at hu
          exact (Option.some.inj hu).symm
        · exact (List.cons.inj hindex).left
  · intro other j hlength hu
    rw [hsame other (by lia)] at hu
    rw [update_of_ne]
    · exact h.leaf_none other j hlength hu
    · intro heq
      rcases List.append_inj heq (by lia) with ⟨hpaths, _⟩
      rw [hpaths, ht] at hu
      cases hu

/-!
# The lookups of a call
-/

/-- The condition holds at each of the three lookups of a call. -/
def AtLookups (alloc : FrameAllocator alpha) (root virt : Nat)
    (P : VmmState alpha -> Nat -> Nat -> Prop) (s : VmmState alpha) : Prop :=
  P s root (pml4Idx virt) ∧
    forall s1 pdpt, ensureTable alloc s root (pml4Idx virt) = some (s1, pdpt) ->
      P s1 pdpt (pdptIdx virt) ∧
      forall s2 pd, ensureTable alloc s1 pdpt (pdptIdx virt) = some (s2, pd) ->
        P s2 pd (pdIdx virt)

theorem AtLookups.imp {alloc : FrameAllocator alpha} {root virt : Nat}
    {P Q : VmmState alpha -> Nat -> Nat -> Prop} {s : VmmState alpha}
    (h : AtLookups alloc root virt P s)
    (himp : forall t table idx, P t table idx -> Q t table idx) :
    AtLookups alloc root virt Q s := by
  constructor
  · exact himp _ _ _ h.left
  · intro s1 pdpt h1
    rcases h.right s1 pdpt h1 with ⟨hsecond, hthird⟩
    constructor
    · exact himp _ _ _ hsecond
    · intro s2 pd h2
      exact himp _ _ _ (hthird s2 pd h2)

/-- The paths to the tables below the root that a page needs. -/
def tablePaths (virt : Nat) : List (List Index) :=
  [[levelIndex virt 0], [levelIndex virt 0, levelIndex virt 1],
    innerPath virt]

section Lookups

variable {alloc : FrameAllocator alpha} {root virt phys flags : Nat}
  {P : VmmState alpha -> Nat -> Nat -> Prop}
  {I : List Index -> VmmState alpha -> Prop} {s s' : VmmState alpha}

theorem vmmMap_lookups (hrun : vmmMap alloc s root virt phys flags = some s') :
    exists s1 pdpt s2 pd s3 pt,
      ensureTable alloc s root (levelIndex virt 0).val = some (s1, pdpt) ∧
      ensureTable alloc s1 pdpt (levelIndex virt 1).val = some (s2, pd) ∧
      ensureTable alloc s2 pd (levelIndex virt 2).val = some (s3, pt) ∧
      s' = { s3 with
        mem := update s3.mem (pageFormat.slot pt (lastIndex virt))
          ((phys &&& frameMask) ||| flags) } := by
  rcases Option.bind_eq_some_iff.mp hrun with ⟨⟨s1, pdpt⟩, h1, hrun⟩
  rcases Option.bind_eq_some_iff.mp hrun with ⟨⟨s2, pd⟩, h2, hrun⟩
  rcases Option.bind_eq_some_iff.mp hrun with ⟨⟨s3, pt⟩, h3, hlast⟩
  cases hlast
  exact ⟨s1, pdpt, s2, pd, s3, pt, h1, h2, h3, rfl⟩

/-- A lookup that satisfies `P` takes `I` one level down. -/
def LookupKeeps (alloc : FrameAllocator alpha) (root virt : Nat)
    (P : VmmState alpha -> Nat -> Nat -> Prop)
    (I : List Index -> VmmState alpha -> Prop) : Prop :=
  forall path i t v v' u, path.length < 3 -> path ++ [i] ∈ tablePaths virt ->
    pageFormat.tableAt v.mem root path = some t -> I path v ->
    P v t i.val -> ensureTable alloc v t i.val = some (v', u) ->
    I (path ++ [i]) v' ∧ pageFormat.tableAt v'.mem root (path ++ [i]) = some u

/-- What the lookups keep holds before the entry is stored. -/
theorem LookupKeeps.vmmMap (hkeep : LookupKeeps alloc root virt P I)
    (h : AtLookups alloc root virt P s) (hinit : I [] s)
    (hrun : Vmm.vmmMap alloc s root virt phys flags = some s') :
    exists v pt, I (innerPath virt) v ∧
      pageFormat.tableAt v.mem root (innerPath virt) = some pt ∧
      s' = { v with
        mem := update v.mem (pageFormat.slot pt (lastIndex virt))
          ((phys &&& frameMask) ||| flags) } := by
  rcases vmmMap_lookups hrun with ⟨s1, pdpt, s2, pd, s3, pt, h1, h2, h3, heq⟩
  rcases h with ⟨hfirst, h⟩
  rcases h s1 pdpt h1 with ⟨hsecond, h⟩
  rcases hkeep [] (levelIndex virt 0) _ _ _ _ (by simp) (by simp [tablePaths])
    rfl hinit hfirst h1 with ⟨hI1, ht1⟩
  rcases hkeep _ (levelIndex virt 1) _ _ _ _ (by simp) (by simp [tablePaths])
    ht1 hI1 hsecond h2 with ⟨hI2, ht2⟩
  rcases hkeep _ (levelIndex virt 2) _ _ _ _ (by simp)
    (by simp [tablePaths, innerPath, levelIndex]) ht2 hI2 (h s2 pd h2) h3
    with ⟨hI3, ht3⟩
  exact ⟨s3, pt, hI3, ht3, heq⟩

/-- A condition that follows from what the lookups keep holds at each of
them. -/
theorem LookupKeeps.atLookups (hkeep : LookupKeeps alloc root virt P I)
    (hcond : forall path i t v, path.length < 3 ->
      path ++ [i] ∈ tablePaths virt ->
      pageFormat.tableAt v.mem root path = some t -> I path v -> P v t i.val)
    (hinit : I [] s) : AtLookups alloc root virt P s := by
  have hfirst := hcond [] (levelIndex virt 0) root s (by simp)
    (by simp [tablePaths]) rfl hinit
  refine ⟨hfirst, ?_⟩
  intro s1 pdpt h1
  rcases hkeep [] (levelIndex virt 0) _ _ _ _ (by simp) (by simp [tablePaths])
    rfl hinit hfirst h1 with ⟨hI1, ht1⟩
  have hsecond := hcond _ (levelIndex virt 1) _ _ (by simp)
    (by simp [tablePaths]) ht1 hI1
  refine ⟨hsecond, ?_⟩
  intro s2 pd h2
  rcases hkeep _ (levelIndex virt 1) _ _ _ _ (by simp) (by simp [tablePaths])
    ht1 hI1 hsecond h2 with ⟨hI2, ht2⟩
  exact hcond _ (levelIndex virt 2) _ _ (by simp)
    (by simp [tablePaths, innerPath, levelIndex]) ht2 hI2

theorem AtLookups.returns (h : AtLookups alloc root virt
      (fun v t idx => exists v' u, ensureTable alloc v t idx = some (v', u)) s)
    (phys flags : Nat) :
    exists s', Vmm.vmmMap alloc s root virt phys flags = some s' := by
  rcases h with ⟨⟨s1, pdpt, h1⟩, h⟩
  rcases h s1 pdpt h1 with ⟨⟨s2, pd, h2⟩, h⟩
  rcases h s2 pd h2 with ⟨s3, pt, h3⟩
  unfold Vmm.vmmMap
  rw [h1, Option.bind_eq_bind, Option.bind_some]
  simp only [h2, h3, Option.bind_some]
  exact ⟨_, rfl⟩

end Lookups

/-!
# Mapping an address
-/

/-- Every frame that a call of `vmm_map` allocates is fresh when it is
allocated. -/
def FreshMap (alloc : FrameAllocator alpha) (root : Nat)
    (s : VmmState alpha) (virt : Nat) : Prop :=
  AtLookups alloc root virt (FreshAlloc alloc root) s

theorem FreshMap.atLookups {alloc : FrameAllocator alpha} {root virt : Nat}
    {s : VmmState alpha} (h : FreshMap alloc root s virt) :
    AtLookups alloc root virt (UnusedAlloc alloc root) s :=
  AtLookups.imp h (fun _ _ _ hfresh => hfresh.unusedAlloc)

theorem vmmMap_spec {alloc : FrameAllocator alpha} {s s' : VmmState alpha}
    {root virt phys flags : Nat} {leaf : List Index -> Nat}
    (h : PageTables s.mem root leaf)
    (hfresh : AtLookups alloc root virt (UnusedAlloc alloc root) s)
    (hrun : vmmMap alloc s root virt phys flags = some s') :
    PageTables s'.mem root (update leaf (indexPath virt)
      ((phys &&& frameMask) ||| flags)) := by
  have hkeep : LookupKeeps alloc root virt (UnusedAlloc alloc root)
      (fun _ v => PageTables v.mem root leaf) := by
    intro path i t v v' u hpath _ ht hv hunused hlookup
    exact ensureTable_spec path i hv hpath ht hunused hlookup
  rcases hkeep.vmmMap hfresh h hrun with ⟨v, pt, hv, hpt, heq⟩
  rw [heq]
  exact pageTables_store hv rfl hpt _

/-!
# Tables below a bound
-/

def EntriesBelow (next : Nat) (mem : Nat -> Nat) : Prop :=
  forall a, mem a &&& frameMask < next

section Below

variable {mem : Nat -> Nat} {next : Nat}

theorem EntriesBelow.tableAt_lt (h : EntriesBelow next mem) {t u : Nat}
    {path : List Index} (ht : t < next)
    (hu : pageFormat.tableAt mem t path = some u) : u < next := by
  induction path generalizing t with
  | nil =>
      cases hu
      exact ht
  | cons i rest ih =>
      rw [TableFormat.tableAt_cons] at hu
      rcases Option.bind_eq_some_iff.mp hu with ⟨v, hv, hu⟩
      apply ih _ hu
      unfold pageFormat at hv
      simp only at hv
      split at hv
      · cases hv
      · cases hv
        exact h _

theorem EntriesBelow.update (h : EntriesBelow next mem) {e : Nat}
    (he : e &&& frameMask < next) (a : Nat) :
    EntriesBelow next (update mem a e) := by
  intro b
  by_cases hba : b = a
  · rw [hba, update_self]
    exact he
  · rw [update_of_ne hba]
    exact h b

theorem EntriesBelow.zeroFrame (h : EntriesBelow next mem) (f : Nat) :
    EntriesBelow next (Vmm.zeroFrame mem f) := by
  intro b
  unfold Vmm.zeroFrame
  split
  · rw [Nat.zero_and]
    exact Nat.zero_lt_of_lt (h b)
  · exact h b

theorem EntriesBelow.mono (h : EntriesBelow next mem) {next' : Nat}
    (hle : next <= next') : EntriesBelow next' mem :=
  fun a => Nat.lt_of_lt_of_le (h a) hle

end Below

/-!
# Translation
-/

section Walk

variable {mem : Nat -> Nat} {root : Nat} {leaf : List Index -> Nat}

/-- The entries that a walk meets.  An inner entry that is absent stops the
walk, and nothing is mapped behind it. -/
inductive Walk (mem : Nat -> Nat) (root virt : Nat)
    (leaf : List Index -> Nat) : Prop where
  | mapped (pdpt pd pt : Nat) :
      ValidFrame pdpt -> ValidFrame pd -> ValidFrame pt ->
      mem (entryAddr root (pml4Idx virt)) = pdpt + 7 ->
      mem (entryAddr pdpt (pdptIdx virt)) = pd + 7 ->
      mem (entryAddr pd (pdIdx virt)) = pt + 7 ->
      mem (entryAddr pt (ptIdx virt)) = leaf (indexPath virt) ->
      Walk mem root virt leaf
  | absent :
      leaf (indexPath virt) = 0 -> vmmGetPhys mem root virt = 0 ->
      Walk mem root virt leaf

theorem inner_step (h : PageTables mem root leaf) (path : List Index)
    {t : Nat} (i : Index) (hpath : path.length < 3)
    (ht : pageFormat.tableAt mem root path = some t) :
    (mem (entryAddr t i.val) = 0 ∧
        forall rest, pageFormat.tableAt mem root (path ++ [i] ++ rest) = none) ∨
      exists f, ValidFrame f ∧ mem (entryAddr t i.val) = f + 7 ∧
        pageFormat.tableAt mem root (path ++ [i]) = some f := by
  rcases h.inner path t i hpath ht with he | ⟨f, hf, he⟩
  · left
    constructor
    · exact he
    · apply TableFormat.tableAt_through ht
      rw [he]
      exact child_zero
  · right
    exists f
    rw [TableFormat.tableAt_snoc ht i, he]
    exact ⟨hf, he, child_table hf⟩

theorem inner_present {f : Nat} (hf : ValidFrame f) :
    (f + 7) &&& pagePresent ≠ 0 := by
  rw [flags_of_entry hf (by decide) (by decide)]
  decide

theorem inner_frame {f : Nat} (hf : ValidFrame f) :
    (f + 7) &&& frameMask = f :=
  frame_of_entry hf (by decide)

theorem walk_of_pageTables (h : PageTables mem root leaf) (virt : Nat) :
    Walk mem root virt leaf := by
  have hunmapped : pageFormat.tableAt mem root (innerPath virt) = none ->
      leaf (indexPath virt) = 0 :=
    h.leaf_none (innerPath virt) (lastIndex virt) rfl
  rcases inner_step h [] ⟨pml4Idx virt, and_511_lt _⟩ (by simp) rfl with
    ⟨he4, hnone⟩ | ⟨pdpt, hpdpt, he4, ht4⟩
  · apply Walk.absent (hunmapped (hnone _))
    unfold vmmGetPhys
    rw [he4, if_pos (by rfl)]
  rcases inner_step h _ ⟨pdptIdx virt, and_511_lt _⟩ (by simp) ht4 with
    ⟨he3, hnone⟩ | ⟨pd, hpd, he3, ht3⟩
  · apply Walk.absent (hunmapped (hnone _))
    unfold vmmGetPhys
    simp only [he4, inner_frame hpdpt, if_neg (inner_present hpdpt)]
    rw [he3, if_pos (by rfl)]
  rcases inner_step h _ ⟨pdIdx virt, and_511_lt _⟩ (by simp) ht3 with
    ⟨he2, hnone⟩ | ⟨pt, hpt, he2, ht2⟩
  · apply Walk.absent
    · apply hunmapped
      have hpath := hnone []
      rw [List.append_nil] at hpath
      exact hpath
    · unfold vmmGetPhys
      simp only [he4, inner_frame hpdpt, if_neg (inner_present hpdpt), he3,
        inner_frame hpd, if_neg (inner_present hpd)]
      rw [he2, if_pos (by rfl)]
  exact Walk.mapped pdpt pd pt hpdpt hpd hpt he4 he3 he2
    (h.leaf_eq (innerPath virt) pt (lastIndex virt) rfl ht2)

theorem vmmGetPhys_spec (h : PageTables mem root leaf) (virt : Nat) :
    vmmGetPhys mem root virt =
      if leaf (indexPath virt) &&& pagePresent = 0 then 0
      else leaf (indexPath virt) &&& frameMask := by
  cases walk_of_pageTables h virt with
  | mapped pdpt pd pt hpdpt hpd hpt he4 he3 he2 he1 =>
      unfold vmmGetPhys
      simp only [he4, inner_frame hpdpt, if_neg (inner_present hpdpt), he3,
        inner_frame hpd, if_neg (inner_present hpd), he2, inner_frame hpt,
        if_neg (inner_present hpt), he1]
  | absent hleaf hget =>
      rw [hget, hleaf]
      rfl

theorem effectivePermissions_spec (h : PageTables mem root leaf) (virt : Nat)
    (hmapped : leaf (indexPath virt) ≠ 0) :
    effectivePermissions mem root virt =
      leaf (indexPath virt) &&& (pageWritable ||| pageUser) := by
  cases walk_of_pageTables h virt with
  | mapped pdpt pd pt hpdpt hpd hpt he4 he3 he2 he1 =>
      have hinner : forall f e, ValidFrame f -> (f + 7) &&& (e &&& 6) = e &&& 6 := by
        intro f e hf
        rw [Nat.and_comm e, ← Nat.and_assoc,
          flags_of_entry hf (by decide) (by decide)]
        rfl
      unfold effectivePermissions
      simp only [he4, inner_frame hpdpt, he3, inner_frame hpd, he2,
        inner_frame hpt, he1]
      rw [show pageWritable ||| pageUser = 6 by rfl, Nat.and_assoc,
        Nat.and_assoc, Nat.and_assoc, hinner pt _ hpt, hinner pd _ hpd,
        hinner pdpt _ hpdpt]
  | absent hleaf _ => exact absurd hleaf hmapped

end Walk

end Vmm
end Barium
