import Mathlib.Data.List.Induction
import Mathlib.Logic.Function.Basic
import Mathlib.Data.Option.Basic

/-!
# Trees of tables

Tables of entries laid out in one flat memory, where an entry may refer to a
further table.  A path of indices leads from a root to the table it names.  The
tables form a tree when different paths lead to different tables; then a store
into one entry affects only the paths that go through it.
-/

namespace Barium
namespace Foundation

/-- Where the entries of a table lie, and which table an entry refers to. -/
structure TableFormat (addr entry table index : Type) where
  slot : table -> index -> addr
  child : entry -> Option table

namespace TableFormat

section

variable {addr entry table index : Type}

def tableAt (F : TableFormat addr entry table index) (mem : addr -> entry) :
    table -> List index -> Option table
  | t, [] => some t
  | t, i :: rest =>
      (F.child (mem (F.slot t i))).bind (fun u => tableAt F mem u rest)

theorem tableAt_cons (F : TableFormat addr entry table index)
    (mem : addr -> entry) (t : table) (i : index) (rest : List index) :
    F.tableAt mem t (i :: rest) =
      (F.child (mem (F.slot t i))).bind (fun u => F.tableAt mem u rest) := rfl

theorem tableAt_append (F : TableFormat addr entry table index)
    (mem : addr -> entry) (t : table) (left right : List index) :
    F.tableAt mem t (left ++ right) =
      (F.tableAt mem t left).bind (fun u => F.tableAt mem u right) := by
  induction left generalizing t with
  | nil => rfl
  | cons i rest ih =>
      rw [List.cons_append, tableAt_cons, tableAt_cons, Option.bind_assoc]
      congr
      funext u
      exact ih u

theorem tableAt_snoc {F : TableFormat addr entry table index}
    {mem : addr -> entry} {root t : table} {path : List index}
    (h : F.tableAt mem root path = some t) (i : index) :
    F.tableAt mem root (path ++ [i]) = F.child (mem (F.slot t i)) := by
  rw [tableAt_append, h, Option.bind_some, tableAt_cons]
  cases F.child (mem (F.slot t i)) with
  | none => rfl
  | some u => rfl

/-!
# Trees
-/

def SlotsDistinct (F : TableFormat addr entry table index)
    (Valid : table -> Prop) : Prop :=
  forall t u i j, Valid t -> Valid u -> F.slot t i = F.slot u j ->
    t = u ∧ i = j

/-- All paths of at most `depth` steps lead to valid tables, and different
paths to different ones. -/
structure Tree (F : TableFormat addr entry table index)
    (Valid : table -> Prop) (mem : addr -> entry) (root : table)
    (depth : Nat) : Prop where
  valid : forall path t, path.length <= depth ->
    F.tableAt mem root path = some t -> Valid t
  unique : forall path path' t, path.length <= depth ->
    path'.length <= depth -> F.tableAt mem root path = some t ->
    F.tableAt mem root path' = some t -> path = path'

def AgreeExcept (F : TableFormat addr entry table index)
    (mem mem' : addr -> entry) (root : table) (depth : Nat) (t : table)
    (i : index) : Prop :=
  forall path u j, path.length <= depth ->
    F.tableAt mem root path = some u -> ¬ (u = t ∧ j = i) ->
    mem' (F.slot u j) = mem (F.slot u j)

variable {F : TableFormat addr entry table index} {Valid : table -> Prop}
  {mem mem' : addr -> entry} {root t : table} {depth : Nat}
  {path : List index} {i : index}

theorem Tree.agreeExcept_update [DecidableEq addr]
    (hdistinct : F.SlotsDistinct Valid)
    (htree : F.Tree Valid mem root depth) (hvalid : Valid t) (e : entry) :
    F.AgreeExcept mem (Function.update mem (F.slot t i) e) root depth t i := by
  intro path u j hlength hu hother
  have hne : F.slot u j ≠ F.slot t i := by
    intro heq
    exact hother (hdistinct u t j i (htree.valid path u hlength hu) hvalid heq)
  exact Function.update_of_ne hne e mem

theorem tableAt_agree
    (hagree : forall path u j, path.length <= depth ->
      F.tableAt mem root path = some u ->
      mem' (F.slot u j) = mem (F.slot u j)) :
    forall other : List index, other.length <= depth + 1 ->
      F.tableAt mem' root other = F.tableAt mem root other := by
  intro other
  induction other using List.reverseRecOn with
  | nil =>
      intro _
      rfl
  | append_singleton rest j ih =>
      intro hlength
      rw [List.length_append, List.length_singleton] at hlength
      have hrest := ih (by lia)
      cases hu : F.tableAt mem root rest with
      | none =>
          rw [tableAt_append, tableAt_append, hrest, hu]
          rfl
      | some u =>
          rw [tableAt_snoc (hrest.trans hu) j, tableAt_snoc hu j,
            hagree rest u j (by lia) hu]

/-- Paths that do not go through the changed entry lead where they led. -/
theorem Tree.tableAt_other (htree : F.Tree Valid mem root depth)
    (hpath : path.length <= depth) (ht : F.tableAt mem root path = some t)
    (hagree : F.AgreeExcept mem mem' root depth t i) :
    forall other : List index, other.length <= depth + 1 ->
      ¬ (path ++ [i]) <+: other ->
      F.tableAt mem' root other = F.tableAt mem root other := by
  intro other
  induction other using List.reverseRecOn with
  | nil =>
      intro _ _
      rfl
  | append_singleton rest j ih =>
      intro hlength hnot
      rw [List.length_append, List.length_singleton] at hlength
      have hrest : F.tableAt mem' root rest = F.tableAt mem root rest := by
        apply ih
        · lia
        · intro hbefore
          exact hnot (hbefore.trans (List.prefix_append rest [j]))
      cases hu : F.tableAt mem root rest with
      | none =>
          rw [tableAt_append, tableAt_append, hrest, hu]
          rfl
      | some u =>
          have hu' := hrest.trans hu
          rw [tableAt_snoc hu' j, tableAt_snoc hu j]
          rw [hagree rest u j (by lia) hu]
          intro hsame
          apply hnot
          have hpaths : rest = path :=
            htree.unique rest path t (by lia) hpath (hsame.left ▸ hu) ht
          have heq : path ++ [i] = rest ++ [j] := by
            rw [hpaths, hsame.right]
          exact heq ▸ List.prefix_refl (path ++ [i])

/-- Paths that go through an entry without a child lead nowhere. -/
theorem tableAt_through (ht : F.tableAt mem root path = some t)
    (hnone : F.child (mem (F.slot t i)) = none) (rest : List index) :
    F.tableAt mem root (path ++ [i] ++ rest) = none := by
  rw [tableAt_append, tableAt_snoc ht i, hnone]
  rfl

/-!
# Linking a table

A new table without entries is put under an entry that had no child.
-/

section Link

variable {f : table}

theorem Tree.tableAt_link (htree : F.Tree Valid mem root depth)
    (hpath : path.length < depth) (ht : F.tableAt mem root path = some t)
    (hagree : F.AgreeExcept mem mem' root depth t i)
    (hnone : F.child (mem (F.slot t i)) = none)
    (hlink : F.child (mem' (F.slot t i)) = some f)
    (hempty : forall j, F.child (mem' (F.slot f j)) = none)
    (other : List index) (hlength : other.length <= depth) :
    (other = path ++ [i] -> F.tableAt mem' root other = some f) ∧
      (other ≠ path ++ [i] ->
        F.tableAt mem' root other = F.tableAt mem root other) := by
  have hother := htree.tableAt_other (Nat.le_of_lt hpath) ht hagree
  have ht' : F.tableAt mem' root path = some t := by
    rw [hother path (by lia)]
    · exact ht
    · intro hpre
      have hle := hpre.length_le
      rw [List.length_append, List.length_singleton] at hle
      lia
  have hf : F.tableAt mem' root (path ++ [i]) = some f := by
    rw [tableAt_snoc ht' i]
    exact hlink
  constructor
  · intro heq
    rw [heq]
    exact hf
  · intro hne
    by_cases hpre : (path ++ [i]) <+: other
    · rcases hpre with ⟨rest, hrest⟩
      cases rest with
      | nil =>
          rw [List.append_nil] at hrest
          exact absurd hrest.symm hne
      | cons j tail =>
          rw [← hrest, tableAt_through ht hnone, tableAt_append, hf,
            Option.bind_some, tableAt_cons, hempty j]
          rfl
    · exact hother other (by lia) hpre

theorem Tree.link (htree : F.Tree Valid mem root depth)
    (hpath : path.length < depth) (ht : F.tableAt mem root path = some t)
    (hagree : F.AgreeExcept mem mem' root depth t i)
    (hnone : F.child (mem (F.slot t i)) = none)
    (hlink : F.child (mem' (F.slot t i)) = some f)
    (hempty : forall j, F.child (mem' (F.slot f j)) = none)
    (hvalid : Valid f)
    (hfresh : forall other : List index, other.length <= depth ->
      F.tableAt mem root other ≠ some f) :
    F.Tree Valid mem' root depth := by
  have hcase := htree.tableAt_link hpath ht hagree hnone hlink hempty
  have hold : forall (other : List index) (u : table),
      other.length <= depth -> F.tableAt mem' root other = some u ->
      (other = path ++ [i] ∧ u = f) ∨ F.tableAt mem root other = some u := by
    intro other u hlength hu
    rcases hcase other hlength with ⟨hsame, hdiff⟩
    by_cases hhere : other = path ++ [i]
    · rw [hsame hhere] at hu
      exact Or.inl ⟨hhere, (Option.some.inj hu).symm⟩
    · rw [hdiff hhere] at hu
      exact Or.inr hu
  constructor
  · intro other u hlength hu
    rcases hold other u hlength hu with ⟨_, hnew⟩ | hu
    · rw [hnew]
      exact hvalid
    · exact htree.valid other u hlength hu
  · intro left right u hleft hright hu hu'
    rcases hold left u hleft hu with ⟨heq, hnew⟩ | hl
    · rcases hold right u hright hu' with ⟨heq', _⟩ | hr
      · rw [heq, heq']
      · rw [hnew] at hr
        exact absurd hr (hfresh right hright)
    · rcases hold right u hright hu' with ⟨_, hnew⟩ | hr
      · rw [hnew] at hl
        exact absurd hl (hfresh left hleft)
      · exact htree.unique left right u hleft hright hl hr

end Link

/-!
# Stores at the bottom

Entries of the tables at the full depth refer to no table of the tree.
-/

theorem Tree.tableAt_bottom (htree : F.Tree Valid mem root depth)
    (hpath : path.length = depth) (ht : F.tableAt mem root path = some t)
    (hagree : F.AgreeExcept mem mem' root depth t i) (other : List index)
    (hlength : other.length <= depth) :
    F.tableAt mem' root other = F.tableAt mem root other := by
  apply htree.tableAt_other (Nat.le_of_eq hpath) ht hagree other
  · lia
  · intro hpre
    have hle := hpre.length_le
    rw [List.length_append, List.length_singleton] at hle
    lia

theorem Tree.of_tableAt (htree : F.Tree Valid mem root depth)
    (hsame : forall other : List index, other.length <= depth ->
      F.tableAt mem' root other = F.tableAt mem root other) :
    F.Tree Valid mem' root depth := by
  constructor
  · intro other u hlength hu
    rw [hsame other hlength] at hu
    exact htree.valid other u hlength hu
  · intro left right u hleft hright hu hu'
    rw [hsame left hleft] at hu
    rw [hsame right hright] at hu'
    exact htree.unique left right u hleft hright hu hu'

end

end TableFormat
end Foundation
end Barium
