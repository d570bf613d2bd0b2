import Mathlib.Data.Finset.Card
import Mathlib.Data.List.Basic
import Mathlib.Data.List.Nodup
import Mathlib.Logic.Function.Basic
import Mathlib.Order.Interval.Finset.Nat

/-!
# Linked lists

A list whose nodes carry the pointer to the next node.  `Chain null next head
xs` says that the nodes met from `head` on are `xs`, and that the last one is
followed by `null`; such a list is finite and ends.
-/

namespace Barium
namespace Foundation

open Function

namespace LinkedList

variable {ptr : Type} {null : ptr} {next : ptr -> ptr} {head : ptr}

def Chain (null : ptr) (next : ptr -> ptr) : ptr -> List ptr -> Prop
  | head, [] => head = null
  | head, x :: xs => head = x ∧ x ≠ null ∧ Chain null next (next x) xs

def first (null : ptr) (xs : List ptr) : ptr :=
  xs.headD null

def last (null : ptr) (xs : List ptr) : ptr :=
  xs.getLastD null

theorem last_snoc (xs : List ptr) (x : ptr) : last null (xs ++ [x]) = x := by
  unfold last
  simp [List.getLastD_eq_getLast?]

theorem last_mem {xs : List ptr} (h : last null xs ≠ null) :
    last null xs ∈ xs := by
  rcases List.eq_nil_or_concat xs with hnil | ⟨ys, y, hxs⟩
  · rw [hnil] at h
    exact absurd rfl h
  · rw [List.concat_eq_append] at hxs
    rw [hxs, last_snoc]
    simp

/-!
# Reading
-/

theorem chain_first {xs : List ptr} (h : Chain null next head xs) :
    head = first null xs := by
  cases xs with
  | nil => exact h
  | cons x xs => exact h.left

theorem chain_ne_null {xs : List ptr} (h : Chain null next head xs) {x : ptr}
    (hx : x ∈ xs) : x ≠ null := by
  induction xs generalizing head with
  | nil => cases hx
  | cons y ys ih =>
      rcases List.mem_cons.mp hx with hx | hx
      · rw [hx]
        exact h.right.left
      · exact ih h.right.right hx

theorem chain_next {before after : List ptr} {x : ptr}
    (h : Chain null next head (before ++ x :: after)) :
    next x = first null after := by
  induction before generalizing head with
  | nil => exact chain_first h.right.right
  | cons y ys ih => exact ih h.right.right

theorem chain_null {xs : List ptr} (h : Chain null next null xs) :
    xs = [] := by
  cases xs with
  | nil => rfl
  | cons x xs => exact absurd h.left.symm h.right.left

/-- The pointers determine the list. -/
theorem chain_unique {xs ys : List ptr} (hx : Chain null next head xs)
    (hy : Chain null next head ys) : xs = ys := by
  induction xs generalizing head ys with
  | nil =>
      rw [show head = null from hx] at hy
      exact (chain_null hy).symm
  | cons x xs ih =>
      cases ys with
      | nil => exact absurd (hx.left.symm.trans hy) hx.right.left
      | cons y ys =>
          have heq : x = y := hx.left.symm.trans hy.left
          rw [← heq] at hy ⊢
          rw [ih hx.right.right hy.right.right]

/-- A list of different addresses, none of them null, ends before the address
space does. -/
theorem length_lt_of_nodup {xs : List Nat} {n : Nat} (hnodup : xs.Nodup)
    (hpos : 0 < n) (haddr : forall x, x ∈ xs -> x ≠ 0 ∧ x < n) :
    xs.length < n := by
  have hsub : xs.toFinset ⊆ Finset.Ico 1 n := by
    intro x hx
    have hx' := haddr x (List.mem_toFinset.mp hx)
    rw [Finset.mem_Ico]
    exact ⟨Nat.one_le_iff_ne_zero.mpr hx'.left, hx'.right⟩
  have hcard := Finset.card_le_card hsub
  rw [List.toFinset_card_of_nodup hnodup, Nat.card_Ico] at hcard
  exact Nat.lt_of_le_of_lt hcard (Nat.sub_lt hpos Nat.one_pos)

/-!
# Writing

Pointers of nodes outside a list may change; a node is put in front, taken out
or put behind the last node by changing one pointer.
-/

theorem chain_congr {next' : ptr -> ptr} {xs : List ptr}
    (h : Chain null next head xs) (hsame : forall x, x ∈ xs ->
      next' x = next x) :
    Chain null next' head xs := by
  induction xs generalizing head with
  | nil => exact h
  | cons x xs ih =>
      refine ⟨h.left, h.right.left, ?_⟩
      rw [hsame x List.mem_cons_self]
      apply ih h.right.right
      intro y hy
      exact hsame y (List.mem_cons_of_mem x hy)

section Update

variable [DecidableEq ptr]

theorem chain_update_other {xs : List ptr} (h : Chain null next head xs)
    {x : ptr} (hx : x ∉ xs) (y : ptr) :
    Chain null (update next x y) head xs := by
  apply chain_congr h
  intro z hz
  apply update_of_ne
  intro heq
  rw [heq] at hz
  exact hx hz

theorem chain_push {xs : List ptr} (h : Chain null next head xs) {x : ptr}
    (hx : x ∉ xs) (hne : x ≠ null) :
    Chain null (update next x head) x (x :: xs) := by
  refine ⟨rfl, hne, ?_⟩
  rw [update_self]
  exact chain_update_other h hx head

theorem chain_remove {before after : List ptr} {prev x : ptr}
    (h : Chain null next head (before ++ prev :: x :: after))
    (hnodup : (before ++ prev :: x :: after).Nodup) :
    Chain null (update next prev (next x)) head
      (before ++ prev :: after) := by
  induction before generalizing head with
  | nil =>
      refine ⟨h.left, h.right.left, ?_⟩
      have hprev : prev ∉ after := by
        intro hmem
        exact (List.nodup_cons.mp hnodup).left (List.mem_cons_of_mem x hmem)
      rw [update_self]
      exact chain_update_other h.right.right.right.right hprev (next x)
  | cons y ys ih =>
      rcases List.nodup_cons.mp hnodup with ⟨hy, hrest⟩
      refine ⟨h.left, h.right.left, ?_⟩
      have hne : y ≠ prev := by
        intro heq
        apply hy
        rw [heq]
        simp
      rw [update_of_ne hne]
      exact ih h.right.right hrest

theorem chain_snoc {before : List ptr} {back x : ptr}
    (h : Chain null next head (before ++ [back]))
    (hnodup : (before ++ [back]).Nodup) (hx : x ∉ before ++ [back])
    (hne : x ≠ null) (hnull : next x = null) :
    Chain null (update next back x) head (before ++ [back, x]) := by
  induction before generalizing head with
  | nil =>
      have hback : x ≠ back := by
        intro heq
        apply hx
        rw [heq]
        simp
      refine ⟨h.left, h.right.left, ?_, hne, ?_⟩
      · rw [update_self]
      · rw [update_of_ne hback]
        exact hnull
  | cons y ys ih =>
      rcases List.nodup_cons.mp hnodup with ⟨hy, hrest⟩
      refine ⟨h.left, h.right.left, ?_⟩
      have hne : y ≠ back := by
        intro heq
        apply hy
        rw [heq]
        simp
      rw [update_of_ne hne]
      apply ih h.right.right hrest
      intro hmem
      exact hx (List.mem_cons_of_mem y hmem)

end Update

/-!
# Several lists

Lists without common nodes may share one pointer field.  List `i` begins at
`head i`; only the lists with a valid index count.
-/

structure Family {index : Type} (valid : index -> Prop) (null : ptr)
    (next : ptr -> ptr) (head : index -> ptr) (lists : index -> List ptr) :
    Prop where
  chain : forall i, valid i -> Chain null next (head i) (lists i)
  nodup : forall i, valid i -> (lists i).Nodup
  apart : forall i j x, valid i -> valid j -> x ∈ lists i -> x ∈ lists j ->
    i = j

section Family

variable {index : Type} {valid : index -> Prop} {heads : index -> ptr}
  {lists : index -> List ptr}

theorem Family.congr (h : Family valid null next heads lists)
    {next' : ptr -> ptr} {heads' : index -> ptr}
    (hnext : forall i x, valid i -> x ∈ lists i -> next' x = next x)
    (hheads : forall i, valid i -> heads' i = heads i) :
    Family valid null next' heads' lists := by
  constructor
  · intro i hi
    rw [hheads i hi]
    exact chain_congr (h.chain i hi) (fun x hx => hnext i x hi hx)
  · exact h.nodup
  · exact h.apart

variable [DecidableEq index]

theorem Family.replace (h : Family valid null next heads lists) {i : index}
    {next' : ptr -> ptr} {heads' : index -> ptr} {xs : List ptr}
    (hself : Chain null next' (heads' i) xs) (hnodup : xs.Nodup)
    (hothers : forall j, valid j -> j ≠ i ->
      Chain null next' (heads' j) (lists j) ∧ forall x, x ∈ xs ->
        x ∉ lists j) :
    Family valid null next' heads' (update lists i xs) := by
  constructor
  · intro j hj
    by_cases hcond : j = i
    · rw [hcond, update_self]
      exact hself
    · rw [update_of_ne hcond]
      exact (hothers j hj hcond).left
  · intro j hj
    by_cases hji : j = i
    · rw [hji, update_self]
      exact hnodup
    · rw [update_of_ne hji]
      exact h.nodup j hj
  · intro j k x hj hk hxj hxk
    by_cases hhere : j = i
    · by_cases hcase : k = i
      · rw [hhere, hcase]
      · rw [hhere, update_self] at hxj
        rw [update_of_ne hcase] at hxk
        exact absurd hxk ((hothers k hk hcase).right x hxj)
    · rw [update_of_ne hhere] at hxj
      by_cases hsame : k = i
      · rw [hsame, update_self] at hxk
        exact absurd hxj ((hothers j hj hhere).right x hxk)
      · rw [update_of_ne hsame] at hxk
        exact h.apart j k x hj hk hxj hxk

theorem Family.removeFirst (h : Family valid null next heads lists)
    {i : index} (hi : valid i) {x : ptr} {after : List ptr}
    (hlist : lists i = x :: after) :
    Family valid null next (update heads i (next x))
      (update lists i after) := by
  have hchain := h.chain i hi
  have hnodup := h.nodup i hi
  rw [hlist] at hchain hnodup
  apply h.replace
  · rw [update_self]
    exact hchain.right.right
  · exact (List.nodup_cons.mp hnodup).right
  · intro j hj hne
    rw [update_of_ne hne]
    refine ⟨h.chain j hj, ?_⟩
    intro y hy hyj
    apply hne
    apply h.apart j i y hj hi hyj
    rw [hlist]
    exact List.mem_cons_of_mem x hy

variable [DecidableEq ptr]

theorem Family.removeAfter (h : Family valid null next heads lists)
    {i : index} (hi : valid i) {prev x : ptr} {before after : List ptr}
    (hlist : lists i = before ++ prev :: x :: after) :
    Family valid null (update next prev (next x)) heads
      (update lists i (before ++ prev :: after)) := by
  have hchain := h.chain i hi
  have hnodup := h.nodup i hi
  rw [hlist] at hchain hnodup
  have hsub : (before ++ prev :: after).Sublist
      (before ++ prev :: x :: after) := by
    apply List.Sublist.append_left
    exact (List.sublist_cons_self x after).cons_cons prev
  have hprev : prev ∈ lists i := by
    rw [hlist]
    simp
  apply h.replace
  · exact chain_remove hchain hnodup
  · exact hnodup.sublist hsub
  · intro j hj hne
    constructor
    · apply chain_update_other (h.chain j hj)
      intro hmem
      exact hne (h.apart j i prev hj hi hmem hprev)
    · intro y hy hyj
      apply hne
      apply h.apart j i y hj hi hyj
      rw [hlist]
      exact hsub.subset hy

theorem Family.push (h : Family valid null next heads lists) {i : index}
    (hi : valid i) {x : ptr} (hne : x ≠ null)
    (hfree : forall j, valid j -> x ∉ lists j) :
    Family valid null (update next x (heads i))
      (update heads i x)
      (update lists i (x :: lists i)) := by
  apply h.replace
  · rw [update_self]
    exact chain_push (h.chain i hi) (hfree i hi) hne
  · exact List.nodup_cons.mpr ⟨hfree i hi, h.nodup i hi⟩
  · intro j hj hji
    rw [update_of_ne hji]
    refine ⟨chain_update_other (h.chain j hj) (hfree j hj) _, ?_⟩
    intro y hy hyj
    rcases List.mem_cons.mp hy with heq | hmem
    · rw [heq] at hyj
      exact hfree j hj hyj
    · exact hji (h.apart j i y hj hi hyj hmem)

end Family

end LinkedList
end Foundation
end Barium
