import Mathlib.Algebra.GroupWithZero.Nat
import Mathlib.Data.List.Basic

/-!
# Walks over records

A loop that visits the records of a table one after the other: each record says
where the next one starts, and the loop ends behind the last one.  What the loop
does is a fold over the addresses it visits, and over the records themselves
when the table is a row of records without gaps.
-/

namespace Barium
namespace Foundation

namespace RecordWalk

/-- `while (p < limit) { visit(p); p = next(p); }`; `none` is a loop that has
not ended. -/
def walk (limit : Nat) (next : Nat -> Nat) (visit : Nat -> state -> state) :
    Nat -> Nat -> state -> Option state
  | 0, _, _ => none
  | fuel + 1, p, s =>
      if p < limit then walk limit next visit fuel (next p) (visit p s)
      else some s

inductive Path (limit : Nat) (next : Nat -> Nat) : Nat -> List Nat -> Prop where
  | done {p : Nat} : limit <= p -> Path limit next p []
  | visit {p : Nat} {rest : List Nat} :
      p < limit -> Path limit next (next p) rest ->
      Path limit next p (p :: rest)

section Walks

variable {limit : Nat} {next : Nat -> Nat} {visit : Nat -> state -> state}
  {p : Nat} {path : List Nat}

theorem path_unique {other : List Nat} (h : Path limit next p path)
    (h' : Path limit next p other) : path = other := by
  induction h generalizing other with
  | done hend =>
      cases h' with
      | done _ => rfl
      | visit hlt _ => exact absurd hlt (Nat.not_lt.mpr hend)
  | visit hlt _ ih =>
      cases h' with
      | done hend => exact absurd hlt (Nat.not_lt.mpr hend)
      | visit _ hrest => rw [ih hrest]

theorem Path.next_ne (h : Path limit next p path) (hp : p < limit) :
    next p ≠ p := by
  intro hstill
  have hlonger : Path limit next p (p :: path) :=
    Path.visit hp (by rw [hstill]; exact h)
  have hlength := congrArg List.length (path_unique h hlonger)
  rw [List.length_cons] at hlength
  lia

theorem walk_of_path {fuel : Nat} (s : state) (h : Path limit next p path)
    (hfuel : path.length < fuel) :
    walk limit next visit fuel p s =
      some (path.foldl (fun s p => visit p s) s) := by
  induction h generalizing fuel s with
  | done hend =>
      cases fuel with
      | zero => cases hfuel
      | succ fuel =>
          rw [walk, if_neg (Nat.not_lt.mpr hend)]
          rfl
  | visit hlt _ ih =>
      cases fuel with
      | zero => cases hfuel
      | succ fuel =>
          rw [walk, if_pos hlt, ih _ (Nat.lt_of_succ_lt_succ hfuel)]
          rfl

theorem path_of_walk {fuel : Nat} {s t : state}
    (h : walk limit next visit fuel p s = some t) :
    exists path, Path limit next p path ∧
      t = path.foldl (fun s p => visit p s) s := by
  induction fuel generalizing p s with
  | zero => cases h
  | succ fuel ih =>
      rw [walk] at h
      by_cases hlt : p < limit
      · rw [if_pos hlt] at h
        rcases ih h with ⟨path, hpath, ht⟩
        exact ⟨p :: path, Path.visit hlt hpath, ht⟩
      · rw [if_neg hlt] at h
        cases h
        exact ⟨[], Path.done (Nat.le_of_not_lt hlt), rfl⟩

end Walks

/-!
# Rows of records
-/

/-- Records in a row from `p` to `limit`, where `At p r` says that record `r`
stands at `p`. -/
def Row (At : Nat -> item -> Prop) (size : item -> Nat) (limit : Nat) :
    Nat -> List item -> Prop
  | p, [] => p = limit
  | p, r :: rest => At p r ∧ Row At size limit (p + size r) rest

def starts (size : item -> Nat) : Nat -> List item -> List Nat
  | _, [] => []
  | p, r :: rest => p :: starts size (p + size r) rest

section Rows

variable {At : Nat -> item -> Prop} {size : item -> Nat} {limit p : Nat}
  {next : Nat -> Nat} {records : List item}

theorem Row.end_eq (h : Row At size limit p records) :
    p + (records.map size).sum = limit := by
  induction records generalizing p with
  | nil => exact h
  | cons r rest ih =>
      have hrest := ih h.right
      rw [List.map_cons, List.sum_cons]
      lia

theorem Row.path (h : Row At size limit p records)
    (hsize : forall r, r ∈ records -> 0 < size r)
    (hnext : forall q r, At q r -> q + size r <= limit ->
      next q = q + size r) :
    Path limit next p (starts size p records) := by
  induction records generalizing p with
  | nil => exact Path.done (Nat.le_of_eq h.symm)
  | cons r rest ih =>
      have hpos := hsize r List.mem_cons_self
      have hend : p + size r + (rest.map size).sum = limit := h.right.end_eq
      have hstep : next p = p + size r := hnext p r h.left (by lia)
      refine Path.visit (by lia) ?_
      rw [hstep]
      exact ih h.right (fun r hr => hsize r (List.mem_cons_of_mem _ hr))

theorem starts_length (size : item -> Nat) (p : Nat) (records : List item) :
    (starts size p records).length = records.length := by
  induction records generalizing p with
  | nil => rfl
  | cons r rest ih => rw [starts, List.length_cons, List.length_cons, ih]

/-- The loop does to the state what the records say. -/
theorem Row.foldl (h : Row At size limit p records)
    {visit : Nat -> state -> state} {act : item -> state -> state}
    (hvisit : forall q r s, At q r -> visit q s = act r s) (s : state) :
    (starts size p records).foldl (fun s q => visit q s) s =
      records.foldl (fun s r => act r s) s := by
  induction records generalizing p s with
  | nil => rfl
  | cons r rest ih =>
      rw [starts, List.foldl_cons, List.foldl_cons, hvisit p r s h.left]
      exact ih h.right _

end Rows

end RecordWalk
end Foundation
end Barium
