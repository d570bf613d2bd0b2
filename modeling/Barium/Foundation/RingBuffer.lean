import Mathlib.Logic.Function.Basic
import Mathlib.Data.List.Basic

/-!
# Ring buffers

A ring of `n` cells with a read index and a write index, where one cell
stays unused so that equal indices mean an empty ring.  The contents of the
ring are the cells from the read index up to the write index, taken around the
end of the array.
-/

namespace Barium
namespace Foundation

namespace Ring

def Count (n head tail : Nat) : Nat :=
  (tail + n - head) % n

def window (cells : Nat -> alpha) (n head : Nat) : Nat -> List alpha
  | 0 => []
  | count + 1 => cells (head % n) :: window cells n (head + 1) count

def contents (cells : Nat -> alpha) (n head tail : Nat) : List alpha :=
  window cells n head (Count n head tail)

/-!
# Counting

The number of pending cells is determined by the two indices.  Empty and full
rings are recognised by the comparisons that implementations make.
-/

theorem count_eq {n head tail : Nat} (hhead : head < n) (htail : tail < n) :
    Count n head tail =
      if head <= tail then tail - head else tail + n - head := by
  unfold Count
  split
  · rename_i hle
    rw [show tail + n - head = (tail - head) + n by lia,
      Nat.add_mod_right, Nat.mod_eq_of_lt (by lia)]
  · rename_i hgt
    exact Nat.mod_eq_of_lt (by lia)

theorem succ_mod_eq {n k : Nat} (hk : k < n) :
    (k + 1) % n = if k + 1 = n then 0 else k + 1 := by
  split
  · rename_i heq
    rw [heq, Nat.mod_self]
  · rename_i hne
    exact Nat.mod_eq_of_lt (by lia)

theorem count_eq_zero_iff {n head tail : Nat}
    (hhead : head < n) (htail : tail < n) :
    Count n head tail = 0 <-> head = tail := by
  rw [count_eq hhead htail]
  split <;> lia

theorem count_full_iff {n head tail : Nat}
    (hhead : head < n) (htail : tail < n) :
    Count n head tail = n - 1 <-> (tail + 1) % n = head := by
  rw [count_eq hhead htail, succ_mod_eq htail]
  split <;> split <;> lia

theorem count_push {n head tail : Nat}
    (hhead : head < n) (htail : tail < n) (hroom : (tail + 1) % n ≠ head) :
    Count n head ((tail + 1) % n) = Count n head tail + 1 := by
  have hnext : (tail + 1) % n < n := Nat.mod_lt _ (by lia)
  rw [count_eq hhead hnext, count_eq hhead htail]
  rw [succ_mod_eq htail] at hroom ⊢
  split at hroom <;> split <;> split <;> lia

theorem count_pop {n head tail : Nat}
    (hhead : head < n) (htail : tail < n) (hne : head ≠ tail) :
    Count n head tail = Count n ((head + 1) % n) tail + 1 := by
  have hnext : (head + 1) % n < n := Nat.mod_lt _ (by lia)
  rw [count_eq hnext htail, count_eq hhead htail]
  rw [succ_mod_eq hhead]
  split <;> split <;> split <;> lia

/-!
# Windows

A window of cells only depends on its start up to the size of the ring.
-/

@[simp] theorem window_length (cells : Nat -> alpha) (n head count : Nat) :
    (window cells n head count).length = count := by
  induction count generalizing head with
  | zero => rfl
  | succ count ih => simp [window, ih]

@[simp] theorem contents_length (cells : Nat -> alpha) (n head tail : Nat) :
    (contents cells n head tail).length = Count n head tail :=
  window_length cells n head _

theorem window_mod (cells : Nat -> alpha) (n head count : Nat) :
    window cells n (head % n) count = window cells n head count := by
  induction count generalizing head with
  | zero => rfl
  | succ count ih =>
      simp only [window, Nat.mod_mod]
      rw [← ih (head % n + 1), ← ih (head + 1), Nat.mod_add_mod]

theorem window_snoc (cells : Nat -> alpha) (n head count : Nat) :
    window cells n head (count + 1) =
      window cells n head count ++ [cells ((head + count) % n)] := by
  induction count generalizing head with
  | zero => rfl
  | succ count ih =>
      rw [window, ih (head + 1)]
      simp only [window, List.cons_append]
      rw [show head + 1 + count = head + (count + 1) by lia]

theorem window_update_of_ne
    (cells : Nat -> alpha) (x : alpha) {n head tail count : Nat}
    (hne : forall i, i < count -> (head + i) % n ≠ tail) :
    window (Function.update cells tail x) n head count =
      window cells n head count := by
  induction count generalizing head with
  | zero => rfl
  | succ count ih =>
      have hfirst : head % n ≠ tail := by
        simpa using hne 0 (Nat.succ_pos count)
      have hrest : forall i, i < count -> (head + 1 + i) % n ≠ tail := by
        intro i hi
        have h := hne (i + 1) (by lia)
        rwa [show head + (i + 1) = head + 1 + i by lia] at h
      simp only [window, Function.update_of_ne hfirst, ih hrest]

/-!
# Push and pop

Writing at the write index and advancing it appends to the contents; advancing
the read index drops their first element.
-/

theorem add_count_mod {n head tail : Nat}
    (hhead : head < n) (htail : tail < n) :
    (head + Count n head tail) % n = tail := by
  rw [count_eq hhead htail]
  split
  · rw [show head + (tail - head) = tail by lia, Nat.mod_eq_of_lt htail]
  · rw [show head + (tail + n - head) = tail + n by lia,
      Nat.add_mod_right, Nat.mod_eq_of_lt htail]

theorem add_mod_ne_of_lt_count {n head tail i : Nat}
    (hhead : head < n) (htail : tail < n) (hi : i < Count n head tail) :
    (head + i) % n ≠ tail := by
  rw [count_eq hhead htail] at hi
  intro heq
  rcases Nat.lt_or_ge (head + i) n with hlt | hge
  · rw [Nat.mod_eq_of_lt hlt] at heq
    split at hi <;> lia
  · rw [Nat.mod_eq_sub_mod hge, Nat.mod_eq_of_lt (by split at hi <;> lia)] at heq
    split at hi <;> lia

theorem contents_push
    (cells : Nat -> alpha) (x : alpha) {n head tail : Nat}
    (hhead : head < n) (htail : tail < n) (hroom : (tail + 1) % n ≠ head) :
    contents (Function.update cells tail x) n head ((tail + 1) % n) =
      contents cells n head tail ++ [x] := by
  unfold contents
  rw [count_push hhead htail hroom, window_snoc, add_count_mod hhead htail,
    Function.update_self]
  rw [window_update_of_ne cells x
    (fun i hi => add_mod_ne_of_lt_count hhead htail hi)]

theorem contents_pop (cells : Nat -> alpha) {n head tail : Nat}
    (hhead : head < n) (htail : tail < n) (hne : head ≠ tail) :
    contents cells n head tail =
      cells head :: contents cells n ((head + 1) % n) tail := by
  unfold contents
  rw [count_pop hhead htail hne, window, Nat.mod_eq_of_lt hhead, window_mod]

theorem contents_eq_nil_iff (cells : Nat -> alpha) {n head tail : Nat}
    (hhead : head < n) (htail : tail < n) :
    contents cells n head tail = [] <-> head = tail := by
  rw [← List.length_eq_zero_iff, contents_length,
    count_eq_zero_iff hhead htail]

end Ring
end Foundation
end Barium
