import Mathlib.Order.Basic
import Mathlib.Data.Nat.Basic

/-!
# Searching for runs

A search over a row of places, some of them busy, for the first start of a run
of free places.  A search that meets a busy place goes on behind it: no run of
the wanted length starts at a place it skips.
-/

namespace Barium
namespace Foundation

namespace RunSearch

def FreeRun (busy : Nat -> Bool) (i count : Nat) : Prop :=
  forall j, j < count -> busy (i + j) = false

/-- What a search among the starts from `lo` to `limit` may answer. -/
def FirstRun (busy : Nat -> Bool) (lo limit count : Nat) : Option Nat -> Prop
  | some i =>
      lo <= i ∧ i < limit ∧ FreeRun busy i count ∧
        (i = lo ∨ busy (i - 1) = true) ∧
        forall k, lo <= k -> k < i -> ¬ FreeRun busy k count
  | none => forall k, lo <= k -> k < limit -> ¬ FreeRun busy k count

section

variable {busy : Nat -> Bool} {lo limit count i j : Nat}

theorem freeRun_mem (h : FreeRun busy i count) {p : Nat} (hlow : i <= p)
    (hhigh : p < i + count) : busy p = false := by
  have hp := h (p - i) (by lia)
  rwa [Nat.add_sub_cancel' hlow] at hp

theorem not_freeRun_of_busy {p : Nat} (hbusy : busy p = true) (hlow : i <= p)
    (hhigh : p < i + count) : ¬ FreeRun busy i count := by
  intro hfree
  have hp := freeRun_mem hfree hlow hhigh
  rw [hbusy] at hp
  cases hp

theorem firstRun_end (h : limit <= lo) : FirstRun busy lo limit count none := by
  intro k hlow hhigh
  lia

theorem firstRun_here (hlt : i < limit) (hfree : FreeRun busy i count) :
    FirstRun busy i limit count (some i) := by
  refine ⟨le_refl i, hlt, hfree, Or.inl rfl, ?_⟩
  intro k hlow hhigh
  lia

theorem firstRun_skip {r : Option Nat} (hj : j < count)
    (hbusy : busy (i + j) = true)
    (h : FirstRun busy (i + j + 1) limit count r) :
    FirstRun busy i limit count r := by
  have hskipped : forall k, i <= k -> k < i + j + 1 ->
      ¬ FreeRun busy k count := by
    intro k hlow hhigh
    exact not_freeRun_of_busy hbusy (by lia) (by lia)
  cases r with
  | none =>
      intro k hlow hhigh
      by_cases hk : k < i + j + 1
      · exact hskipped k hlow hk
      · exact h k (by lia) hhigh
  | some m =>
      rcases h with ⟨hlow, hhigh, hfree, hprev, hfirst⟩
      refine ⟨by lia, hhigh, hfree, ?_, ?_⟩
      · right
        rcases hprev with hprev | hprev
        · rw [hprev, Nat.add_sub_cancel]
          exact hbusy
        · exact hprev
      · intro k hk hkm
        by_cases hki : k < i + j + 1
        · exact hskipped k hk hki
        · exact hfirst k (by lia) hkm

end

end RunSearch
end Foundation
end Barium
