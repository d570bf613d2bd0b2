import Mathlib.Data.Nat.Basic
import Mathlib.Logic.Function.Basic
import Mathlib.Tactic.Ring

/-!
# The bytes of a memory of words

A memory that is read by words at addresses that eight divides, the lowest byte
of a word first.
-/

namespace Barium
namespace Foundation
namespace WordBytes

open Function

def wordAddr (p : Nat) : Nat :=
  p / 8 * 8

def digit (w k : Nat) : Nat :=
  w / 256 ^ k % 256

def setDigit (w k b : Nat) : Nat :=
  w % 256 ^ k + 256 ^ k * (b + 256 * (w / 256 ^ (k + 1)))

def byteAt (mem : Nat -> Nat) (p : Nat) : Nat :=
  digit (mem (wordAddr p)) (p % 8)

def setByte (mem : Nat -> Nat) (p b : Nat) : Nat -> Nat :=
  update mem (wordAddr p) (setDigit (mem (wordAddr p)) (p % 8) b)

theorem digit_setDigit_self (w k : Nat) {b : Nat} (hb : b < 256) :
    digit (setDigit w k b) k = b := by
  have hpos : 0 < 256 ^ k := Nat.pow_pos (by decide)
  unfold digit setDigit
  rw [Nat.add_mul_div_left _ _ hpos, Nat.div_eq_of_lt (Nat.mod_lt w hpos),
    Nat.zero_add, Nat.add_mul_mod_self_left, Nat.mod_eq_of_lt hb]

theorem digit_setDigit_below (w b : Nat) {k i : Nat} (hi : i < k) :
    digit (setDigit w k b) i = digit w i := by
  obtain ⟨n, hn⟩ := Nat.exists_eq_add_of_lt hi
  have hk : 256 ^ k = 256 ^ i * (256 * 256 ^ n) := by
    rw [hn, Nat.pow_succ, Nat.pow_add]
    ring
  have hpos : 0 < 256 ^ i := Nat.pow_pos (by decide)
  unfold digit setDigit
  rw [hk, Nat.mul_assoc (256 ^ i), Nat.add_mul_div_left _ _ hpos,
    Nat.mod_mul_right_div_self, Nat.mul_assoc 256, Nat.add_mul_mod_self_left,
    Nat.mod_mul_right_mod]

theorem digit_setDigit_above (w : Nat) {b k i : Nat} (hb : b < 256)
    (hi : k < i) : digit (setDigit w k b) i = digit w i := by
  obtain ⟨n, hn⟩ := Nat.exists_eq_add_of_lt hi
  have hpos : 0 < 256 ^ k := Nat.pow_pos (by decide)
  have hsplit : 256 ^ i = 256 ^ k * 256 * 256 ^ n := by
    rw [hn, Nat.pow_succ, Nat.pow_add]
    ring
  have hhigh : setDigit w k b / (256 ^ k * 256) = w / (256 ^ k * 256) := by
    unfold setDigit
    rw [← Nat.div_div_eq_div_mul, Nat.add_mul_div_left _ _ hpos,
      Nat.div_eq_of_lt (Nat.mod_lt w hpos), Nat.zero_add,
      Nat.add_mul_div_left _ _ (by decide), Nat.div_eq_of_lt hb, Nat.zero_add,
      Nat.pow_succ]
  unfold digit
  rw [hsplit, ← Nat.div_div_eq_div_mul, hhigh, Nat.div_div_eq_div_mul]

theorem byteAt_setByte_self (mem : Nat -> Nat) (p : Nat) {b : Nat}
    (hb : b < 256) : byteAt (setByte mem p b) p = b := by
  unfold byteAt setByte
  rw [update_self, digit_setDigit_self _ _ hb]

theorem byteAt_setByte_other (mem : Nat -> Nat) {p q b : Nat} (hb : b < 256)
    (hne : q ≠ p) : byteAt (setByte mem p b) q = byteAt mem q := by
  unfold byteAt setByte
  by_cases hword : wordAddr q = wordAddr p
  · have hdigit : q % 8 ≠ p % 8 := by
      unfold wordAddr at hword
      lia
    rw [hword, update_self]
    rcases Nat.lt_or_gt_of_ne hdigit with hlow | hhigh
    · exact digit_setDigit_below _ _ hlow
    · exact digit_setDigit_above _ hb hhigh
  · rw [update_of_ne hword]

theorem setByte_word (mem : Nat -> Nat) {p a : Nat} (b : Nat)
    (hne : a ≠ wordAddr p) : setByte mem p b a = mem a :=
  update_of_ne hne _ _

theorem byteAt_congr {mem mem' : Nat -> Nat} {p : Nat}
    (h : mem' (wordAddr p) = mem (wordAddr p)) :
    byteAt mem' p = byteAt mem p := by
  unfold byteAt
  rw [h]

theorem wordAddr_page (p : Nat) : wordAddr p / 4096 = p / 4096 := by
  unfold wordAddr
  lia

end WordBytes
end Foundation
end Barium
