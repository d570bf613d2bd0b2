import Mathlib.Data.Nat.Bitwise
import Mathlib.Tactic.Ring

/-!
# Machine words

Words are natural numbers below a power of two.  The lemmas here turn the masks
that C code writes into arithmetic.
-/

namespace Barium
namespace Foundation

namespace Word

theorem and_low_mask (x k : Nat) : x &&& (2 ^ k - 1) = x % 2 ^ k :=
  Nat.and_two_pow_sub_one_eq_mod x k

/-!
# Unsigned 64-bit arithmetic
-/

def add (x y : Nat) : Nat :=
  (x + y) % 2 ^ 64

def sub (x y : Nat) : Nat :=
  (x + 2 ^ 64 - y) % 2 ^ 64

def mul (x y : Nat) : Nat :=
  x * y % 2 ^ 64

theorem add_of_lt {x y : Nat} (h : x + y < 2 ^ 64) : add x y = x + y :=
  Nat.mod_eq_of_lt h

theorem sub_of_le {x y : Nat} (hx : x < 2 ^ 64) (h : y <= x) :
    sub x y = x - y := by
  unfold sub
  rw [show x + 2 ^ 64 - y = (x - y) + 2 ^ 64 by lia, Nat.add_mod_right,
    Nat.mod_eq_of_lt (by lia)]

theorem mul_of_lt {x y : Nat} (h : x * y < 2 ^ 64) : mul x y = x * y :=
  Nat.mod_eq_of_lt h

theorem add_lt (x y : Nat) : add x y < 2 ^ 64 :=
  Nat.mod_lt _ (by decide)

theorem sub_lt (x y : Nat) : sub x y < 2 ^ 64 :=
  Nat.mod_lt _ (by decide)

theorem add_zero {x : Nat} (hx : x < 2 ^ 64) : add x 0 = x :=
  Nat.mod_eq_of_lt hx

theorem sub_zero {x : Nat} (hx : x < 2 ^ 64) : sub x 0 = x :=
  sub_of_le hx (Nat.zero_le x)

theorem add_add (x y z : Nat) : add (add x y) z = add x (y + z) := by
  unfold add
  rw [Nat.mod_add_mod, Nat.add_assoc]

theorem sub_sub {y z : Nat} (x : Nat) (h : y + z <= 2 ^ 64) :
    sub (sub x y) z = sub x (y + z) := by
  unfold sub
  generalize 2 ^ 64 = m at h
  rw [show (x + m - y) % m + m - z = (x + m - y) % m + (m - z) by lia,
    Nat.mod_add_mod,
    show x + m - y + (m - z) = x + m - (y + z) + m by lia,
    Nat.add_mod_right]

theorem add_sub_add {y : Nat} (x z : Nat) (h : y <= 2 ^ 64) :
    add (sub x y) (z + y) = add x z := by
  unfold add sub
  generalize 2 ^ 64 = m at h
  rw [Nat.mod_add_mod, show x + m - y + (z + y) = x + z + m by lia,
    Nat.add_mod_right]

/-!
# Masks and flags
-/

/-- Clearing the low `k` bits of a `w`-bit word. -/
theorem and_high_mask {x k w : Nat} (hx : x < 2 ^ w) (hk : k <= w) :
    x &&& (2 ^ w - 2 ^ k) = x / 2 ^ k * 2 ^ k := by
  have hmask : 2 ^ w - 2 ^ k = 2 ^ k * (2 ^ (w - k) - 1) := by
    rw [Nat.mul_sub, ← pow_add, Nat.add_sub_cancel' hk, Nat.mul_one]
  apply Nat.eq_of_testBit_eq
  intro i
  rw [hmask, Nat.testBit_and, Nat.testBit_two_pow_mul, Nat.mul_comm,
    Nat.testBit_two_pow_mul, Nat.testBit_div_two_pow]
  by_cases hi : k <= i
  · simp only [hi, decide_true, Bool.true_and,
      Nat.testBit_two_pow_sub_one, Nat.sub_add_cancel hi]
    by_cases hw : i < w
    · simp [show i - k < w - k by lia]
    · have hzero : x.testBit i = false :=
        Nat.testBit_lt_two_pow (lt_of_lt_of_le hx
          (Nat.pow_le_pow_right (by decide) (by lia)))
      simp [hzero]
  · simp [hi]

/-- Setting flags below `2 ^ k` in a word whose low `k` bits are clear. -/
theorem or_flags {x k flags : Nat} (hx : x % 2 ^ k = 0)
    (hflags : flags < 2 ^ k) : x ||| flags = x + flags := by
  have hdiv : x = 2 ^ k * (x / 2 ^ k) := by
    have h := Nat.div_add_mod x (2 ^ k)
    lia
  rw [hdiv, Nat.two_pow_add_eq_or_of_lt hflags]

theorem and_flags {x k flags mask : Nat} (hx : x % 2 ^ k = 0)
    (hflags : flags < 2 ^ k) (hmask : mask < 2 ^ k) :
    (x + flags) &&& mask = flags &&& mask := by
  have hlow : forall n, n &&& mask = n % 2 ^ k &&& mask := by
    intro n
    have hself : (2 ^ k - 1) &&& mask = mask := by
      rw [Nat.and_comm, and_low_mask, Nat.mod_eq_of_lt hmask]
    rw [← and_low_mask, Nat.and_assoc, hself]
  rw [hlow (x + flags), Nat.add_mod, hx, Nat.zero_add, Nat.mod_mod,
    Nat.mod_eq_of_lt hflags]

end Word
end Foundation
end Barium
