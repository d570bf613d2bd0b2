import Mathlib.Data.Nat.Bitwise
import Barium.Foundation.ByteMemory

/-!
# Bitmaps

A bitmap is a row of bytes in memory; bit `i` is bit `i % 8` of the byte at
index `i / 8`.  Writing a bit reads and rewrites its byte, and the seven other
bits of that byte keep their values.
-/

namespace Barium
namespace Foundation

open Function

namespace Bitmap

def mask (i : Nat) : UInt8 :=
  1 <<< UInt8.ofNat (i % 8)

def test (mem : ByteMemory) (base i : Nat) : Bool :=
  decide (mem (base + i / 8) &&& mask i ≠ 0)

def set (mem : ByteMemory) (base i : Nat) : ByteMemory :=
  update mem (base + i / 8) (mem (base + i / 8) ||| mask i)

def clear (mem : ByteMemory) (base i : Nat) : ByteMemory :=
  update mem (base + i / 8) (mem (base + i / 8) &&& ~~~ mask i)

/-!
# Bits of one byte
-/

theorem mask_toNat (i : Nat) : (mask i).toNat = 2 ^ (i % 8) := by
  have hall : forall k, k < 8 ->
      ((1 : UInt8) <<< UInt8.ofNat k).toNat = 2 ^ k := by
    decide
  exact hall (i % 8) (Nat.mod_lt i (by decide))

theorem byte_and_mask (b : UInt8) (i : Nat) :
    b &&& mask i ≠ 0 <-> b.toNat.testBit (i % 8) = true := by
  rw [ne_eq, ← UInt8.toNat_inj, UInt8.toNat_and, mask_toNat,
    Nat.and_two_pow]
  cases b.toNat.testBit (i % 8) with
  | false => simp
  | true => simp

theorem test_eq (mem : ByteMemory) (base i : Nat) :
    test mem base i = (mem (base + i / 8)).toNat.testBit (i % 8) := by
  unfold test
  rw [Bool.eq_iff_iff, decide_eq_true_eq]
  exact byte_and_mask _ i

theorem testBit_not_mask {i k : Nat} (hk : k < 8) :
    (~~~ mask i).toNat.testBit k = decide (k ≠ i % 8) := by
  have hall : forall l, l < 8 -> forall k, k < 8 ->
      (~~~ ((1 : UInt8) <<< UInt8.ofNat l)).toNat.testBit k =
        decide (k ≠ l) := by
    decide
  exact hall (i % 8) (Nat.mod_lt i (by decide)) k hk

/-!
# Reading after writing
-/

theorem test_set (mem : ByteMemory) (base i j : Nat) :
    test (set mem base i) base j = (decide (j = i) || test mem base j) := by
  rw [test_eq, test_eq, set]
  by_cases hbyte : j / 8 = i / 8
  · rw [hbyte, update_self, UInt8.toNat_or, Nat.testBit_or,
      mask_toNat, Nat.testBit_two_pow, Bool.or_comm]
    congr 1
    rw [decide_eq_decide]
    lia
  · rw [update_of_ne (by lia)]
    have hne : j ≠ i := by
      intro heq
      exact hbyte (by rw [heq])
    simp [hne]

theorem test_clear (mem : ByteMemory) (base i j : Nat) :
    test (clear mem base i) base j = (decide (j ≠ i) && test mem base j) := by
  rw [test_eq, test_eq, clear]
  by_cases hbyte : j / 8 = i / 8
  · rw [hbyte, update_self, UInt8.toNat_and, Nat.testBit_and,
      testBit_not_mask (Nat.mod_lt j (by decide)), Bool.and_comm]
    congr 1
    rw [decide_eq_decide]
    lia
  · rw [update_of_ne (by lia)]
    have hne : j ≠ i := by
      intro heq
      exact hbyte (by rw [heq])
    simp [hne]

end Bitmap
end Foundation
end Barium
