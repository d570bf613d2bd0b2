import Mathlib.Logic.Function.Basic
import Mathlib.Data.UInt

/-!
# Byte memories

A byte memory maps addresses to bytes.  Multi-byte fields are read in
little-endian order.
-/

namespace Barium
namespace Foundation

abbrev ByteMemory := Nat -> UInt8

namespace ByteMemory

def loadLE (mem : ByteMemory) (a : Nat) : Nat -> Nat
  | 0 => 0
  | width + 1 => (mem a).toNat + 256 * loadLE mem (a + 1) width

theorem loadLE_congr {mem mem' : ByteMemory} {a width : Nat}
    (h : forall i, i < width -> mem (a + i) = mem' (a + i)) :
    loadLE mem a width = loadLE mem' a width := by
  induction width generalizing a with
  | zero => rfl
  | succ width ih =>
      have hfirst : mem a = mem' a := h 0 (Nat.succ_pos width)
      have hrest : loadLE mem (a + 1) width = loadLE mem' (a + 1) width := by
        apply ih
        intro i hi
        have hi' := h (i + 1) (by lia)
        rwa [show a + (i + 1) = a + 1 + i by lia] at hi'
      rw [loadLE, loadLE, hfirst, hrest]

theorem loadLE_eq_zero {mem : ByteMemory} {a width : Nat}
    (h : forall i, i < width -> mem (a + i) = 0) :
    loadLE mem a width = 0 := by
  induction width generalizing a with
  | zero => rfl
  | succ width ih =>
      have hfirst : mem a = 0 := h 0 (Nat.succ_pos width)
      have hrest : loadLE mem (a + 1) width = 0 := by
        apply ih
        intro i hi
        have hi' := h (i + 1) (by lia)
        rwa [show a + (i + 1) = a + 1 + i by lia] at hi'
      rw [loadLE, hfirst, hrest]
      rfl

theorem loadLE_lt (mem : ByteMemory) (a width : Nat) :
    loadLE mem a width < 256 ^ width := by
  induction width generalizing a with
  | zero => exact Nat.one_pos
  | succ width ih =>
      have hbyte : (mem a).toNat < 256 := UInt8.toNat_lt _
      have hrest := ih (a + 1)
      rw [loadLE, pow_succ]
      lia

/-!
# Stores
-/

def storeLE (mem : ByteMemory) (a : Nat) : Nat -> Nat -> ByteMemory
  | 0, _ => mem
  | width + 1, v =>
      storeLE (Function.update mem a (UInt8.ofNat v)) (a + 1) width (v / 256)

theorem storeLE_outside (mem : ByteMemory) {a width b : Nat} (v : Nat)
    (h : b < a ∨ a + width <= b) : storeLE mem a width v b = mem b := by
  induction width generalizing mem a v with
  | zero => rfl
  | succ width ih =>
      have hne : b ≠ a := by lia
      rw [storeLE, ih _ _ (by lia), Function.update_of_ne hne]

theorem storeLE_inside (mem : ByteMemory) (a v : Nat) {width i : Nat}
    (hi : i < width) :
    storeLE mem a width v (a + i) = UInt8.ofNat (v / 256 ^ i) := by
  induction width generalizing mem a v i with
  | zero => cases hi
  | succ width ih =>
      cases i with
      | zero =>
          rw [storeLE, storeLE_outside _ _ (by lia), Nat.add_zero,
            Function.update_self, pow_zero, Nat.div_one]
      | succ i =>
          have haddr : a + (i + 1) = a + 1 + i := by lia
          rw [storeLE, haddr, ih _ _ _ (by lia), pow_succ, Nat.mul_comm,
            Nat.div_div_eq_div_mul]

theorem loadLE_storeLE (mem : ByteMemory) (a width v : Nat) :
    loadLE (storeLE mem a width v) a width = v % 256 ^ width := by
  induction width generalizing mem a v with
  | zero => rw [pow_zero, Nat.mod_one, loadLE]
  | succ width ih =>
      have hfirst : (storeLE mem a (width + 1) v a).toNat = v % 256 := by
        rw [storeLE, storeLE_outside _ _ (by lia), Function.update_self]
        exact UInt8.toNat_ofNat'
      rw [loadLE, hfirst, storeLE, ih, pow_succ, Nat.mul_comm _ 256,
        Nat.mod_mul]

theorem loadLE_storeLE_outside (mem : ByteMemory) {a b width n : Nat} (v : Nat)
    (h : b + n <= a ∨ a + width <= b) :
    loadLE (storeLE mem a width v) b n = loadLE mem b n := by
  apply loadLE_congr
  intro i hi
  exact storeLE_outside mem v (by lia)

/-!
# Contents
-/

def Holds (mem : ByteMemory) (a : Nat) : List UInt8 -> Prop
  | [] => True
  | b :: rest => mem a = b ∧ Holds mem (a + 1) rest

def decideHolds (mem : ByteMemory) :
    (a : Nat) -> (bytes : List UInt8) -> Decidable (Holds mem a bytes)
  | _, [] => isTrue trivial
  | a, b :: rest =>
      haveI := decideHolds mem (a + 1) rest
      inferInstanceAs (Decidable (mem a = b ∧ Holds mem (a + 1) rest))

instance (mem : ByteMemory) (a : Nat) (bytes : List UInt8) :
    Decidable (Holds mem a bytes) :=
  decideHolds mem a bytes

end ByteMemory
end Foundation
end Barium
