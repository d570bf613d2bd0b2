import Mathlib.Data.List.GetD
import Barium.Foundation.ByteMemory

/-!
# Kernel library routines

The byte-level routines of `lib.c`.  A C string is its list of bytes before the
terminating zero.  Memory is total: a routine that runs past the object it was
given writes to whatever lies behind it, as the unchecked loops do.
-/

namespace Barium
namespace Lib

open Foundation
open Function

structure CString where
  bytes : List UInt8
  nonzero : forall b, b ∈ bytes -> b ≠ 0

def CString.byteAt (s : CString) (i : Nat) : UInt8 :=
  s.bytes.getD i 0

def bMemset (mem : ByteMemory) (s : Nat) (c : UInt8) : Nat -> ByteMemory
  | 0 => mem
  | n + 1 => update (bMemset mem s c n) (s + n) c

def strcpyLoop (mem : ByteMemory) (dest : Nat) : List UInt8 -> ByteMemory
  | [] => update mem dest 0
  | c :: rest => strcpyLoop (update mem dest c) (dest + 1) rest

def bStrcpy (mem : ByteMemory) (dest : Nat) (src : CString) : ByteMemory :=
  strcpyLoop mem dest src.bytes

/-- The loop ends at the latest where the second string ends: there a character
of the first string is zero or differs. -/
def strcmpLoop (mem : ByteMemory) (s1 : Nat) : List UInt8 -> Int
  | [] => (mem s1).toNat
  | c :: rest =>
      if mem s1 ≠ 0 ∧ mem s1 = c then strcmpLoop mem (s1 + 1) rest
      else (mem s1).toNat - c.toNat

def bStrcmp (mem : ByteMemory) (s1 : Nat) (s2 : CString) : Int :=
  strcmpLoop mem s1 s2.bytes

/-- `b_memcmp` with a second operand of known bytes. -/
def bMemcmp (mem : ByteMemory) (s1 : Nat) : List UInt8 -> Int
  | [] => 0
  | c :: rest =>
      if mem s1 ≠ c then (mem s1).toNat - c.toNat
      else bMemcmp mem (s1 + 1) rest

theorem bMemset_apply (mem : ByteMemory) (s : Nat) (c : UInt8) (n a : Nat) :
    bMemset mem s c n a = if s <= a ∧ a < s + n then c else mem a := by
  induction n with
  | zero =>
      rw [bMemset, if_neg (by lia)]
  | succ n ih =>
      rw [bMemset]
      by_cases hlast : a = s + n
      · rw [hlast, update_self, if_pos (by lia)]
      · rw [update_of_ne hlast, ih]
        by_cases hin : s <= a ∧ a < s + n
        · rw [if_pos hin, if_pos (by lia)]
        · rw [if_neg hin, if_neg (by lia)]

theorem strcpyLoop_apply (mem : ByteMemory) (dest : Nat) (src : List UInt8)
    (a : Nat) :
    strcpyLoop mem dest src a =
      if dest <= a ∧ a <= dest + src.length then src.getD (a - dest) 0
      else mem a := by
  induction src generalizing mem dest with
  | nil =>
      rw [strcpyLoop]
      by_cases ha : a = dest
      · rw [ha, update_self, if_pos (by simp)]
        simp
      · rw [update_of_ne ha, if_neg (by simp; lia)]
  | cons c rest ih =>
      rw [strcpyLoop, ih]
      simp only [List.length_cons]
      by_cases ha : a = dest
      · rw [ha, if_neg (by lia), update_self, if_pos (by lia)]
        simp
      · by_cases hin : dest + 1 <= a ∧ a <= dest + 1 + rest.length
        · rw [if_pos hin, if_pos (by lia),
            show a - dest = (a - (dest + 1)) + 1 by lia, List.getD_cons_succ]
        · rw [if_neg hin, update_of_ne ha, if_neg (by lia)]

/-!
Copying a string over zeroed memory leaves its bytes followed by zeros, however
far the string reaches.
-/

theorem bStrcpy_zeroed (src : CString) {mem : ByteMemory} {a : Nat}
    (hzero : mem a = 0) :
    bStrcpy mem 0 src a = src.byteAt a := by
  unfold bStrcpy CString.byteAt
  rw [strcpyLoop_apply]
  by_cases hin : a <= src.bytes.length
  · rw [if_pos (by lia), Nat.sub_zero]
  · rw [if_neg (by lia), hzero, List.getD_eq_default _ _ (by lia)]

/-!
# Comparing strings
-/

def BytesAt (mem : ByteMemory) (a : Nat) (bytes : List UInt8) : Prop :=
  forall i, i <= bytes.length -> mem (a + i) = bytes.getD i 0

theorem BytesAt.tail {mem : ByteMemory} {a : Nat} {c : UInt8}
    {bytes : List UInt8} (h : BytesAt mem a (c :: bytes)) :
    BytesAt mem (a + 1) bytes := by
  intro i hi
  have hnext := h (i + 1) (Nat.succ_le_succ hi)
  rw [List.getD_cons_succ] at hnext
  rw [Nat.add_assoc, Nat.add_comm 1 i]
  exact hnext

theorem byte_sub_eq_zero (x y : UInt8) :
    (x.toNat : Int) - y.toNat = 0 <-> x = y := by
  rw [← UInt8.toNat_inj]
  lia

theorem strcmpLoop_eq_zero {mem : ByteMemory} {a : Nat}
    {bytes other : List UInt8} (h : BytesAt mem a bytes)
    (hbytes : forall b, b ∈ bytes -> b ≠ 0)
    (hother : forall b, b ∈ other -> b ≠ 0) :
    strcmpLoop mem a other = 0 <-> bytes = other := by
  induction other generalizing a bytes with
  | nil =>
      have hfirst : mem a = bytes.getD 0 0 := h 0 (Nat.zero_le _)
      have hzero := byte_sub_eq_zero (mem a) 0
      rw [UInt8.toNat_zero, Nat.cast_zero, Int.sub_zero, hfirst] at hzero
      rw [strcmpLoop, hfirst, hzero]
      cases bytes with
      | nil => exact ⟨fun _ => rfl, fun _ => rfl⟩
      | cons c rest =>
          have hc := hbytes c List.mem_cons_self
          exact ⟨fun heq => absurd heq hc, fun heq => by cases heq⟩
  | cons d others ih =>
      have hfirst : mem a = bytes.getD 0 0 := h 0 (Nat.zero_le _)
      have hd := hother d List.mem_cons_self
      rw [strcmpLoop, hfirst]
      cases bytes with
      | nil =>
          rw [List.getD_nil, if_neg (fun hboth => hboth.left rfl),
            byte_sub_eq_zero]
          exact ⟨fun heq => absurd heq.symm hd, fun heq => by cases heq⟩
      | cons c rest =>
          have hc := hbytes c List.mem_cons_self
          rw [List.getD_cons_zero]
          by_cases hcd : c = d
          · rw [if_pos ⟨hc, hcd⟩, ih h.tail
              (fun b hb => hbytes b (List.mem_cons_of_mem c hb))
              (fun b hb => hother b (List.mem_cons_of_mem d hb)), hcd,
              List.cons_inj_right]
          · rw [if_neg (fun hboth => hcd hboth.right), byte_sub_eq_zero]
            constructor
            · intro heq
              exact absurd heq hcd
            · intro heq
              exact absurd (List.cons.inj heq).left hcd

theorem bStrcmp_eq_zero {mem : ByteMemory} {a : Nat} {name other : CString}
    (h : BytesAt mem a name.bytes) :
    bStrcmp mem a other = 0 <-> name.bytes = other.bytes :=
  strcmpLoop_eq_zero h name.nonzero other.nonzero

theorem bMemcmp_eq_zero_iff (mem : ByteMemory) (s1 : Nat)
    (bytes : List UInt8) :
    bMemcmp mem s1 bytes = 0 <-> ByteMemory.Holds mem s1 bytes := by
  induction bytes generalizing s1 with
  | nil => exact iff_of_true rfl trivial
  | cons c rest ih =>
      unfold bMemcmp ByteMemory.Holds
      by_cases hsame : mem s1 = c
      · rw [if_neg (not_not.mpr hsame), ih]
        exact ⟨fun h => ⟨hsame, h⟩, fun h => h.right⟩
      · rw [if_pos hsame, byte_sub_eq_zero]
        exact ⟨fun h => absurd h hsame, fun h => absurd h.left hsame⟩

end Lib
end Barium
