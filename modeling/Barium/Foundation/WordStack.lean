import Mathlib.Data.List.Induction
import Barium.Foundation.ByteMemory
import Barium.Foundation.Word

/-!
# Stacks of words

A stack in a byte memory grows towards lower addresses, in words of eight bytes.
A push moves the stack pointer down and stores at it; a pop loads the top word
and moves the stack pointer up.
-/

namespace Barium
namespace Foundation

open ByteMemory

structure WordStack where
  mem : ByteMemory
  sp : Nat

namespace WordStack

def push (s : WordStack) (v : Nat) : WordStack where
  mem := storeLE s.mem (Word.sub s.sp 8) 8 v
  sp := Word.sub s.sp 8

def pushAll (s : WordStack) (words : List Nat) : WordStack :=
  words.foldl push s

def top (s : WordStack) : Nat :=
  loadLE s.mem s.sp 8

def skip (s : WordStack) (n : Nat) : WordStack :=
  { s with sp := Word.add s.sp n }

def pop (s : WordStack) : WordStack :=
  s.skip 8

/-!
# Pushes
-/

section Pushes

variable {s : WordStack} {words : List Nat}

theorem pushAll_concat (s : WordStack) (words : List Nat) (v : Nat) :
    s.pushAll (words ++ [v]) = (s.pushAll words).push v := by
  unfold pushAll
  rw [List.foldl_append, List.foldl_cons, List.foldl_nil]

theorem pushAll_sp (h : 8 * words.length <= s.sp) (hlt : s.sp < 2 ^ 64) :
    (s.pushAll words).sp = s.sp - 8 * words.length := by
  induction words using List.reverseRecOn with
  | nil => rfl
  | append_singleton words v ih =>
      rw [List.length_append, List.length_singleton] at h
      have hsp := ih (Nat.le_trans (by lia) h)
      have hle : (s.pushAll words).sp <= s.sp := by
        rw [hsp]
        exact Nat.sub_le _ _
      rw [pushAll_concat, push,
        Word.sub_of_le (Nat.lt_of_le_of_lt hle hlt) (by lia), hsp,
        List.length_append, List.length_singleton]
      lia

theorem push_pushAll_sp {v : Nat} (h : 8 * (words ++ [v]).length <= s.sp)
    (hlt : s.sp < 2 ^ 64) :
    ((s.pushAll words).push v).sp + 8 = (s.pushAll words).sp := by
  rw [List.length_append, List.length_singleton] at h
  have hbefore : (s.pushAll words).sp = s.sp - 8 * words.length :=
    pushAll_sp (Nat.le_trans (by lia) h) hlt
  have hle : (s.pushAll words).sp <= s.sp := by
    rw [hbefore]
    exact Nat.sub_le _ _
  have hroom : 8 <= (s.pushAll words).sp := by
    rw [hbefore]
    exact Nat.le_sub_of_add_le (by lia)
  rw [push, Word.sub_of_le (Nat.lt_of_le_of_lt hle hlt) hroom]
  exact Nat.sub_add_cancel hroom

theorem pushAll_outside {b : Nat} (h : 8 * words.length <= s.sp)
    (hlt : s.sp < 2 ^ 64)
    (hb : b < s.sp - 8 * words.length ∨ s.sp <= b) :
    (s.pushAll words).mem b = s.mem b := by
  induction words using List.reverseRecOn with
  | nil => rfl
  | append_singleton words v ih =>
      have hlast := push_pushAll_sp h hlt
      rw [List.length_append, List.length_singleton] at h hb
      have hsp : (s.pushAll words).sp = s.sp - 8 * words.length :=
        pushAll_sp (Nat.le_trans (by lia) h) hlt
      rw [pushAll_concat]
      show storeLE (s.pushAll words).mem ((s.pushAll words).push v).sp 8 v b =
        s.mem b
      rw [storeLE_outside _ _ (by omega), ih (by omega) (by omega)]

/-- The words lie in memory in the reverse order of the pushes. -/
theorem load_pushAll {j w : Nat} (h : 8 * words.length <= s.sp)
    (hlt : s.sp < 2 ^ 64) (hw : words.reverse[j]? = some w) :
    loadLE (s.pushAll words).mem ((s.pushAll words).sp + 8 * j) 8 =
      w % 2 ^ 64 := by
  induction words using List.reverseRecOn generalizing j with
  | nil => cases hw
  | append_singleton words v ih =>
      have hlast := push_pushAll_sp h hlt
      rw [List.length_append, List.length_singleton] at h
      rw [List.reverse_concat] at hw
      rw [pushAll_concat]
      cases j with
      | zero =>
          rw [← Option.some.inj hw, Nat.mul_zero, Nat.add_zero]
          exact loadLE_storeLE (s.pushAll words).mem _ 8 v
      | succ j =>
          have haddr : ((s.pushAll words).push v).sp + 8 * (j + 1) =
              (s.pushAll words).sp + 8 * j := by
            rw [← hlast]
            lia
          have hkept := loadLE_storeLE_outside (s.pushAll words).mem
            (a := ((s.pushAll words).push v).sp)
            (b := (s.pushAll words).sp + 8 * j) (n := 8) v
            (Or.inr (Nat.le_trans (Nat.le_of_eq hlast) (Nat.le_add_right _ _)))
          rw [haddr, ← ih (Nat.le_trans (by lia) h) hw]
          exact hkept

end Pushes

/-!
# Pops
-/

theorem skip_skip (s : WordStack) (m n : Nat) :
    (s.skip m).skip n = s.skip (m + n) := by
  unfold skip
  rw [Word.add_add]

theorem top_skip {s : WordStack} {n : Nat} (h : s.sp + n < 2 ^ 64) :
    (s.skip n).top = loadLE s.mem (s.sp + n) 8 := by
  unfold top skip
  rw [Word.add_of_lt h]

/-!
# Pops after pushes

Here the stack may go around the end of the address space.
-/

theorem top_push (s : WordStack) (v : Nat) : (s.push v).top = v % 2 ^ 64 :=
  loadLE_storeLE s.mem _ 8 v

theorem top_skip_push (s : WordStack) (v : Nat) {j : Nat}
    (hj : 8 * (j + 1) + 8 <= 2 ^ 64) :
    ((s.push v).skip (8 * (j + 1))).top = (s.skip (8 * j)).top := by
  have haddr : Word.add (Word.sub s.sp 8) (8 * (j + 1)) =
      Word.add s.sp (8 * j) := Word.add_sub_add s.sp (8 * j) (by decide)
  have hlt := Word.sub_lt s.sp 8
  show loadLE (storeLE s.mem (Word.sub s.sp 8) 8 v)
    (Word.add (Word.sub s.sp 8) (8 * (j + 1))) 8 = _
  rw [loadLE_storeLE_outside, haddr]
  · rfl
  · unfold Word.add
    generalize Word.sub s.sp 8 = a at hlt
    rcases Nat.lt_or_ge (a + 8 * (j + 1)) (2 ^ 64) with h | h
    · rw [Nat.mod_eq_of_lt h]
      lia
    · have hwrap : (a + 8 * (j + 1)) % 2 ^ 64 =
          a + 8 * (j + 1) - 2 ^ 64 := by
        rw [Nat.mod_eq_sub_mod h]
        exact Nat.mod_eq_of_lt (by lia)
      rw [hwrap]
      lia

theorem top_skip_pushAll {s : WordStack} {words : List Nat} {j w : Nat}
    (h : 8 * words.length < 2 ^ 64) (hw : words.reverse[j]? = some w) :
    ((s.pushAll words).skip (8 * j)).top = w % 2 ^ 64 := by
  induction words using List.reverseRecOn generalizing j with
  | nil => cases hw
  | append_singleton words v ih =>
      have hj : j < words.length + 1 := by
        have hsome := (List.getElem?_eq_some_iff.mp hw).1
        rwa [List.length_reverse, List.length_append, List.length_singleton]
          at hsome
      rw [List.length_append, List.length_singleton] at h
      rw [List.reverse_concat] at hw
      rw [pushAll_concat]
      cases j with
      | zero =>
          have hv : v = w := Option.some.inj hw
          have hzero : ((s.pushAll words).push v).skip (8 * 0) =
              (s.pushAll words).push v := by
            have hlt : ((s.pushAll words).push v).sp < 2 ^ 64 :=
              Word.sub_lt _ _
            unfold skip
            rw [Nat.mul_zero, Word.add_zero hlt]
          rw [hzero, top_push, hv]
      | succ j =>
          rw [top_skip_push _ _ (by lia)]
          exact ih (by lia) hw

end WordStack
end Foundation
end Barium
