import Mathlib.Logic.Function.Basic

/-!
# Word memories

Memory seen as 64-bit words at byte addresses, together with the addresses
that have been stored to.  The log of stores only serves specifications: no
load depends on it.
-/

namespace Barium
namespace Foundation

structure WordMemory where
  word : Nat -> Nat
  written : List Nat

namespace WordMemory

def load (mem : WordMemory) (a : Nat) : Nat :=
  mem.word a

def store (mem : WordMemory) (a v : Nat) : WordMemory where
  word := Function.update mem.word a v
  written := a :: mem.written

def clearLog (mem : WordMemory) : WordMemory :=
  { mem with written := [] }

theorem load_store (mem : WordMemory) (a v b : Nat) :
    (mem.store a v).load b = if b = a then v else mem.load b := by
  simp [load, store, Function.update_apply]

@[simp] theorem load_store_self (mem : WordMemory) (a v : Nat) :
    (mem.store a v).load a = v := by
  rw [load_store, if_pos rfl]

theorem load_store_of_ne (mem : WordMemory) {a b : Nat} (v : Nat)
    (hne : b ≠ a) : (mem.store a v).load b = mem.load b := by
  rw [load_store, if_neg hne]

@[simp] theorem written_store (mem : WordMemory) (a v : Nat) :
    (mem.store a v).written = a :: mem.written := rfl

end WordMemory
end Foundation
end Barium
