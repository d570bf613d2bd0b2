import Mathlib.Logic.Function.Basic

/-!
# Interleaved agents

Agents work on a shared state, each at a place of its own.  An invariant of
their interleavings has three parts: what holds of the shared state, what an
agent may rely on at its place, and what sets the places of two agents apart.
A step has to keep the first, to establish the second for the agent that moves,
and to disturb it for no other.
-/

namespace Barium
namespace Foundation

structure Config (shared place agent : Type) where
  shared : shared
  place : agent -> place

namespace Config

section

variable {shared place agent : Type} [DecidableEq agent]

def move (c : Config shared place agent) (a : agent) (s : shared) (p : place) :
    Config shared place agent where
  shared := s
  place := Function.update c.place a p

@[simp]
theorem move_self (c : Config shared place agent) (a : agent) (s : shared)
    (p : place) : (c.move a s p).place a = p := by
  unfold move
  exact Function.update_self _ _ _

theorem move_other (c : Config shared place agent) {a b : agent} (s : shared)
    (p : place) (h : b ≠ a) : (c.move a s p).place b = c.place b := by
  unfold move
  exact Function.update_of_ne h _ _

structure Holds (Shared : shared -> Prop)
    (Own : agent -> shared -> place -> Prop) (Apart : place -> place -> Prop)
    (c : Config shared place agent) : Prop where
  shared : Shared c.shared
  own : forall a, Own a c.shared (c.place a)
  apart : forall a b, a ≠ b -> Apart (c.place a) (c.place b)

theorem Holds.move {Shared : shared -> Prop}
    {Own : agent -> shared -> place -> Prop} {Apart : place -> place -> Prop}
    {c : Config shared place agent} {a : agent} {s : shared} {p : place}
    (h : Holds Shared Own Apart c)
    (hsymm : forall p q, Apart p q -> Apart q p)
    (hshared : Shared s) (hown : Own a s p)
    (hothers : forall b, b ≠ a -> Own b s (c.place b))
    (hapart : forall b, b ≠ a -> Apart p (c.place b)) :
    Holds Shared Own Apart (c.move a s p) := by
  constructor
  · exact hshared
  · intro b
    by_cases hsame : b = a
    · rw [hsame, move_self]
      exact hown
    · rw [move_other c s p hsame]
      exact hothers b hsame
  · intro b d hbd
    by_cases hba : b = a
    · have hd : d ≠ a := fun heq => hbd (hba.trans heq.symm)
      rw [hba, move_self, move_other c s p hd]
      exact hapart d hd
    · rw [move_other c s p hba]
      by_cases hda : d = a
      · rw [hda, move_self]
        exact hsymm _ _ (hapart b hba)
      · rw [move_other c s p hda]
        exact h.apart b d hbd

end

end Config
end Foundation
end Barium
