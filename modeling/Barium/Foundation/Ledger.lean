import Mathlib.Logic.Basic

/-!
# Ledgers

Who owns what, beside an allocator that only knows what is in use.  Things that
are not in use may be given away, and an owner may release its own: then nothing
changes for the others.
-/

namespace Barium
namespace Foundation
namespace Ledger

open Classical

section

variable {thing owner : Type}

noncomputable def give (ledger : thing -> Option owner)
    (taken : thing -> Prop) (o : owner) : thing -> Option owner :=
  fun x => if taken x then some o else ledger x

noncomputable def release (ledger : thing -> Option owner)
    (freed : thing -> Prop) : thing -> Option owner :=
  fun x => if freed x then none else ledger x

variable {ledger : thing -> Option owner} {used taken : thing -> Prop}
  {o o' : owner} {x : thing}

theorem give_taken (h : taken x) : give ledger taken o x = some o := by
  unfold give
  rw [if_pos h]

/-- What is in use when other things are given away stays with its owner. -/
theorem give_keep (hused : forall y, ledger y ≠ none -> used y)
    (hfree : forall y, taken y -> ¬ used y) (hx : ledger x = some o') :
    give ledger taken o x = some o' := by
  have hnot : ¬ taken x := by
    intro htaken
    refine hfree x htaken (hused x ?_)
    rw [hx]
    exact Option.some_ne_none o'
  unfold give
  rw [if_neg hnot]
  exact hx

theorem give_cases (h : give ledger taken o x ≠ none) :
    taken x ∨ ledger x ≠ none := by
  unfold give at h
  by_cases htaken : taken x
  · exact Or.inl htaken
  · rw [if_neg htaken] at h
    exact Or.inr h

theorem release_keep (hown : forall y, taken y -> ledger y = some o)
    (hx : ledger x = some o') (hne : o' ≠ o) :
    release ledger taken x = some o' := by
  have hnot : ¬ taken x := by
    intro htaken
    rw [hown x htaken] at hx
    exact hne (Option.some.inj hx).symm
  unfold release
  rw [if_neg hnot]
  exact hx

theorem release_other (h : ¬ taken x) :
    release ledger taken x = ledger x := by
  unfold release
  rw [if_neg h]

theorem release_cases (h : release ledger taken x ≠ none) :
    ¬ taken x ∧ ledger x ≠ none := by
  unfold release at h
  by_cases htaken : taken x
  · rw [if_pos htaken] at h
    exact absurd rfl h
  · rw [if_neg htaken] at h
    exact ⟨htaken, h⟩

end

end Ledger
end Foundation
end Barium
