import Barium.Foundation.Run
import Barium.Foundation.Interleaving

/-!
# Spin locks

Agents run critical sections under one spin lock.  To take the lock an agent
tests and sets it in one access, and while it is taken reads it in a loop.  In a
critical section an agent makes one access to the data after the other.

Every interleaving changes the data as if each critical section were one step,
made when its lock is released.
-/

namespace Barium
namespace Foundation

open TransitionSystem

/-- How a call comes to the lock, and the accesses of its critical section from
there.  `none` is the end of the section. -/
structure CriticalSection (data call loc : Type) where
  enter : data -> call -> loc
  step : data -> loc -> Option (data × loc)

namespace CriticalSection

section

variable {data call loc : Type}

inductive Steps (C : CriticalSection data call loc) :
    data -> loc -> data -> loc -> Prop where
  | refl (d : data) (l : loc) : Steps C d l d l
  | snoc {d d1 d2 : data} {l l1 l2 : loc} :
      Steps C d l d1 l1 -> C.step d1 l1 = some (d2, l2) -> Steps C d l d2 l2

def Completes (C : CriticalSection data call loc) (d : data) (c : call)
    (d' : data) (l : loc) : Prop :=
  Steps C d (C.enter d c) d' l ∧ C.step d' l = none

/-- What a call reads before it has the lock is changed by no section. -/
def Stable (C : CriticalSection data call loc) : Prop :=
  forall d l d' l', C.step d l = some (d', l') -> C.enter d' = C.enter d

theorem Steps.enter {C : CriticalSection data call loc} (hstable : C.Stable)
    {d d' : data} {l l' : loc} (h : Steps C d l d' l') :
    C.enter d' = C.enter d := by
  induction h with
  | refl => rfl
  | snoc _ hlast ih => exact (hstable _ _ _ _ hlast).trans ih

/-- An assertion for every point of the section that each access keeps. -/
theorem Steps.invariant {C : CriticalSection data call loc}
    {P : data -> loc -> Prop} {d d' : data} {l l' : loc}
    (h : Steps C d l d' l') (hstart : P d l)
    (hstep : forall d l d' l', P d l -> C.step d l = some (d', l') ->
      P d' l') : P d' l' := by
  induction h with
  | refl => exact hstart
  | snoc _ hlast ih => exact hstep _ _ _ _ (ih hstart) hlast

end

end CriticalSection

/-!
# The agents
-/

structure LockWord (data : Type) where
  locked : Bool
  data : data

inductive SpinPlace (loc : Type) where
  | outside
  | trying (l : loc)
  | spinning (l : loc)
  | inside (l : loc)

inductive SpinLabel (agent call loc : Type) where
  | call (a : agent) (c : call)
  | silent (a : agent)
  | commit (a : agent) (l : loc)

section

variable {data call loc agent : Type} [DecidableEq agent]

abbrev SpinState (data loc agent : Type) :=
  Config (LockWord data) (SpinPlace loc) agent

inductive SpinStep (C : CriticalSection data call loc) :
    SpinState data loc agent -> SpinLabel agent call loc ->
      SpinState data loc agent -> Prop where
  | call {s : SpinState data loc agent} {a : agent} (c : call) :
      s.place a = SpinPlace.outside ->
      SpinStep C s (SpinLabel.call a c)
        (s.move a s.shared (SpinPlace.trying (C.enter s.shared.data c)))
  | taken {s : SpinState data loc agent} {a : agent} {l : loc} :
      s.place a = SpinPlace.trying l -> s.shared.locked = true ->
      SpinStep C s (SpinLabel.silent a)
        (s.move a s.shared (SpinPlace.spinning l))
  | acquire {s : SpinState data loc agent} {a : agent} {l : loc} :
      s.place a = SpinPlace.trying l -> s.shared.locked = false ->
      SpinStep C s (SpinLabel.silent a)
        (s.move a { s.shared with locked := true } (SpinPlace.inside l))
  | wait {s : SpinState data loc agent} {a : agent} {l : loc} :
      s.place a = SpinPlace.spinning l -> s.shared.locked = true ->
      SpinStep C s (SpinLabel.silent a) s
  | retry {s : SpinState data loc agent} {a : agent} {l : loc} :
      s.place a = SpinPlace.spinning l -> s.shared.locked = false ->
      SpinStep C s (SpinLabel.silent a)
        (s.move a s.shared (SpinPlace.trying l))
  | access {s : SpinState data loc agent} {a : agent} {l l' : loc} {d : data} :
      s.place a = SpinPlace.inside l ->
      C.step s.shared.data l = some (d, l') ->
      SpinStep C s (SpinLabel.silent a)
        (s.move a { s.shared with data := d } (SpinPlace.inside l'))
  | release {s : SpinState data loc agent} {a : agent} {l : loc} :
      s.place a = SpinPlace.inside l -> C.step s.shared.data l = none ->
      SpinStep C s (SpinLabel.commit a l)
        (s.move a { s.shared with locked := false } SpinPlace.outside)

def spinStart (d : data) : SpinState data loc agent where
  shared := { locked := false, data := d }
  place := fun _ => SpinPlace.outside

def spinSystem (C : CriticalSection data call loc) (d : data) :
    TransitionSystem (SpinState data loc agent)
      (SpinLabel agent call loc) where
  Init := fun s => s = spinStart d
  Step := SpinStep C

/-- The same system with critical sections that are one step. -/
def atomicSystem (C : CriticalSection data call loc) (d : data) :
    TransitionSystem data (agent × loc) where
  Init := fun d0 => d0 = d
  Step := fun d l d' => exists c, C.Completes d c d' l.2

def SpinLabel.commits : SpinLabel agent call loc -> List (agent × loc)
  | .commit a l => [(a, l)]
  | _ => []

/-!
# One section at a time
-/

/-- The state is one of the atomic system with data `d`, except that the agent
that has the lock may be in the middle of its section. -/
structure Refines (C : CriticalSection data call loc)
    (s : SpinState data loc agent) (d : data) : Prop where
  waiting : forall a l, s.place a = SpinPlace.trying l ∨
    s.place a = SpinPlace.spinning l -> exists c, l = C.enter d c
  free : s.shared.locked = false ->
    s.shared.data = d ∧ forall a l, s.place a ≠ SpinPlace.inside l
  held : s.shared.locked = true -> exists a c l,
    s.place a = SpinPlace.inside l ∧
      C.Steps d (C.enter d c) s.shared.data l ∧
      forall b l', s.place b = SpinPlace.inside l' -> b = a

section Steps

variable {C : CriticalSection data call loc} {s t : SpinState data loc agent}
  {d : data}

omit [DecidableEq agent] in
theorem refines_start (C : CriticalSection data call loc) (d : data) :
    Refines C (spinStart d : SpinState data loc agent) d := by
  refine ⟨?_, ?_, ?_⟩
  · intro a l h
    rcases h with h | h
    · cases h
    · cases h
  · intro _
    refine ⟨rfl, ?_⟩
    intro a l h
    cases h
  · intro h
    cases h

omit [DecidableEq agent] in
theorem Refines.inside_locked (h : Refines C s d) {a : agent} {l : loc}
    (ha : s.place a = SpinPlace.inside l) : s.shared.locked = true := by
  cases hlocked : s.shared.locked with
  | true => rfl
  | false => exact absurd ha ((h.free hlocked).right a l)

omit [DecidableEq agent] in
/-- Two agents are never in their critical sections together. -/
theorem Refines.exclusive (h : Refines C s d) {a b : agent} {l l' : loc}
    (ha : s.place a = SpinPlace.inside l)
    (hb : s.place b = SpinPlace.inside l') : a = b := by
  rcases h.held (h.inside_locked ha) with ⟨e, _, _, _, _, honly⟩
  rw [honly a l ha, honly b l' hb]

omit [DecidableEq agent] in
theorem Refines.enter (h : Refines C s d) (hstable : C.Stable) :
    C.enter s.shared.data = C.enter d := by
  cases hlocked : s.shared.locked with
  | false => rw [(h.free hlocked).left]
  | true =>
      rcases h.held hlocked with ⟨_, _, _, _, hsteps, _⟩
      exact hsteps.enter hstable

theorem Refines.queue (h : Refines C s d) {a : agent} {p : SpinPlace loc}
    (houtside : forall l, s.place a ≠ SpinPlace.inside l)
    (hinside : forall l, p ≠ SpinPlace.inside l)
    (hp : forall l, p = SpinPlace.trying l ∨ p = SpinPlace.spinning l ->
      exists c, l = C.enter d c) :
    Refines C (s.move a s.shared p) d := by
  have hkept : forall b l, (s.move a s.shared p).place b =
      SpinPlace.inside l <-> s.place b = SpinPlace.inside l := by
    intro b l
    by_cases hsame : b = a
    · rw [hsame, Config.move_self]
      exact ⟨fun hb => absurd hb (hinside l),
        fun hb => absurd hb (houtside l)⟩
    · rw [Config.move_other s s.shared p hsame]
  refine ⟨?_, ?_, ?_⟩
  · intro b l hb
    by_cases hba : b = a
    · rw [hba, Config.move_self] at hb
      exact hp l hb
    · rw [Config.move_other s s.shared p hba] at hb
      exact h.waiting b l hb
  · intro hlocked
    refine ⟨(h.free hlocked).left, ?_⟩
    intro b l hb
    exact (h.free hlocked).right b l ((hkept b l).mp hb)
  · intro hlocked
    rcases h.held hlocked with ⟨e, c, l, he, hsteps, honly⟩
    refine ⟨e, c, l, (hkept e l).mpr he, hsteps, ?_⟩
    intro b l' hb
    exact honly b l' ((hkept b l').mp hb)

theorem Refines.waiting_move (h : Refines C s d) {a : agent}
    {w : LockWord data} {p : SpinPlace loc}
    (hp : forall l, p ≠ SpinPlace.trying l ∧ p ≠ SpinPlace.spinning l)
    (b : agent) (l : loc)
    (hb : (s.move a w p).place b = SpinPlace.trying l ∨
      (s.move a w p).place b = SpinPlace.spinning l) :
    exists c, l = C.enter d c := by
  by_cases hba : b = a
  · rw [hba, Config.move_self] at hb
    rcases hb with hb | hb
    · exact absurd hb (hp l).left
    · exact absurd hb (hp l).right
  · rw [Config.move_other s w p hba] at hb
    exact h.waiting b l hb

theorem Refines.acquire (h : Refines C s d) {a : agent} {l : loc}
    (ha : s.place a = SpinPlace.trying l) (hfree : s.shared.locked = false) :
    Refines C (s.move a { s.shared with locked := true }
      (SpinPlace.inside l)) d := by
  rcases h.free hfree with ⟨hdata, hnobody⟩
  rcases h.waiting a l (Or.inl ha) with ⟨c, hc⟩
  refine ⟨h.waiting_move (by simp), ?_, ?_⟩
  · intro hlocked
    cases hlocked
  · intro _
    refine ⟨a, c, l, Config.move_self _ _ _ _, ?_, ?_⟩
    · show C.Steps d (C.enter d c) s.shared.data l
      rw [hdata, hc]
      exact CriticalSection.Steps.refl _ _
    · intro b l' hb
      by_cases hba : b = a
      · exact hba
      · rw [Config.move_other s _ _ hba] at hb
        exact absurd hb (hnobody b l')

theorem Refines.access (h : Refines C s d) {a : agent} {l l' : loc}
    {d' : data} (ha : s.place a = SpinPlace.inside l)
    (hstep : C.step s.shared.data l = some (d', l')) :
    Refines C (s.move a { s.shared with data := d' }
      (SpinPlace.inside l')) d := by
  have hlocked := h.inside_locked ha
  rcases h.held hlocked with ⟨e, c, l0, he, hsteps, honly⟩
  have hae : a = e := honly a l ha
  rw [← hae, ha] at he
  cases he
  refine ⟨h.waiting_move (by simp), ?_, ?_⟩
  · intro hfree
    rw [show (s.move a { s.shared with data := d' }
      (SpinPlace.inside l')).shared.locked = s.shared.locked from rfl,
      hlocked] at hfree
    cases hfree
  · intro _
    refine ⟨a, c, l', Config.move_self _ _ _ _, hsteps.snoc hstep, ?_⟩
    intro b l'' hb
    by_cases hba : b = a
    · exact hba
    · rw [Config.move_other s _ _ hba] at hb
      rw [honly b l'' hb, hae]

/-- The release of the lock is the moment of the whole section. -/
theorem Refines.release (h : Refines C s d) (hstable : C.Stable) {a : agent}
    {l : loc} (ha : s.place a = SpinPlace.inside l)
    (hend : C.step s.shared.data l = none) :
    (exists c, C.Completes d c s.shared.data l) ∧
      Refines C (s.move a { s.shared with locked := false }
        SpinPlace.outside) s.shared.data := by
  rcases h.held (h.inside_locked ha) with ⟨e, c, l0, he, hsteps, honly⟩
  have hae : a = e := honly a l ha
  rw [← hae, ha] at he
  cases he
  refine ⟨⟨c, hsteps, hend⟩, ?_, ?_, ?_⟩
  · rw [h.enter hstable]
    exact h.waiting_move (by simp)
  · intro _
    refine ⟨rfl, ?_⟩
    intro b l' hb
    by_cases hba : b = a
    · rw [hba, Config.move_self] at hb
      cases hb
    · rw [Config.move_other s _ _ hba] at hb
      rw [honly b l' hb, hae] at hba
      exact hba rfl
  · intro hlocked
    cases hlocked

theorem refines_step (hstable : C.Stable) {label : SpinLabel agent call loc}
    (h : Refines C s d) (hstep : SpinStep C s label t) (d0 : data) :
    exists d', TransitionSystem.Runs (atomicSystem C d0) d label.commits d' ∧
      Refines C t d' := by
  have hnil : TransitionSystem.Runs (atomicSystem C d0) d
      ([] : List (agent × loc)) d := TransitionSystem.Runs.nil d
  cases hstep with
  | call c ha =>
      refine ⟨d, hnil, h.queue (by simp [ha]) (by simp) ?_⟩
      intro l hl
      simp only [reduceCtorEq, SpinPlace.trying.injEq, or_false] at hl
      exact ⟨c, by rw [← hl, h.enter hstable]⟩
  | taken ha _ =>
      refine ⟨d, hnil, h.queue (by simp [ha]) (by simp) ?_⟩
      intro l hl
      simp only [reduceCtorEq, SpinPlace.spinning.injEq, false_or] at hl
      rw [← hl]
      exact h.waiting _ _ (Or.inl ha)
  | acquire ha hfree => exact ⟨d, hnil, h.acquire ha hfree⟩
  | wait _ _ => exact ⟨d, hnil, h⟩
  | retry ha _ =>
      refine ⟨d, hnil, h.queue (by simp [ha]) (by simp) ?_⟩
      intro l hl
      simp only [reduceCtorEq, SpinPlace.trying.injEq, or_false] at hl
      rw [← hl]
      exact h.waiting _ _ (Or.inr ha)
  | access ha hstep => exact ⟨d, hnil, h.access ha hstep⟩
  | release ha hend =>
      rcases h.release hstable ha hend with ⟨hcompletes, hrefines⟩
      exact ⟨_, runs_single hcompletes, hrefines⟩

theorem refines_runs (hstable : C.Stable) {d0 : data}
    {trace : List (SpinLabel agent call loc)} (h : Refines C s d)
    (hrun : TransitionSystem.Runs (spinSystem C d0) s trace t) :
    exists d', TransitionSystem.Runs (atomicSystem C d0) d
        (trace.flatMap SpinLabel.commits) d' ∧
      Refines C t d' := by
  induction hrun with
  | nil => exact ⟨d, TransitionSystem.Runs.nil _, h⟩
  | snoc _ hlast ih =>
      rcases ih with ⟨d1, hbefore, hrefines⟩
      rcases refines_step hstable hrefines hlast d0 with ⟨d2, hafter, hdone⟩
      refine ⟨d2, ?_, hdone⟩
      rw [List.flatMap_append, List.flatMap_singleton]
      exact runs_append hbefore hafter

end Steps

/-!
# Computed interleavings
-/

def spinMove (C : CriticalSection data call loc)
    (s : SpinState data loc agent) (a : agent) (c : Option call) :
    SpinPlace loc -> Option (SpinState data loc agent)
  | .outside =>
      c.map (fun c =>
        s.move a s.shared (SpinPlace.trying (C.enter s.shared.data c)))
  | .trying l =>
      if s.shared.locked = true then
        some (s.move a s.shared (SpinPlace.spinning l))
      else
        some (s.move a { s.shared with locked := true } (SpinPlace.inside l))
  | .spinning l =>
      if s.shared.locked = true then some s
      else some (s.move a s.shared (SpinPlace.trying l))
  | .inside l =>
      match C.step s.shared.data l with
      | some (d, l') =>
          some (s.move a { s.shared with data := d } (SpinPlace.inside l'))
      | none =>
          some (s.move a { s.shared with locked := false } SpinPlace.outside)

def spinNext (C : CriticalSection data call loc)
    (s : SpinState data loc agent) (choice : agent × Option call) :
    Option (SpinState data loc agent) :=
  spinMove C s choice.1 choice.2 (s.place choice.1)

theorem spinNext_step {C : CriticalSection data call loc}
    {s t : SpinState data loc agent} {choice : agent × Option call}
    (h : spinNext C s choice = some t) :
    exists label, SpinStep C s label t := by
  rcases choice with ⟨a, c⟩
  unfold spinNext at h
  cases hplace : s.place a with
  | outside =>
      simp only [hplace, spinMove, Option.map_eq_some_iff] at h
      rcases h with ⟨c, _, heq⟩
      rw [← heq]
      exact ⟨_, SpinStep.call c hplace⟩
  | trying l =>
      simp only [hplace, spinMove] at h
      split at h
      case isTrue hlocked =>
          cases h
          exact ⟨_, SpinStep.taken hplace hlocked⟩
      case isFalse hfree =>
          cases h
          exact ⟨_, SpinStep.acquire hplace (by simpa using hfree)⟩
  | spinning l =>
      simp only [hplace, spinMove] at h
      split at h
      case isTrue hlocked =>
          cases h
          exact ⟨_, SpinStep.wait hplace hlocked⟩
      case isFalse hfree =>
          cases h
          exact ⟨_, SpinStep.retry hplace (by simpa using hfree)⟩
  | inside l =>
      simp only [hplace, spinMove] at h
      split at h
      case h_1 hstep =>
          cases h
          exact ⟨_, SpinStep.access hplace hstep⟩
      case h_2 hend =>
          cases h
          exact ⟨_, SpinStep.release hplace hend⟩

theorem runs_of_spinNext {C : CriticalSection data call loc} {d0 : data}
    {s t : SpinState data loc agent} {choices : List (agent × Option call)}
    (h : execute (spinNext C) choices s = some t) :
    exists trace, TransitionSystem.Runs (spinSystem C d0) s trace t := by
  induction choices generalizing s with
  | nil =>
      cases h
      exact ⟨[], TransitionSystem.Runs.nil _⟩
  | cons choice rest ih =>
      rcases Option.bind_eq_some_iff.mp h with ⟨u, hu, hrest⟩
      rcases spinNext_step hu with ⟨label, hstep⟩
      rcases ih hrest with ⟨trace, hrun⟩
      exact ⟨label :: trace, runs_append
        (runs_single hstep) hrun⟩

end

end Foundation
end Barium
