import Mathlib.Data.List.Basic

/-!
# Transition systems

Labelled transition systems, their runs, and the induction rule that carries an
invariant along a run.  A run records the labels of its steps, so an invariant
may speak about the whole history and not only about the current state.
-/

namespace Barium
namespace Foundation

structure TransitionSystem (state label : Type) where
  Init : state -> Prop
  Step : state -> label -> state -> Prop

namespace TransitionSystem

inductive Runs (T : TransitionSystem state label) :
    state -> List label -> state -> Prop where
  | nil (s : state) : Runs T s [] s
  | snoc {s t u : state} {trace : List label} {l : label} :
      Runs T s trace t -> T.Step t l u -> Runs T s (trace ++ [l]) u

def Reachable (T : TransitionSystem state label) (t : state) : Prop :=
  exists s trace, T.Init s ∧ Runs T s trace t

/-!
# Invariants

An invariant over the history and the state that holds at the start of a run
and is kept by every step holds at the end of the run.
-/

theorem runs_history_invariant {T : TransitionSystem state label}
    {P : List label -> state -> Prop} {s t : state} {trace : List label}
    (hstart : P [] s)
    (hstep : forall trace t l u, P trace t -> T.Step t l u ->
      P (trace ++ [l]) u)
    (hrun : Runs T s trace t) : P trace t := by
  induction hrun with
  | nil => exact hstart
  | snoc _ hlast ih => exact hstep _ _ _ _ ih hlast

theorem runs_invariant {T : TransitionSystem state label}
    {P : state -> Prop} {s t : state} {trace : List label}
    (hstart : P s)
    (hstep : forall t l u, P t -> T.Step t l u -> P u)
    (hrun : Runs T s trace t) : P t :=
  runs_history_invariant (P := fun _ t => P t) hstart
    (fun _ t l u ht hl => hstep t l u ht hl) hrun

theorem reachable_invariant {T : TransitionSystem state label}
    {P : state -> Prop}
    (hinit : forall s, T.Init s -> P s)
    (hstep : forall t l u, P t -> T.Step t l u -> P u)
    {t : state} (hreach : Reachable T t) : P t := by
  rcases hreach with ⟨s, trace, hs, hrun⟩
  exact runs_invariant (hinit s hs) hstep hrun

/-!
# Composition
-/

theorem runs_single {T : TransitionSystem state label} {s t : state}
    {l : label} (hstep : T.Step s l t) : Runs T s [l] t :=
  Runs.snoc (Runs.nil s) hstep

theorem runs_append {T : TransitionSystem state label} {s t u : state}
    {left right : List label}
    (hleft : Runs T s left t) (hright : Runs T t right u) :
    Runs T s (left ++ right) u := by
  induction hright with
  | nil => simpa using hleft
  | snoc _ hlast ih =>
      rw [← List.append_assoc]
      exact Runs.snoc ih hlast

theorem reachable_step {T : TransitionSystem state label} {s t : state}
    {l : label} (hreach : Reachable T s) (hstep : T.Step s l t) :
    Reachable T t := by
  rcases hreach with ⟨s0, trace, hs0, hrun⟩
  exact ⟨s0, trace ++ [l], hs0, Runs.snoc hrun hstep⟩

/-!
# Computed runs
-/

def execute (next : state -> label -> Option state) :
    List label -> state -> Option state
  | [], s => some s
  | l :: rest, s => (next s l).bind (execute next rest)

theorem runs_of_execute {T : TransitionSystem state label}
    {next : state -> label -> Option state} {s t : state}
    {trace : List label}
    (hnext : forall s l t, next s l = some t -> T.Step s l t)
    (h : execute next trace s = some t) : Runs T s trace t := by
  induction trace generalizing s with
  | nil =>
      cases h
      exact Runs.nil _
  | cons l rest ih =>
      rcases Option.bind_eq_some_iff.mp h with ⟨u, hu, hrest⟩
      exact runs_append (runs_single (hnext s l u hu)) (ih hrest)

theorem reachable_of_execute {T : TransitionSystem state label}
    {next : state -> choice -> Option state} {s t : state}
    {choices : List choice}
    (hnext : forall s a t, next s a = some t -> exists l, T.Step s l t)
    (hs : Reachable T s) (h : execute next choices s = some t) :
    Reachable T t := by
  induction choices generalizing s with
  | nil =>
      cases h
      exact hs
  | cons a rest ih =>
      rcases Option.bind_eq_some_iff.mp h with ⟨u, hu, hrest⟩
      rcases hnext s a u hu with ⟨l, hstep⟩
      exact ih (reachable_step hs hstep) hrest

end TransitionSystem
end Foundation
end Barium
