import Mathlib.Algebra.GroupWithZero.Nat
import Barium.Foundation.Run

/-!
# Progress

A bound that every step pays for limits the steps that a run can take before it
reaches a goal.  Each label has a weight and may give credit, so that some steps
are free and some put the goal off.
-/

namespace Barium
namespace Foundation
namespace TransitionSystem

variable {state label : Type}

theorem runs_nil {T : TransitionSystem state label} {s t : state}
    (h : Runs T s [] t) : t = s := by
  generalize htrace : ([] : List label) = trace at h
  cases h with
  | nil => rfl
  | snoc _ _ => exact absurd htrace.symm (by simp)

theorem runs_cons_iff {T : TransitionSystem state label} {s t : state}
    {l : label} {rest : List label} :
    Runs T s (l :: rest) t <-> exists u, T.Step s l u ∧ Runs T u rest t := by
  constructor
  · intro h
    generalize htrace : l :: rest = trace at h
    induction h generalizing rest with
    | nil => cases htrace
    | @snoc v t before last hbefore hlast ih =>
        cases before with
        | nil =>
            cases htrace
            rw [runs_nil hbefore] at hlast
            exact ⟨_, hlast, Runs.nil _⟩
        | cons l' before =>
            rw [List.cons_append] at htrace
            cases htrace
            rcases ih rfl with ⟨v, hfirst, hmiddle⟩
            exact ⟨v, hfirst, Runs.snoc hmiddle hlast⟩
  · rintro ⟨u, hfirst, hrest⟩
    exact runs_append (runs_single hfirst) hrest

/-- The run comes through a state of the goal, at its ends or in between. -/
def Visits (T : TransitionSystem state label) (Goal : state -> Prop)
    (s : state) (trace : List label) (t : state) : Prop :=
  exists before after u, trace = before ++ after ∧ Runs T s before u ∧
    Goal u ∧ Runs T u after t

theorem Visits.start {T : TransitionSystem state label} {Goal : state -> Prop}
    {s t : state} {trace : List label} (hgoal : Goal s)
    (hrun : Runs T s trace t) : Visits T Goal s trace t :=
  ⟨[], trace, s, rfl, Runs.nil s, hgoal, hrun⟩

theorem Visits.cons {T : TransitionSystem state label} {Goal : state -> Prop}
    {s t u : state} {l : label} {trace : List label} (hstep : T.Step s l u)
    (h : Visits T Goal u trace t) : Visits T Goal s (l :: trace) t := by
  rcases h with ⟨before, after, v, htrace, hbefore, hgoal, hafter⟩
  refine ⟨l :: before, after, v, ?_, ?_, hgoal, hafter⟩
  · rw [htrace, List.cons_append]
  · exact runs_cons_iff.mpr ⟨u, hstep, hbefore⟩

/-- `Bound s n`: at most the weight `n` is left before the goal.  Every step
reaches the goal or is paid for, and some steps give credit.  A run with more
weight than that comes through the goal. -/
theorem visits_of_bound {T : TransitionSystem state label}
    {Bound : state -> Nat -> Prop} {Goal : state -> Prop}
    {weight credit : label -> Nat}
    (hstep : forall s l u n, Bound s n -> T.Step s l u ->
      Goal u ∨ exists m, Bound u m ∧ m + weight l <= n + credit l)
    {s t : state} {n : Nat} {trace : List label} (hs : Bound s n)
    (hrun : Runs T s trace t)
    (hlong : n + (trace.map credit).sum < (trace.map weight).sum) :
    Visits T Goal s trace t := by
  induction trace generalizing s n with
  | nil => exact absurd hlong (Nat.not_lt_zero _)
  | cons l rest ih =>
      rcases runs_cons_iff.mp hrun with ⟨u, hfirst, hrest⟩
      rcases hstep s l u n hs hfirst with hgoal | ⟨m, hm, hpaid⟩
      · exact Visits.cons hfirst (Visits.start hgoal hrest)
      · refine Visits.cons hfirst (ih hm hrest ?_)
        rw [List.map_cons, List.sum_cons, List.map_cons, List.sum_cons]
          at hlong
        lia

end TransitionSystem
end Foundation
end Barium
