import Mathlib.Logic.Function.Basic
import Barium.Foundation.Run
import Barium.Foundation.Word
import Barium.Sched.Queues

/-!
# The tick counter

`apic_timer_handler` counts the interrupts of all processors in `global_ticks`,
without a lock: it loads the counter and then stores the next number.  Between
the two another processor may do the same.  `b_sleep` waits for the counter to
come to a number of its own.
-/

namespace Barium
namespace Ticks

open Foundation
open Function
open TransitionSystem

/-- `apic_get_ticks()` in `lib.c`, which does not declare it: an `int`, here
extended to 64 bits for the comparison. -/
def intTicks (ticks : Nat) : Nat :=
  if ticks % 2 ^ 32 < 2 ^ 31 then ticks % 2 ^ 32
  else 2 ^ 64 - 2 ^ 32 + ticks % 2 ^ 32

/-- The sum of an `int` and a `uint32_t`. -/
def sleepTarget (ticks ms : Nat) : Nat :=
  (ticks + ms / 10) % 2 ^ 32

/-- `loaded` holds what the handler of a processor has read, `handled` counts
the calls that have stored, and `asleep` holds the targets of `b_sleep`. -/
structure TickState where
  globalTicks : Nat
  loaded : Nat -> Option Nat
  handled : Nat
  asleep : Nat -> Option Nat

inductive TickEvent where
  | load (c : Nat)
  | store (c : Nat)
  | sleep (i ms : Nat)
  | wake (i : Nat)

inductive TickStep (cpus : Nat) :
    TickState -> TickEvent -> TickState -> Prop where
  | load {s : TickState} {c : Nat} :
      c < cpus -> s.loaded c = none ->
      TickStep cpus s (TickEvent.load c)
        { s with loaded := update s.loaded c (some s.globalTicks) }
  | store {s : TickState} {c v : Nat} :
      s.loaded c = some v ->
      TickStep cpus s (TickEvent.store c)
        { s with
          globalTicks := Word.add v 1
          loaded := update s.loaded c none
          handled := s.handled + 1 }
  | sleep {s : TickState} {i ms : Nat} :
      s.asleep i = none ->
      TickStep cpus s (TickEvent.sleep i ms)
        { s with
          asleep := update s.asleep i
            (some (sleepTarget s.globalTicks ms)) }
  -- as long as the counter is below the target, the loop changes nothing
  | wake {s : TickState} {i target : Nat} :
      s.asleep i = some target -> target <= intTicks s.globalTicks ->
      TickStep cpus s (TickEvent.wake i)
        { s with asleep := update s.asleep i none }

def tickStart : TickState where
  globalTicks := 0
  loaded := fun _ => none
  handled := 0
  asleep := fun _ => none

def tickSystem (cpus : Nat) : TransitionSystem TickState TickEvent where
  Init := fun s => s = tickStart
  Step := TickStep cpus

section Steps

variable {cpus c n : Nat} {s s' : TickState} {event : TickEvent}
  {trace : List TickEvent}

/-!
# Bounds for every interleaving
-/

theorem handled_step (h : TickStep cpus s event s') :
    s.handled <= s'.handled := by
  cases h with
  | load _ _ => exact Nat.le_refl _
  | store _ => exact Nat.le_succ _
  | sleep _ => exact Nat.le_refl _
  | wake _ _ => exact Nat.le_refl _

theorem handled_runs (h : (tickSystem cpus).Runs s trace s') :
    s.handled <= s'.handled :=
  runs_invariant (P := fun t => s.handled <= t.handled) (Nat.le_refl _)
    (fun _ _ _ hle hstep => Nat.le_trans hle (handled_step hstep)) h

theorem unwrapped_invariant {P : TickState -> Prop} (hstart : P tickStart)
    (hstep : forall s event s', P s -> s'.handled < 2 ^ 64 ->
      TickStep cpus s event s' -> P s')
    (h : (tickSystem cpus).Runs tickStart trace s)
    (hsmall : s.handled < 2 ^ 64) : P s := by
  have hbound : s.handled < 2 ^ 64 -> P s := by
    apply runs_invariant (P := fun t => t.handled < 2 ^ 64 -> P t) _ _ h
    · intro _
      exact hstart
    · intro t event u ht hlast hu
      have hbefore := ht (Nat.lt_of_le_of_lt (handled_step hlast) hu)
      exact hstep t event u hbefore hu hlast
  exact hbound hsmall

structure TickBound (s : TickState) : Prop where
  ticks : s.globalTicks <= s.handled
  positive : 0 < s.handled -> 0 < s.globalTicks
  loaded : forall c v, s.loaded c = some v -> v <= s.handled

theorem tickBound_step (h : TickBound s) (hsmall : s'.handled < 2 ^ 64)
    (hstep : TickStep cpus s event s') : TickBound s' := by
  cases hstep with
  | load hc hnone =>
      rename_i c
      constructor
      · exact h.ticks
      · exact h.positive
      · intro d v hv
        rcases Sched.update_some_cases hv with ⟨_, heq⟩ | ⟨_, hold⟩
        · cases heq
          exact h.ticks
        · exact h.loaded d v hold
  | store hloaded =>
      rename_i c v
      change s.handled + 1 < 2 ^ 64 at hsmall
      have hv := h.loaded c v hloaded
      have hadd : Word.add v 1 = v + 1 := Word.add_of_lt (by lia)
      constructor
      · change Word.add v 1 <= s.handled + 1
        lia
      · intro _
        change 0 < Word.add v 1
        lia
      · intro d w hw
        rcases Sched.update_some_cases hw with ⟨_, heq⟩ | ⟨_, hold⟩
        · cases heq
        · exact Nat.le_succ_of_le (h.loaded d w hold)
  | sleep _ => exact ⟨h.ticks, h.positive, h.loaded⟩
  | wake _ _ => exact ⟨h.ticks, h.positive, h.loaded⟩

theorem tickBound_start : TickBound tickStart := by
  constructor
  · exact Nat.le_refl _
  · intro h
    cases h
  · intro c v h
    cases h

theorem tickBound_runs (h : (tickSystem cpus).Runs tickStart trace s)
    (hsmall : s.handled < 2 ^ 64) : TickBound s :=
  unwrapped_invariant tickBound_start
    (fun _ _ _ hbefore hu hlast => tickBound_step hbefore hu hlast) h hsmall

/-!
# Runs with lost ticks
-/

theorem TickStep.stored {v : Nat} (hloaded : s.loaded c = some v)
    (hticks : s'.globalTicks = Word.add v 1)
    (hafter : s'.loaded = update s.loaded c none)
    (hhandled : s'.handled = s.handled + 1) (hasleep : s'.asleep = s.asleep) :
    TickStep cpus s (TickEvent.store c) s' := by
  have hstep : TickStep cpus s (TickEvent.store c)
      { s with
        globalTicks := Word.add v 1
        loaded := update s.loaded c none
        handled := s.handled + 1 } := TickStep.store hloaded
  rw [← hticks, ← hafter, ← hhandled, ← hasleep] at hstep
  exact hstep

def counted (s : TickState) (n : Nat) : TickState :=
  { s with
    globalTicks := s.globalTicks + n
    handled := s.handled + n }

theorem counted_runs (hc : c < cpus) (hidle : s.loaded c = none)
    (hsmall : s.globalTicks + n < 2 ^ 64) :
    exists trace, (tickSystem cpus).Runs s trace (counted s n) ∧
      forall i, TickEvent.wake i ∉ trace := by
  induction n with
  | zero => exact ⟨[], Runs.nil s, fun _ => List.not_mem_nil⟩
  | succ n ih =>
      rcases ih (by lia) with ⟨trace, hrun, hquiet⟩
      have hadd : Word.add (s.globalTicks + n) 1 = s.globalTicks + n + 1 :=
        Word.add_of_lt (by lia)
      have hload : TickStep cpus (counted s n) (TickEvent.load c)
          { counted s n with
            loaded := update s.loaded c (some (s.globalTicks + n)) } :=
        TickStep.load hc hidle
      have hback : s.loaded = update
          (update s.loaded c (some (s.globalTicks + n))) c none := by
        rw [update_idem, ← hidle, update_eq_self]
      have hstore : TickStep cpus
          { counted s n with
            loaded := update s.loaded c (some (s.globalTicks + n)) }
          (TickEvent.store c) (counted s (n + 1)) :=
        TickStep.stored (update_self c _ s.loaded) hadd.symm hback
          rfl rfl
      refine ⟨_, (hrun.snoc hload).snoc hstore, ?_⟩
      intro i
      simp [hquiet i]

/-- Processor 0 keeps `s.globalTicks` in its register while another processor
counts on, and then overwrites its numbers. -/
theorem overwritten_runs (hcpus : 2 <= cpus)
    (hidle : forall c, s.loaded c = none)
    (hsmall : s.globalTicks + n + 1 < 2 ^ 64) :
    exists trace, (tickSystem cpus).Runs s trace
      { s with
        globalTicks := s.globalTicks + 1
        handled := s.handled + n + 1 } := by
  have hload : TickStep cpus s (TickEvent.load 0)
      { s with loaded := update s.loaded 0 (some s.globalTicks) } :=
    TickStep.load (by lia) (hidle 0)
  have hother : update s.loaded 0 (some s.globalTicks) 1 = none := by
    rw [update_of_ne (by decide)]
    exact hidle 1
  obtain ⟨trace, hcount, _⟩ := counted_runs (n := n)
    (s := { s with
      loaded := update s.loaded 0 (some s.globalTicks) })
    (by lia : 1 < cpus) hother (by change s.globalTicks + n < 2 ^ 64; lia)
  have hadd : Word.add s.globalTicks 1 = s.globalTicks + 1 :=
    Word.add_of_lt (by lia)
  have hback : s.loaded = update
      (update s.loaded 0 (some s.globalTicks)) 0 none := by
    rw [update_idem, ← hidle 0, update_eq_self]
  have hstore : TickStep cpus
      (counted { s with
        loaded := update s.loaded 0 (some s.globalTicks) } n)
      (TickEvent.store 0)
      { s with
        globalTicks := s.globalTicks + 1
        handled := s.handled + n + 1 } :=
    TickStep.stored (update_self 0 _ s.loaded) hadd.symm hback rfl rfl
  exact ⟨_, (runs_append (runs_single hload) hcount).snoc hstore⟩

end Steps

/-- After `k` interrupts on several processors the counter may stand at any
number from 1 to `k`. -/
theorem ticks_values {cpus k : Nat} (hcpus : 2 <= cpus) (hpos : 0 < k)
    (hsmall : k < 2 ^ 64) (v : Nat) :
    (exists trace s, (tickSystem cpus).Runs tickStart trace s ∧
      s.handled = k ∧ (forall c, s.loaded c = none) ∧ s.globalTicks = v) <->
      1 <= v ∧ v <= k := by
  constructor
  · rintro ⟨trace, s, hrun, hhandled, _, hticks⟩
    have hbound := tickBound_runs hrun (by lia)
    have hticks_le := hbound.ticks
    have hticks_pos := hbound.positive (by lia)
    lia
  · rintro ⟨hone, hle⟩
    obtain ⟨before, hbefore, _⟩ := counted_runs (s := tickStart) (n := v - 1)
      (by lia : 0 < cpus) rfl (by change 0 + (v - 1) < 2 ^ 64; lia)
    obtain ⟨after, hafter⟩ := overwritten_runs (s := counted tickStart (v - 1))
      (n := k - v) hcpus (fun _ => rfl)
      (by change 0 + (v - 1) + (k - v) + 1 < 2 ^ 64; lia)
    refine ⟨_, _, runs_append hbefore hafter, ?_, fun _ => rfl, ?_⟩
    · change 0 + (v - 1) + (k - v) + 1 = k
      lia
    · change 0 + (v - 1) + 1 = v
      lia

theorem ticks_values_lost :
    exists trace s, (tickSystem 2).Runs tickStart trace s ∧
      s.handled = 1000 ∧ (forall c, s.loaded c = none) ∧ s.globalTicks = 1 :=
  (ticks_values (by decide) (by decide) (by decide) 1).mpr (by decide)

/-!
# Sleeping
-/

/-- A call of `b_sleep` returns only after as many interrupts as it has asked
for, as long as this brings their number to `bound` at most. -/
def SleepsLong (cpus ms bound : Nat) : Prop :=
  forall before between s t u v i,
    (tickSystem cpus).Runs tickStart before s ->
    TickStep cpus s (TickEvent.sleep i ms) t ->
    (tickSystem cpus).Runs t between u -> TickEvent.wake i ∉ between ->
    TickStep cpus u (TickEvent.wake i) v -> s.handled + ms / 10 <= bound ->
    ms / 10 <= v.handled - s.handled

section Sleep

variable {cpus i ms target : Nat} {s s' : TickState} {event : TickEvent}
  {trace : List TickEvent}

structure ExactTicks (s : TickState) : Prop where
  ticks : s.globalTicks = s.handled
  loaded : forall c v, s.loaded c = some v -> c = 0 ∧ v = s.handled

theorem exactTicks_step (h : ExactTicks s) (hsmall : s'.handled < 2 ^ 64)
    (hstep : TickStep 1 s event s') : ExactTicks s' := by
  cases hstep with
  | load hc hnone =>
      rename_i c
      constructor
      · exact h.ticks
      · intro d v hv
        rcases Sched.update_some_cases hv with ⟨hd, heq⟩ | ⟨_, hold⟩
        · cases heq
          exact ⟨by lia, h.ticks⟩
        · exact h.loaded d v hold
  | store hloaded =>
      rename_i c v
      change s.handled + 1 < 2 ^ 64 at hsmall
      have hv := h.loaded c v hloaded
      constructor
      · change Word.add v 1 = s.handled + 1
        rw [hv.2]
        exact Word.add_of_lt hsmall
      · intro d w hw
        rcases Sched.update_some_cases hw with ⟨_, heq⟩ | ⟨hd, hold⟩
        · cases heq
        · have hzero := h.loaded d w hold
          lia
  | sleep _ => exact ⟨h.ticks, h.loaded⟩
  | wake _ _ => exact ⟨h.ticks, h.loaded⟩

theorem exactTicks_start : ExactTicks tickStart := by
  constructor
  · rfl
  · intro c v hv
    cases hv

theorem exactTicks_runs (h : (tickSystem 1).Runs tickStart trace s)
    (hsmall : s.handled < 2 ^ 64) : ExactTicks s :=
  unwrapped_invariant exactTicks_start
    (fun _ _ _ hbefore hu hlast => exactTicks_step hbefore hu hlast) h hsmall

theorem asleep_step (h : s.asleep i = some target)
    (hevent : event ≠ TickEvent.wake i) (hstep : TickStep cpus s event s') :
    s'.asleep i = some target := by
  cases hstep with
  | load _ _ => exact h
  | store _ => exact h
  | sleep hnone =>
      rename_i j ms
      have hne : i ≠ j := by
        intro heq
        rw [heq, hnone] at h
        cases h
      exact (update_of_ne hne _ _).trans h
  | wake hold hreached =>
      rename_i j target'
      have hne : i ≠ j := by
        intro heq
        exact hevent (congrArg TickEvent.wake heq.symm)
      exact (update_of_ne hne _ _).trans h

theorem asleep_runs (hrun : (tickSystem cpus).Runs s trace s')
    (h : s.asleep i = some target) (hwake : TickEvent.wake i ∉ trace) :
    s'.asleep i = some target := by
  induction hrun with
  | nil => exact h
  | snoc _ hlast ih =>
      rw [List.mem_append, not_or] at hwake
      have hevent := List.ne_of_not_mem_cons hwake.2
      exact asleep_step (ih hwake.1) (Ne.symm hevent) hlast

theorem le_of_intTicks {ticks n : Nat} (hn : n <= 2 ^ 31)
    (h : n <= intTicks ticks) : n <= ticks := by
  unfold intTicks at h
  split at h
  · lia
  · lia

theorem sleepsLong_one {bound : Nat} (hbound : bound <= 2 ^ 31) :
    SleepsLong 1 ms bound := by
  intro before between s t u v i hbefore hsleep hbetween hwake hreturn hsmall
  cases hsleep with
  | sleep hnone =>
  cases hreturn with
  | wake htarget hreached =>
  rename_i target
  have hgrows := handled_runs hbetween
  change s.handled <= u.handled at hgrows
  change ms / 10 <= u.handled - s.handled
  by_cases hword : u.handled < 2 ^ 64
  · have hstart := exactTicks_runs hbefore (by lia)
    have hend := exactTicks_runs
      (runs_append (hbefore.snoc (TickStep.sleep hnone)) hbetween) hword
    have hkept := asleep_runs hbetween
      (update_self i _ s.asleep) hwake
    rw [htarget] at hkept
    cases hkept
    have htarget : sleepTarget s.globalTicks ms = s.handled + ms / 10 := by
      unfold sleepTarget
      rw [hstart.ticks]
      exact Nat.mod_eq_of_lt (by lia)
    rw [htarget, hend.ticks] at hreached
    have hle := le_of_intTicks (by lia) hreached
    lia
  · lia

/-- Call `i` of `b_sleep` has just computed its target. -/
def TickState.called (s : TickState) (i ms : Nat) : TickState :=
  { s with asleep := update s.asleep i (some (sleepTarget s.globalTicks ms)) }

/-- A call that finds its target reached too early. -/
theorem not_sleepsLong_of_runs {bound : Nat}
    {before between : List TickEvent} {s u : TickState}
    (hbefore : (tickSystem cpus).Runs tickStart before s)
    (hnone : s.asleep i = none)
    (hbetween : (tickSystem cpus).Runs (s.called i ms) between u)
    (hquiet : TickEvent.wake i ∉ between)
    (hreached : sleepTarget s.globalTicks ms <= intTicks u.globalTicks)
    (hsmall : s.handled + ms / 10 <= bound)
    (hearly : u.handled < s.handled + ms / 10) :
    ¬SleepsLong cpus ms bound := by
  intro hlong
  have hasleep := asleep_runs hbetween (update_self i _ s.asleep) hquiet
  have hshort := hlong _ _ _ _ _ _ i hbefore (TickStep.sleep hnone) hbetween
    hquiet (TickStep.wake hasleep hreached) hsmall
  have hgrows := handled_runs hbetween
  change s.handled <= u.handled at hgrows
  change ms / 10 <= u.handled - s.handled at hshort
  lia

/-- At tick `2 ^ 31` the `int` is negative and every call returns. -/
theorem not_sleepsLong_late {bound : Nat} (hcpus : 0 < cpus) (hms : 20 <= ms)
    (hword : ms < 2 ^ 32) (hbound : 2 ^ 31 < bound) :
    ¬SleepsLong cpus ms bound := by
  obtain ⟨first, hfirst⟩ : exists k, k + ms / 10 = 2 ^ 31 + 1 :=
    ⟨2 ^ 31 + 1 - ms / 10, by lia⟩
  obtain ⟨before, hbefore, _⟩ := counted_runs (s := tickStart) (n := first)
    hcpus rfl (by change 0 + first < 2 ^ 64; lia)
  obtain ⟨between, hbetween, hquiet⟩ := counted_runs
    (s := (counted tickStart first).called 0 ms) (n := ms / 10 - 1) hcpus rfl
    (by change 0 + first + (ms / 10 - 1) < 2 ^ 64; lia)
  apply not_sleepsLong_of_runs hbefore rfl hbetween (hquiet 0)
  · change sleepTarget (0 + first) ms <=
      intTicks (0 + first + (ms / 10 - 1))
    unfold sleepTarget intTicks
    lia
  · change 0 + first + ms / 10 <= bound
    lia
  · change 0 + first + (ms / 10 - 1) < 0 + first + ms / 10
    lia

/-- Processor 1 has loaded at the start and stores after `n` calls of processor
0, which has loaded again. -/
def setBack (n : Nat) : TickState where
  globalTicks := 1
  loaded := update (update (update tickStart.loaded 1 (some 0)) 0 (some n)) 1
    none
  handled := n + 1
  asleep := tickStart.asleep

theorem setBack_runs {n : Nat} (hcpus : 2 <= cpus) (hsmall : n < 2 ^ 64) :
    exists trace, (tickSystem cpus).Runs tickStart trace (setBack n) := by
  have hload1 : TickStep cpus tickStart (TickEvent.load 1)
      { tickStart with loaded := update tickStart.loaded 1 (some 0) } :=
    TickStep.load (by lia) rfl
  obtain ⟨trace, hcount, _⟩ := counted_runs (n := n)
    (s := { tickStart with loaded := update tickStart.loaded 1 (some 0) })
    (by lia : 0 < cpus) rfl (by change 0 + n < 2 ^ 64; lia)
  have hload0 := @TickStep.load cpus _ 0 (by lia : 0 < cpus)
    (rfl : (counted { tickStart with
      loaded := update tickStart.loaded 1 (some 0) } n).loaded 0 = none)
  refine ⟨_, ((runs_append (runs_single hload1) hcount).snoc hload0).snoc
    (TickStep.stored (c := 1) (v := 0) rfl rfl ?_ ?_ rfl)⟩
  · change _ = update (update (update tickStart.loaded 1 (some 0)) 0
      (some (0 + n))) 1 none
    rw [Nat.zero_add]
    rfl
  · change n + 1 = 0 + n + 1
    rw [Nat.zero_add]

/-- Processor 1 sets the counter back in front of the call, and processor 0
brings it up again with its next store. -/
theorem not_sleepsLong_back {bound : Nat} (hcpus : 2 <= cpus)
    (hms : 20 <= ms) (hword : ms < 2 ^ 32) (hbound : 2 ^ 30 <= bound) :
    ¬SleepsLong cpus ms bound := by
  obtain ⟨before, hbefore⟩ := setBack_runs (n := ms / 10) hcpus (by lia)
  have hstore : TickStep cpus ((setBack (ms / 10)).called 0 ms)
      (TickEvent.store 0) _ := TickStep.store (v := ms / 10) rfl
  have hadd : Word.add (ms / 10) 1 = ms / 10 + 1 := Word.add_of_lt (by lia)
  apply not_sleepsLong_of_runs hbefore rfl
    (runs_single (T := tickSystem cpus) hstore) (by simp)
  · change sleepTarget 1 ms <= intTicks (Word.add (ms / 10) 1)
    rw [hadd]
    unfold sleepTarget intTicks
    lia
  · change ms / 10 + 1 + ms / 10 <= bound
    lia
  · change ms / 10 + 1 + 1 < ms / 10 + 1 + ms / 10
    lia

end Sleep

/-- `b_sleep` lasts as long as it should on one processor only, and there until
the counter comes to `2 ^ 31`. -/
theorem b_sleep_long_iff {cpus ms bound : Nat} (hcpus : 0 < cpus)
    (hms : 20 <= ms) (hword : ms < 2 ^ 32) (hbound : 2 ^ 30 <= bound) :
    SleepsLong cpus ms bound <-> cpus = 1 ∧ bound <= 2 ^ 31 := by
  constructor
  · intro hlong
    constructor
    · by_contra hone
      exact not_sleepsLong_back (by lia) hms hword hbound hlong
    · by_contra hlate
      exact not_sleepsLong_late hcpus hms hword (by lia) hlong
  · rintro ⟨hone, hearly⟩
    rw [hone]
    exact sleepsLong_one hearly

theorem b_sleep_long_iff_four :
    SleepsLong 1 500 (2 ^ 31) ∧ ¬SleepsLong 4 500 (2 ^ 31) := by
  have hone := @b_sleep_long_iff 1 500 (2 ^ 31) (by decide) (by decide)
    (by decide) (by decide)
  have hfour := @b_sleep_long_iff 4 500 (2 ^ 31) (by decide) (by decide)
    (by decide) (by decide)
  constructor
  · exact hone.mpr (by decide)
  · rw [hfour]
    decide

end Ticks
end Barium
