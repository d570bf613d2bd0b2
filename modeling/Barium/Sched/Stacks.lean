import Barium.Sched.Reclaim
import Barium.Sched.IsAlive

/-!
# Who executes on a kernel stack

`sched_reschedule` releases the lock of its CPU before `isr_common_stub` loads
the new `rsp`.  In between the CPU still executes on the stack of the thread it
has left, which other CPUs may already take over or give away.
-/

namespace Barium
namespace Sched

open Foundation
open Function
open TransitionSystem

/-!
# The steps
-/

/-- The scheduler and the heap; `owned` are the blocks in use that belong to no
thread.  A CPU executes on the stack of thread `stack c`; `window c` is the time
from the locked section of `sched_reschedule` to the load of `rsp`.  The stacks
of the threads in `again` have been handed out by `kmalloc` a second time. -/
structure StackRun where
  run : SchedRun
  live : Set Nat
  owned : Set Nat
  stack : Nat -> Nat
  window : Nat -> Bool
  again : Set Nat

def StackRun.blocks (h : StackRun) (t : Nat) : List Nat :=
  threadBlocks (h.run.sched.threads t) t

def SchedEvent.By : SchedEvent -> Nat -> Prop
  | .reschedule c, d => d = c
  | .sleep c, d => d = c
  | .exit c, d => d = c
  | .handoff c, d => d = c
  | _, _ => False

inductive StackEvent where
  | kmalloc (block : Nat)
  | kfree (block : Nat)
  | sched (event : SchedEvent)
  | load (cpu : Nat)

inductive StackStep : StackRun -> StackEvent -> StackRun -> Prop where
  | kmalloc {h : StackRun} {c a : Nat} :
      c < h.run.sched.cpuCount -> h.window c = false ->
      a ≠ 0 -> a ∉ h.live ->
      StackStep h (StackEvent.kmalloc a)
        { h with
          live := h.live ∪ {a}
          owned := h.owned ∪ {a}
          again := h.again ∪ { t | (h.run.sched.threads t).stackLimit = a } }
  | kfree {h : StackRun} {c a : Nat} :
      c < h.run.sched.cpuCount -> h.window c = false -> a ∈ h.owned ->
      StackStep h (StackEvent.kfree a)
        { h with live := h.live \ {a}, owned := h.owned \ {a} }
  -- the blocks of a new thread come from earlier calls of `kmalloc`
  | create {h : StackRun} {c thread : Nat} {event : SchedEvent}
      {run : SchedRun} :
      c < h.run.sched.cpuCount -> h.window c = false ->
      SchedStep h.run event run -> event.Creates thread ->
      (forall a, a ∈ threadBlocks (run.sched.threads thread) thread ->
        a ∈ h.owned) ->
      StackStep h (StackEvent.sched event)
        { h with
          run := run
          owned := h.owned \
            { a | a ∈ threadBlocks (run.sched.threads thread) thread }
          again := h.again \ {thread} }
  | reschedule {h : StackRun} {c rsp tick ageTick : Nat}
      {result : RescheduleResult} :
      c < h.run.sched.cpuCount -> h.window c = false ->
      schedReschedule h.run.sched c rsp tick ageTick = some result ->
      StackStep h (StackEvent.sched (SchedEvent.reschedule c))
        { h with
          run := { h.run with
            sched := result.state
            alive := h.run.aliveAfter c result.state }
          live := h.live \ { a | a ∈ result.freed }
          window := update h.window c true }
  | load {h : StackRun} {c : Nat} :
      c < h.run.sched.cpuCount -> h.window c = true ->
      StackStep h (StackEvent.load c)
        { h with
          stack := update h.stack c (h.run.sched.cpus c).schedThread
          window := update h.window c false }
  | other {h : StackRun} {event : SchedEvent} {run : SchedRun} :
      SchedStep h.run event run -> ¬ event.UsesHeap ->
      (forall c, event.By c -> h.window c = false) ->
      StackStep h (StackEvent.sched event) { h with run := run }

/-- No thread is taken out of its queue, and no block is handed out, that a CPU
in its window still needs. -/
structure WindowsKept (h : StackRun) (event : StackEvent) (h' : StackRun) :
    Prop where
  handoff : forall c d, c < h.run.sched.cpuCount -> h.window c = true ->
    h'.run.handoff d = HandoffState.holding (h.stack c) ->
    h.run.handoff d = HandoffState.holding (h.stack c)
  kmalloc : forall c a, c < h.run.sched.cpuCount -> h.window c = true ->
    event = StackEvent.kmalloc a ->
    forall b, b ∈ h.blocks (h.stack c) -> b ∈ h.live

structure Owners (h : StackRun) : Prop where
  live : forall t b, h.run.alive t = some b ->
    forall a, a ∈ h.blocks t -> a ∈ h.live
  apart : forall t u b b', h.run.alive t = some b ->
    h.run.alive u = some b' -> t ≠ u ->
    forall a, a ∈ h.blocks t -> a ∉ h.blocks u
  owned : forall a, a ∈ h.owned -> a ∈ h.live ∧
    forall t b, h.run.alive t = some b -> a ∉ h.blocks t

def stackStart (cpuCount : Nat) (ids : Nat -> Nat) (h : StackRun) : Prop :=
  (schedSystem cpuCount ids).Init h.run ∧ Owners h ∧
    (forall c, h.stack c = (h.run.sched.cpus c).schedThread) ∧
    (forall c, h.window c = false) ∧ h.again = ∅

def stackRuns (cpuCount : Nat) (ids : Nat -> Nat) :
    TransitionSystem StackRun StackEvent where
  Init := stackStart cpuCount ids
  Step := StackStep

def windowRuns (cpuCount : Nat) (ids : Nat -> Nat) :
    TransitionSystem StackRun StackEvent where
  Init := stackStart cpuCount ids
  Step := fun h event h' => StackStep h event h' ∧ WindowsKept h event h'

structure StacksExclusive (h : StackRun) : Prop where
  one_cpu : forall c d, c < h.run.sched.cpuCount ->
    d < h.run.sched.cpuCount -> c ≠ d -> h.stack c ≠ h.stack d
  not_again : forall c, c < h.run.sched.cpuCount -> h.stack c ∉ h.again

/-!
# The invariant
-/

/-- The thread on whose stack CPU `c` executes in its window: it has not left
the CPU, or it is gone and its record is not in use. -/
def StackKept (h : StackRun) (place : Nat -> Option Place) (c : Nat) : Prop :=
  (exists pl, place (h.stack c) = some pl ∧ pl.cpu = c) ∨
    (h.run.alive (h.stack c) = none ∧ h.stack c ∉ h.owned)

structure StackInvariant (h : StackRun) (place : Nat -> Option Place)
    (lists : Loc -> List Nat) : Prop where
  sched : SchedInvariant h.run place lists
  owners : Owners h
  outside : forall c, c < h.run.sched.cpuCount -> h.window c = false ->
    h.stack c = (h.run.sched.cpus c).schedThread
  inside : forall c, c < h.run.sched.cpuCount -> h.window c = true ->
    StackKept h place c
  exclusive : StacksExclusive h
  alive_again : forall t b, h.run.alive t = some b -> t ∉ h.again

theorem self_mem_blocks (th : Thread) (t : Nat) : t ∈ threadBlocks th t := by
  unfold threadBlocks
  simp

theorem stack_mem_blocks (th : Thread) (t : Nat) :
    th.stackLimit ∈ threadBlocks th t := by
  unfold threadBlocks
  simp

section Facts

variable {h : StackRun} {place : Nat -> Option Place}
  {lists : Loc -> List Nat}

theorem StackInvariant.alive_running (hinv : StackInvariant h place lists)
    {c : Nat} (hc : c < h.run.sched.cpuCount) :
    exists b, h.run.alive (h.run.sched.cpus c).schedThread = some b :=
  hinv.sched.alive_running hc

theorem StackInvariant.kept (hinv : StackInvariant h place lists) {c : Nat}
    (hc : c < h.run.sched.cpuCount) : StackKept h place c := by
  cases hwindow : h.window c with
  | true => exact hinv.inside c hc hwindow
  | false =>
      left
      exists Place.running c
      rw [hinv.outside c hc hwindow]
      exact ⟨hinv.sched.running c hc, rfl⟩

theorem SchedInvariant.placed_of_alive {r : SchedRun}
    (hinv : SchedInvariant r place lists) {t : Nat} (ht : r.alive t ≠ none) :
    exists pl, place t = some pl := by
  cases hplace : place t with
  | none => exact absurd ((hinv.alive_iff t).mpr hplace) ht
  | some pl => exact ⟨pl, rfl⟩

theorem SchedInvariant.alive_of_placed {r : SchedRun}
    (hinv : SchedInvariant r place lists) {t : Nat} {pl : Place}
    (hplace : place t = some pl) : r.alive t ≠ none := by
  intro hnone
  rw [(hinv.alive_iff t).mp hnone] at hplace
  cases hplace

theorem StackInvariant.running_ne (hinv : StackInvariant h place lists)
    {c d : Nat} (hc : c < h.run.sched.cpuCount)
    (hd : d < h.run.sched.cpuCount) (hne : c ≠ d) :
    (h.run.sched.cpus c).schedThread ≠ h.stack d := by
  intro heq
  have hplace := hinv.sched.running c hc
  rcases hinv.kept hd with ⟨pl, hpl, hcpu⟩ | ⟨hgone, _⟩
  · rw [heq, hpl] at hplace
    cases hplace
    exact hne hcpu
  · rcases hinv.alive_running hc with ⟨b, hb⟩
    rw [heq, hgone] at hb
    cases hb

end Facts

/-!
# The steps of the heap
-/

section Heap

variable {h : StackRun} {place : Nat -> Option Place}
  {lists : Loc -> List Nat} {a : Nat}

theorem stackInvariant_kmalloc (hinv : StackInvariant h place lists)
    (hnew : a ∉ h.live)
    (hkept : forall c, c < h.run.sched.cpuCount -> h.window c = true ->
      forall b, b ∈ h.blocks (h.stack c) -> b ∈ h.live) :
    StackInvariant { h with
      live := h.live ∪ {a}
      owned := h.owned ∪ {a}
      again := h.again ∪ { t | (h.run.sched.threads t).stackLimit = a } }
      place lists := by
  have hfresh : forall t b, h.run.alive t = some b -> a ∉ h.blocks t := by
    intro t b ht ha
    exact hnew (hinv.owners.live t b ht a ha)
  have hother : forall c, c < h.run.sched.cpuCount ->
      a ∉ h.blocks (h.stack c) := by
    intro c hc ha
    cases hwindow : h.window c with
    | true => exact hnew (hkept c hc hwindow a ha)
    | false =>
        rcases hinv.alive_running hc with ⟨b, hb⟩
        rw [hinv.outside c hc hwindow] at ha
        exact hfresh _ b hb ha
  constructor
  · exact hinv.sched
  · constructor
    · intro t b ht x hx
      exact Or.inl (hinv.owners.live t b ht x hx)
    · exact hinv.owners.apart
    · intro x hx
      rcases hx with hold | hnew
      · rcases hinv.owners.owned x hold with ⟨hlive, hnot⟩
        exact ⟨Or.inl hlive, hnot⟩
      · rw [show x = a from hnew]
        exact ⟨Or.inr rfl, hfresh⟩
  · exact hinv.outside
  · intro c hc hwindow
    rcases hinv.inside c hc hwindow with hplaced | ⟨hgone, hnot⟩
    · exact Or.inl hplaced
    · refine Or.inr ⟨hgone, ?_⟩
      intro howned
      rcases howned with hold | hnew
      · exact hnot hold
      · apply hother c hc
        rw [← show h.stack c = a from hnew]
        exact self_mem_blocks _ _
  · constructor
    · exact hinv.exclusive.one_cpu
    · intro c hc hagain
      rcases hagain with hold | hnew
      · exact hinv.exclusive.not_again c hc hold
      · apply hother c hc
        rw [← show (h.run.sched.threads (h.stack c)).stackLimit = a from hnew]
        exact stack_mem_blocks _ _
  · intro t b ht hagain
    rcases hagain with hold | hnew
    · exact hinv.alive_again t b ht hold
    · apply hfresh t b ht
      rw [← show (h.run.sched.threads t).stackLimit = a from hnew]
      exact stack_mem_blocks _ _

theorem stackInvariant_kfree (hinv : StackInvariant h place lists)
    (howned : a ∈ h.owned) :
    StackInvariant { h with live := h.live \ {a}, owned := h.owned \ {a} }
      place lists := by
  constructor
  · exact hinv.sched
  · constructor
    · intro t b ht x hx
      refine ⟨hinv.owners.live t b ht x hx, ?_⟩
      intro heq
      rw [show x = a from heq] at hx
      exact (hinv.owners.owned a howned).right t b ht hx
    · exact hinv.owners.apart
    · intro x hx
      rcases hinv.owners.owned x hx.left with ⟨hlive, hnot⟩
      exact ⟨⟨hlive, hx.right⟩, hnot⟩
  · exact hinv.outside
  · intro c hc hwindow
    rcases hinv.inside c hc hwindow with hplaced | ⟨hgone, hnot⟩
    · exact Or.inl hplaced
    · exact Or.inr ⟨hgone, fun howned => hnot howned.left⟩
  · exact ⟨hinv.exclusive.one_cpu, hinv.exclusive.not_again⟩
  · exact hinv.alive_again

end Heap

/-!
# The steps of the scheduler
-/

section Sched

variable {h : StackRun} {place : Nat -> Option Place}
  {lists : Loc -> List Nat} {event : SchedEvent} {run : SchedRun}

theorem creates_alive {r r' : SchedRun} {thread : Nat}
    (hstep : SchedStep r event r') (hnew : event.Creates thread) :
    r.alive thread = none ∧
      forall t, t ≠ thread -> r'.alive t = r.alive t := by
  cases hstep with
  | spawn hfresh _ =>
      cases hnew
      exact ⟨hfresh.unused, fun t ht => born_alive_other _ _ _ ht⟩
  | spawnUser hfresh _ =>
      cases hnew
      exact ⟨hfresh.unused, fun t ht => born_alive_other _ _ _ ht⟩
  | _ => cases hnew

theorem SchedEvent.Creates.not_reschedule {thread c : Nat}
    (hnew : event.Creates thread) : event ≠ SchedEvent.reschedule c := by
  intro heq
  rw [heq] at hnew
  cases hnew

theorem SchedEvent.Creates.eq {thread t : Nat}
    (hnew : event.Creates thread) (ht : event.Creates t) : t = thread := by
  cases event with
  | spawn thread' => exact Eq.trans ht (Eq.symm hnew)
  | spawnUser thread' => exact Eq.trans ht (Eq.symm hnew)
  | _ => cases hnew

/-- The thread that a CPU executes on stays with the CPU, unless a call of
`sched_handoff` takes it. -/
theorem stays_on_cpu {place' : Nat -> Option Place}
    {lists' : Loc -> List Nat} {t c : Nat} {pl : Place}
    (hinv : SchedInvariant h.run place lists)
    (hinv' : SchedInvariant run place' lists')
    (hframe : StepFrame h.run event run place place')
    (hplace : place t = some pl) (hcpu : pl.cpu = c)
    (halive : run.alive t ≠ none)
    (hkept : forall d, run.handoff d = HandoffState.holding t ->
      h.run.handoff d = HandoffState.holding t) :
    exists pl', place' t = some pl' ∧ pl'.cpu = c := by
  rcases hinv'.placed_of_alive halive with ⟨pl', hplace'⟩
  refine ⟨pl', hplace', ?_⟩
  rcases hframe.home t pl pl' hplace hplace' with hsame | ⟨d, _, hheld⟩
  · exact hsame.trans hcpu
  · -- the call held the thread before
    rw [hheld] at hplace' ⊢
    rcases (hinv'.at_iff t _).mpr hplace' with ⟨hd, hholding⟩
    have hbefore : place t = some (Place.held d) :=
      (hinv.at_iff t (Place.held d)).mp
        ⟨by rw [← hframe.count]; exact hd, hkept d hholding⟩
    rw [hplace] at hbefore
    cases hbefore
    exact hcpu

theorem Owners.create {thread : Nat} (howners : Owners h)
    (halive : forall t, t ≠ thread -> run.alive t = h.run.alive t)
    (hsame : forall t, t ≠ thread ->
      threadBlocks (run.sched.threads t) t = h.blocks t)
    (hblocks : forall a,
      a ∈ threadBlocks (run.sched.threads thread) thread -> a ∈ h.owned)
    (again : Set Nat) :
    Owners { h with
      run := run
      owned := h.owned \
        { a | a ∈ threadBlocks (run.sched.threads thread) thread }
      again := again } := by
  -- a block of a thread of the new state
  have hcases : forall t b a, run.alive t = some b ->
      a ∈ threadBlocks (run.sched.threads t) t ->
      (t = thread ∧ a ∈ h.owned) ∨
        (t ≠ thread ∧ h.run.alive t = some b ∧ a ∈ h.blocks t) := by
    intro t b a ht ha
    by_cases hcase : t = thread
    · rw [hcase] at ha
      exact Or.inl ⟨hcase, hblocks a ha⟩
    · rw [hsame t hcase] at ha
      rw [halive t hcase] at ht
      exact Or.inr ⟨hcase, ht, ha⟩
  constructor
  · intro t b ht a ha
    rcases hcases t b a ht ha with ⟨_, howned⟩ | ⟨_, hold, ha⟩
    · exact (howners.owned a howned).left
    · exact howners.live t b hold a ha
  · intro t u b b' ht hu hne a ha ha'
    rcases hcases t b a ht ha with ⟨heq, howned⟩ | ⟨_, hold, ha⟩
    · rcases hcases u b' a hu ha' with ⟨heq', _⟩ | ⟨_, hold', ha'⟩
      · exact hne (heq.trans heq'.symm)
      · exact (howners.owned a howned).right u b' hold' ha'
    · rcases hcases u b' a hu ha' with ⟨_, howned'⟩ | ⟨_, hold', ha'⟩
      · exact (howners.owned a howned').right t b hold ha
      · exact howners.apart t u b b' hold hold' hne a ha ha'
  · intro a ha
    rcases ha with ⟨howned, hnot⟩
    refine ⟨(howners.owned a howned).left, ?_⟩
    intro t b ht ha
    rcases hcases t b a ht ha with ⟨heq, _⟩ | ⟨_, hold, ha'⟩
    · have ha' : a ∈ threadBlocks (run.sched.threads t) t := ha
      rw [heq] at ha'
      exact hnot ha'
    · exact (howners.owned a howned).right t b hold ha'

theorem stackInvariant_create {thread : Nat}
    (hinv : StackInvariant h place lists) (hstep : SchedStep h.run event run)
    (hnew : event.Creates thread)
    (hblocks : forall a,
      a ∈ threadBlocks (run.sched.threads thread) thread -> a ∈ h.owned)
    (hkept : forall c d, c < h.run.sched.cpuCount -> h.window c = true ->
      run.handoff d = HandoffState.holding (h.stack c) ->
      h.run.handoff d = HandoffState.holding (h.stack c)) :
    exists place' lists', StackInvariant { h with
      run := run
      owned := h.owned \
        { a | a ∈ threadBlocks (run.sched.threads thread) thread }
      again := h.again \ {thread} } place' lists' := by
  rcases schedInvariant_stepFrame hinv.sched hstep with
    ⟨place', lists', hsched, hframe⟩
  rcases creates_alive hstep hnew with ⟨hnone, hothers⟩
  have hsame : forall t, t ≠ thread ->
      threadBlocks (run.sched.threads t) t = h.blocks t := by
    intro t ht
    exact schedStep_blocks hinv.sched hstep (fun hcreates =>
      ht (hnew.eq hcreates))
  have hthread : thread ∈ h.owned := hblocks thread (self_mem_blocks _ _)
  have hlt : forall c, c < run.sched.cpuCount ->
      c < h.run.sched.cpuCount := by
    intro c hc
    rw [← hframe.count]
    exact hc
  refine ⟨place', lists', hsched, hinv.owners.create hothers hsame hblocks _,
    ?_, ?_, ⟨?_, ?_⟩, ?_⟩
  · intro c hc hwindow
    exact (hinv.outside c (hlt c hc) hwindow).trans
      (hframe.running c hnew.not_reschedule).symm
  · intro c hc hwindow
    rcases hinv.inside c (hlt c hc) hwindow with
      ⟨pl, hplace, hcpu⟩ | ⟨hgone, hnot⟩
    · left
      have halive := hinv.sched.alive_of_placed hplace
      have hne : h.stack c ≠ thread := by
        intro heq
        rw [heq] at halive
        exact halive hnone
      apply stays_on_cpu hinv.sched hsched hframe hplace hcpu
      · rw [hothers _ hne]
        exact halive
      · intro d hd
        exact hkept c d (hlt c hc) hwindow hd
    · right
      have hne : h.stack c ≠ thread := by
        intro heq
        rw [heq] at hnot
        exact hnot hthread
      exact ⟨(hothers _ hne).trans hgone, fun howned => hnot howned.left⟩
  · intro c d hc hd
    exact hinv.exclusive.one_cpu c d (hlt c hc) (hlt d hd)
  · intro c hc hagain
    exact hinv.exclusive.not_again c (hlt c hc) hagain.left
  · intro t b ht hagain
    have hne : t ≠ thread := hagain.right
    rw [show StackRun.run _ = run from rfl, hothers t hne] at ht
    exact hinv.alive_again t b ht hagain.left

theorem Owners.less {h' : StackRun} (howners : Owners h)
    (halive : forall t b, h'.run.alive t = some b ->
      h.run.alive t = some b)
    (hsame : forall t, h'.blocks t = h.blocks t)
    (howned : h'.owned = h.owned)
    (hlive : forall a, a ∈ h.live ->
      ((exists t b, h'.run.alive t = some b ∧ a ∈ h.blocks t) ∨
        a ∈ h.owned) -> a ∈ h'.live) : Owners h' := by
  constructor
  · intro t b ht a ha
    rw [hsame] at ha
    exact hlive a (howners.live t b (halive t b ht) a ha)
      (Or.inl ⟨t, b, ht, ha⟩)
  · intro t u b b' ht hu
    rw [hsame, hsame]
    exact howners.apart t u b b' (halive t b ht) (halive u b' hu)
  · intro a ha
    rw [howned] at ha
    rcases howners.owned a ha with ⟨hold, hnot⟩
    refine ⟨hlive a hold (Or.inr ha), ?_⟩
    intro t b ht
    rw [hsame]
    exact hnot t b (halive t b ht)

/-- A block that is freed belongs to a thread that is gone. -/
theorem freed_gone {c rsp tick ageTick a : Nat} {result : RescheduleResult}
    (hinv : StackInvariant h place lists) (hc : c < h.run.sched.cpuCount)
    (hrun : schedReschedule h.run.sched c rsp tick ageTick = some result)
    (ha : a ∈ result.freed) :
    a ∈ h.blocks (h.run.sched.cpus c).schedThread ∧
      h.run.aliveAfter c result.state (h.run.sched.cpus c).schedThread =
        none := by
  rcases schedReschedule_freed hinv.sched hc hrun with ⟨_, hnone⟩ |
    ⟨hleft, hblocks⟩
  · rw [hnone] at ha
    cases ha
  · rw [hblocks] at ha
    rcases mem_freedBlocks ha with ⟨hdead, hmem⟩
    refine ⟨hmem, ?_⟩
    rw [aliveAfter_gone c result.state hleft hdead, update_self]

theorem owners_reschedule {c rsp tick ageTick : Nat}
    {result : RescheduleResult} (hinv : StackInvariant h place lists)
    (hc : c < h.run.sched.cpuCount)
    (hrun : schedReschedule h.run.sched c rsp tick ageTick = some result) :
    Owners { h with
      run := { h.run with
        sched := result.state
        alive := h.run.aliveAfter c result.state }
      live := h.live \ { a | a ∈ result.freed }
      window := update h.window c true } := by
  rcases hinv.alive_running hc with ⟨b0, hb0⟩
  apply hinv.owners.less
  · intro t b ht
    exact aliveAfter_some ht
  · intro t
    exact schedStep_blocks hinv.sched (SchedStep.reschedule hc hrun)
      (fun hnew => hnew)
  · rfl
  · intro a ha howner
    refine ⟨ha, ?_⟩
    intro hfree
    rcases freed_gone hinv hc hrun hfree with ⟨hmem, hgone⟩
    rcases howner with ⟨t, b, ht, hblock⟩ | howned
    · have hne : t ≠ (h.run.sched.cpus c).schedThread := by
        intro heq
        rw [show StackRun.run _ = _ from rfl, heq] at ht
        cases ht.symm.trans hgone
      exact hinv.owners.apart t _ b b0 (aliveAfter_some ht) hb0 hne a hblock
        hmem
    · exact (hinv.owners.owned a howned).right _ b0 hb0 hmem

theorem stackInvariant_reschedule {c rsp tick ageTick : Nat}
    {result : RescheduleResult} (hinv : StackInvariant h place lists)
    (hc : c < h.run.sched.cpuCount) (hout : h.window c = false)
    (hrun : schedReschedule h.run.sched c rsp tick ageTick = some result) :
    exists place' lists', StackInvariant { h with
      run := { h.run with
        sched := result.state
        alive := h.run.aliveAfter c result.state }
      live := h.live \ { a | a ∈ result.freed }
      window := update h.window c true } place' lists' := by
  have hstep : SchedStep h.run (SchedEvent.reschedule c)
      { h.run with
        sched := result.state
        alive := h.run.aliveAfter c result.state } :=
    SchedStep.reschedule hc hrun
  rcases schedInvariant_stepFrame hinv.sched hstep with
    ⟨place', lists', hsched, hframe⟩
  have hcurrent := hinv.outside c hc hout
  rcases hinv.alive_running hc with ⟨b0, hb0⟩
  have hlt : forall d, d < result.state.cpuCount ->
      d < h.run.sched.cpuCount := by
    intro d hd
    rw [← show result.state.cpuCount = h.run.sched.cpuCount from hframe.count]
    exact hd
  refine ⟨place', lists', hsched, ?_, ?_, ?_, ⟨?_, ?_⟩, ?_⟩
  · exact owners_reschedule hinv hc hrun
  · intro d hd hwindow
    have hne : d ≠ c := by
      intro heq
      rw [heq] at hwindow
      simp at hwindow
    have hold : h.window d = false := by
      simpa [update_of_ne hne] using hwindow
    apply (hinv.outside d (hlt d hd) hold).trans
    apply (hframe.running d _).symm
    intro heq
    cases heq
    exact hne rfl
  · intro d hd hwindow
    by_cases hdc : d = c
    · rw [hdc]
      cases hgone : h.run.aliveAfter c result.state (h.stack c) with
      | none =>
          refine Or.inr ⟨hgone, ?_⟩
          intro howned
          rw [hcurrent] at howned
          exact (hinv.owners.owned _ howned).right _ b0 hb0
            (self_mem_blocks _ _)
      | some b =>
          left
          have hplace := hinv.sched.running c hc
          rw [← hcurrent] at hplace
          apply stays_on_cpu hinv.sched hsched hframe hplace rfl
          · rw [show SchedRun.alive _ = h.run.aliveAfter c result.state from
              rfl, hgone]
            simp
          · exact fun _ hd => hd
    · have hold : h.window d = true := by
        simpa [update_of_ne hdc] using hwindow
      rcases hinv.inside d (hlt d hd) hold with ⟨pl, hplace, hcpu⟩ |
        ⟨hgone, hnot⟩
      · left
        apply stays_on_cpu hinv.sched hsched hframe hplace hcpu
        · have hother : h.stack d ≠ (h.run.sched.cpus c).schedThread :=
            fun heq => hinv.running_ne hc (hlt d hd) (fun hcd => hdc hcd.symm)
              heq.symm
          rw [show SchedRun.alive _ = h.run.aliveAfter c result.state from
            rfl, aliveAfter_other _ hother]
          exact hinv.sched.alive_of_placed hplace
        · exact fun _ hd => hd
      · right
        refine ⟨?_, hnot⟩
        cases hafter : h.run.aliveAfter c result.state (h.stack d) with
        | none => exact hafter
        | some b =>
            rw [aliveAfter_some hafter] at hgone
            cases hgone
  · intro d e hd he
    exact hinv.exclusive.one_cpu d e (hlt d hd) (hlt e he)
  · intro d hd
    exact hinv.exclusive.not_again d (hlt d hd)
  · intro t b ht
    exact hinv.alive_again t b (aliveAfter_some ht)

theorem stackInvariant_load {c : Nat} (hinv : StackInvariant h place lists)
    (hc : c < h.run.sched.cpuCount) :
    StackInvariant { h with
      stack := update h.stack c (h.run.sched.cpus c).schedThread
      window := update h.window c false } place lists := by
  have hself : update h.stack c (h.run.sched.cpus c).schedThread c =
      (h.run.sched.cpus c).schedThread := update_self _ _ _
  have hother : forall d, d ≠ c -> update h.stack c
      (h.run.sched.cpus c).schedThread d = h.stack d :=
    fun d hd => update_of_ne hd _ _
  refine ⟨hinv.sched, ⟨hinv.owners.live, hinv.owners.apart,
    hinv.owners.owned⟩, ?_, ?_, ⟨?_, ?_⟩, hinv.alive_again⟩
  · intro d hd hwindow
    by_cases hdc : d = c
    · rw [hdc]
      exact hself
    · apply (hother d hdc).trans
      apply hinv.outside d hd
      simpa [update_of_ne hdc] using hwindow
  · intro d hd hwindow
    have hne : d ≠ c := by
      intro heq
      rw [heq] at hwindow
      simp at hwindow
    have hold : h.window d = true := by
      simpa [update_of_ne hne] using hwindow
    unfold StackKept
    rw [show StackRun.stack _ d = h.stack d from hother d hne]
    exact hinv.inside d hd hold
  · intro d e hd he hne
    show update h.stack c _ d ≠ update h.stack c _ e
    by_cases hhere : d = c
    · have hec : e ≠ c := by
        rw [← hhere]
        exact hne.symm
      rw [hhere, hself, hother e hec]
      exact hinv.running_ne hc he hec.symm
    · rw [hother d hhere]
      by_cases hcase : e = c
      · rw [hcase, hself]
        exact (hinv.running_ne hc hd (fun heq => hhere heq.symm)).symm
      · rw [hother e hcase]
        exact hinv.exclusive.one_cpu d e hd he hne
  · intro d hd
    show update h.stack c _ d ∉ h.again
    by_cases hsame : d = c
    · rw [hsame, hself]
      rcases hinv.alive_running hc with ⟨b, hb⟩
      exact hinv.alive_again _ b hb
    · rw [hother d hsame]
      exact hinv.exclusive.not_again d hd

theorem stackInvariant_other (hinv : StackInvariant h place lists)
    (hstep : SchedStep h.run event run) (hplain : ¬ event.UsesHeap)
    (hkept : forall c d, c < h.run.sched.cpuCount -> h.window c = true ->
      run.handoff d = HandoffState.holding (h.stack c) ->
      h.run.handoff d = HandoffState.holding (h.stack c)) :
    exists place' lists', StackInvariant { h with run := run } place' lists' := by
  rcases schedInvariant_stepFrame hinv.sched hstep with
    ⟨place', lists', hsched, hframe⟩
  have halive : run.alive = h.run.alive := schedStep_alive hstep hplain
  have hlt : forall c, c < run.sched.cpuCount ->
      c < h.run.sched.cpuCount := by
    intro c hc
    rw [← hframe.count]
    exact hc
  refine ⟨place', lists', hsched, ?_, ?_, ?_, ⟨?_, ?_⟩, ?_⟩
  · apply hinv.owners.less
    · intro t b ht
      rw [← halive]
      exact ht
    · intro t
      exact schedStep_blocks hinv.sched hstep
        (SchedEvent.not_creates hplain t)
    · rfl
    · intro a ha _
      exact ha
  · intro c hc hwindow
    apply (hinv.outside c (hlt c hc) hwindow).trans
    apply (hframe.running c _).symm
    intro heq
    rw [heq] at hplain
    exact hplain trivial
  · intro c hc hwindow
    rcases hinv.inside c (hlt c hc) hwindow with ⟨pl, hplace, hcpu⟩ |
      ⟨hgone, hnot⟩
    · left
      apply stays_on_cpu hinv.sched hsched hframe hplace hcpu
      · rw [halive]
        exact hinv.sched.alive_of_placed hplace
      · intro d hd
        exact hkept c d (hlt c hc) hwindow hd
    · exact Or.inr ⟨(congrFun halive _).trans hgone, hnot⟩
  · intro c d hc hd
    exact hinv.exclusive.one_cpu c d (hlt c hc) (hlt d hd)
  · intro c hc
    exact hinv.exclusive.not_again c (hlt c hc)
  · intro t b ht
    apply hinv.alive_again t b
    rw [← halive]
    exact ht

end Sched

/-!
# The theorem about runs
-/

theorem stackInvariant_step {h h' : StackRun} {event : StackEvent}
    {place : Nat -> Option Place} {lists : Loc -> List Nat}
    (hinv : StackInvariant h place lists) (hstep : StackStep h event h')
    (hkept : WindowsKept h event h') :
    exists place' lists', StackInvariant h' place' lists' := by
  cases hstep with
  | kmalloc _ _ _ hnew =>
      exact ⟨place, lists, stackInvariant_kmalloc hinv hnew
        (fun c hc hwindow => hkept.kmalloc c _ hc hwindow rfl)⟩
  | kfree _ _ howned =>
      exact ⟨place, lists, stackInvariant_kfree hinv howned⟩
  | create _ _ hstep hnew hblocks =>
      exact stackInvariant_create hinv hstep hnew hblocks hkept.handoff
  | reschedule hc hout hrun => exact stackInvariant_reschedule hinv hc hout hrun
  | load hc _ => exact ⟨place, lists, stackInvariant_load hinv hc⟩
  | other hstep hplain _ =>
      exact stackInvariant_other hinv hstep hplain hkept.handoff

theorem stackInvariant_init {cpuCount : Nat} {ids : Nat -> Nat} {h : StackRun}
    (hids : ValidIds cpuCount ids) (hpos : 0 < cpuCount)
    (hinit : stackStart cpuCount ids h) :
    exists place lists, StackInvariant h place lists := by
  rcases hinit with ⟨hrun, howners, hstack, hwindow, hagain⟩
  rcases schedInvariant_init hids hpos hrun with ⟨place, lists, hsched⟩
  refine ⟨place, lists, hsched, howners, fun c _ _ => hstack c, ?_, ⟨?_, ?_⟩,
    ?_⟩
  · intro c _ hin
    rw [hwindow c] at hin
    cases hin
  · intro c d hc hd hne heq
    have hplace := hsched.running c hc
    rw [hstack c, hstack d] at heq
    rw [heq, hsched.running d hd] at hplace
    cases hplace
    exact hne rfl
  · intro c _ hmem
    rw [hagain] at hmem
    cases hmem
  · intro t b _ hmem
    rw [hagain] at hmem
    cases hmem

theorem sched_stacks_exclusive {cpuCount : Nat} {ids : Nat -> Nat}
    {h : StackRun} (hids : ValidIds cpuCount ids) (hpos : 0 < cpuCount)
    (hreach : (windowRuns cpuCount ids).Reachable h) : StacksExclusive h := by
  have hinv : exists place lists, StackInvariant h place lists := by
    apply reachable_invariant
      (P := fun h => exists place lists, StackInvariant h place lists) _ _
      hreach
    · intro h0 hinit
      exact stackInvariant_init hids hpos hinit
    · intro h1 event h2 hh hstep
      rcases hh with ⟨place, lists, hinv⟩
      exact stackInvariant_step hinv hstep.left hstep.right
  rcases hinv with ⟨_, _, hinv⟩
  exact hinv.exclusive

def pairStart : StackRun where
  run := twoCpus
  live := { a | a ∈ [0x1000, 0x2000, 0x3000, 0x4000, 0x5000, 0x6000] }
  owned := { a | a ∈ [0x5000, 0x6000] }
  stack := fun c => (twoCpus.sched.cpus c).schedThread
  window := fun _ => false
  again := ∅

theorem twoCpus_alive {t : Nat} {b : Birth} (h : twoCpus.alive t = some b) :
    t = 0x1000 ∨ t = 0x3000 := by
  rcases born_cases h with ⟨heq, _⟩ | ⟨_, hfirst⟩
  · exact Or.inr heq
  · rcases born_cases hfirst with ⟨heq, _⟩ | ⟨_, hnone⟩
    · exact Or.inl heq
    · cases hnone

theorem pairStart_owners : Owners pairStart := by
  have hfirst : pairStart.blocks 0x1000 = [0x2000, 0x1000] := by decide
  have hsecond : pairStart.blocks 0x3000 = [0x4000, 0x3000] := by decide
  have hblocks : forall t b, pairStart.run.alive t = some b ->
      (t = 0x1000 ∧ pairStart.blocks t = [0x2000, 0x1000]) ∨
        (t = 0x3000 ∧ pairStart.blocks t = [0x4000, 0x3000]) := by
    intro t b ht
    rcases twoCpus_alive ht with heq | heq
    · rw [heq]
      exact Or.inl ⟨rfl, hfirst⟩
    · rw [heq]
      exact Or.inr ⟨rfl, hsecond⟩
  constructor
  · intro t b ht a ha
    show a ∈ [0x1000, 0x2000, 0x3000, 0x4000, 0x5000, 0x6000]
    rcases hblocks t b ht with ⟨_, heq⟩ | ⟨_, heq⟩
    · rw [heq] at ha
      revert a
      decide
    · rw [heq] at ha
      revert a
      decide
  · intro t u b b' ht hu hne a ha
    rcases hblocks t b ht with ⟨ht', heq⟩ | ⟨ht', heq⟩
    · rcases hblocks u b' hu with ⟨hu', _⟩ | ⟨_, heq'⟩
      · exact absurd (ht'.trans hu'.symm) hne
      · rw [heq] at ha
        rw [heq']
        revert a
        decide
    · rcases hblocks u b' hu with ⟨_, heq'⟩ | ⟨hu', _⟩
      · rw [heq] at ha
        rw [heq']
        revert a
        decide
      · exact absurd (ht'.trans hu'.symm) hne
  · intro a (ha : a ∈ [0x5000, 0x6000])
    constructor
    · show a ∈ [0x1000, 0x2000, 0x3000, 0x4000, 0x5000, 0x6000]
      revert a
      decide
    · intro t b ht
      rcases hblocks t b ht with ⟨_, heq⟩ | ⟨_, heq⟩
      · rw [heq]
        revert a
        decide
      · rw [heq]
        revert a
        decide

theorem pairStart_init : stackStart 2 (fun c => c) pairStart :=
  ⟨twoCpus_init, pairStart_owners, fun _ => rfl, fun _ => rfl, rfl⟩

def StackRun.locks (h : StackRun) (c : Nat) : StackRun :=
  match schedReschedule h.run.sched c 0 0 0 with
  | some result =>
      { h with
        run := { h.run with
          sched := result.state
          alive := h.run.aliveAfter c result.state }
        live := h.live \ { a | a ∈ result.freed }
        window := update h.window c true }
  | none => h

theorem StackRun.locks_step {h : StackRun} {c : Nat}
    (hc : c < h.run.sched.cpuCount) (hwindow : h.window c = false)
    (hends : (schedReschedule h.run.sched c 0 0 0).isSome = true) :
    StackStep h (StackEvent.sched (SchedEvent.reschedule c)) (h.locks c) := by
  rcases Option.isSome_iff_exists.mp hends with ⟨result, hresult⟩
  unfold StackRun.locks
  rw [hresult]
  exact StackStep.reschedule hc hwindow hresult

theorem StackRun.locks_live {h : StackRun} {c a : Nat}
    {result : RescheduleResult}
    (hresult : schedReschedule h.run.sched c 0 0 0 = some result)
    (ha : a ∈ result.freed) : a ∉ (h.locks c).live := by
  unfold StackRun.locks
  rw [hresult]
  exact fun hlive => hlive.right ha

def StackRun.loads (h : StackRun) (c : Nat) : StackRun :=
  { h with
    stack := update h.stack c (h.run.sched.cpus c).schedThread
    window := update h.window c false }

def pairCreated : StackRun :=
  { pairStart with
    run := twoThread
    owned := pairStart.owned \
      { a | a ∈ threadBlocks (twoThread.sched.threads 0x5000) 0x5000 }
    again := pairStart.again \ {0x5000} }

/-- CPU 0 has left its idle thread and has not loaded `rsp`. -/
def pairLeft : StackRun := pairCreated.locks 0

theorem pairCreated_step :
    StackStep pairStart (StackEvent.sched (SchedEvent.spawn 0x5000))
      pairCreated := by
  have hblocks : threadBlocks (twoThread.sched.threads 0x5000) 0x5000 =
      [0x6000, 0x5000] := by decide
  have hnew : SchedEvent.Creates (SchedEvent.spawn 0x5000) 0x5000 := rfl
  apply StackStep.create (h := pairStart) (c := 0) (by decide) rfl
    twoThread_step hnew
  intro a ha
  rw [hblocks] at ha
  show a ∈ [0x5000, 0x6000]
  revert a
  decide

theorem pairLeft_step :
    StackStep pairCreated (StackEvent.sched (SchedEvent.reschedule 0))
      pairLeft :=
  StackRun.locks_step (by decide) rfl (by decide)

theorem windowsKept_still {h h' : StackRun} {event : SchedEvent}
    (hsame : h'.run.handoff = h.run.handoff) :
    WindowsKept h (StackEvent.sched event) h' := by
  constructor
  · intro c d _ _ hholding
    rw [hsame] at hholding
    exact hholding
  · intro c a _ _ heq
    cases heq

theorem pair_ids : ValidIds 2 (fun c => c) := by
  constructor
  · intro c hc
    lia
  · intro c d _ _ heq
    exact heq

theorem sched_stacks_exclusive_pairLeft :
    pairLeft.window 0 = true ∧ StacksExclusive pairLeft := by
  refine ⟨by decide, sched_stacks_exclusive pair_ids (by decide) ?_⟩
  have hstart : (windowRuns 2 (fun c => c)).Reachable pairStart :=
    ⟨pairStart, [], pairStart_init, Runs.nil _⟩
  have hcreated := reachable_step hstart
    ⟨pairCreated_step, windowsKept_still rfl⟩
  exact reachable_step hcreated ⟨pairLeft_step, windowsKept_still rfl⟩

theorem pairLeft_reachable :
    (stackRuns 2 (fun c => c)).Reachable pairLeft := by
  have hstart : (stackRuns 2 (fun c => c)).Reachable pairStart :=
    ⟨pairStart, [], pairStart_init, Runs.nil _⟩
  exact reachable_step (reachable_step hstart pairCreated_step) pairLeft_step

def pairScans : StackRun :=
  { pairLeft with
    run := { pairLeft.run with
      handoff := update pairLeft.run.handoff 1
        (HandoffState.scanning 1 0) } }

def pairHolds : StackRun :=
  { pairScans with
    run := { pairScans.run with
      sched := ((findOnCpu 0 1 (maxPriority + 1) pairScans.run.sched).get
        (by decide)).2
      handoff := update pairScans.run.handoff 1
        (HandoffState.holding 0x1000) } }

def pairPlaced : StackRun :=
  { pairHolds with
    run := { pairHolds.run with
      sched := takeOver pairHolds.run.sched 1 0x1000
      handoff := update pairHolds.run.handoff 1
        HandoffState.idle } }

def pairShares : StackRun := (pairPlaced.locks 1).loads 1

theorem pairShares_reachable :
    (stackRuns 2 (fun c => c)).Reachable pairShares := by
  have hidle : forall c, SchedEvent.By (SchedEvent.handoff 1) c ->
      pairLeft.window c = false := by
    intro c hc
    cases hc
    decide
  have hfound : ((findOnCpu 0 1 (maxPriority + 1) pairScans.run.sched).get
      (by decide)).1 = some 0x1000 := by decide
  have hscans : StackStep pairLeft (StackEvent.sched (SchedEvent.handoff 1))
      pairScans :=
    StackStep.other (SchedStep.handoffStart (by decide) (by decide) (by rfl))
      (fun huses => huses) hidle
  have hholds : StackStep pairScans (StackEvent.sched (SchedEvent.handoff 1))
      pairHolds := by
    have hfind : findOnCpu 0 1 (maxPriority + 1) pairScans.run.sched =
        some (some 0x1000, pairHolds.run.sched) :=
      (Option.some_get (by decide)).symm.trans
        (congrArg some (Prod.ext hfound rfl))
    exact StackStep.other (h := pairScans)
      (SchedStep.handoffFind (by decide) rfl (by decide) hfind)
      (fun huses => huses) hidle
  have hplaced : StackStep pairHolds (StackEvent.sched (SchedEvent.handoff 1))
      pairPlaced :=
    StackStep.other (SchedStep.handoffPlace (by decide) rfl)
      (fun huses => huses) hidle
  have hlocks : StackStep pairPlaced
      (StackEvent.sched (SchedEvent.reschedule 1)) (pairPlaced.locks 1) :=
    StackRun.locks_step (by decide) (by decide) (by decide)
  have hloads : StackStep (pairPlaced.locks 1) (StackEvent.load 1)
      pairShares := StackStep.load (by decide) (by decide)
  exact reachable_step (reachable_step (reachable_step (reachable_step
    (reachable_step pairLeft_reachable hscans) hholds) hplaced) hlocks) hloads

def pairExits : StackRun :=
  { pairLeft.loads 0 with
    run := { pairLeft.run with sched := schedExit pairLeft.run.sched 0 } }

def pairFreed : StackRun := pairExits.locks 0

def pairReused : StackRun :=
  { pairFreed with
    live := pairFreed.live ∪ {0x6000}
    owned := pairFreed.owned ∪ {0x6000}
    again := pairFreed.again ∪
      { t | (pairFreed.run.sched.threads t).stackLimit = 0x6000 } }

theorem pairReused_reachable :
    (stackRuns 2 (fun c => c)).Reachable pairReused := by
  have hloads : StackStep pairLeft (StackEvent.load 0) (pairLeft.loads 0) :=
    StackStep.load (by decide) (by decide)
  have hexits : StackStep (pairLeft.loads 0)
      (StackEvent.sched (SchedEvent.exit 0)) pairExits := by
    apply StackStep.other (SchedStep.exit (by decide)) (fun huses => huses)
    intro c hc
    cases hc
    decide
  have hfreed : StackStep pairExits
      (StackEvent.sched (SchedEvent.reschedule 0)) pairFreed :=
    StackRun.locks_step (by decide) (by decide) (by decide)
  have hgone : 0x6000 ∉ pairFreed.live := by
    have hmem : 0x6000 ∈ ((schedReschedule pairExits.run.sched 0 0 0 0).get
        (by decide)).freed := by decide
    exact StackRun.locks_live (Option.some_get (by decide)).symm hmem
  have hreused : StackStep pairFreed (StackEvent.kmalloc 0x6000) pairReused :=
    StackStep.kmalloc (c := 1) (by decide) (by decide) (by decide) hgone
  exact reachable_step (reachable_step (reachable_step (reachable_step
    pairLeft_reachable hloads) hexits) hfreed) hreused

/-- Two CPUs execute on one stack; a CPU executes on a stack that `kmalloc` has
handed out again. -/
theorem sched_stacks_shared :
    ((stackRuns 2 (fun c => c)).Reachable pairShares ∧
      pairShares.stack 0 = pairShares.stack 1) ∧
    ((stackRuns 2 (fun c => c)).Reachable pairReused ∧
      pairReused.stack 0 ∈ pairReused.again) := by
  refine ⟨⟨pairShares_reachable, ?_⟩, ⟨pairReused_reachable, ?_⟩⟩
  · decide
  · right
    show (pairFreed.run.sched.threads (pairFreed.stack 0)).stackLimit = 0x6000
    decide

end Sched
end Barium
