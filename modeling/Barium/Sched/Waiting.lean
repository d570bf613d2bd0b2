import Mathlib.Data.Finset.Card
import Mathlib.Data.Finset.Option
import Barium.Sched.Locality
import Barium.Sched.AgingPass
import Barium.Sched.Handoff

/-!
# Waiting for a turn

A thread waits in a ready queue of CPU `c`.  Of the other threads of the CPU some
may still run before it, and `callsLeft` bounds the calls of `sched_reschedule`
on the CPU until its turn.  What the other CPUs do, and what the running thread
does between the calls, puts it off by one more turn at most.
-/

namespace Barium
namespace Sched

open Foundation
open Function
open LinkedList

/-!
# The threads of a CPU
-/

def validQueues : List Queue :=
  Queue.sleep :: (List.range (maxPriority + 1)).map Queue.ready

theorem mem_validQueues (q : Queue) : q ∈ validQueues <-> q.Valid := by
  unfold validQueues
  cases q with
  | sleep => simp [Queue.Valid]
  | ready p =>
      simp only [List.mem_cons, reduceCtorEq, List.mem_map, List.mem_range,
        Queue.ready.injEq, exists_eq_right, false_or, Queue.Valid]
      exact Nat.lt_succ_iff

/-- The threads that CPU `c` runs, keeps in its queues or holds. -/
def residents (r : SchedRun) (lists : Loc -> List Nat) (c : Nat) :
    Finset Nat :=
  insert (r.sched.cpus c).schedThread
    ((validQueues.flatMap (fun q => lists (c, q))).toFinset ∪
      (r.holds c).toFinset)

/-- Thread `u` does not come before `t` any more: it is behind `t`, or it runs
and will be when its time is up. -/
def Passed (r : SchedRun) (lists : Loc -> List Nat) (c t u : Nat) : Prop :=
  [t, u].Sublist (lists (c, Queue.ready maxPriority)) ∨
    (u = (r.sched.cpus c).schedThread ∧
      (r.sched.threads u).priority = maxPriority ∧
      (r.sched.threads u).state ≠ ThreadState.sleeping)

instance (r : SchedRun) (lists : Loc -> List Nat) (c t u : Nat) :
    Decidable (Passed r lists c t u) := by
  unfold Passed
  infer_instance

/-- The threads that may run before `t` once it has the highest priority. -/
def ahead (r : SchedRun) (lists : Loc -> List Nat) (c t : Nat) : Finset Nat :=
  (residents r lists c).filter (fun u => u ≠ t ∧ ¬ Passed r lists c t u)

/-- How far a thread has come by waiting: twenty passes raise its priority. -/
def seniority (th : Thread) : Nat :=
  20 * th.priority + th.totalTicks

def lastAge (s : SchedState) (c : Nat) : Nat :=
  (s.extras (s.cpus c).cpuId).lastAgeTick

/-- A turn takes at most 66 calls.  Below the highest priority there are first
the passes that are missing, each of them within 20 ticks. -/
def callsLeft (r : SchedRun) (lists : Loc -> List Nat) (c t now : Nat) : Nat :=
  if (r.sched.threads t).priority = maxPriority then
    66 * (ahead r lists c t).card +
      (r.sched.threads (r.sched.cpus c).schedThread).ticksRemaining
  else
    66 * (residents r lists c).card + 65 +
      21 * (620 - seniority (r.sched.threads t)) +
      (20 - (now - lastAge r.sched c))

section Residents

variable {r : SchedRun} {place : Nat -> Option Place}
  {lists : Loc -> List Nat} {c t : Nat}

theorem mem_residents {u : Nat} :
    u ∈ residents r lists c <->
      u = (r.sched.cpus c).schedThread ∨
        (exists q, q.Valid ∧ u ∈ lists (c, q)) ∨ r.holds c = some u := by
  unfold residents
  rw [Finset.mem_insert, Finset.mem_union, List.mem_toFinset,
    List.mem_flatMap, Option.mem_toFinset, Option.mem_def]
  simp only [mem_validQueues]

theorem residents_current : (r.sched.cpus c).schedThread ∈
    residents r lists c :=
  mem_residents.mpr (Or.inl rfl)

theorem residents_queued {q : Queue} {u : Nat} (hq : q.Valid)
    (hu : u ∈ lists (c, q)) : u ∈ residents r lists c :=
  mem_residents.mpr (Or.inr (Or.inl ⟨q, hq, hu⟩))

/-- The residents are the threads whose place is with the CPU. -/
theorem SchedInvariant.mem_residents_iff (h : SchedInvariant r place lists)
    (hc : c < r.sched.cpuCount) {u : Nat} :
    u ∈ residents r lists c <->
      exists pl, place u = some pl ∧ pl.cpu = c := by
  rw [mem_residents]
  constructor
  · intro hu
    rcases hu with hrunning | ⟨q, _, hmem⟩ | hheld
    · exact ⟨Place.running c, by rw [hrunning]; exact h.running c hc, rfl⟩
    · exact ⟨Place.queue (c, q), (h.placed.mem_iff _ _).mp hmem, rfl⟩
    · exact ⟨Place.held c, h.holding c u hheld, rfl⟩
  · rintro ⟨pl, hpl, hcpu⟩
    have hat := (h.at_iff u pl).mpr hpl
    cases pl with
    | running d =>
        cases hcpu
        exact Or.inl hat.right.symm
    | queue l =>
        rcases l with ⟨d, q⟩
        cases hcpu
        exact Or.inr (Or.inl ⟨q, hat.left.right, hat.right⟩)
    | held d =>
        cases hcpu
        exact Or.inr (Or.inr (h.placed.held u _ hpl))

theorem ahead_subset : ahead r lists c t ⊆ residents r lists c :=
  Finset.filter_subset _ _

theorem mem_ahead {u : Nat} :
    u ∈ ahead r lists c t <->
      u ∈ residents r lists c ∧ u ≠ t ∧ ¬ Passed r lists c t u := by
  unfold ahead
  rw [Finset.mem_filter]

end Residents

/-!
# What others do

The threads of `moved` have come to the CPU or have gone to sleep.
-/

structure Disturbs (r : SchedRun) (lists : Loc -> List Nat) (c t : Nat)
    (moved : Finset Nat) (r' : SchedRun) (lists' : Loc -> List Nat) :
    Prop where
  running : (r'.sched.cpus c).schedThread = (r.sched.cpus c).schedThread
  age : lastAge r'.sched c = lastAge r.sched c
  waits : forall p, p <= maxPriority -> t ∈ lists (c, Queue.ready p) ->
    t ∈ lists' (c, Queue.ready p)
  record : (r'.sched.threads t).content = (r.sched.threads t).content
  slice : (r'.sched.threads (r.sched.cpus c).schedThread).ticksRemaining =
    (r.sched.threads (r.sched.cpus c).schedThread).ticksRemaining
  residents : residents r' lists' c ⊆ residents r lists c ∪ moved
  passed : forall u, u ∉ moved -> Passed r lists c t u ->
    Passed r' lists' c t u

section Disturbs

variable {r r' : SchedRun} {place place' : Nat -> Option Place}
  {lists lists' : Loc -> List Nat} {c t : Nat} {moved : Finset Nat}

theorem Disturbs.ahead_subset (h : Disturbs r lists c t moved r' lists') :
    ahead r' lists' c t ⊆ ahead r lists c t ∪ moved := by
  intro u hu
  rcases mem_ahead.mp hu with ⟨hresident, hne, hnot⟩
  rw [Finset.mem_union]
  by_cases hsame : u ∈ moved
  · exact Or.inr hsame
  · left
    rw [mem_ahead]
    refine ⟨?_, hne, fun hpassed => hnot (h.passed u hsame hpassed)⟩
    rcases Finset.mem_union.mp (h.residents hresident) with hold | hmoved
    · exact hold
    · exact absurd hmoved hsame

theorem Disturbs.callsLeft_le (h : Disturbs r lists c t moved r' lists')
    (now : Nat) :
    callsLeft r' lists' c t now <=
      callsLeft r lists c t now + 66 * moved.card := by
  have hpriority : (r'.sched.threads t).priority =
      (r.sched.threads t).priority :=
    content_field h.record Thread.priority (fun _ => rfl)
  have hseniority : seniority (r'.sched.threads t) =
      seniority (r.sched.threads t) :=
    content_field h.record seniority (fun _ => rfl)
  have hahead := (Finset.card_le_card h.ahead_subset).trans
    (Finset.card_union_le _ _)
  have hresidents := (Finset.card_le_card h.residents).trans
    (Finset.card_union_le _ _)
  unfold callsLeft
  rw [hpriority, hseniority, h.running, h.slice, h.age]
  split
  case isTrue => lia
  case isFalse => lia

theorem content_current {th th' : Thread} (h : th'.content = th.content) :
    th'.priority = th.priority ∧
      (th'.state = ThreadState.sleeping ->
        th.state = ThreadState.sleeping) := by
  refine ⟨content_field h Thread.priority (fun _ => rfl), ?_⟩
  intro hsleeping
  rw [← content_field h Thread.state (fun _ => rfl)]
  exact hsleeping

theorem Placed.lists_eq {s : SchedState} {holds holds' : Nat -> Option Nat}
    {spawned spawned' : Nat -> Prop}
    (h : Placed s holds spawned place lists)
    (h' : Placed s holds' spawned' place' lists') {l : Loc}
    (hl : LocValid s l) : lists l = lists' l :=
  chain_unique (h.chain l hl) (h'.chain l hl)

theorem disturbs_of_queues
    (hrunning : (r'.sched.cpus c).schedThread =
      (r.sched.cpus c).schedThread)
    (hage : lastAge r'.sched c = lastAge r.sched c)
    (hwaits : forall p, p <= maxPriority -> t ∈ lists (c, Queue.ready p) ->
      t ∈ lists' (c, Queue.ready p))
    (hrecord : (r'.sched.threads t).content = (r.sched.threads t).content)
    (hslice : (r'.sched.threads (r.sched.cpus c).schedThread).ticksRemaining =
      (r.sched.threads (r.sched.cpus c).schedThread).ticksRemaining)
    (hqueues : forall q u, q.Valid -> u ∈ lists' (c, q) ->
      u ∈ residents r lists c ∨ u ∈ moved)
    (hheld : forall u, r'.holds c = some u ->
      u ∈ residents r lists c ∨ u ∈ moved)
    (hbehind : forall u, u ∉ moved ->
      [t, u].Sublist (lists (c, Queue.ready maxPriority)) ->
      [t, u].Sublist (lists' (c, Queue.ready maxPriority)))
    (hcurrent : (r.sched.cpus c).schedThread ∉ moved ->
      (r'.sched.threads (r.sched.cpus c).schedThread).priority =
        (r.sched.threads (r.sched.cpus c).schedThread).priority ∧
      ((r'.sched.threads (r.sched.cpus c).schedThread).state =
        ThreadState.sleeping ->
      (r.sched.threads (r.sched.cpus c).schedThread).state =
        ThreadState.sleeping)) :
    Disturbs r lists c t moved r' lists' := by
  refine ⟨hrunning, hage, hwaits, hrecord, hslice, ?_, ?_⟩
  · intro u hu
    rw [Finset.mem_union]
    rcases mem_residents.mp hu with hnow | ⟨q, hq, hmem⟩ | hholds
    · left
      rw [hnow, hrunning]
      exact residents_current
    · exact hqueues q u hq hmem
    · exact hheld u hholds
  · intro u hu hpassed
    rcases hpassed with hsublist | ⟨heq, hpriority, hstate⟩
    · exact Or.inl (hbehind u hu hsublist)
    · right
      rw [heq] at hu hpriority hstate ⊢
      rcases hcurrent hu with ⟨hsame, hsleeping⟩
      exact ⟨hrunning.symm, hsame.trans hpriority,
        fun hsleeps => hstate (hsleeping hsleeps)⟩

end Disturbs

/-!
# Creating a thread
-/

section Spawn

variable {r : SchedRun} {place place' : Nat -> Option Place}
  {lists lists' : Loc -> List Nat} {c t : Nat}

theorem push_lastAge (s : SchedState) (l : Loc) (t id : Nat) :
    ((push s l t).extras id).lastAgeTick = (s.extras id).lastAgeTick := by
  unfold push
  rw [setQueueHead_lastAge]
  rfl

theorem disturbs_spawn {thread : Nat}
    (stack userLimit userTop priority : Nat)
    (name : Option (List UInt8)) (frame : List Nat) (tid : Nat)
    (h : SchedInvariant r place lists) (hfresh : FreshThread r thread)
    (hc : c < r.sched.cpuCount) (ht : place t ≠ none)
    (h' : SchedInvariant
      (r.born (spawnThread r.sched thread stack userLimit userTop priority
        name frame).state thread tid true) place' lists') :
    Disturbs r lists c t {thread}
      (r.born (spawnThread r.sched thread stack userLimit userTop priority
        name frame).state thread tid true) lists' := by
  have hfree : place thread = none := h.free hfresh
  have hlinks := spawnThread_links r.sched thread stack userLimit userTop
    priority name frame
  have hother : forall u, place u ≠ none -> u ≠ thread := by
    intro u hu heq
    rw [heq] at hu
    exact hu hfree
  have hrecords : forall u, place u ≠ none ->
      ((spawnThread r.sched thread stack userLimit userTop priority name
        frame).state.threads u).content = (r.sched.threads u).content := by
    intro u hu
    rcases spawnThread_other r.sched thread stack userLimit userTop priority
      name frame (hother u hu) with ⟨n, hn⟩
    rw [hn]
    rfl
  have hcurrent := hrecords (r.sched.cpus c).schedThread (by
    rw [h.running c hc]
    simp)
  have hlists : forall q, q.Valid -> lists' (c, q) =
      update lists
        (r.sched.nextCpuIndex, Queue.ready (clampPriority priority))
        (thread :: lists (r.sched.nextCpuIndex,
          Queue.ready (clampPriority priority))) (c, q) := by
    intro q hq
    exact h'.placed.lists_eq
      (h.placed_spawn r.sched tid stack userLimit userTop priority name frame hfresh
        rfl) ⟨hlinks.count ▸ hc, hq⟩
  -- The queues of the CPU keep their threads; at most one has a new first one.
  have hgrown : forall q, q.Valid -> lists' (c, q) = lists (c, q) ∨
      lists' (c, q) = thread :: lists (c, q) := by
    intro q hq
    rw [hlists q hq]
    by_cases hcase : (c, q) = (r.sched.nextCpuIndex,
        Queue.ready (clampPriority priority))
    · right
      rw [hcase, update_self]
    · left
      exact update_of_ne hcase _ _
  have hkept : forall q, q.Valid ->
      (lists (c, q)).Sublist (lists' (c, q)) := by
    intro q hq
    rcases hgrown q hq with hsame | hpushed
    · rw [hsame]
    · rw [hpushed]
      exact List.sublist_cons_self _ _
  apply disturbs_of_queues
  · exact hlinks.running c
  · show ((spawnThread r.sched thread stack userLimit userTop priority name
      frame).state.extras ((spawnThread r.sched thread stack userLimit userTop
        priority name frame).state.cpus c).cpuId).lastAgeTick = _
    rw [hlinks.ids c]
    exact push_lastAge
      (recorded r.sched thread stack userLimit userTop priority name frame)
      (r.sched.nextCpuIndex, Queue.ready (clampPriority priority)) thread _
  · intro p hp hmem
    exact (hkept (Queue.ready p) hp).subset hmem
  · exact hrecords t ht
  · exact content_field hcurrent Thread.ticksRemaining (fun _ => rfl)
  · intro q u hq hu
    rcases hgrown q hq with hsame | hpushed
    · rw [hsame] at hu
      exact Or.inl (residents_queued hq hu)
    · rw [hpushed] at hu
      rcases List.mem_cons.mp hu with hnew | hold
      · exact Or.inr (Finset.mem_singleton.mpr hnew)
      · exact Or.inl (residents_queued hq hold)
  · intro u hu
    exact Or.inl (mem_residents.mpr (Or.inr (Or.inr hu)))
  · intro u _ hsublist
    exact hsublist.trans (hkept (Queue.ready maxPriority) (Nat.le_refl _))
  · intro _
    exact content_current hcurrent

end Spawn

/-!
# The running thread of a CPU

It goes to sleep, or it ends and makes no difference.
-/

section Running

variable {r : SchedRun} {place place' : Nat -> Option Place}
  {lists lists' : Loc -> List Nat} {c d t : Nat}

theorem disturbs_modRunning {f : Thread -> Thread} {moved : Finset Nat}
    (h : SchedInvariant r place lists) (hc : c < r.sched.cpuCount)
    (hd : d < r.sched.cpuCount) (ht : exists l, place t = some (Place.queue l))
    (h' : SchedInvariant
      { r with sched := modThread r.sched (r.sched.cpus d).schedThread f }
      place' lists')
    (hnext : forall th, (f th).next = th.next)
    (hslice : forall th, (f th).ticksRemaining = th.ticksRemaining)
    (hpriority : forall th, (f th).priority = th.priority)
    (hstate : (r.sched.cpus d).schedThread ∉ moved ->
      forall th, (f th).state ≠ ThreadState.sleeping) :
    Disturbs r lists c t moved
      { r with sched := modThread r.sched (r.sched.cpus d).schedThread f }
      lists' := by
  have hlinks : SchedState.next
      (modThread r.sched (r.sched.cpus d).schedThread f) = r.sched.next := by
    funext u
    unfold SchedState.next
    by_cases hhere : u = (r.sched.cpus d).schedThread
    · rw [hhere, modThread_self]
      exact hnext _
    · rw [modThread_other _ _ _ hhere]
  have hlists : forall q, q.Valid -> lists' (c, q) = lists (c, q) := by
    intro q hq
    have hchain := h'.placed.chain (c, q) ⟨hc, hq⟩
    rw [hlinks] at hchain
    exact chain_unique hchain (h.placed.chain (c, q) ⟨hc, hq⟩)
  have hwaiting : t ≠ (r.sched.cpus d).schedThread := by
    rcases ht with ⟨l, hl⟩
    exact h.placed.ne_running (h.running d hd)
      ((h.placed.mem_iff l t).mpr hl)
  have hfield : forall {alpha : Type} (g : Thread -> alpha) (u : Nat),
      (forall th, g (f th) = g th) ->
      g ((modThread r.sched (r.sched.cpus d).schedThread f).threads u) =
        g (r.sched.threads u) := by
    intro alpha g u hg
    by_cases hcase : u = (r.sched.cpus d).schedThread
    · rw [hcase, modThread_self]
      exact hg _
    · rw [modThread_other _ _ _ hcase]
  apply disturbs_of_queues
  · rfl
  · rfl
  · intro p hp hmem
    rw [hlists (Queue.ready p) hp]
    exact hmem
  · show ((modThread r.sched (r.sched.cpus d).schedThread f).threads t).content
      = _
    rw [modThread_other _ _ _ hwaiting]
  · exact hfield Thread.ticksRemaining _ hslice
  · intro q u hq hu
    rw [hlists q hq] at hu
    exact Or.inl (residents_queued hq hu)
  · intro u hu
    exact Or.inl (mem_residents.mpr (Or.inr (Or.inr hu)))
  · intro u _ hsublist
    rw [hlists (Queue.ready maxPriority) (Nat.le_refl _)]
    exact hsublist
  · intro hnot
    refine ⟨hfield Thread.priority _ hpriority, ?_⟩
    show ((modThread r.sched (r.sched.cpus d).schedThread f).threads
      (r.sched.cpus c).schedThread).state = _ -> _
    intro hsleeping
    by_cases hsame : (r.sched.cpus c).schedThread = (r.sched.cpus d).schedThread
    · rw [hsame, modThread_self] at hsleeping
      rw [hsame] at hnot
      exact absurd hsleeping (hstate hnot _)
    · rw [modThread_other _ _ _ hsame] at hsleeping
      exact hsleeping

theorem disturbs_sleep {ms tick : Nat} (h : SchedInvariant r place lists)
    (hc : c < r.sched.cpuCount) (hd : d < r.sched.cpuCount)
    (ht : exists l, place t = some (Place.queue l))
    (h' : SchedInvariant { r with sched := schedSleep r.sched d ms tick }
      place' lists') :
    Disturbs r lists c t {(r.sched.cpus d).schedThread}
      { r with sched := schedSleep r.sched d ms tick } lists' := by
  have hthread : (r.sched.cpus d).schedThread ≠ 0 :=
    (h.placed.address _ _ (h.running d hd)).left
  unfold schedSleep at h' ⊢
  rw [if_pos hthread] at h' ⊢
  apply disturbs_modRunning h hc hd ht h'
  · intro th
    rfl
  · intro th
    rfl
  · intro th
    rfl
  · intro hnot
    exact absurd (Finset.mem_singleton_self _) hnot

theorem disturbs_exit (h : SchedInvariant r place lists)
    (hc : c < r.sched.cpuCount) (hd : d < r.sched.cpuCount)
    (ht : exists l, place t = some (Place.queue l))
    (h' : SchedInvariant { r with sched := schedExit r.sched d }
      place' lists') :
    Disturbs r lists c t ∅ { r with sched := schedExit r.sched d }
      lists' := by
  have hthread : (r.sched.cpus d).schedThread ≠ 0 :=
    (h.placed.address _ _ (h.running d hd)).left
  unfold schedExit at h' ⊢
  rw [if_pos hthread] at h' ⊢
  apply disturbs_modRunning h hc hd ht h'
  · intro th
    rfl
  · intro th
    rfl
  · intro th
    rfl
  · intro _ th hsleeping
    cases hsleeping

theorem disturbs_reschedule {p rsp tick ageTick : Nat}
    {result : RescheduleResult} (h : SchedInvariant r place lists)
    (hc : c < r.sched.cpuCount) (hd : d < r.sched.cpuCount) (hne : c ≠ d)
    (ht : place t = some (Place.queue (c, Queue.ready p)))
    (hrun : schedReschedule r.sched d rsp tick ageTick = some result)
    (h' : SchedInvariant
      { r with
        sched := result.state
        alive := r.aliveAfter d result.state } place' lists') :
    Disturbs r lists c t ∅
      { r with
        sched := result.state
        alive := r.aliveAfter d result.state } lists' := by
  rcases schedReschedule_spec rsp tick ageTick h.placed (h.running d hd) with
    ⟨result1, place1, lists1, hrun1, hplaced1, _⟩
  rw [hrun] at hrun1
  cases hrun1
  have helse := schedReschedule_elsewhere h.placed (h.running d hd) hrun
    hplaced1 hc hne
  have hcount : result.state.cpuCount = r.sched.cpuCount :=
    (schedReschedule_own hrun).count
  have hlists : forall q, q.Valid -> lists' (c, q) = lists (c, q) := by
    intro q hq
    rw [h'.placed.lists_eq hplaced1 ⟨by rw [hcount]; exact hc, hq⟩]
    exact helse.queues q hq
  have hcurrent := helse.threads _ _ (h.running c hc) rfl
  apply disturbs_of_queues
  · show (result.state.cpus c).schedThread = _
    rw [helse.cpu]
  · show (result.state.extras (result.state.cpus c).cpuId).lastAgeTick = _
    rw [helse.cpu, helse.extra]
    rfl
  · intro p hp hmem
    rw [hlists (Queue.ready p) hp]
    exact hmem
  · show (result.state.threads t).content = _
    rw [helse.threads t _ ht rfl]
  · show (result.state.threads _).ticksRemaining = _
    rw [hcurrent]
  · intro q u hq hu
    rw [hlists q hq] at hu
    exact Or.inl (residents_queued hq hu)
  · intro u hu
    exact Or.inl (mem_residents.mpr (Or.inr (Or.inr hu)))
  · intro u _ hsublist
    rw [hlists (Queue.ready maxPriority) (Nat.le_refl _)]
    exact hsublist
  · intro _
    show (result.state.threads _).priority = _ ∧
      ((result.state.threads _).state = _ -> _)
    rw [hcurrent]
    exact ⟨rfl, id⟩

end Running

/-!
# Handing off
-/

section Handoff

variable {r : SchedRun} {place place' : Nat -> Option Place}
  {lists lists' : Loc -> List Nat} {c d t : Nat}

theorem disturbs_still {state : HandoffState}
    (h : SchedInvariant r place lists) (hc : c < r.sched.cpuCount)
    (hbefore : r.holds d = none) (hafter : state.target = none)
    (h' : SchedInvariant
      { r with handoff := update r.handoff d state } place'
      lists') :
    Disturbs r lists c t ∅
      { r with handoff := update r.handoff d state } lists' := by
  have hlists : forall q, q.Valid -> lists' (c, q) = lists (c, q) := by
    intro q hq
    exact h'.placed.lists_eq h.placed ⟨hc, hq⟩
  apply disturbs_of_queues
  · rfl
  · rfl
  · intro p hp hmem
    rw [hlists (Queue.ready p) hp]
    exact hmem
  · rfl
  · rfl
  · intro q u hq hu
    rw [hlists q hq] at hu
    exact Or.inl (residents_queued hq hu)
  · intro u hu
    rw [holds_update r r.sched d state, hafter, ← hbefore,
      update_eq_self] at hu
    exact Or.inl (mem_residents.mpr (Or.inr (Or.inr hu)))
  · intro u _ hsublist
    rw [hlists (Queue.ready maxPriority) (Nat.le_refl _)]
    exact hsublist
  · intro _
    exact ⟨rfl, id⟩

variable {s s' : SchedState} {holds : Nat -> Option Nat}
  {spawned : Nat -> Prop}

theorem findInQueue_exact {i p tid fuel target : Nat}
    {before rest : List Nat} (h : Placed s holds spawned place lists)
    (hl : LocValid s (i, Queue.ready p))
    (hlist : lists (i, Queue.ready p) = before ++ rest)
    (hrun : findInQueue (i, Queue.ready p) tid fuel s (last 0 before)
      (first 0 rest) = some (some target, s')) :
    exists front back, lists (i, Queue.ready p) = front ++ target :: back ∧
      s' = unlink s (i, Queue.ready p) (last 0 front) target := by
  induction fuel generalizing before rest with
  | zero => cases hrun
  | succ fuel ih =>
      cases rest with
      | nil => cases hrun
      | cons u after =>
          rcases h.walk hl hlist with ⟨hne, _, hnext⟩
          unfold findInQueue at hrun
          rw [show first 0 (u :: after) = u from rfl, if_neg hne] at hrun
          split at hrun
          case isTrue =>
              cases hrun
              exact ⟨before, after, hlist, rfl⟩
          case isFalse =>
              rw [hnext, ← last_snoc before u] at hrun
              apply ih _ hrun
              rw [hlist, List.append_assoc]
              rfl

theorem findOnCpu_exact {i tid n target : Nat}
    (h : Placed s holds spawned place lists) (hi : i < s.cpuCount)
    (hn : n <= maxPriority + 1)
    (hrun : findOnCpu i tid n s = some (some target, s')) :
    exists p front back, p <= maxPriority ∧
      lists (i, Queue.ready p) = front ++ target :: back ∧
      s' = unlink s (i, Queue.ready p) (last 0 front) target := by
  induction n with
  | zero => cases hrun
  | succ p ih =>
      have hl : LocValid s (i, Queue.ready p) :=
        ⟨hi, Nat.le_of_succ_le_succ hn⟩
      have hhead := chain_first (h.chain _ hl)
      rcases Option.bind_eq_some_iff.mp hrun with ⟨⟨found, s1⟩, hfind, hmatch⟩
      cases found with
      | some u =>
          cases hmatch
          rw [hhead] at hfind
          have hall : lists (i, Queue.ready p) =
              [] ++ lists (i, Queue.ready p) := rfl
          rcases findInQueue_exact h hl hall hfind with
            ⟨front, back, hlist, heq⟩
          exact ⟨p, front, back, hl.right, hlist, heq⟩
      | none =>
          rcases findInQueue_result hfind with ⟨_, heq⟩ | ⟨_, _, hsome, _⟩
          · rw [heq] at hmatch
            exact ih (Nat.le_of_succ_le hn) hmatch
          · cases hsome

theorem sublist_without {front back : List Nat} {target u v : Nat}
    (h : [u, v].Sublist (front ++ target :: back)) (hu : u ≠ target)
    (hv : v ≠ target) : [u, v].Sublist (front ++ back) := by
  have hleft : [u, v].filter (fun x => x ≠ target) = [u, v] := by
    simp [hu, hv]
  have hright : (front ++ target :: back).filter (fun x => x ≠ target) =
      (front ++ back).filter (fun x => x ≠ target) := by
    simp
  have hfilter := h.filter (fun x => x ≠ target)
  rw [hleft, hright] at hfilter
  exact hfilter.trans List.filter_sublist

theorem disturbs_find {i tid target : Nat} {sched : SchedState}
    (h : SchedInvariant r place lists) (hc : c < r.sched.cpuCount)
    (hi : i < r.sched.cpuCount) (ht : t ≠ target)
    (hrun : findOnCpu i tid (maxPriority + 1) r.sched =
      some (some target, sched))
    (h' : SchedInvariant
      { r with
        sched := sched
        handoff := update r.handoff d
          (HandoffState.holding target) } place' lists') :
    Disturbs r lists c t {target}
      { r with
        sched := sched
        handoff := update r.handoff d
          (HandoffState.holding target) } lists' := by
  rcases findOnCpu_exact h.placed hi (Nat.le_refl _) hrun with
    ⟨p, front, back, hp, hlist, hunlink⟩
  have hplaced := h.placed.unlink (locValid_ready hi hp) hlist
  rw [← hunlink] at hplaced
  have hlinks := unlink_links r.sched (i, Queue.ready p) (last 0 front) target
  rw [← hunlink] at hlinks
  have hlists : forall q, q.Valid -> lists' (c, q) =
      update lists (i, Queue.ready p) (front ++ back) (c, q) := by
    intro q hq
    exact h'.placed.lists_eq hplaced ⟨by rw [hlinks.count]; exact hc, hq⟩
  have hsplit : forall q, q.Valid -> lists' (c, q) = lists (c, q) ∨
      (lists (c, q) = front ++ target :: back ∧
        lists' (c, q) = front ++ back) := by
    intro q hq
    rw [hlists q hq]
    by_cases hcase : (c, q) = (i, Queue.ready p)
    · right
      rw [hcase, update_self]
      exact ⟨hlist, rfl⟩
    · left
      exact update_of_ne hcase _ _
  have hsame : forall q u, q.Valid -> u ∈ lists' (c, q) ->
      u ∈ lists (c, q) := by
    intro q u hq hu
    rcases hsplit q hq with hkept | ⟨hold, hnew⟩
    · rw [← hkept]
      exact hu
    · rw [hnew] at hu
      rw [hold]
      simp only [List.mem_append, List.mem_cons] at hu ⊢
      exact hu.imp_right Or.inr
  have hcurrent := hlinks.content (r.sched.cpus c).schedThread
  apply disturbs_of_queues
  · exact hlinks.running c
  · show (sched.extras (sched.cpus c).cpuId).lastAgeTick = _
    rw [hlinks.ids c, hunlink, unlink_lastAge]
    rfl
  · intro q hq hmem
    rcases hsplit (Queue.ready q) hq with hkept | ⟨hold, hnew⟩
    · rw [hkept]
      exact hmem
    · rw [hold] at hmem
      rw [hnew]
      simp only [List.mem_append, List.mem_cons] at hmem ⊢
      exact hmem.imp_right (fun hback => hback.resolve_left ht)
  · exact hlinks.content t
  · exact content_field hcurrent Thread.ticksRemaining (fun _ => rfl)
  · intro q u hq hu
    exact Or.inl (residents_queued hq (hsame q u hq hu))
  · intro u hu
    rw [holds_update] at hu
    by_cases hcd : c = d
    · rw [hcd, update_self] at hu
      cases hu
      exact Or.inr (Finset.mem_singleton_self _)
    · rw [update_of_ne hcd] at hu
      exact Or.inl (mem_residents.mpr (Or.inr (Or.inr hu)))
  · intro u hu hsublist
    rcases hsplit (Queue.ready maxPriority) (Nat.le_refl _) with
      hkept | ⟨hold, hnew⟩
    · rw [hkept]
      exact hsublist
    · rw [hold] at hsublist
      rw [hnew]
      exact sublist_without hsublist ht
        (fun heq => hu (Finset.mem_singleton.mpr heq))
  · intro _
    exact content_current hcurrent

theorem disturbs_takeOver {target : Nat} (h : SchedInvariant r place lists)
    (hc : c < r.sched.cpuCount) (hd : d < r.sched.cpuCount)
    (ht : exists l, place t = some (Place.queue l))
    (hholding : r.handoff d = HandoffState.holding target)
    (h' : SchedInvariant
      { r with
        sched := takeOver r.sched d target
        handoff := update r.handoff d HandoffState.idle }
      place' lists') :
    Disturbs r lists c t ∅
      { r with
        sched := takeOver r.sched d target
        handoff := update r.handoff d HandoffState.idle }
      lists' := by
  have hholds : r.holds d = some target := by
    unfold SchedRun.holds
    rw [hholding]
    rfl
  have hplace := h.holding d target hholds
  have hplaced := (h.placed.letGo hplace hholds).takeOver hd
    (h.placed.address target _ hplace) (h.placed.fits target _ hplace).left
  have hlists : forall q, q.Valid -> lists' (c, q) =
      update lists (d, Queue.ready maxPriority)
        (target :: lists (d, Queue.ready maxPriority)) (c, q) := by
    intro q hq
    exact h'.placed.lists_eq hplaced ⟨hc, hq⟩
  have hgrown : forall q, q.Valid -> lists' (c, q) = lists (c, q) ∨
      (c = d ∧ lists' (c, q) = target :: lists (c, q)) := by
    intro q hq
    rw [hlists q hq]
    by_cases hcase : (c, q) = (d, Queue.ready maxPriority)
    · right
      rw [hcase, update_self]
      cases hcase
      exact ⟨rfl, rfl⟩
    · left
      exact update_of_ne hcase _ _
  have hkept : forall q, q.Valid ->
      (lists (c, q)).Sublist (lists' (c, q)) := by
    intro q hq
    rcases hgrown q hq with hsame | ⟨_, hpushed⟩
    · rw [hsame]
    · rw [hpushed]
      exact List.sublist_cons_self _ _
  have hother : forall u pl, place u = some pl ->
      (forall e, pl ≠ Place.held e) -> u ≠ target := by
    intro u pl hu hnot heq
    rw [heq, hplace] at hu
    cases hu
    exact hnot d rfl
  have hcurrent := takeOver_content r.sched d
    (hother _ _ (h.running c hc) (by simp))
  have hlinks := push_links
    (modThread r.sched target (promoted (r.sched.cpus d).cpuId))
    (d, Queue.ready maxPriority) target
  apply disturbs_of_queues
  · exact hlinks.running c
  · show ((takeOver r.sched d target).extras
      ((takeOver r.sched d target).cpus c).cpuId).lastAgeTick = _
    rw [takeOver_lastAge]
    unfold lastAge takeOver
    rw [hlinks.ids c]
    rfl
  · intro p hp hmem
    exact (hkept (Queue.ready p) hp).subset hmem
  · rcases ht with ⟨l, hl⟩
    exact takeOver_content r.sched d (hother t _ hl (by simp))
  · exact content_field hcurrent Thread.ticksRemaining (fun _ => rfl)
  · intro q u hq hu
    left
    rcases hgrown q hq with hsame | ⟨heq, hpushed⟩
    · rw [hsame] at hu
      exact residents_queued hq hu
    · rw [hpushed] at hu
      rcases List.mem_cons.mp hu with hnew | hold
      · rw [hnew, heq]
        exact mem_residents.mpr (Or.inr (Or.inr hholds))
      · exact residents_queued hq hold
  · intro u hu
    rw [holds_update] at hu
    by_cases hcd : c = d
    · rw [hcd, update_self] at hu
      cases hu
    · rw [update_of_ne hcd] at hu
      exact Or.inl (mem_residents.mpr (Or.inr (Or.inr hu)))
  · intro u _ hsublist
    exact hsublist.trans (hkept (Queue.ready maxPriority) (Nat.le_refl _))
  · intro _
    exact content_current hcurrent

end Handoff

/-!
# Every other step
-/

/-- The number of calls by which a step may put the turn off. -/
def SchedEvent.delay : SchedEvent -> Nat
  | .spawn _ => 66
  | .spawnUser _ => 66
  | .sleep _ => 66
  | .handoff _ => 66
  | .reschedule _ => 0
  | .exit _ => 0

theorem disturbs_step {r r' : SchedRun} {event : SchedEvent}
    {place place' : Nat -> Option Place} {lists lists' : Loc -> List Nat}
    {c p t : Nat} (h : SchedInvariant r place lists)
    (hc : c < r.sched.cpuCount) (ht : t ∈ lists (c, Queue.ready p))
    (hstep : SchedStep r event r') (hother : event ≠ SchedEvent.reschedule c)
    (h' : SchedInvariant r' place' lists') :
    (exists d, r'.handoff d = HandoffState.holding t) ∨
      exists moved, Disturbs r lists c t moved r' lists' ∧
        66 * moved.card <= event.delay := by
  have hplace := (h.placed.mem_iff _ t).mp ht
  have hqueued : exists l, place t = some (Place.queue l) := ⟨_, hplace⟩
  have halive : place t ≠ none := by
    rw [hplace]
    simp
  cases hstep with
  | spawn hfresh _ =>
      exact Or.inr ⟨_, disturbs_spawn _ _ _ _ _ _ _ h hfresh hc halive h',
        Nat.le_refl _⟩
  | spawnUser hfresh _ =>
      exact Or.inr ⟨_, disturbs_spawn _ _ _ _ _ _ _ h hfresh hc halive h',
        Nat.le_refl _⟩
  | @reschedule d rsp tick ageTick result hd hrun =>
      have hne : c ≠ d := by
        intro heq
        rw [heq] at hother
        exact hother rfl
      exact Or.inr ⟨∅, disturbs_reschedule h hc hd hne hplace hrun h',
        Nat.le_refl _⟩
  | sleep hd =>
      exact Or.inr ⟨_, disturbs_sleep h hc hd hqueued h', Nat.le_refl _⟩
  | exit hd =>
      exact Or.inr ⟨∅, disturbs_exit h hc hd hqueued h', Nat.le_refl _⟩
  | handoffStart _ _ hidle =>
      refine Or.inr ⟨∅, disturbs_still h hc ?_ rfl h', Nat.zero_le _⟩
      unfold SchedRun.holds
      rw [hidle]
      rfl
  | @handoffMiss d tid i sched hd hscan hi hrun =>
      rcases findOnCpu_result hrun with ⟨_, heq⟩ | ⟨_, _, _, hsome, _⟩
      · cases heq
        refine Or.inr ⟨∅, disturbs_still h hc ?_ rfl h', Nat.zero_le _⟩
        unfold SchedRun.holds
        rw [hscan]
        rfl
      · cases hsome
  | @handoffFind d tid i target sched hd hscan hi hrun =>
      by_cases hsame : t = target
      · left
        refine ⟨d, ?_⟩
        rw [hsame]
        exact update_self _ _ _
      · exact Or.inr ⟨_, disturbs_find h hc hi hsame hrun h', Nat.le_refl _⟩
  | handoffNone _ hscan _ =>
      refine Or.inr ⟨∅, disturbs_still h hc ?_ rfl h', Nat.zero_le _⟩
      unfold SchedRun.holds
      rw [hscan]
      rfl
  | handoffPlace hd hholding =>
      exact Or.inr ⟨∅, disturbs_takeOver h hc hd hqueued hholding h',
        Nat.zero_le _⟩

end Sched
end Barium
