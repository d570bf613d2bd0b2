import Barium.Sched.Cycle

/-!
# Every thread has its place

Every step keeps each thread in exactly one place: running on a CPU, in one of
its queues, or held by a call of `sched_handoff`.
-/

namespace Barium
namespace Sched

open Foundation
open Function
open TransitionSystem
open LinkedList

def Thread.owner (th : Thread) : Thread :=
  { th.identity with rsp := 0, coreAffinity := 0 }

def SchedEvent.Creates : SchedEvent -> Nat -> Prop
  | .spawn thread, t => t = thread
  | .spawnUser thread, t => t = thread
  | _, _ => False

/-- What a step does besides keeping the invariant: only `sched_reschedule`
changes a running thread, and a thread leaves its CPU only when a call of
`sched_handoff` takes it out of its queue. -/
structure StepFrame (r : SchedRun) (event : SchedEvent) (r' : SchedRun)
    (place place' : Nat -> Option Place) : Prop where
  count : r'.sched.cpuCount = r.sched.cpuCount
  running : forall c, event ≠ SchedEvent.reschedule c ->
    (r'.sched.cpus c).schedThread = (r.sched.cpus c).schedThread
  owner : forall t, ¬ event.Creates t ->
    (r'.sched.threads t).owner = (r.sched.threads t).owner
  home : forall t pl pl', place t = some pl -> place' t = some pl' ->
    pl'.cpu = pl.cpu ∨
      exists c, event = SchedEvent.handoff c ∧ pl' = Place.held c
  held : forall t c pl', place t = some (Place.held c) ->
    place' t = some pl' ->
    pl' = Place.held c ∨ (event = SchedEvent.handoff c ∧
      pl' = Place.queue (c, Queue.ready maxPriority))

section Steps

variable {r : SchedRun} {place : Nat -> Option Place}
  {lists : Loc -> List Nat}

theorem stepFrame_still {event : SchedEvent} {r' : SchedRun}
    (hcount : r'.sched.cpuCount = r.sched.cpuCount)
    (hrunning : forall c,
      (r'.sched.cpus c).schedThread = (r.sched.cpus c).schedThread)
    (howner : forall t, ¬ event.Creates t ->
      (r'.sched.threads t).owner = (r.sched.threads t).owner) :
    StepFrame r event r' place place := by
  constructor
  · exact hcount
  · intro c _
    exact hrunning c
  · exact howner
  · intro t pl pl' hpl hpl'
    rw [hpl] at hpl'
    cases hpl'
    exact Or.inl rfl
  · intro t c pl' hpl hpl'
    rw [hpl] at hpl'
    cases hpl'
    exact Or.inl rfl

theorem Links.owner {s s' : SchedState} (h : Links s s') (t : Nat) :
    (s'.threads t).owner = (s.threads t).owner := by
  rcases h.threads t with ⟨n, hn⟩
  rw [hn]
  rfl

theorem modThread_owner (s : SchedState) (t u : Nat) {f : Thread -> Thread}
    (h : (f (s.threads t)).owner = (s.threads t).owner) :
    ((modThread s t f).threads u).owner = (s.threads u).owner := by
  by_cases hut : u = t
  · rw [hut, modThread_self]
    exact h
  · rw [modThread_other _ _ _ hut]

theorem SchedInvariant.free (h : SchedInvariant r place lists) {t : Nat}
    (ht : FreshThread r t) : place t = none :=
  (h.alive_iff t).mp ht.unused

/-!
# Creating a thread
-/

theorem clampPriority_le (priority : Nat) :
    clampPriority priority <= maxPriority := by
  unfold clampPriority
  by_cases hlt : maxPriority < priority
  · rw [if_pos hlt]
  · rw [if_neg hlt]
    exact Nat.le_of_not_lt hlt

section SpawnThread

variable (s : SchedState) (thread stack userLimit userTop priority : Nat)
  (name : Option (List UInt8)) (frame : List Nat)

def recorded : SchedState :=
  modThread { s with
      nextTid := Word.add s.nextTid 1
      nextCpuIndex := (s.nextCpuIndex + 1) % s.cpuCount } thread
    (fun _ => newThread s stack userLimit userTop (clampPriority priority) name
      frame)

theorem spawnThread_links :
    Links (recorded s thread stack userLimit userTop priority name frame)
      (spawnThread s thread stack userLimit userTop priority name
        frame).state :=
  push_links (recorded s thread stack userLimit userTop priority name frame)
    (s.nextCpuIndex, Queue.ready (clampPriority priority)) thread

theorem spawnThread_self :
    exists n, (spawnThread s thread stack userLimit userTop priority name
      frame).state.threads thread =
      { newThread s stack userLimit userTop (clampPriority priority) name
          frame with next := n } := by
  rcases (spawnThread_links s thread stack userLimit userTop priority name
    frame).threads thread with ⟨n, hn⟩
  unfold recorded at hn
  rw [modThread_self] at hn
  exact ⟨n, hn⟩

theorem spawnThread_other {u : Nat} (hu : u ≠ thread) :
    exists n, (spawnThread s thread stack userLimit userTop priority name
      frame).state.threads u = { s.threads u with next := n } := by
  rcases (spawnThread_links s thread stack userLimit userTop priority name
    frame).threads u with ⟨n, hn⟩
  unfold recorded at hn
  rw [modThread_other _ _ _ hu] at hn
  exact ⟨n, hn⟩

theorem spawnThread_running (c : Nat) :
    ((spawnThread s thread stack userLimit userTop priority name
      frame).state.cpus c).schedThread = (s.cpus c).schedThread :=
  (spawnThread_links s thread stack userLimit userTop priority name
    frame).running c

end SpawnThread

theorem born_spawned {sched : SchedState} {t u tid : Nat} (hne : u ≠ t) :
    (r.born sched t tid true).Spawned u -> r.Spawned u := by
  intro hspawned
  rcases hspawned with ⟨b, hb, htrue⟩
  rw [born_alive_other _ _ _ hne] at hb
  exact ⟨b, hb, htrue⟩

/-- A new thread is the first one of the queue that it is put into. -/
theorem SchedInvariant.placed_spawn {thread : Nat} (sched : SchedState) (tid : Nat)
    (stack userLimit userTop priority : Nat)
    (name : Option (List UInt8)) (frame : List Nat)
    (h : SchedInvariant r place lists) (hfresh : FreshThread r thread)
    {l : Loc} (hl : l = (r.sched.nextCpuIndex,
      Queue.ready (clampPriority priority))) :
    Placed
      (spawnThread r.sched thread stack userLimit userTop priority name
        frame).state r.holds (r.born sched thread tid true).Spawned
      (update place thread (some (Place.queue l)))
      (update lists l (thread :: lists l)) := by
  have hfree := h.free hfresh
  have hplaced : Placed (recorded r.sched thread stack userLimit userTop
      priority name frame) r.holds (r.born sched thread tid true).Spawned place
      lists := by
    apply Placed.modThread_free _ hfree
    apply Placed.setCounters
    apply h.placed.congr_spawned
    intro u pl hpl
    apply born_spawned
    intro heq
    rw [heq, hfree] at hpl
    cases hpl
  have hfits : Fits ((recorded r.sched thread stack userLimit userTop priority
      name frame).threads thread) (r.sched.cpus l.1).cpuId
      ((r.born sched thread tid true).Spawned thread) (Place.queue l) := by
    unfold recorded
    rw [modThread_self, hl]
    exact ⟨rfl, rfl, clampPriority_le priority, fun _ => rfl⟩
  have hvalid : LocValid (recorded r.sched thread stack userLimit userTop
      priority name frame) l := by
    rw [hl]
    exact ⟨h.next_cpu, clampPriority_le priority⟩
  have hput := hplaced.push hfree ⟨hfresh.ne_zero, hfresh.lt⟩ hvalid hfits
  rw [hl] at hput ⊢
  exact hput

theorem schedInvariant_spawn {thread : Nat} {event : SchedEvent}
    (stack userLimit userTop priority : Nat)
    (name : Option (List UInt8)) (frame : List Nat)
    (h : SchedInvariant r place lists) (hfresh : FreshThread r thread)
    (hevent : event.Creates thread) :
    exists place' lists', SchedInvariant
      (r.born
        (spawnThread r.sched thread stack userLimit userTop priority name
          frame).state thread
        (spawnThread r.sched thread stack userLimit userTop priority name
          frame).ret true) place' lists' ∧
      StepFrame r event
        (r.born
          (spawnThread r.sched thread stack userLimit userTop priority name
            frame).state thread
          (spawnThread r.sched thread stack userLimit userTop priority name
            frame).ret true) place place' := by
  have hplaced := fun sched tid => h.placed_spawn sched tid stack userLimit
    userTop priority name frame hfresh rfl
  have hlinks := spawnThread_links r.sched thread stack userLimit userTop
    priority name frame
  have hself := spawnThread_self r.sched thread stack userLimit userTop priority
    name frame
  have hothers := fun u (hu : u ≠ thread) => spawnThread_other r.sched thread
    stack userLimit userTop priority name frame hu
  have hrunning := spawnThread_running r.sched thread stack userLimit userTop
    priority name frame
  have hne : forall u pl, place u = some pl -> u ≠ thread := by
    intro u pl hpl heq
    rw [heq, h.free hfresh] at hpl
    cases hpl
  refine ⟨_, _, ⟨hplaced _ _, ?_, ?_, ?_, ?_, ?_⟩,
    ⟨hlinks.count, fun c _ => hrunning c, ?_, ?_, ?_⟩⟩
  · intro t
    show update r.alive thread _ t = none <-> _
    by_cases hsame : t = thread
    · rw [hsame, update_self, update_self]
      simp
    · rw [update_of_ne hsame, update_of_ne hsame]
      exact h.alive_iff t
  · intro c hc
    have hplace := h.running c (hlinks.count ▸ hc)
    rw [← hrunning c] at hplace
    exact (update_of_ne (hne _ _ hplace) _ _).trans hplace
  · intro c t hholds
    have hheld := h.holding c t hholds
    rw [update_of_ne (hne t _ hheld)]
    exact hheld
  · exact Nat.mod_lt _ (Nat.zero_lt_of_lt h.next_cpu)
  · apply h.tid.born
    · exact hlinks.next_tid
    · rcases hself with ⟨n, hn⟩
      rw [hn]
      rfl
    · intro u hu
      rcases hothers u hu with ⟨n, hn⟩
      rw [hn]
  · intro u hu
    have hother : u ≠ thread := by
      intro heq
      rw [heq] at hu
      exact hu hevent
    rcases hothers u hother with ⟨n, hn⟩
    show ((spawnThread r.sched thread stack userLimit userTop priority name
      frame).state.threads u).owner = _
    rw [hn]
    rfl
  · intro t pl pl' hpl hpl'
    rw [update_of_ne (hne t pl hpl), hpl] at hpl'
    cases hpl'
    exact Or.inl rfl
  · intro t c pl' hpl hpl'
    rw [update_of_ne (hne t _ hpl), hpl] at hpl'
    cases hpl'
    exact Or.inl rfl

/-!
# The running thread
-/

theorem schedInvariant_modRunning {c : Nat} {f : Thread -> Thread}
    {event : SchedEvent}
    (h : SchedInvariant r place lists) (hc : c < r.sched.cpuCount)
    (hstate : (f (r.sched.threads (r.sched.cpus c).schedThread)).state ≠
      ThreadState.ready)
    (hpriority : (f (r.sched.threads (r.sched.cpus c).schedThread)).priority =
      (r.sched.threads (r.sched.cpus c).schedThread).priority)
    (hidentity : (f (r.sched.threads (r.sched.cpus c).schedThread)).identity =
      (r.sched.threads (r.sched.cpus c).schedThread).identity) :
    SchedInvariant
      { r with sched := modThread r.sched (r.sched.cpus c).schedThread f }
      place lists ∧
    StepFrame r event
      { r with sched := modThread r.sched (r.sched.cpus c).schedThread f }
      place place := by
  have hrunning := h.running c hc
  have hframe := modThread_frame r.sched (r.sched.cpus c).schedThread f
    hidentity
  have howner := congrArg (fun th : Thread =>
    { th with rsp := 0, coreAffinity := 0 }) hidentity
  refine ⟨⟨?_, h.alive_iff, h.running, h.holding, h.next_cpu, ?_⟩,
    stepFrame_still rfl (fun _ => rfl)
      (fun t _ => modThread_owner r.sched _ t howner)⟩
  · apply h.placed.modThread
    · intro l hl
      rw [hrunning] at hl
      cases hl
    · intro pl hpl
      rw [hrunning] at hpl
      cases hpl
      rcases h.placed.fits _ _ hrunning with ⟨_, hle, haffinity⟩
      refine ⟨hstate, ?_, ?_⟩
      · rw [hpriority]
        exact hle
      · intro hspawned
        have hsame := congrArg Thread.coreAffinity hidentity
        exact Eq.trans hsame (haffinity hspawned)
  · exact h.tid.of_subset rfl rfl (fun t => hframe.tid t) (fun _ _ ht => ht)

theorem schedInvariant_sleep {c : Nat} (ms tick : Nat)
    (h : SchedInvariant r place lists) (hc : c < r.sched.cpuCount) :
    SchedInvariant { r with sched := schedSleep r.sched c ms tick } place
      lists ∧
    StepFrame r (SchedEvent.sleep c)
      { r with sched := schedSleep r.sched c ms tick } place place := by
  have hne := (h.placed.address _ _ (h.running c hc)).left
  unfold schedSleep
  rw [if_pos hne]
  apply schedInvariant_modRunning h hc
  · intro hready
    cases hready
  · rfl
  · rfl

theorem schedInvariant_exit {c : Nat} (h : SchedInvariant r place lists)
    (hc : c < r.sched.cpuCount) :
    SchedInvariant { r with sched := schedExit r.sched c } place lists ∧
    StepFrame r (SchedEvent.exit c)
      { r with sched := schedExit r.sched c } place place := by
  have hne := (h.placed.address _ _ (h.running c hc)).left
  unfold schedExit
  rw [if_pos hne]
  apply schedInvariant_modRunning h hc
  · intro hready
    cases hready
  · rfl
  · rfl

theorem aliveAfter_some {c t : Nat} {sched : SchedState} {b : Birth}
    (h : r.aliveAfter c sched t = some b) : r.alive t = some b := by
  unfold SchedRun.aliveAfter at h
  split at h
  case isTrue hgone =>
      by_cases hsame : t = (r.sched.cpus c).schedThread
      · rw [hsame, update_self] at h
        cases h
      · rw [update_of_ne hsame] at h
        exact h
  case isFalse _ => exact h

theorem aliveAfter_other {c t : Nat} (sched : SchedState)
    (h : t ≠ (r.sched.cpus c).schedThread) :
    r.aliveAfter c sched t = r.alive t := by
  unfold SchedRun.aliveAfter
  split
  case isTrue => exact update_of_ne h _ _
  case isFalse => rfl

theorem schedInvariant_reschedule {c rsp tick ageTick : Nat}
    {result : RescheduleResult} (h : SchedInvariant r place lists)
    (hc : c < r.sched.cpuCount)
    (hrun : schedReschedule r.sched c rsp tick ageTick = some result) :
    exists place' lists', SchedInvariant
      { r with
        sched := result.state
        alive := r.aliveAfter c result.state } place' lists' ∧
      StepFrame r (SchedEvent.reschedule c)
        { r with
          sched := result.state
          alive := r.aliveAfter c result.state } place place' := by
  have hcurrent := h.running c hc
  rcases schedReschedule_spec rsp tick ageTick h.placed hcurrent with
    ⟨result', place', lists', hrun', hplaced, hdone⟩
  rw [hrun] at hrun'
  cases hrun'
  have hother : forall d, d < r.sched.cpuCount -> d ≠ c ->
      (r.sched.cpus d).schedThread ≠ (r.sched.cpus c).schedThread := by
    intro d hd hne heq
    have hd' := h.running d hd
    rw [heq, hcurrent] at hd'
    cases hd'
    exact hne rfl
  refine ⟨place', lists', ⟨?_, ?_, ?_, ?_, ?_, ?_⟩, ⟨hdone.count, ?_, ?_, ?_,
    ?_⟩⟩
  · apply hplaced.congr_spawned
    intro t pl _ hspawned
    rcases hspawned with ⟨b, hb, htrue⟩
    exact ⟨b, aliveAfter_some hb, htrue⟩
  · intro t
    show r.aliveAfter c result.state t = none <-> _
    unfold SchedRun.aliveAfter
    by_cases hsame : t = (r.sched.cpus c).schedThread
    · rw [hsame, hdone.gone_iff]
      split
      case isTrue hgone =>
          rw [update_self]
          exact ⟨fun _ => hgone, fun _ => rfl⟩
      case isFalse hstays =>
          rw [h.alive_iff, hcurrent]
          constructor
          · intro hnone
            cases hnone
          · intro hgone
            exact absurd hgone hstays
    · rw [hdone.others t hsame, ← h.alive_iff]
      split
      case isTrue hgone => rw [update_of_ne hsame]
      case isFalse _ => rfl
  · intro d hd
    show place' (result.state.cpus d).schedThread = _
    have hd' : d < r.sched.cpuCount := by
      rw [← hdone.count]
      exact hd
    by_cases hdc : d = c
    · rw [hdc]
      exact hdone.now
    · have hrunning := h.running d hd'
      rw [hdone.running_other d hdc,
        hdone.kept _ (hother d hd' hdc) (by rw [hrunning]; simp)]
      exact hrunning
  · intro d t hholds
    have hheld := h.holding d t hholds
    have hne : t ≠ (r.sched.cpus c).schedThread := by
      intro heq
      rw [heq, hcurrent] at hheld
      cases hheld
    rw [hdone.kept t hne (by rw [hheld]; simp)]
    exact hheld
  · show result.state.nextCpuIndex < result.state.cpuCount
    rw [hdone.next_cpu, hdone.count]
    exact h.next_cpu
  · apply h.tid.of_subset
    · rfl
    · exact hdone.next_tid
    · exact hdone.tid
    · intro t b hb
      exact aliveAfter_some hb
  · intro d hd
    apply hdone.running_other
    intro heq
    rw [heq] at hd
    exact hd rfl
  · intro t _
    have hidentity := congrArg (fun th : Thread =>
      { th with rsp := 0, coreAffinity := 0 }) (hdone.identity t)
    apply Eq.trans hidentity
    exact modThread_owner r.sched _ t rfl
  · intro t pl pl' hpl hpl'
    exact Or.inl (hdone.home t pl pl' hpl hpl')
  · intro t d pl' hpl hpl'
    have hne : t ≠ (r.sched.cpus c).schedThread := by
      intro heq
      rw [heq, hcurrent] at hpl
      cases hpl
    rw [hdone.kept t hne (by rw [hpl]; simp), hpl] at hpl'
    cases hpl'
    exact Or.inl rfl

/-!
# Handing off
-/

theorem holds_update (r : SchedRun) (sched : SchedState) (c : Nat)
    (state : HandoffState) :
    SchedRun.holds { r with
      sched := sched
      handoff := update r.handoff c state } =
      update r.holds c state.target := by
  funext d
  show (update r.handoff c state d).target = _
  by_cases hdc : d = c
  · rw [hdc, update_self, update_self]
  · rw [update_of_ne hdc, update_of_ne hdc]
    rfl

theorem schedInvariant_handoff {c : Nat} {state : HandoffState}
    (h : SchedInvariant r place lists) (hbefore : r.holds c = none)
    (hafter : state.target = none) :
    SchedInvariant
      { r with handoff := update r.handoff c state } place lists := by
  have hholds : SchedRun.holds
      { r with handoff := update r.handoff c state } = r.holds := by
    rw [show ({ r with handoff := update r.handoff c state } :
      SchedRun) = { r with
        sched := r.sched
        handoff := update r.handoff c state } from rfl,
      holds_update, hafter, ← hbefore, update_eq_self]
  constructor
  · rw [hholds]
    exact h.placed
  · exact h.alive_iff
  · exact h.running
  · rw [hholds]
    exact h.holding
  · exact h.next_cpu
  · exact h.tid.of_subset rfl rfl (fun _ => rfl) (fun _ _ ht => ht)

structure Untouched (s s' : SchedState) : Prop where
  count : s'.cpuCount = s.cpuCount
  running : forall c, (s'.cpus c).schedThread = (s.cpus c).schedThread
  next_cpu : s'.nextCpuIndex = s.nextCpuIndex
  next_tid : s'.nextTid = s.nextTid
  tid : forall t, (s'.threads t).tid = (s.threads t).tid
  owner : forall t, (s'.threads t).owner = (s.threads t).owner

/-- A step of a handoff that moves one thread, `target`, which does not run. -/
theorem schedInvariant_relocate {c target : Nat} {pl pl' : Place}
    {sched : SchedState} {state : HandoffState} {lists' : Loc -> List Nat}
    (h : SchedInvariant r place lists) (hplace : place target = some pl)
    (hidle : forall d, pl ≠ Place.running d)
    (hplaced : Placed sched (update r.holds c state.target) r.Spawned
      (update place target (some pl')) lists')
    (hholding : forall d u, update r.holds c state.target d = some u ->
      update place target (some pl') u = some (Place.held d))
    (hkept : Untouched r.sched sched)
    (hhome : pl'.cpu = pl.cpu ∨ pl' = Place.held c)
    (hheld : forall d, pl = Place.held d ->
      d = c ∧ pl' = Place.queue (c, Queue.ready maxPriority)) :
    SchedInvariant
      { r with
        sched := sched
        handoff := update r.handoff c state }
      (update place target (some pl')) lists' ∧
    StepFrame r (SchedEvent.handoff c)
      { r with
        sched := sched
        handoff := update r.handoff c state } place
      (update place target (some pl')) := by
  have hmoved : forall u ql ql', place u = some ql ->
      update place target (some pl') u = some ql' ->
      (ql = pl ∧ ql' = pl') ∨ ql' = ql := by
    intro u ql ql' hql hql'
    by_cases hhere : u = target
    · rw [hhere, hplace] at hql
      rw [hhere, update_self] at hql'
      cases hql
      cases hql'
      exact Or.inl ⟨rfl, rfl⟩
    · rw [update_of_ne hhere, hql] at hql'
      cases hql'
      exact Or.inr rfl
  refine ⟨⟨?_, ?_, ?_, ?_, ?_, ?_⟩, ⟨hkept.count, ?_, ?_, ?_, ?_⟩⟩
  · rw [holds_update]
    exact hplaced
  · intro u
    show r.alive u = none <-> _
    by_cases hcase : u = target
    · rw [hcase, update_self, h.alive_iff, hplace]
      simp
    · rw [update_of_ne hcase]
      exact h.alive_iff u
  · intro d hd
    have hrunning := h.running d (hkept.count ▸ hd)
    have hother : (r.sched.cpus d).schedThread ≠ target := by
      intro heq
      rw [heq, hplace] at hrunning
      cases hrunning
      exact hidle d rfl
    show update place target _ (sched.cpus d).schedThread = _
    rw [hkept.running d, update_of_ne hother]
    exact hrunning
  · rw [holds_update]
    exact hholding
  · show sched.nextCpuIndex < sched.cpuCount
    rw [hkept.next_cpu, hkept.count]
    exact h.next_cpu
  · exact h.tid.of_subset rfl hkept.next_tid hkept.tid (fun _ _ hb => hb)
  · intro d _
    exact hkept.running d
  · intro u _
    exact hkept.owner u
  · intro u ql ql' hql hql'
    rcases hmoved u ql ql' hql hql' with ⟨hfrom, hto⟩ | hsame
    · rw [hfrom, hto]
      rcases hhome with hcpu | hheld
      · exact Or.inl hcpu
      · exact Or.inr ⟨c, rfl, hheld⟩
    · rw [hsame]
      exact Or.inl rfl
  · intro u d ql' hql hql'
    rcases hmoved u _ ql' hql hql' with ⟨hfrom, hto⟩ | hsame
    · rcases hheld d hfrom.symm with ⟨heq, hqueue⟩
      rw [heq, hto]
      exact Or.inr ⟨rfl, hqueue⟩
    · exact Or.inl hsame

theorem schedInvariant_find {c tid i target : Nat} {sched : SchedState}
    (h : SchedInvariant r place lists) (hc : c < r.sched.cpuCount)
    (hscan : r.handoff c = HandoffState.scanning tid i)
    (hi : i < r.sched.cpuCount)
    (hrun : findOnCpu i tid (maxPriority + 1) r.sched =
      some (some target, sched)) :
    exists place' lists', SchedInvariant
      { r with
        sched := sched
        handoff := update r.handoff c
          (HandoffState.holding target) } place' lists' ∧
      StepFrame r (SchedEvent.handoff c)
        { r with
          sched := sched
          handoff := update r.handoff c
            (HandoffState.holding target) } place place' := by
  have hnone : r.holds c = none := by
    unfold SchedRun.holds
    rw [hscan]
    rfl
  rcases findOnCpu_spec h.placed hi (Nat.le_refl _) with
    ⟨found, hrun', hsearch⟩
  rw [hrun] at hrun'
  cases hrun'
  cases hsearch with
  | @found t l s' lists' hplace htid hfits hready hplaced hlinks =>
      have haddress := h.placed.address target _ hplace
      have hgone : update place target none target = none :=
        update_self _ _ _
      have hheld : Fits (sched.threads target) (sched.cpus c).cpuId
          (r.Spawned target) (Place.held c) := by
        rcases hlinks.threads target with ⟨n, hn⟩
        rcases l with ⟨d, q⟩
        rcases hready with ⟨p, hq⟩
        cases hq
        rw [hn]
        exact ⟨hfits.left, hfits.right.left ▸ hfits.right.right.left⟩
      have hkept := hplaced.hold hgone haddress (hlinks.count ▸ hc) hnone hheld
      rw [update_idem] at hkept
      refine ⟨_, lists', schedInvariant_relocate h hplace (by simp) hkept ?_ ?_
        (Or.inr rfl) (by simp)⟩
      · intro d u hholds
        by_cases hsame : d = c
        · rw [hsame, update_self] at hholds
          cases hholds
          rw [hsame, update_self]
        · rw [update_of_ne hsame] at hholds
          have hold := h.holding d u hholds
          have hut : u ≠ target := by
            intro heq
            rw [heq, hplace] at hold
            cases hold
          rw [update_of_ne hut]
          exact hold
      · exact ⟨hlinks.count, hlinks.running, hlinks.next_cpu, hlinks.next_tid,
          hlinks.toFrame.tid, hlinks.owner⟩

/-- The held thread has no place until it gets its new one. -/
theorem Placed.letGo {s : SchedState} {holds : Nat -> Option Nat}
    {spawned : Nat -> Prop} {c target : Nat}
    (h : Placed s holds spawned place lists)
    (hplace : place target = some (Place.held c))
    (hholds : holds c = some target) :
    Placed s (update holds c none) spawned
      (update place target none) lists := by
  apply (h.forget (by rw [hplace]; simp)).congr_holds
  intro u d hu
  by_cases hsame : u = target
  · rw [hsame, update_self] at hu
    cases hu
  · rw [update_of_ne hsame] at hu
    have hheld := h.held u d hu
    have hdc : d ≠ c := by
      intro heq
      rw [heq, hholds] at hheld
      cases hheld
      exact hsame rfl
    rw [update_of_ne hdc]
    exact hheld

theorem Placed.takeOver {s : SchedState} {holds : Nat -> Option Nat}
    {spawned : Nat -> Prop} {c target : Nat}
    (h : Placed s holds spawned (update place target none) lists)
    (hc : c < s.cpuCount) (haddress : target ≠ 0 ∧ target < 2 ^ 64)
    (hready : (s.threads target).state = ThreadState.ready) :
    Placed (Sched.takeOver s c target) holds spawned
      (update place target
        (some (Place.queue (c, Queue.ready maxPriority))))
      (update lists (c, Queue.ready maxPriority)
        (target :: lists (c, Queue.ready maxPriority))) := by
  have hfree : update place target none target = none :=
    update_self _ _ _
  have hfits : Fits
      ((Sched.modThread s target (promoted (s.cpus c).cpuId)).threads target)
      (s.cpus c).cpuId (spawned target)
      (Place.queue (c, Queue.ready maxPriority)) := by
    rw [modThread_self]
    exact ⟨hready, rfl, Nat.le_refl _, fun _ => rfl⟩
  have hput := (h.modThread_free hfree (promoted (s.cpus c).cpuId)).push hfree
    haddress (show LocValid s (c, Queue.ready maxPriority) from
      ⟨hc, Nat.le_refl _⟩) hfits
  rw [update_idem] at hput
  exact hput

theorem schedInvariant_takeOver {c target : Nat}
    (h : SchedInvariant r place lists) (hc : c < r.sched.cpuCount)
    (hholding : r.handoff c = HandoffState.holding target) :
    exists place' lists', SchedInvariant
      { r with
        sched := takeOver r.sched c target
        handoff := update r.handoff c HandoffState.idle }
      place' lists' ∧
      StepFrame r (SchedEvent.handoff c)
        { r with
          sched := takeOver r.sched c target
          handoff := update r.handoff c HandoffState.idle }
        place place' := by
  have hholds : r.holds c = some target := by
    unfold SchedRun.holds
    rw [hholding]
    rfl
  have hplace := h.holding c target hholds
  have haddress := h.placed.address target _ hplace
  have hlinks := push_links
    (modThread r.sched target (promoted (r.sched.cpus c).cpuId))
    (c, Queue.ready maxPriority) target
  refine ⟨_, _, schedInvariant_relocate h hplace (by simp)
    ((h.placed.letGo hplace hholds).takeOver hc haddress
      (h.placed.fits target _ hplace).left) ?_ ?_ (Or.inl rfl) ?_⟩
  · intro d u hd
    by_cases hcase : d = c
    · rw [hcase, update_self] at hd
      cases hd
    · rw [update_of_ne hcase] at hd
      have hold := h.holding d u hd
      have hut : u ≠ target := by
        intro heq
        rw [heq, hplace] at hold
        cases hold
        exact hcase rfl
      rw [update_of_ne hut]
      exact hold
  · refine ⟨hlinks.count, hlinks.running, hlinks.next_cpu, hlinks.next_tid, ?_,
      ?_⟩
    · intro u
      have htid := hlinks.toFrame.tid u
      by_cases hsame : u = target
      · rw [hsame, modThread_self] at htid
        rw [hsame]
        exact htid
      · rw [modThread_other _ _ _ hsame] at htid
        exact htid
    · intro u
      exact (hlinks.owner u).trans (modThread_owner r.sched target u rfl)
  · intro d heq
    cases heq
    exact ⟨rfl, rfl⟩

theorem schedInvariant_stepFrame {event : SchedEvent} {r' : SchedRun}
    (h : SchedInvariant r place lists) (hstep : SchedStep r event r') :
    exists place' lists', SchedInvariant r' place' lists' ∧
      StepFrame r event r' place place' := by
  have hnone : forall c tid i, r.handoff c = HandoffState.scanning tid i ->
      r.holds c = none := by
    intro c tid i hscan
    unfold SchedRun.holds
    rw [hscan]
    rfl
  cases hstep with
  | spawn hfresh _ => exact schedInvariant_spawn _ _ _ _ _ _ h hfresh rfl
  | spawnUser hfresh _ => exact schedInvariant_spawn _ _ _ _ _ _ h hfresh rfl
  | reschedule hc hrun => exact schedInvariant_reschedule h hc hrun
  | sleep hc => exact ⟨place, lists, schedInvariant_sleep _ _ h hc⟩
  | exit hc => exact ⟨place, lists, schedInvariant_exit h hc⟩
  | @handoffStart c tid hc _ hidle =>
      have hholds : r.holds c = none := by
        unfold SchedRun.holds
        rw [hidle]
        rfl
      exact ⟨place, lists, schedInvariant_handoff h hholds rfl,
        stepFrame_still rfl (fun _ => rfl) (fun _ _ => rfl)⟩
  | @handoffMiss c tid i sched hc hscan hi hrun =>
      rcases findOnCpu_spec h.placed hi (Nat.le_refl _) with
        ⟨found, hrun', hsearch⟩
      rw [hrun] at hrun'
      cases hrun'
      cases hsearch
      exact ⟨place, lists, schedInvariant_handoff h (hnone c tid i hscan) rfl,
        stepFrame_still rfl (fun _ => rfl) (fun _ _ => rfl)⟩
  | handoffFind hc hscan hi hrun => exact schedInvariant_find h hc hscan hi hrun
  | @handoffNone c tid i hc hscan _ =>
      exact ⟨place, lists, schedInvariant_handoff h (hnone c tid i hscan) rfl,
        stepFrame_still rfl (fun _ => rfl) (fun _ _ => rfl)⟩
  | handoffPlace hc hholding => exact schedInvariant_takeOver h hc hholding

theorem schedInvariant_step {event : SchedEvent} {r' : SchedRun}
    (h : SchedInvariant r place lists) (hstep : SchedStep r event r') :
    exists place' lists', SchedInvariant r' place' lists' := by
  rcases schedInvariant_stepFrame h hstep with ⟨place', lists', hinv, _⟩
  exact ⟨place', lists', hinv⟩

end Steps

/-!
# The theorem about runs
-/

/-- Where a thread is, read off the scheduler; `lists` are the threads that the
queues lead to. -/
def At (r : SchedRun) (lists : Loc -> List Nat) (t : Nat) : Place -> Prop
  | .running c =>
      c < r.sched.cpuCount ∧ (r.sched.cpus c).schedThread = t
  | .queue l => LocValid r.sched l ∧ t ∈ lists l
  | .held c =>
      c < r.sched.cpuCount ∧ r.handoff c = HandoffState.holding t

structure Placement (r : SchedRun) (lists : Loc -> List Nat) : Prop where
  acyclic : forall l, LocValid r.sched l ->
    Chain 0 r.sched.next (queueHead r.sched l) (lists l) ∧ (lists l).Nodup
  one_place : forall t b, r.alive t = some b -> ∃! pl, At r lists t pl
  only_alive : forall t pl, At r lists t pl -> exists b, r.alive t = some b
  ready_queue : forall c p t, LocValid r.sched (c, Queue.ready p) ->
    t ∈ lists (c, Queue.ready p) ->
    (r.sched.threads t).state = ThreadState.ready ∧
      (r.sched.threads t).priority = p ∧ p <= maxPriority
  sleep_queue : forall c t, LocValid r.sched (c, Queue.sleep) ->
    t ∈ lists (c, Queue.sleep) ->
    (r.sched.threads t).state = ThreadState.sleeping
  affinity : forall t pl, r.Spawned t -> At r lists t pl ->
    (forall c, pl ≠ Place.held c) ->
    (r.sched.threads t).coreAffinity = (r.sched.cpus pl.cpu).cpuId % 2 ^ 8
  tids : r.tids.length <= 2 ^ 64 -> r.tids.Nodup ∧
    forall t u b b', r.alive t = some b -> r.alive u = some b' ->
      (r.sched.threads t).tid = (r.sched.threads u).tid -> t = u

section Runs

variable {r : SchedRun} {place : Nat -> Option Place}
  {lists : Loc -> List Nat}

theorem SchedInvariant.at_iff (h : SchedInvariant r place lists) (t : Nat)
    (pl : Place) : At r lists t pl <-> place t = some pl := by
  constructor
  · intro hat
    rcases pl with c | l | c
    · rcases hat with ⟨hc, hthread⟩
      rw [← hthread]
      exact h.running c hc
    · exact (h.placed.mem_iff l t).mp hat.right
    · rcases hat with ⟨_, hholding⟩
      apply h.holding
      unfold SchedRun.holds
      rw [hholding]
      rfl
  · intro hplace
    have hc := h.placed.cpu_lt t pl hplace
    have hfits := h.placed.fits t pl hplace
    rcases pl with c | ⟨c, q⟩ | c
    · exact ⟨hc, h.placed.running t c hplace⟩
    · refine ⟨⟨hc, ?_⟩, (h.placed.mem_iff _ t).mpr hplace⟩
      cases q with
      | ready p => exact hfits.right.right.left
      | sleep => exact trivial
    · refine ⟨hc, ?_⟩
      have hholds := h.placed.held t c hplace
      unfold SchedRun.holds at hholds
      cases hcase : r.handoff c with
      | idle =>
          rw [hcase] at hholds
          cases hholds
      | scanning tid i =>
          rw [hcase] at hholds
          cases hholds
      | holding target =>
          rw [hcase] at hholds
          cases hholds
          rfl

theorem SchedInvariant.placement (h : SchedInvariant r place lists) :
    Placement r lists := by
  constructor
  · intro l hl
    exact ⟨h.placed.chain l hl, h.placed.nodup l⟩
  · intro t b hb
    cases hplace : place t with
    | none =>
        rw [(h.alive_iff t).mpr hplace] at hb
        cases hb
    | some pl =>
        exists pl
        constructor
        · exact (h.at_iff t pl).mpr hplace
        · intro other hother
          have hsame := (h.at_iff t other).mp hother
          rw [hplace] at hsame
          exact (Option.some.inj hsame).symm
  · intro t pl hat
    have hplace := (h.at_iff t pl).mp hat
    cases halive : r.alive t with
    | none =>
        rw [(h.alive_iff t).mp halive] at hplace
        cases hplace
    | some b => exact ⟨b, rfl⟩
  · intro c p t hl ht
    rcases h.placed.fits t _ ((h.placed.mem_iff _ t).mp ht) with
      ⟨hstate, hpriority, hle, _⟩
    exact ⟨hstate, hpriority, hle⟩
  · intro c t hl ht
    exact (h.placed.fits t _ ((h.placed.mem_iff _ t).mp ht)).left
  · intro t pl hspawned hat hout
    have hfits := h.placed.fits t pl ((h.at_iff t pl).mp hat)
    rcases pl with c | ⟨c, q⟩ | c
    · exact hfits.right.right hspawned
    · cases q with
      | ready p => exact hfits.right.right.right hspawned
      | sleep => exact hfits.right.right hspawned
    · exact absurd rfl (hout c)
  · exact h.tid.nodup

end Runs

theorem sched_reachable_invariant {cpuCount : Nat} {ids : Nat -> Nat}
    {r : SchedRun} (hids : ValidIds cpuCount ids) (hpos : 0 < cpuCount)
    (hreach : (schedSystem cpuCount ids).Reachable r) :
    exists place lists, SchedInvariant r place lists := by
  apply reachable_invariant
    (P := fun r => exists place lists, SchedInvariant r place lists) _ _
    hreach
  · intro s hinit
    exact schedInvariant_init hids hpos hinit
  · intro s event s' hs hstep
    rcases hs with ⟨place, lists, hs⟩
    exact schedInvariant_step hs hstep

theorem sched_reachable_placement {cpuCount : Nat} {ids : Nat -> Nat}
    {r : SchedRun} (hids : ValidIds cpuCount ids) (hpos : 0 < cpuCount)
    (hreach : (schedSystem cpuCount ids).Reachable r) :
    exists lists, Placement r lists := by
  rcases sched_reachable_invariant hids hpos hreach with ⟨_, lists, hinv⟩
  exact ⟨lists, hinv.placement⟩

def oneCpu : SchedRun :=
  initCpu (bootRun 1 (fun _ => 0) (fun _ => zeroThread))
    { cpu := 0, idle := 0x1000, stack := 0x2000 }

theorem oneCpu_init : (schedSystem 1 (fun _ => 0)).Init oneCpu := by
  refine ⟨fun _ => zeroThread,
    [{ cpu := 0, idle := 0x1000, stack := 0x2000 }], ?_, rfl⟩
  constructor
  · exact List.Perm.refl _
  · exact List.nodup_singleton _
  · intro i hi
    rw [List.mem_singleton.mp hi]
    decide

theorem oneCpu_reachable : (schedSystem 1 (fun _ => 0)).Reachable oneCpu :=
  ⟨oneCpu, [], oneCpu_init, Runs.nil _⟩

theorem oneCpu_ids : ValidIds 1 (fun _ => 0) :=
  ⟨fun _ _ => by decide, fun c d hc hd _ => by lia⟩

theorem oneCpu_resting : Resting 0x1000 2 oneCpu := by
  refine ⟨⟨rfl, rfl, rfl, rfl, rfl, rfl⟩, rfl, ⟨rfl, rfl⟩, ?_, ?_⟩
  · intro halive
    cases halive
  · intro t ht
    exact update_of_ne ht _ _

def oneThread : SchedRun :=
  oneCpu.born (schedSpawn oneCpu.sched 0x5000 0x6000 0x100000 5 none).state
    0x5000 (schedSpawn oneCpu.sched 0x5000 0x6000 0x100000 5 none).ret true

theorem oneThread_step :
    SchedStep oneCpu (SchedEvent.spawn 0x5000) oneThread := by
  apply SchedStep.spawn
  · exact ⟨by decide, by decide, oneCpu_resting.alone _ (by decide)⟩
  · intro bytes hbytes
    cases hbytes

/-- After a call of `sched_reschedule`. -/
def SchedRun.rescheduled (r : SchedRun) (c rsp tick : Nat) : SchedRun :=
  match schedReschedule r.sched c rsp tick tick with
  | some result =>
      { r with
        sched := result.state
        alive := r.aliveAfter c result.state }
  | none => r

section Rescheduled

variable {r : SchedRun} {c rsp tick cpuCount : Nat} {ids : Nat -> Nat}

theorem SchedRun.rescheduled_step (hc : c < r.sched.cpuCount)
    (hends : (schedReschedule r.sched c rsp tick tick).isSome = true) :
    SchedStep r (SchedEvent.reschedule c) (r.rescheduled c rsp tick) := by
  rcases Option.isSome_iff_exists.mp hends with ⟨result, hresult⟩
  unfold SchedRun.rescheduled
  rw [hresult]
  exact SchedStep.reschedule hc hresult

theorem SchedRun.rescheduled_reachable (hc : c < r.sched.cpuCount)
    (hreach : (schedSystem cpuCount ids).Reachable r) :
    (schedSystem cpuCount ids).Reachable (r.rescheduled c rsp tick) := by
  unfold SchedRun.rescheduled
  split
  case h_1 result hrun =>
      exact reachable_step hreach (SchedStep.reschedule hc hrun)
  case h_2 => exact hreach

theorem SchedRun.rescheduled_handoff :
    (r.rescheduled c rsp tick).handoff = r.handoff := by
  unfold SchedRun.rescheduled
  split
  case h_1 => rfl
  case h_2 => rfl

end Rescheduled

def oneRuns : SchedRun := oneThread.rescheduled 0 0 0

theorem sched_reachable_placement_oneRuns :
    (oneRuns.sched.cpus 0).schedThread = 0x5000 ∧
      exists lists, Placement oneRuns lists :=
  ⟨by decide, sched_reachable_placement oneCpu_ids (by decide)
    (SchedRun.rescheduled_reachable (by decide)
      (reachable_step oneCpu_reachable oneThread_step))⟩

/-- After as many threads as there are thread ids, a new thread gets the id of
the idle thread. -/
theorem sched_tids_collide :
    exists r, (schedSystem 1 (fun _ => 0)).Reachable r ∧
      exists t u, t ≠ u ∧ r.alive t ≠ none ∧ r.alive u ≠ none ∧
        (r.sched.threads t).tid = (r.sched.threads u).tid := by
  rcases resting_count (t := 0x5000) oneCpu_resting (by decide) (by decide)
    (by decide) (by decide) oneCpu_reachable (2 ^ 64 - 1) with
    ⟨r, hreach, hrest⟩
  have hne : (0x5000 : Nat) ≠ 0x1000 := by decide
  rw [show Word.add 2 (2 ^ 64 - 1) = 1 by decide] at hrest
  rcases schedSpawn_looks (t := 0x5000) hrest.looks hne.symm with
    ⟨_, hrecord, htid, _, _⟩
  refine ⟨_, reachable_step hreach (hrest.spawn hne (by decide) _), 0x5000,
    0x1000, hne, ?_, ?_, ?_⟩
  · exact born_alive _ _ _ _
  · rw [born_alive_other _ _ _ hne.symm]
    exact hrest.alive
  · exact htid.trans ((congrArg Thread.tid hrecord).trans hrest.tid).symm

end Sched
end Barium
