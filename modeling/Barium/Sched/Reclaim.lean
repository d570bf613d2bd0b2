import Mathlib.Data.Set.Basic
import Barium.Sched.Idle

/-!
# Giving threads back to the heap

A thread owns the heap blocks of its record and its stacks.  `sched_reschedule`
gives them back when it leaves a thread that has called `sched_exit`, unless the
thread has priority 0 by then.
-/

namespace Barium
namespace Sched

open Foundation
open TransitionSystem

structure HeapRun where
  run : SchedRun
  live : Set Nat

def HeapRun.blocks (h : HeapRun) (t : Nat) : List Nat :=
  threadBlocks (h.run.sched.threads t) t

/-- A step, with the addresses that it passes to `kfree`. -/
structure HeapEvent where
  event : SchedEvent
  freed : List Nat

structure FreshBlocks (h : HeapRun) (blocks : List Nat) : Prop where
  nodup : blocks.Nodup
  valid : forall a, a ∈ blocks -> a ≠ 0 ∧ a ∉ h.live

def SchedEvent.UsesHeap : SchedEvent -> Prop
  | .spawn _ => True
  | .spawnUser _ => True
  | .reschedule _ => True
  | _ => False

inductive HeapStep : HeapRun -> HeapEvent -> HeapRun -> Prop where
  | spawn {h : HeapRun} {thread stack entry priority : Nat}
      {name : Option (List UInt8)} :
      FreshThread h.run thread -> NameFits name ->
      FreshBlocks h [stack, thread] ->
      HeapStep h { event := SchedEvent.spawn thread, freed := [] }
        { run := h.run.born
            (schedSpawn h.run.sched thread stack entry priority name).state
            thread
            (schedSpawn h.run.sched thread stack entry priority name).ret true
          live := h.live ∪ { a | a ∈ [stack, thread] } }
  | spawnUser {h : HeapRun} {thread kstack ustack entry priority : Nat}
      {name : Option (List UInt8)} :
      FreshThread h.run thread -> NameFits name ->
      FreshBlocks h [ustack, kstack, thread] ->
      HeapStep h { event := SchedEvent.spawnUser thread, freed := [] }
        { run := h.run.born
            (schedSpawnUser h.run.sched thread kstack ustack entry priority
              name).state thread
            (schedSpawnUser h.run.sched thread kstack ustack entry priority
              name).ret true
          live := h.live ∪ { a | a ∈ [ustack, kstack, thread] } }
  | reschedule {h : HeapRun} {c rsp tick ageTick : Nat}
      {result : RescheduleResult} :
      c < h.run.sched.cpuCount ->
      schedReschedule h.run.sched c rsp tick ageTick = some result ->
      HeapStep h { event := SchedEvent.reschedule c, freed := result.freed }
        { run := { h.run with
            sched := result.state
            alive := h.run.aliveAfter c result.state }
          live := h.live \ { a | a ∈ result.freed } }
  | other {h : HeapRun} {event : SchedEvent} {run : SchedRun} :
      SchedStep h.run event run -> ¬ event.UsesHeap ->
      HeapStep h { event := event, freed := [] }
        { run := run, live := h.live }

theorem HeapStep.schedStep {h h' : HeapRun} {e : HeapEvent}
    (hstep : HeapStep h e h') : SchedStep h.run e.event h'.run := by
  cases hstep with
  | spawn hfresh hname _ => exact SchedStep.spawn hfresh hname
  | spawnUser hfresh hname _ => exact SchedStep.spawnUser hfresh hname
  | reschedule hc hrun => exact SchedStep.reschedule hc hrun
  | other hstep _ => exact hstep

def Leaves (r : SchedRun) (c : Nat) (r' : SchedRun) : Prop :=
  (r'.sched.cpus c).schedThread ≠ (r.sched.cpus c).schedThread ∧
    (r.sched.threads (r.sched.cpus c).schedThread).state = ThreadState.dead

/-- The blocks in use are those of the threads that are alive, and `base`. -/
structure Accounted (base : Set Nat) (h : HeapRun) : Prop where
  live_iff : forall a, a ∈ h.live <->
    a ∈ base ∨ exists t b, h.run.alive t = some b ∧ a ∈ h.blocks t
  nodup : forall t b, h.run.alive t = some b -> (h.blocks t).Nodup
  apart : forall t u b b', h.run.alive t = some b -> h.run.alive u = some b' ->
    t ≠ u -> forall a, a ∈ h.blocks t -> a ∉ h.blocks u
  outside : forall t b, h.run.alive t = some b ->
    forall a, a ∈ h.blocks t -> a ∉ base

/-- Runs in which no thread has priority 0 when it is left after
`sched_exit`. -/
def reclaimSystem (cpuCount : Nat) (ids : Nat -> Nat) (base : Set Nat) :
    TransitionSystem HeapRun HeapEvent where
  Init := fun h => (schedSystem cpuCount ids).Init h.run ∧ Accounted base h
  Step := fun h e h' => HeapStep h e h' ∧
    forall c, e.event = SchedEvent.reschedule c -> Leaves h.run c h'.run ->
      (h.run.sched.threads (h.run.sched.cpus c).schedThread).priority ≠ 0

/-!
# What a call frees
-/

section Freed

variable {r : SchedRun} {place : Nat -> Option Place}
  {lists : Loc -> List Nat} {c rsp tick ageTick : Nat}
  {result : RescheduleResult}

theorem schedReschedule_freed (h : SchedInvariant r place lists)
    (hc : c < r.sched.cpuCount)
    (hrun : schedReschedule r.sched c rsp tick ageTick = some result) :
    ((result.state.cpus c).schedThread = (r.sched.cpus c).schedThread ∧
      result.freed = []) ∨
    ((result.state.cpus c).schedThread ≠ (r.sched.cpus c).schedThread ∧
      result.freed = freedBlocks
        (r.sched.threads (r.sched.cpus c).schedThread)
        (r.sched.cpus c).schedThread) := by
  have hcurrent := h.running c hc
  rcases schedReschedule_outcome rsp tick ageTick h.placed hcurrent with
    ⟨s1, place1, lists1, result', _, _, _, hplaced1, hserved, hrecord, hrun', _,
      _, houtcome⟩
  rw [hrun] at hrun'
  cases hrun'
  cases houtcome with
  | stay _ => exact Or.inl ⟨hserved.frame.running c, rfl⟩
  | @switch p _ _ _ _ hqueues =>
      right
      constructor
      · exact hqueues.ne hplaced1 (hserved.running hcurrent)
      · rw [hqueues.freed, hrecord]
        rfl

/-- A thread has the same blocks all its life. -/
theorem schedStep_blocks {event : SchedEvent} {r' : SchedRun}
    (h : SchedInvariant r place lists) (hstep : SchedStep r event r') {t : Nat}
    (ht : ¬ event.Creates t) :
    threadBlocks (r'.sched.threads t) t =
      threadBlocks (r.sched.threads t) t := by
  rcases schedInvariant_stepFrame h hstep with ⟨_, _, _, hframe⟩
  have hlimit := congrArg Thread.stackLimit (hframe.owner t ht)
  have huser := congrArg Thread.userStackLimit (hframe.owner t ht)
  exact congrArg₂ (fun limit user =>
    (if user ≠ 0 then [user] else []) ++ [limit, t]) hlimit huser

theorem SchedEvent.not_creates {event : SchedEvent}
    (hplain : ¬ event.UsesHeap) (t : Nat) : ¬ event.Creates t := by
  intro hnew
  cases event with
  | spawn thread => exact hplain trivial
  | spawnUser thread => exact hplain trivial
  | _ => cases hnew

theorem schedStep_alive {event : SchedEvent} {r' : SchedRun}
    (hstep : SchedStep r event r') (hplain : ¬ event.UsesHeap) :
    r'.alive = r.alive := by
  cases hstep with
  | spawn _ _ => exact absurd trivial hplain
  | spawnUser _ _ => exact absurd trivial hplain
  | reschedule _ _ => exact absurd trivial hplain
  | _ => rfl

end Freed

/-!
# Every block is accounted for
-/

section Accounts

variable {base : Set Nat} {h h' : HeapRun} {place : Nat -> Option Place}
  {lists : Loc -> List Nat}

theorem Accounted.base_live (hacc : Accounted base h) {a : Nat}
    (ha : a ∈ base) : a ∈ h.live :=
  (hacc.live_iff a).mpr (Or.inl ha)

theorem Accounted.block_live (hacc : Accounted base h) {t a : Nat}
    {b : Birth} (ht : h.run.alive t = some b) (ha : a ∈ h.blocks t) :
    a ∈ h.live :=
  (hacc.live_iff a).mpr (Or.inr ⟨t, b, ht, ha⟩)

theorem Accounted.born (hacc : Accounted base h) {thread tid : Nat}
    {sched : SchedState} {new : List Nat} (hnew : FreshBlocks h new)
    (hfresh : FreshThread h.run thread)
    (hself : threadBlocks (sched.threads thread) thread = new)
    (hothers : forall u, u ≠ thread -> exists n,
      sched.threads u = { h.run.sched.threads u with next := n }) :
    Accounted base { run := h.run.born sched thread tid true
                     live := h.live ∪ { a | a ∈ new } } := by
  have hkept : forall u, u ≠ thread ->
      threadBlocks (sched.threads u) u = h.blocks u := by
    intro u hu
    rcases hothers u hu with ⟨n, hn⟩
    rw [hn]
    rfl
  have hne : forall u b, h.run.alive u = some b -> u ≠ thread := by
    intro u b hu heq
    rw [heq, hfresh.unused] at hu
    cases hu
  constructor
  · intro a
    show a ∈ h.live ∨ a ∈ new <-> _
    rw [hacc.live_iff]
    constructor
    · intro ha
      rcases ha with (hbase | ⟨t, b, ht, hblock⟩) | hblock
      · exact Or.inl hbase
      · refine Or.inr ⟨t, b, ?_, ?_⟩
        · exact (born_alive_other _ _ _ (hne t b ht)).trans ht
        · show a ∈ threadBlocks (sched.threads t) t
          rw [hkept t (hne t b ht)]
          exact hblock
      · refine Or.inr ⟨thread, _, Function.update_self _ _ _, ?_⟩
        show a ∈ threadBlocks (sched.threads thread) thread
        rw [hself]
        exact hblock
    · intro ha
      rcases ha with hbase | ⟨t, b, ht, hblock⟩
      · exact Or.inl (Or.inl hbase)
      · have hblock' : a ∈ threadBlocks (sched.threads t) t := hblock
        rcases born_cases ht with ⟨heq, _⟩ | ⟨hother, hold⟩
        · rw [heq, hself] at hblock'
          exact Or.inr hblock'
        · rw [hkept t hother] at hblock'
          exact Or.inl (Or.inr ⟨t, b, hold, hblock'⟩)
  · intro t b ht
    show (threadBlocks (sched.threads t) t).Nodup
    rcases born_cases ht with ⟨heq, _⟩ | ⟨hother, hold⟩
    · rw [heq, hself]
      exact hnew.nodup
    · rw [hkept t hother]
      exact hacc.nodup t b hold
  · intro t u b b' ht hu htu a ha
    have ha' : a ∈ threadBlocks (sched.threads t) t := ha
    show a ∉ threadBlocks (sched.threads u) u
    rcases born_cases ht with ⟨hteq, _⟩ | ⟨htne, htold⟩
    · rcases born_cases hu with ⟨hueq, _⟩ | ⟨hune, huold⟩
      · exact absurd (hteq.trans hueq.symm) htu
      · rw [hteq, hself] at ha'
        rw [hkept u hune]
        intro hblock
        exact (hnew.valid a ha').right (hacc.block_live huold hblock)
    · rw [hkept t htne] at ha'
      rcases born_cases hu with ⟨hueq, _⟩ | ⟨hune, huold⟩
      · rw [hueq, hself]
        intro hblock
        exact (hnew.valid a hblock).right (hacc.block_live htold ha')
      · rw [hkept u hune]
        exact hacc.apart t u b b' htold huold htu a ha'
  · intro t b ht a ha hbase
    have ha' : a ∈ threadBlocks (sched.threads t) t := ha
    rcases born_cases ht with ⟨heq, _⟩ | ⟨hother, hold⟩
    · rw [heq, hself] at ha'
      exact (hnew.valid a ha').right (hacc.base_live hbase)
    · rw [hkept t hother] at ha'
      exact hacc.outside t b hold a ha' hbase

theorem Accounted.less (hacc : Accounted base h)
    (hblocks : forall t, h'.blocks t = h.blocks t)
    (halive : forall t b, h'.run.alive t = some b ->
      h.run.alive t = some b)
    (hlive : forall a, a ∈ h'.live <->
      a ∈ base ∨ exists t b, h'.run.alive t = some b ∧ a ∈ h.blocks t) :
    Accounted base h' := by
  constructor
  · intro a
    simp only [hblocks]
    exact hlive a
  · intro t b ht
    rw [hblocks]
    exact hacc.nodup t b (halive t b ht)
  · intro t u b b' ht hu
    rw [hblocks, hblocks]
    exact hacc.apart t u b b' (halive t b ht) (halive u b' hu)
  · intro t b ht
    rw [hblocks]
    exact hacc.outside t b (halive t b ht)

theorem SchedInvariant.alive_running {r : SchedRun}
    (hinv : SchedInvariant r place lists) {c : Nat}
    (hc : c < r.sched.cpuCount) :
    exists b, r.alive (r.sched.cpus c).schedThread = some b := by
  cases halive : r.alive (r.sched.cpus c).schedThread with
  | none =>
      have hplace := hinv.running c hc
      rw [(hinv.alive_iff _).mp halive] at hplace
      cases hplace
  | some b => exact ⟨b, rfl⟩

theorem aliveAfter_iff {r : SchedRun} {c : Nat} {sched : SchedState}
    (h : (sched.cpus c).schedThread ≠ (r.sched.cpus c).schedThread ∧
      (r.sched.threads (r.sched.cpus c).schedThread).state =
        ThreadState.dead) (t : Nat) (b : Birth) :
    r.aliveAfter c sched t = some b <->
      t ≠ (r.sched.cpus c).schedThread ∧ r.alive t = some b := by
  rw [aliveAfter_gone c sched h.left h.right]
  by_cases hsame : t = (r.sched.cpus c).schedThread
  · rw [hsame, Function.update_self]
    simp
  · rw [Function.update_of_ne hsame]
    exact ⟨fun ht => ⟨hsame, ht⟩, fun ht => ht.right⟩

theorem accounted_reschedule (hacc : Accounted base h)
    (hinv : SchedInvariant h.run place lists) {c rsp tick ageTick : Nat}
    {result : RescheduleResult} (hc : c < h.run.sched.cpuCount)
    (hrun : schedReschedule h.run.sched c rsp tick ageTick = some result)
    (hpriority : Leaves h.run c { h.run with
        sched := result.state
        alive := h.run.aliveAfter c result.state } ->
      (h.run.sched.threads (h.run.sched.cpus c).schedThread).priority ≠ 0) :
    Accounted base
      { run := { h.run with
          sched := result.state
          alive := h.run.aliveAfter c result.state }
        live := h.live \ { a | a ∈ result.freed } } := by
  apply hacc.less
  · intro t
    exact schedStep_blocks hinv (SchedStep.reschedule hc hrun)
      (fun hnew => hnew)
  · intro t b ht
    exact aliveAfter_some ht
  intro a
  show a ∈ h.live ∧ a ∉ result.freed <-> a ∈ base ∨ exists t b,
    h.run.aliveAfter c result.state t = some b ∧ a ∈ h.blocks t
  rcases schedReschedule_freed hinv hc hrun with ⟨hstay, hfreed⟩ |
    ⟨hleft, hfreed⟩
  · have halive : h.run.aliveAfter c result.state = h.run.alive := by
      unfold SchedRun.aliveAfter
      rw [if_neg (fun hgone => hgone.left hstay)]
    rw [hfreed, halive, hacc.live_iff]
    simp
  · by_cases hdead : (h.run.sched.threads
        (h.run.sched.cpus c).schedThread).state = ThreadState.dead
    · have hblocks : result.freed =
          h.blocks (h.run.sched.cpus c).schedThread := by
        rw [hfreed]
        unfold freedBlocks
        rw [if_pos ⟨hdead, hpriority ⟨hleft, hdead⟩⟩]
        rfl
      simp only [aliveAfter_iff ⟨hleft, hdead⟩]
      rw [hblocks, hacc.live_iff]
      rcases hinv.alive_running hc with ⟨b0, hb0⟩
      constructor
      · intro ha
        rcases ha with ⟨hbase | ⟨t, b, ht, hblock⟩, hout⟩
        · exact Or.inl hbase
        · refine Or.inr ⟨t, b, ⟨?_, ht⟩, hblock⟩
          intro heq
          rw [heq] at hblock
          exact hout hblock
      · intro ha
        rcases ha with hbase | ⟨t, b, ⟨hne, ht⟩, hblock⟩
        · refine ⟨Or.inl hbase, ?_⟩
          intro hblock
          exact hacc.outside _ b0 hb0 a hblock hbase
        · refine ⟨Or.inr ⟨t, b, ht, hblock⟩, ?_⟩
          exact hacc.apart t _ b b0 ht hb0 hne a hblock
    · have hnone : result.freed = [] := by
        rw [hfreed]
        unfold freedBlocks
        rw [if_neg (fun hboth => hdead hboth.left)]
      rw [hnone, aliveAfter_stays c result.state hdead, hacc.live_iff]
      simp

theorem accounted_step {e : HeapEvent} (hacc : Accounted base h)
    (hinv : SchedInvariant h.run place lists) (hstep : HeapStep h e h')
    (hpriority : forall c, e.event = SchedEvent.reschedule c ->
      Leaves h.run c h'.run ->
      (h.run.sched.threads (h.run.sched.cpus c).schedThread).priority ≠ 0) :
    Accounted base h' := by
  cases hstep with
  | spawn hfresh _ hblocks =>
      apply hacc.born hblocks hfresh
      · rcases spawnThread_self h.run.sched _ _ _ _ _ _ _ with ⟨n, hn⟩
        unfold schedSpawn
        rw [hn]
        rfl
      · intro u hu
        exact spawnThread_other _ _ _ _ _ _ _ _ hu
  | @spawnUser thread kstack ustack _ _ _ hfresh _ hblocks =>
      have hne : ustack ≠ 0 := (hblocks.valid ustack (by simp)).left
      apply hacc.born hblocks hfresh
      · rcases spawnThread_self h.run.sched _ _ _ _ _ _ _ with ⟨n, hn⟩
        unfold schedSpawnUser
        rw [hn]
        unfold threadBlocks
        rw [show Thread.userStackLimit _ = ustack from rfl, if_pos hne]
        rfl
      · intro u hu
        exact spawnThread_other _ _ _ _ _ _ _ _ hu
  | @reschedule c rsp tick ageTick result hc hrun =>
      exact accounted_reschedule hacc hinv hc hrun (hpriority c rfl)
  | other hstep hplain =>
      have halive := schedStep_alive hstep hplain
      apply hacc.less
      · intro t
        exact schedStep_blocks hinv hstep (SchedEvent.not_creates hplain t)
      · intro t b ht
        rw [← halive]
        exact ht
      · intro a
        rw [show HeapRun.run _ = _ from rfl, halive]
        exact hacc.live_iff a

end Accounts

/-!
# The theorem about runs
-/

structure Reclaims (h : HeapRun) (e : HeapEvent) (h' : HeapRun) : Prop where
  only_left : forall a, a ∈ e.freed -> exists c,
    e.event = SchedEvent.reschedule c ∧ Leaves h.run c h'.run ∧
      a ∈ h.blocks (h.run.sched.cpus c).schedThread
  live : forall a, a ∈ e.freed -> a ∈ h.live
  once_iff : forall c, e.event = SchedEvent.reschedule c ->
    Leaves h.run c h'.run ->
    (e.freed.Nodup ∧
        e.freed.Perm (h.blocks (h.run.sched.cpus c).schedThread) <->
      (h.run.sched.threads (h.run.sched.cpus c).schedThread).priority ≠ 0)

def SameIdles (h0 h : HeapRun) : Prop :=
  forall t b, h.run.alive t = some b -> b.spawned = false ->
    h0.run.alive t = some b ∧ h.blocks t = h0.blocks t

theorem freedBlocks_dead {th : Thread} {t : Nat}
    (hdead : th.state = ThreadState.dead) :
    freedBlocks th t = if th.priority ≠ 0 then threadBlocks th t else [] := by
  unfold freedBlocks
  simp only [hdead, true_and]

theorem mem_freedBlocks {th : Thread} {t a : Nat} (h : a ∈ freedBlocks th t) :
    th.state = ThreadState.dead ∧ a ∈ threadBlocks th t := by
  unfold freedBlocks at h
  split at h
  case isTrue hboth => exact ⟨hboth.left, h⟩
  case isFalse => cases h

theorem reclaims_nothing {h h' : HeapRun} {event : SchedEvent}
    (hne : forall c, event ≠ SchedEvent.reschedule c) :
    Reclaims h { event := event, freed := [] } h' := by
  constructor
  · intro a ha
    cases ha
  · intro a ha
    cases ha
  · intro c hc
    exact absurd hc (hne c)

section Steps

variable {base : Set Nat} {h0 h h' : HeapRun} {e : HeapEvent}
  {place : Nat -> Option Place} {lists : Loc -> List Nat}

theorem reclaims_step (hacc : Accounted base h)
    (hinv : SchedInvariant h.run place lists) (hstep : HeapStep h e h') :
    Reclaims h e h' := by
  cases hstep with
  | spawn _ _ _ => exact reclaims_nothing (fun c hc => by cases hc)
  | spawnUser _ _ _ => exact reclaims_nothing (fun c hc => by cases hc)
  | other _ hplain =>
      apply reclaims_nothing
      intro c hc
      rw [hc] at hplain
      exact hplain trivial
  | @reschedule c rsp tick ageTick result hc hrun =>
      rcases hinv.alive_running hc with ⟨b, hb⟩
      have hleft : forall a, a ∈ result.freed ->
          Leaves h.run c { h.run with
            sched := result.state
            alive := h.run.aliveAfter c result.state } ∧
          a ∈ h.blocks (h.run.sched.cpus c).schedThread := by
        intro a ha
        rcases schedReschedule_freed hinv hc hrun with ⟨_, hfreed⟩ |
          ⟨hchanged, hfreed⟩
        · rw [hfreed] at ha
          cases ha
        · rw [hfreed] at ha
          rcases mem_freedBlocks ha with ⟨hdead, hblock⟩
          exact ⟨⟨hchanged, hdead⟩, hblock⟩
      constructor
      · intro a ha
        exact ⟨c, rfl, hleft a ha⟩
      · intro a ha
        exact hacc.block_live hb (hleft a ha).right
      · intro d hd hleaves
        cases hd
        rcases schedReschedule_freed hinv hc hrun with ⟨hstay, _⟩ |
          ⟨_, hfreed⟩
        · exact absurd hstay hleaves.left
        · rw [freedBlocks_dead hleaves.right] at hfreed
          show result.freed.Nodup ∧ result.freed.Perm _ <-> _
          rw [hfreed]
          constructor
          · intro hall hzero
            rw [if_neg (fun hne => hne hzero)] at hall
            have hlength := hall.right.length_eq
            unfold HeapRun.blocks threadBlocks at hlength
            simp at hlength
          · intro hne
            rw [if_pos hne]
            exact ⟨hacc.nodup _ b hb, List.Perm.refl _⟩

theorem sameIdles_step (hidles : SameIdles h0 h)
    (hinv : SchedInvariant h.run place lists) (hstep : HeapStep h e h') :
    SameIdles h0 h' := by
  have hborn : forall {sched thread tid live},
      (forall u, u ≠ thread -> exists n,
        sched.threads u = { h.run.sched.threads u with next := n }) ->
      SameIdles h0 { run := h.run.born sched thread tid true
                     live := live } := by
    intro sched thread tid live hothers t b ht hidle
    rcases born_cases ht with ⟨_, hb⟩ | ⟨hne, hold⟩
    · rw [hb] at hidle
      cases hidle
    · rcases hidles t b hold hidle with ⟨hstart, hblocks⟩
      rcases hothers t hne with ⟨n, hn⟩
      refine ⟨hstart, ?_⟩
      rw [← hblocks]
      show threadBlocks (sched.threads t) t = _
      rw [hn]
      rfl
  cases hstep with
  | spawn _ _ _ =>
      exact hborn (fun u hu => spawnThread_other _ _ _ _ _ _ _ _ hu)
  | spawnUser _ _ _ =>
      exact hborn (fun u hu => spawnThread_other _ _ _ _ _ _ _ _ hu)
  | reschedule hc hrun =>
      intro t b ht hidle
      rcases hidles t b (aliveAfter_some ht) hidle with ⟨hstart, hblocks⟩
      have hsame := schedStep_blocks hinv (SchedStep.reschedule hc hrun)
        (t := t) (fun hnew => hnew)
      exact ⟨hstart, hsame.trans hblocks⟩
  | other hstep hplain =>
      have halive := schedStep_alive hstep hplain
      intro t b ht hidle
      rw [show HeapRun.run _ = _ from rfl, halive] at ht
      rcases hidles t b ht hidle with ⟨hstart, hblocks⟩
      exact ⟨hstart, (schedStep_blocks hinv hstep
        (SchedEvent.not_creates hplain t)).trans hblocks⟩

end Steps

theorem sched_reclaims {cpuCount : Nat} {ids : Nat -> Nat} {base : Set Nat}
    {h0 h : HeapRun} {trace : List HeapEvent} (hids : ValidIds cpuCount ids)
    (hpos : 0 < cpuCount) (hinit : (reclaimSystem cpuCount ids base).Init h0)
    (hrun : (reclaimSystem cpuCount ids base).Runs h0 trace h) :
    Accounted base h ∧
    (forall e h', HeapStep h e h' -> Reclaims h e h') ∧
    ((forall t b, h.run.alive t = some b -> b.spawned = false) ->
      (forall t b, h0.run.alive t = some b -> h.run.alive t = some b) ->
      h.live = h0.live) := by
  have hall : (exists place lists, SchedInvariant h.run place lists) ∧
      Accounted base h ∧ SameIdles h0 h := by
    apply runs_invariant
      (P := fun h => (exists place lists,
        SchedInvariant h.run place lists) ∧ Accounted base h ∧
        SameIdles h0 h) _ _ hrun
    · exact ⟨schedInvariant_init hids hpos hinit.left, hinit.right,
        fun t b ht _ => ⟨ht, rfl⟩⟩
    · intro h e h' hh hstep
      rcases hh with ⟨⟨place, lists, hinv⟩, hacc, hidles⟩
      exact ⟨schedInvariant_step hinv hstep.left.schedStep,
        accounted_step hacc hinv hstep.left hstep.right,
        sameIdles_step hidles hinv hstep.left⟩
  rcases hall with ⟨⟨place, lists, hinv⟩, hacc, hidles⟩
  refine ⟨hacc, fun e h' hstep => reclaims_step hacc hinv hstep, ?_⟩
  intro hgone hkept
  ext a
  rw [hacc.live_iff, hinit.right.live_iff]
  constructor
  · intro ha
    rcases ha with hbase | ⟨t, b, ht, hblock⟩
    · exact Or.inl hbase
    · rcases hidles t b ht (hgone t b ht) with ⟨hstart, hblocks⟩
      rw [hblocks] at hblock
      exact Or.inr ⟨t, b, hstart, hblock⟩
  · intro ha
    rcases ha with hbase | ⟨t, b, ht, hblock⟩
    · exact Or.inl hbase
    · have hnow := hkept t b ht
      rcases hidles t b hnow (hgone t b hnow) with ⟨_, hblocks⟩
      rw [← hblocks] at hblock
      exact Or.inr ⟨t, b, hnow, hblock⟩

def oneCpuHeap : HeapRun where
  run := oneCpu
  live := { a | a ∈ [0x2000, 0x1000] }

theorem oneCpuHeap_init :
    (reclaimSystem 1 (fun _ => 0) ∅).Init oneCpuHeap := by
  have halive : forall t b, oneCpu.alive t = some b -> t = 0x1000 := by
    intro t b ht
    rcases born_cases ht with ⟨heq, _⟩ | ⟨_, hold⟩
    · exact heq
    · cases hold
  refine ⟨?_, ?_, ?_, ?_, ?_⟩
  · exact oneCpu_init
  · intro a
    constructor
    · intro ha
      exact Or.inr ⟨0x1000, _, rfl, ha⟩
    · intro ha
      rcases ha with hbase | ⟨t, b, ht, hblock⟩
      · cases hbase
      · rw [halive t b ht] at hblock
        exact hblock
  · intro t b ht
    rw [halive t b ht]
    show [0x2000, 0x1000].Nodup
    decide
  · intro t u b b' ht hu hne
    exact absurd ((halive t b ht).trans (halive u b' hu).symm) hne
  · intro t b _ a _ hbase
    cases hbase

theorem oneCpuHeap_fresh {a b : Nat} (hab : a ≠ b)
    (ha : a ≠ 0 ∧ a ∉ [0x2000, 0x1000]) (hb : b ≠ 0 ∧ b ∉ [0x2000, 0x1000]) :
    FreshBlocks oneCpuHeap [a, b] := by
  constructor
  · simpa using hab
  · intro x hx
    rcases List.mem_pair.mp hx with heq | heq
    · rw [heq]
      exact ha
    · rw [heq]
      exact hb

def spawned (priority : Nat) : HeapRun where
  run := oneCpu.born
    (schedSpawn oneCpu.sched 0x5000 0x6000 0x100000 priority none).state 0x5000
    (schedSpawn oneCpu.sched 0x5000 0x6000 0x100000 priority none).ret true
  live := oneCpuHeap.live ∪ { a | a ∈ [0x6000, 0x5000] }

theorem spawned_step (priority : Nat) :
    HeapStep oneCpuHeap
      { event := SchedEvent.spawn 0x5000, freed := [] }
      (spawned priority) := by
  apply HeapStep.spawn
  · exact ⟨by decide, by decide, oneCpu_resting.alone _ (by decide)⟩
  · intro bytes hbytes
    cases hbytes
  · exact oneCpuHeap_fresh (by decide) (by decide) (by decide)

def HeapRun.freed (h : HeapRun) : List Nat :=
  ((schedReschedule h.run.sched 0 0 0 0).map RescheduleResult.freed).getD []

def HeapRun.rescheduled (h : HeapRun) : HeapRun where
  run := h.run.rescheduled 0 0 0
  live := h.live \ { a | a ∈ h.freed }

theorem HeapRun.rescheduled_step {h : HeapRun} (hc : 0 < h.run.sched.cpuCount)
    (hends : (schedReschedule h.run.sched 0 0 0 0).isSome = true) :
    HeapStep h { event := SchedEvent.reschedule 0, freed := h.freed }
      h.rescheduled := by
  rcases Option.isSome_iff_exists.mp hends with ⟨result, hresult⟩
  unfold HeapRun.rescheduled HeapRun.freed SchedRun.rescheduled
  rw [hresult]
  exact HeapStep.reschedule hc hresult

def leaverRuns (priority : Nat) : HeapRun := (spawned priority).rescheduled

def leaverExits (priority : Nat) : HeapRun where
  run := { (leaverRuns priority).run with
    sched := schedExit (leaverRuns priority).run.sched 0 }
  live := (leaverRuns priority).live

def leaverLeft (priority : Nat) : HeapRun := (leaverExits priority).rescheduled

theorem leaverLeft_runs :
    (reclaimSystem 1 (fun _ => 0) ∅).Runs oneCpuHeap
      [{ event := SchedEvent.spawn 0x5000, freed := [] },
        { event := SchedEvent.reschedule 0, freed := (spawned 5).freed },
        { event := SchedEvent.exit 0, freed := [] },
        { event := SchedEvent.reschedule 0, freed := (leaverExits 5).freed }]
      (leaverLeft 5) := by
  have hspawn : (reclaimSystem 1 (fun _ => 0) ∅).Step oneCpuHeap
      { event := SchedEvent.spawn 0x5000, freed := [] } (spawned 5) :=
    ⟨spawned_step 5, fun c hc => by cases hc⟩
  have hruns : (reclaimSystem 1 (fun _ => 0) ∅).Step (spawned 5)
      { event := SchedEvent.reschedule 0, freed := (spawned 5).freed }
      (leaverRuns 5) := by
    refine ⟨HeapRun.rescheduled_step (by decide) (by decide), ?_⟩
    intro c hc hleaves
    cases hc
    exact absurd hleaves.right (by decide)
  have hexits : (reclaimSystem 1 (fun _ => 0) ∅).Step (leaverRuns 5)
      { event := SchedEvent.exit 0, freed := [] } (leaverExits 5) :=
    ⟨HeapStep.other (SchedStep.exit (by decide)) (fun huses => huses),
      fun c hc => by cases hc⟩
  have hleaves : (reclaimSystem 1 (fun _ => 0) ∅).Step (leaverExits 5)
      { event := SchedEvent.reschedule 0, freed := (leaverExits 5).freed }
      (leaverLeft 5) := by
    refine ⟨HeapRun.rescheduled_step (by decide) (by decide), ?_⟩
    intro c hc _
    cases hc
    decide
  exact Runs.snoc (Runs.snoc (Runs.snoc (runs_single hspawn) hruns) hexits)
    hleaves

theorem leaverLeft_alive (t : Nat) :
    (leaverLeft 5).run.alive t = oneCpu.alive t := by
  by_cases ht : t = 0x5000
  · rw [ht]
    rfl
  · exact (Function.update_of_ne ht _ _).trans (born_alive_other _ _ _ ht)

/-- A thread of priority 5 is spawned, runs and exits, and its two blocks are
free again. -/
theorem sched_reclaims_leaverLeft :
    (leaverExits 5).freed = [0x6000, 0x5000] ∧
      (leaverLeft 5).live = oneCpuHeap.live := by
  have hback := (sched_reclaims oneCpu_ids Nat.one_pos oneCpuHeap_init
    leaverLeft_runs).right.right
  refine ⟨by decide, hback ?_ ?_⟩
  · intro t b ht
    rw [leaverLeft_alive] at ht
    by_cases hidle : t = 0x1000
    · rw [hidle] at ht
      cases ht
      rfl
    · rw [oneCpu_resting.alone t hidle] at ht
      cases ht
  · intro t b ht
    exact (leaverLeft_alive t).trans ht

/-- A thread of priority 0 exits and is left; nothing is freed. -/
theorem sched_leaks :
    HeapStep oneCpuHeap { event := SchedEvent.spawn 0x5000, freed := [] }
      (spawned 0) ∧
    HeapStep (spawned 0)
      { event := SchedEvent.reschedule 0, freed := (spawned 0).freed }
      (leaverRuns 0) ∧
    HeapStep (leaverRuns 0) { event := SchedEvent.exit 0, freed := [] }
      (leaverExits 0) ∧
    HeapStep (leaverExits 0)
      { event := SchedEvent.reschedule 0, freed := (leaverExits 0).freed }
      (leaverLeft 0) ∧
    Leaves (leaverExits 0).run 0 (leaverLeft 0).run ∧
    ((leaverExits 0).run.sched.cpus 0).schedThread = 0x5000 ∧
    (leaverExits 0).freed = [] ∧ (leaverLeft 0).run.alive 0x5000 = none ∧
    0x5000 ∈ (leaverLeft 0).live := by
  refine ⟨spawned_step 0, ?_, ?_, ?_, ?_, ?_, ?_, ?_, ?_⟩
  · exact HeapRun.rescheduled_step (by decide) (by decide)
  · apply HeapStep.other
    · exact SchedStep.exit (by decide)
    · exact fun huses => huses
  · exact HeapRun.rescheduled_step (by decide) (by decide)
  · constructor
    · decide
    · decide
  · decide
  · decide
  · rfl
  · have hstarts : (spawned 0).freed = [] := by decide
    have hstops : (leaverExits 0).freed = [] := by decide
    show 0x5000 ∈ ((spawned 0).live \ { a | a ∈ (spawned 0).freed }) \
      { a | a ∈ (leaverExits 0).freed }
    rw [hstarts, hstops]
    refine ⟨⟨Or.inr ?_, by simp⟩, by simp⟩
    simp

end Sched
end Barium
