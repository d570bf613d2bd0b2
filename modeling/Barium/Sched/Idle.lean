import Barium.Sched.Aging
import Barium.Sched.Dominance

/-!
# Idle threads

`sched_age_threads` leaves out the thread with id 1.  This is the idle thread of
the CPU that came first to `sched_init`; the idle threads of other CPUs grow
older like any thread.
-/

namespace Barium
namespace Sched

open Foundation
open Function
open TransitionSystem

def IdleLowest (r : SchedRun) : Prop :=
  forall t b, r.alive t = some b -> b.spawned = false ->
    (r.sched.threads t).priority = 0

/-- No call of `sched_handoff` that is looking for a thread looks for an idle
thread. -/
def IdleSpared (r : SchedRun) : Prop :=
  forall c tid i t b, r.handoff c = HandoffState.scanning tid i ->
    r.alive t = some b -> b.spawned = false ->
    (r.sched.threads t).tid ≠ tid

/-- An idle thread is only dispatched when the ready queues of its CPU above
the lowest one are empty. -/
def IdleLast (r : SchedRun) : Prop :=
  forall c r' t b, SchedStep r (SchedEvent.reschedule c) r' ->
    r'.alive t = some b -> b.spawned = false ->
    (r'.sched.cpus c).schedThread = t -> (r.sched.cpus c).schedThread ≠ t ->
    forall q, 0 < q -> q <= maxPriority ->
      queueHead r'.sched (c, Queue.ready q) = 0

/-- Runs in which `sched_handoff` is never called for an idle thread. -/
def idleSystem (cpuCount : Nat) (ids : Nat -> Nat) :
    TransitionSystem SchedRun SchedEvent where
  Init := (schedSystem cpuCount ids).Init
  Step := fun r event r' => SchedStep r event r' ∧ IdleSpared r'

/-!
# The thread with id 1
-/

def KeepsFirst (th th' : Thread) : Prop :=
  th'.tid = th.tid ∧ (th.tid = 1 -> th'.priority = th.priority)

theorem keepsFirst_rule (tick : Nat) : RecordRule tick KeepsFirst := by
  constructor
  · intro th
    exact ⟨rfl, fun _ => rfl⟩
  · intro th th' th'' h h'
    refine ⟨h'.left.trans h.left, fun htid => ?_⟩
    exact (h'.right (h.left.trans htid)).trans (h.right htid)
  · intro th n
    exact ⟨rfl, fun _ => rfl⟩
  · intro th _
    exact ⟨rfl, fun _ => rfl⟩
  · intro th n _
    exact ⟨rfl, fun _ => rfl⟩
  · intro th hne
    exact ⟨rfl, fun htid => absurd htid hne⟩

section Steps

variable {r r' : SchedRun} {place : Nat -> Option Place}
  {lists : Loc -> List Nat}

theorem schedReschedule_first {c rsp tick ageTick : Nat}
    {result : RescheduleResult} (h : SchedInvariant r place lists)
    (hc : c < r.sched.cpuCount)
    (hrun : schedReschedule r.sched c rsp tick ageTick = some result)
    {t : Nat} (ht : (r.sched.threads t).tid = 1) :
    (result.state.threads t).priority = (r.sched.threads t).priority := by
  have hcurrent := h.running c hc
  by_cases hsame : t = (r.sched.cpus c).schedThread
  · rcases schedReschedule_current h.placed hcurrent hrun with
      ⟨th, n, hth, hrecord⟩
    rw [hsame, hrecord]
    rcases hth with hstay | hleft
    · rw [hstay]
      rfl
    · rw [hleft]
      exact retired_priority _
  · rcases schedReschedule_waiting (keepsFirst_rule tick) h.placed hcurrent
      hrun hsame with ⟨th, n, hkeeps, hrecord⟩
    rw [← hkeeps.right ht]
    rcases hrecord with hwaits | hchosen
    · rw [hwaits]
    · rw [hchosen.right]
      rfl

/-!
# One CPU
-/

/-- The only idle thread is the first thread; it has priority 0 and no call of
`sched_handoff` has taken it. -/
structure IdleInvariant (r : SchedRun) : Prop where
  first : forall t b, r.alive t = some b -> b.spawned = false -> b.serial = 0
  lowest : IdleLowest r
  held : forall c t b, r.holds c = some t -> r.alive t = some b ->
    b.spawned = true
  spared : IdleSpared r

theorem IdleInvariant.tid (h : IdleInvariant r)
    (hinv : SchedInvariant r place lists) {t : Nat} {b : Birth}
    (ht : r.alive t = some b) (hidle : b.spawned = false) :
    (r.sched.threads t).tid = 1 := by
  rw [(hinv.tid.serial t b ht).right, h.first t b ht hidle]
  rfl

theorem IdleInvariant.reschedule (h : IdleInvariant r)
    (hinv : SchedInvariant r place lists) {c : Nat}
    (hstep : SchedStep r (SchedEvent.reschedule c) r') : IdleLowest r' := by
  intro t b ht hidle
  cases hstep with
  | reschedule hc hrun =>
      have hold := aliveAfter_some ht
      exact (schedReschedule_first hinv hc hrun (h.tid hinv hold hidle)).trans
        (h.lowest t b hold hidle)

theorem IdleInvariant.keep (h : IdleInvariant r) (hspared : IdleSpared r')
    (halive : forall t b, r'.alive t = some b -> b.spawned = false ->
      r.alive t = some b ∧
        (r'.sched.threads t).priority = (r.sched.threads t).priority)
    (hheld : forall c t b, r'.holds c = some t -> r'.alive t = some b ->
      b.spawned = true) : IdleInvariant r' := by
  constructor
  · intro t b ht hidle
    exact h.first t b (halive t b ht hidle).left hidle
  · intro t b ht hidle
    rw [(halive t b ht hidle).right]
    exact h.lowest t b (halive t b ht hidle).left hidle
  · exact hheld
  · exact hspared

theorem idleInvariant_born (h : IdleInvariant r) {sched : SchedState}
    {t tid : Nat} (hspared : IdleSpared (r.born sched t tid true))
    (hothers : forall u, u ≠ t -> exists n,
      sched.threads u = { r.sched.threads u with next := n }) :
    IdleInvariant (r.born sched t tid true) := by
  apply h.keep hspared
  · intro u b hu hidle
    rcases born_cases hu with ⟨_, hb⟩ | ⟨hne, hold⟩
    · rw [hb] at hidle
      cases hidle
    · rcases hothers u hne with ⟨n, hn⟩
      refine ⟨hold, ?_⟩
      show (sched.threads u).priority = _
      rw [hn]
  · intro c u b hholds hu
    rcases born_cases hu with ⟨_, hb⟩ | ⟨_, hold⟩
    · rw [hb]
    · exact h.held c u b hholds hold

theorem idleInvariant_sched (h : IdleInvariant r) {sched : SchedState}
    (hspared : IdleSpared { r with sched := sched })
    (hpriority : forall t, (sched.threads t).priority =
      (r.sched.threads t).priority) :
    IdleInvariant { r with sched := sched } :=
  h.keep hspared (fun t _ ht _ => ⟨ht, hpriority t⟩) h.held

theorem modThread_priority {s : SchedState} {t : Nat} {f : Thread -> Thread}
    (hf : (f (s.threads t)).priority = (s.threads t).priority) (u : Nat) :
    ((modThread s t f).threads u).priority = (s.threads u).priority := by
  by_cases hut : u = t
  · rw [hut, modThread_self, hf]
  · rw [modThread_other _ _ _ hut]

theorem Links.priority {s s' : SchedState} (h : Links s s') (t : Nat) :
    (s'.threads t).priority = (s.threads t).priority := by
  rcases h.threads t with ⟨n, hn⟩
  rw [hn]

theorem idleInvariant_handoff (h : IdleInvariant r) {c : Nat}
    {sched : SchedState} {state : HandoffState}
    (hspared : IdleSpared { r with
      sched := sched
      handoff := update r.handoff c state })
    (hpriority : forall t b, r.alive t = some b -> b.spawned = false ->
      (sched.threads t).priority = (r.sched.threads t).priority)
    (htarget : forall t b, state.target = some t -> r.alive t = some b ->
      b.spawned = true) :
    IdleInvariant { r with
      sched := sched
      handoff := update r.handoff c state } := by
  apply h.keep hspared
  · intro t b ht hidle
    exact ⟨ht, hpriority t b ht hidle⟩
  · intro d t b hholds ht
    rw [holds_update] at hholds
    by_cases hdc : d = c
    · rw [hdc, update_self] at hholds
      exact htarget t b hholds ht
    · rw [update_of_ne hdc] at hholds
      exact h.held d t b hholds ht

theorem idleInvariant_step {event : SchedEvent} (h : IdleInvariant r)
    (hinv : SchedInvariant r place lists) (hstep : SchedStep r event r')
    (hspared : IdleSpared r') : IdleInvariant r' := by
  cases hstep with
  | spawn hfresh _ =>
      exact idleInvariant_born h hspared
        (fun u hu => spawnThread_other _ _ _ _ _ _ _ _ hu)
  | spawnUser hfresh _ =>
      exact idleInvariant_born h hspared
        (fun u hu => spawnThread_other _ _ _ _ _ _ _ _ hu)
  | @reschedule c rsp tick ageTick result hc hrun =>
      apply h.keep hspared
      · intro t b ht hidle
        have hold := aliveAfter_some ht
        exact ⟨hold, schedReschedule_first hinv hc hrun
          (h.tid hinv hold hidle)⟩
      · intro d t b hholds ht
        exact h.held d t b hholds (aliveAfter_some ht)
  | @sleep c ms tick hc =>
      apply idleInvariant_sched h hspared
      intro t
      unfold schedSleep
      split
      case isTrue => exact modThread_priority rfl t
      case isFalse => rfl
  | @exit c hc =>
      apply idleInvariant_sched h hspared
      intro t
      unfold schedExit
      split
      case isTrue => exact modThread_priority rfl t
      case isFalse => rfl
  | handoffStart _ _ _ =>
      exact idleInvariant_handoff h hspared (fun _ _ _ _ => rfl)
        (fun _ _ htarget => by cases htarget)
  | handoffMiss _ _ hi hrun =>
      rcases findOnCpu_spec hinv.placed hi (Nat.le_refl _) with
        ⟨found, hrun', hsearch⟩
      rw [hrun] at hrun'
      cases hrun'
      cases hsearch
      exact idleInvariant_handoff h hspared (fun _ _ _ _ => rfl)
        (fun _ _ htarget => by cases htarget)
  | @handoffFind c tid i target sched _ hscan hi hrun =>
      rcases findOnCpu_spec hinv.placed hi (Nat.le_refl _) with
        ⟨found, hrun', hsearch⟩
      rw [hrun] at hrun'
      cases hrun'
      cases hsearch with
      | found _ htid _ _ _ hlinks =>
          apply idleInvariant_handoff h hspared
          · intro t b _ _
            exact hlinks.priority t
          · intro t b htarget ht
            cases htarget
            cases hb : b.spawned with
            | true => rfl
            | false => exact absurd htid (h.spared c tid i _ b hscan ht hb)
  | handoffNone _ _ _ =>
      exact idleInvariant_handoff h hspared (fun _ _ _ _ => rfl)
        (fun _ _ htarget => by cases htarget)
  | @handoffPlace c target _ hholding =>
      have hholds : r.holds c = some target := by
        unfold SchedRun.holds
        rw [hholding]
        rfl
      apply idleInvariant_handoff h hspared
      · intro t b ht hidle
        have hne : t ≠ target := by
          intro heq
          rw [heq] at ht
          have hspawned := h.held c target b hholds ht
          rw [hidle] at hspawned
          cases hspawned
        unfold takeOver
        rw [(push_links _ _ _).priority, modThread_other _ _ _ hne]
      · intro t b htarget
        cases htarget

end Steps

/-!
# The start
-/

/-- While the CPUs are initialised, every thread has priority 0 and every
thread is an idle thread. -/
theorem initCpu_lowest (calls : List InitCall) {r : SchedRun}
    (h : forall t b, r.alive t = some b -> (r.sched.threads t).priority = 0) :
    forall t b, (calls.foldl initCpu r).alive t = some b ->
      ((calls.foldl initCpu r).sched.threads t).priority = 0 := by
  refine initCpus_records (P := fun _ th => th.priority = 0) ?_ calls h
  intro s c idle stack _
  exact (schedInit_done s c idle stack).idle_record.right.right

theorem initCpu_length (calls : List InitCall) (r : SchedRun) :
    (calls.foldl initCpu r).tids.length = r.tids.length + calls.length := by
  induction calls generalizing r with
  | nil => rfl
  | cons i calls ih =>
      rw [List.foldl_cons, ih]
      unfold initCpu SchedRun.born
      simp
      lia

theorem initCpu_handoff (calls : List InitCall) (r : SchedRun) :
    (calls.foldl initCpu r).handoff = r.handoff := by
  induction calls generalizing r with
  | nil => rfl
  | cons i calls ih =>
      rw [List.foldl_cons, ih]
      rfl

theorem idleInvariant_init {ids : Nat -> Nat} {r : SchedRun}
    (hids : ValidIds 1 ids) (hinit : (schedSystem 1 ids).Init r) :
    IdleInvariant r := by
  rcases schedInvariant_init hids Nat.one_pos hinit with ⟨place, lists, hinv⟩
  rcases hinit with ⟨threads, calls, horder, heq⟩
  have hlength : r.tids.length = 1 := by
    have hcalls := horder.cpus.length_eq
    rw [List.length_map, List.length_range] at hcalls
    rw [heq, initCpu_length, hcalls]
    rfl
  have hhandoff : forall c, r.handoff c = HandoffState.idle := by
    intro c
    rw [heq, initCpu_handoff]
    rfl
  constructor
  · intro t b ht _
    have hlt := (hinv.tid.serial t b ht).left
    lia
  · intro t b ht _
    rw [heq] at ht ⊢
    exact initCpu_lowest calls (by intro u b' hu; cases hu) t b ht
  · intro c t b hholds
    unfold SchedRun.holds at hholds
    rw [hhandoff c] at hholds
    cases hholds
  · intro c tid i t b hscan
    rw [hhandoff c] at hscan
    cases hscan

theorem idle_reachable_invariant {ids : Nat -> Nat} {r : SchedRun}
    (hids : ValidIds 1 ids) (hreach : (idleSystem 1 ids).Reachable r) :
    (exists place lists, SchedInvariant r place lists) ∧ IdleInvariant r := by
  apply reachable_invariant
    (P := fun r => (exists place lists, SchedInvariant r place lists) ∧
      IdleInvariant r) _ _ hreach
  · intro s hinit
    exact ⟨schedInvariant_init hids Nat.one_pos hinit,
      idleInvariant_init hids hinit⟩
  · intro s event s' hs hstep
    rcases hs with ⟨⟨place, lists, hinv⟩, hidle⟩
    exact ⟨schedInvariant_step hinv hstep.left,
      idleInvariant_step hidle hinv hstep.left hstep.right⟩

theorem idleLast_of_lowest {r : SchedRun} {place : Nat -> Option Place}
    {lists : Loc -> List Nat} (hinv : SchedInvariant r place lists)
    (hlowest : forall c r', SchedStep r (SchedEvent.reschedule c) r' ->
      IdleLowest r') : IdleLast r := by
  intro c r' t b hstep ht hidle hnow _ q hpos hq
  have hzero := hlowest c r' hstep t b ht hidle
  cases hstep with
  | reschedule hc hrun =>
      apply schedReschedule_above hinv.placed (hinv.running c hc) hrun hq
      rw [show (_ : Nat) = t from hnow, show (_ : Nat) = 0 from hzero]
      exact hpos

/-!
# Several CPUs

CPU 1 comes first to `sched_init`, so the idle thread of CPU 0 has id 2.  A
thread of priority 31 is created on CPU 0 and does not stop running.
-/

def idleAddress (c : Nat) : Nat := 0x1000 * (c + 1)

def idleCall (c : Nat) : InitCall where
  cpu := c
  idle := idleAddress c
  stack := 0

def secondFirst (n : Nat) : List InitCall :=
  idleCall 1 :: idleCall 0 ::
    (List.range n).map (fun k => idleCall (k + 2))

theorem ValidIds.count_le {n : Nat} {ids : Nat -> Nat} (h : ValidIds n ids) :
    n <= 64 := by
  have hmaps : forall c, c ∈ Finset.range n -> ids c ∈ Finset.range 64 := by
    intro c hc
    rw [Finset.mem_range] at hc ⊢
    exact h.lt c hc
  have hinj : Set.InjOn ids (Finset.range n) := by
    intro c hc d hd heq
    simp only [Finset.coe_range, Set.mem_Iio] at hc hd
    exact h.distinct c d hc hd heq
  have hcard := Finset.card_le_card_of_injOn ids hmaps hinj
  simpa using hcard

theorem secondFirst_order {n : Nat} (hn : n + 2 <= 64) :
    InitOrder (n + 2) (secondFirst n) := by
  have hcpus : (secondFirst n).map InitCall.cpu =
      1 :: 0 :: (List.range n).map (fun k => k + 2) := by
    simp [secondFirst, idleCall, Function.comp_def]
  have hrange : List.range (n + 2) =
      0 :: 1 :: (List.range n).map (fun k => k + 2) := by
    rw [List.range_succ_eq_map, List.range_succ_eq_map]
    simp [Function.comp_def]
  have hperm : ((secondFirst n).map InitCall.cpu).Perm
      (List.range (n + 2)) := by
    rw [hcpus, hrange]
    exact List.Perm.swap _ _ _
  have hidles : (secondFirst n).map InitCall.idle =
      ((secondFirst n).map InitCall.cpu).map idleAddress := by
    simp [secondFirst, idleCall, Function.comp_def]
  constructor
  · exact hperm
  · rw [hidles]
    apply List.Nodup.map
    · intro c d heq
      unfold idleAddress at heq
      lia
    · rw [hperm.nodup_iff]
      exact List.nodup_range
  · intro i hi
    have hcpu : i.cpu < n + 2 := by
      have hmem := List.mem_map_of_mem (f := InitCall.cpu) hi
      rw [hperm.mem_iff, List.mem_range] at hmem
      exact hmem
    have haddress : i.idle = idleAddress i.cpu := by
      simp only [secondFirst, List.mem_cons, List.mem_map] at hi
      rcases hi with heq | heq | ⟨k, _, heq⟩
      · rw [heq]
        rfl
      · rw [heq]
        rfl
      · rw [← heq]
        rfl
    rw [haddress]
    unfold idleAddress
    constructor
    · lia
    · exact Nat.lt_of_lt_of_le (show 0x1000 * (i.cpu + 1) < 0x100000 by lia)
        (by decide)

theorem schedInit_extras {s : SchedState}
    (h : forall id, s.extras id = { sleepQueue := 0, lastAgeTick := 0 })
    (c idle stack id : Nat) :
    (schedInit s c idle stack).extras id =
      { sleepQueue := 0, lastAgeTick := 0 } := by
  have hcleared : forall j, (if s.nextTid = 1 then
      { s with extras := fun _ => { sleepQueue := 0, lastAgeTick := 0 } }
      else s).extras j = { sleepQueue := 0, lastAgeTick := 0 } := by
    intro j
    split
    case isTrue => rfl
    case isFalse => exact h j
  unfold schedInit
  generalize (if s.nextTid = 1 then
    { s with extras := fun _ => { sleepQueue := 0, lastAgeTick := 0 } }
    else s) = s1 at hcleared
  simp only [modExtra, modCpu]
  by_cases hsame : id = ((update s1.cpus c
      { s1.cpus c with schedThread := idle, readyQueues := fun _ => 0 })
      c).cpuId
  · rw [hsame, update_self, hcleared]
  · rw [update_of_ne hsame, hcleared]

def busyAddress : Nat := 0x800000

structure Idling (n : Nat) (r : SchedRun) : Prop where
  looks : Looks r.sched (idleAddress 0) (fun _ => 0) n r.sched.nextTid 0
  extras : forall id, r.sched.extras id =
    { sleepQueue := 0, lastAgeTick := 0 }
  record : (r.sched.threads (idleAddress 0)).tid = 2 ∧
    (r.sched.threads (idleAddress 0)).state = ThreadState.running ∧
    (r.sched.threads (idleAddress 0)).priority = 0 ∧
    (r.sched.threads (idleAddress 0)).totalTicks = 0
  alive : r.alive (idleAddress 0) = some { serial := 1, spawned := false }
  fresh : r.alive busyAddress = none
  handoff : forall c, r.handoff c = HandoffState.idle

theorem idling_init {n : Nat} {r : SchedRun} (h : Idling n r) {c : Nat}
    (hc : c ≠ 0) (hlt : c < 64) : Idling n (initCpu r (idleCall c)) := by
  have hdone := schedInit_done r.sched c (idleAddress c) 0
  have hidle : idleAddress 0 ≠ idleAddress c := by
    unfold idleAddress
    lia
  have hbusy : busyAddress ≠ idleAddress c := by
    unfold idleAddress busyAddress
    lia
  have hextras := schedInit_extras h.extras c (idleAddress c) 0
  constructor
  · constructor
    · exact hdone.count.trans h.looks.count
    · exact (congrArg Cpu.schedThread (hdone.other 0 hc.symm)).trans
        h.looks.running
    · exact (congrArg Cpu.readyQueues (hdone.other 0 hc.symm)).trans
        h.looks.queues
    · exact hextras _
    · rfl
    · exact hdone.next_cpu.trans h.looks.next_cpu
  · exact hextras
  · rw [show (initCpu r (idleCall c)).sched.threads (idleAddress 0) =
      r.sched.threads (idleAddress 0) from hdone.records _ hidle]
    exact h.record
  · exact (born_alive_other _ _ _ hidle).trans h.alive
  · exact (born_alive_other _ _ _ hbusy).trans h.fresh
  · exact h.handoff

theorem idling_start (n : Nat) (ids : Nat -> Nat) :
    Idling (n + 2) (initCpu (initCpu
      (bootRun (n + 2) ids (fun _ => zeroThread)) (idleCall 1))
      (idleCall 0)) := by
  have hextras : forall id, (initCpu (initCpu
      (bootRun (n + 2) ids (fun _ => zeroThread)) (idleCall 1))
      (idleCall 0)).sched.extras id =
      { sleepQueue := 0, lastAgeTick := 0 } :=
    schedInit_extras (schedInit_extras (fun _ => rfl) 1 _ 0) 0 _ 0
  constructor
  · exact ⟨rfl, rfl, rfl, hextras _, rfl, rfl⟩
  · exact hextras
  · exact ⟨rfl, rfl, rfl, rfl⟩
  · rfl
  · rfl
  · intro c
    rfl

theorem idling_all {n : Nat} {r : SchedRun} (h : Idling n r)
    (cs : List Nat) (hcs : forall c, c ∈ cs -> c ≠ 0 ∧ c < 64) :
    Idling n ((cs.map idleCall).foldl initCpu r) := by
  induction cs generalizing r with
  | nil => exact h
  | cons c cs ih =>
      rcases hcs c List.mem_cons_self with ⟨hne, hlt⟩
      exact ih (idling_init h hne hlt)
        (fun d hd => hcs d (List.mem_cons_of_mem c hd))

theorem idling_reachable {n : Nat} (ids : Nat -> Nat) (hn : n + 2 <= 64) :
    exists r, (idleSystem (n + 2) ids).Reachable r ∧ Idling (n + 2) r := by
  refine ⟨_, ⟨_, [], ⟨fun _ => zeroThread, secondFirst n,
    secondFirst_order hn, rfl⟩, Runs.nil _⟩, ?_⟩
  have hall := idling_all (idling_start n ids)
    ((List.range n).map (fun k => k + 2)) (by
      intro c hc
      rcases List.mem_map.mp hc with ⟨k, hk, heq⟩
      rw [List.mem_range] at hk
      lia)
  rw [List.map_map] at hall
  exact hall

theorem idleSpared_of_idle {r : SchedRun}
    (h : forall c, r.handoff c = HandoffState.idle) : IdleSpared r := by
  intro c tid i t b hscan
  rw [h c] at hscan
  cases hscan

structure IdleWaits (k : Nat) (r : SchedRun) : Prop where
  waits : Waits r.sched (idleAddress 0) busyAddress k
  count : 0 < r.sched.cpuCount
  alive : r.alive (idleAddress 0) = some { serial := 1, spawned := false }
  handoff : forall c, r.handoff c = HandoffState.idle

section Run

variable {n : Nat} {ids : Nat -> Nat} {r : SchedRun}

theorem idleWaits_start (ids : Nat -> Nat) (hn : n + 2 <= 64) :
    exists r, (idleSystem (n + 2) ids).Reachable r ∧ IdleWaits 0 r := by
  rcases idling_reachable ids hn with ⟨r, hreach, hidling⟩
  rcases hidling.record with ⟨htid, hstate, hpriority, hticks⟩
  rcases spawn_started hidling.looks ⟨hstate, hpriority⟩ (by decide)
    (show busyAddress ≠ idleAddress 0 by decide)
    ⟨by decide, by decide, hidling.fresh⟩ (Nat.succ_pos _) with
    ⟨r1, r2, hspawn, hhandoff1, hrun, hstarted⟩
  have hidle1 : forall c, r1.handoff c = HandoffState.idle := by
    rw [hhandoff1]
    exact hidling.handoff
  have hidle2 : forall c, r2.handoff c = HandoffState.idle := by
    rw [hstarted.handoff]
    exact hidling.handoff
  refine ⟨r2, reachable_step (reachable_step hreach
    ⟨hspawn, idleSpared_of_idle hidle1⟩) ⟨hrun, idleSpared_of_idle hidle2⟩,
    ?_, ?_, ?_, hidle2⟩
  · constructor
    · exact hstarted.looks.running
    · exact hstarted.looks.queues
    · exact hstarted.looks.quiet
    · rw [hstarted.idle]
      show (r.sched.threads (idleAddress 0)).tid ≠ 1
      rw [htid]
      decide
    · rw [hstarted.idle]
      exact ⟨hpriority, rfl, hticks⟩
    · exact hstarted.thread
  · rw [hstarted.looks.count]
    exact Nat.succ_pos _
  · rw [hstarted.alive _ (by decide)]
    exact hidling.alive

theorem idleWaits_round {k : Nat} (h : IdleWaits k r) (hk : k < 19)
    (hreach : (idleSystem (n + 2) ids).Reachable r) :
    exists r', (idleSystem (n + 2) ids).Reachable r' ∧
      IdleWaits (k + 1) r' := by
  rcases waits_round h.waits hk (by decide) (by decide) (by decide) with
    ⟨result, hrun, hwaits, hcount⟩
  have halive : r.aliveAfter 0 result.state = r.alive := by
    unfold SchedRun.aliveAfter
    rw [hwaits.running, h.waits.running, if_neg (fun hgone => hgone.left rfl)]
  refine ⟨_, reachable_step hreach ⟨SchedStep.reschedule h.count hrun,
    idleSpared_of_idle h.handoff⟩, hwaits, ?_, ?_, h.handoff⟩
  · show 0 < result.state.cpuCount
    rw [hcount]
    exact h.count
  · show r.aliveAfter 0 result.state (idleAddress 0) = _
    rw [halive]
    exact h.alive

theorem idleWaits_rounds (ids : Nat -> Nat) (hn : n + 2 <= 64) (k : Nat)
    (hk : k <= 19) :
    exists r, (idleSystem (n + 2) ids).Reachable r ∧ IdleWaits k r := by
  induction k with
  | zero => exact idleWaits_start ids hn
  | succ k ih =>
      rcases ih (Nat.le_of_succ_le hk) with ⟨r, hreach, hwaits⟩
      exact idleWaits_round hwaits hk hreach

theorem idleSystem_reachable {cpuCount : Nat}
    (hreach : (idleSystem cpuCount ids).Reachable r) :
    (schedSystem cpuCount ids).Reachable r := by
  rcases hreach with ⟨r0, trace, hinit, hrun⟩
  refine ⟨r0, trace, hinit, ?_⟩
  clear hinit
  induction hrun with
  | nil => exact Runs.nil _
  | snoc _ hstep ih => exact Runs.snoc ih hstep.left

/-- With several CPUs an idle thread is raised in some run. -/
theorem idle_raised (hids : ValidIds (n + 2) ids) :
    exists r, (idleSystem (n + 2) ids).Reachable r ∧ ¬ IdleLowest r := by
  rcases idleWaits_rounds ids hids.count_le 19 (Nat.le_refl _) with
    ⟨r, hreach, hwaits⟩
  rcases sched_reachable_invariant hids (Nat.succ_pos _)
    (idleSystem_reachable hreach) with ⟨place, lists, hinv⟩
  have hcurrent := hinv.running 0 hwaits.count
  rcases schedReschedule_outcome 0 400 400 hinv.placed hcurrent with
    ⟨s1, _, _, result, _, _, hserve, _, _, _, hrun, _, _, houtcome⟩
  rw [hwaits.waits.running] at hserve houtcome
  have hne : idleAddress 0 ≠ busyAddress := by decide
  have hraised := waits_raised hwaits.waits (by decide) hne hserve
  have hsame : (result.state.threads (idleAddress 0)).priority =
      (s1.threads (idleAddress 0)).priority := by
    cases houtcome with
    | stay _ => rfl
    | switch _ _ hqueues =>
        by_cases hcase : idleAddress 0 = (result.state.cpus 0).schedThread
        · rcases hqueues.entered with ⟨m, hm⟩
          rw [← hcase] at hm
          rw [hm]
          rfl
        · rcases hqueues.others _ hne hcase with ⟨m, hm⟩
          rw [hm]
  have halive := aliveAfter_stays 0 result.state (r := r) (by
    rw [hwaits.waits.running, hwaits.waits.busy.left]
    decide)
  refine ⟨_, reachable_step hreach ⟨SchedStep.reschedule hwaits.count hrun,
    idleSpared_of_idle hwaits.handoff⟩, ?_⟩
  intro hlowest
  have hzero := hlowest (idleAddress 0) { serial := 1, spawned := false }
    (by
      show r.aliveAfter 0 result.state (idleAddress 0) = _
      rw [halive]
      exact hwaits.alive) rfl
  rw [← hsame, show (result.state.threads (idleAddress 0)).priority = 0 from
    hzero] at hraised
  cases hraised

end Run

/-!
# The theorem about runs
-/

theorem sched_idle_lowest_iff {cpuCount : Nat} {ids : Nat -> Nat}
    (hids : ValidIds cpuCount ids) (hpos : 0 < cpuCount) :
    (forall r, (idleSystem cpuCount ids).Reachable r ->
      IdleLowest r ∧ IdleLast r) <-> cpuCount = 1 := by
  constructor
  · intro hall
    by_cases hone : cpuCount = 1
    · exact hone
    · rcases Nat.exists_eq_add_of_le' (show 2 <= cpuCount by lia) with
        ⟨n, hn⟩
      rw [hn] at hids hall
      rcases idle_raised hids with ⟨r, hreach, hnot⟩
      exact absurd (hall r hreach).left hnot
  · intro hone r hreach
    rw [hone] at hids hreach
    rcases idle_reachable_invariant hids hreach with ⟨⟨place, lists, hinv⟩, hidle⟩
    refine ⟨hidle.lowest, idleLast_of_lowest hinv ?_⟩
    intro c r' hstep
    exact hidle.reschedule hinv hstep

theorem sched_idle_lowest_iff_oneRuns :
    (oneRuns.sched.cpus 0).schedThread = 0x5000 ∧
      IdleLowest oneRuns ∧ IdleLast oneRuns := by
  have hspared : forall r : SchedRun,
      r.handoff = (fun _ => HandoffState.idle) -> IdleSpared r := by
    intro r hidle c tid i t b hscan
    rw [hidle] at hscan
    cases hscan
  have hspawn : (idleSystem 1 (fun _ => 0)).Step oneCpu
      (SchedEvent.spawn 0x5000) oneThread := ⟨oneThread_step, hspared _ rfl⟩
  have hruns : (idleSystem 1 (fun _ => 0)).Step oneThread
      (SchedEvent.reschedule 0) oneRuns :=
    ⟨SchedRun.rescheduled_step (by decide) (by decide),
      hspared _ SchedRun.rescheduled_handoff⟩
  exact ⟨by decide, (sched_idle_lowest_iff oneCpu_ids Nat.one_pos).mpr rfl _
    ⟨oneCpu, _, oneCpu_init, Runs.snoc (runs_single hspawn) hruns⟩⟩

/-- Two CPUs, where CPU 1 was the first one to call `sched_init`. -/
theorem sched_idle_raised_twoCpus :
    exists r, (idleSystem 2 (fun c => c)).Reachable r ∧ ¬ IdleLowest r :=
  idle_raised (n := 0) ⟨fun c hc => by lia, fun c d _ _ heq => heq⟩

end Sched
end Barium
