import Mathlib.Data.List.Range
import Mathlib.Data.List.Nodup
import Barium.Foundation.Run
import Barium.Sched.Reschedule

/-!
# Runs of the scheduler

Any number of CPUs create, schedule, put to sleep, end and hand off threads, one
critical section after the other.
-/

namespace Barium
namespace Sched

open Foundation
open Function
open LinkedList

/-!
# The steps
-/

/-- How far a CPU is in `sched_handoff`: it looks through the queues of CPU
`i`, or it has taken a thread out and not put it in again. -/
inductive HandoffState where
  | idle
  | scanning (tid i : Nat)
  | holding (target : Nat)

/-- A thread's number in the order of creation, and whether `sched_spawn` or
`sched_spawn_user` made it. -/
structure Birth where
  serial : Nat
  spawned : Bool

/-- The scheduler with the calls of `sched_handoff` that are under way, the
threads that have not been switched away from after `sched_exit`, and all the
thread ids given out so far. -/
structure SchedRun where
  sched : SchedState
  handoff : Nat -> HandoffState
  alive : Nat -> Option Birth
  tids : List Nat

def HandoffState.target : HandoffState -> Option Nat
  | .holding t => some t
  | _ => none

def SchedRun.holds (r : SchedRun) (c : Nat) : Option Nat :=
  (r.handoff c).target

def SchedRun.Spawned (r : SchedRun) (t : Nat) : Prop :=
  exists b, r.alive t = some b ∧ b.spawned = true

/-- What `kmalloc` returns for a new thread. -/
structure FreshThread (r : SchedRun) (t : Nat) : Prop where
  ne_zero : t ≠ 0
  lt : t < 2 ^ 64
  unused : r.alive t = none

/-- The name has room in `char name[16]`. -/
def NameFits (name : Option (List UInt8)) : Prop :=
  forall bytes, name = some bytes -> bytes.length < 16

def SchedRun.born (r : SchedRun) (sched : SchedState) (t tid : Nat)
    (spawned : Bool) : SchedRun :=
  { r with
    sched := sched
    alive := update r.alive t
      (some { serial := r.tids.length, spawned := spawned })
    tids := r.tids ++ [tid] }

/-- The threads that are alive after CPU `c` has gone over to `sched`: a dead
thread that it has left is not. -/
def SchedRun.aliveAfter (r : SchedRun) (c : Nat) (sched : SchedState) :
    Nat -> Option Birth :=
  if (sched.cpus c).schedThread ≠ (r.sched.cpus c).schedThread ∧
      (r.sched.threads (r.sched.cpus c).schedThread).state =
        ThreadState.dead then
    update r.alive (r.sched.cpus c).schedThread none
  else
    r.alive

inductive SchedEvent where
  | spawn (thread : Nat)
  | spawnUser (thread : Nat)
  | reschedule (cpu : Nat)
  | sleep (cpu : Nat)
  | exit (cpu : Nat)
  | handoff (cpu : Nat)

inductive SchedStep : SchedRun -> SchedEvent -> SchedRun -> Prop where
  | spawn {r : SchedRun} {thread stack entry priority : Nat}
      {name : Option (List UInt8)} :
      FreshThread r thread -> NameFits name ->
      SchedStep r (SchedEvent.spawn thread)
        (r.born (schedSpawn r.sched thread stack entry priority name).state
          thread (schedSpawn r.sched thread stack entry priority name).ret
          true)
  | spawnUser {r : SchedRun} {thread kstack ustack entry priority : Nat}
      {name : Option (List UInt8)} :
      FreshThread r thread -> NameFits name ->
      SchedStep r (SchedEvent.spawnUser thread)
        (r.born
          (schedSpawnUser r.sched thread kstack ustack entry priority
            name).state thread
          (schedSpawnUser r.sched thread kstack ustack entry priority
            name).ret true)
  | reschedule {r : SchedRun} {c rsp tick ageTick : Nat}
      {result : RescheduleResult} :
      c < r.sched.cpuCount ->
      schedReschedule r.sched c rsp tick ageTick = some result ->
      SchedStep r (SchedEvent.reschedule c)
        { r with
          sched := result.state
          alive := r.aliveAfter c result.state }
  | sleep {r : SchedRun} {c ms tick : Nat} :
      c < r.sched.cpuCount ->
      SchedStep r (SchedEvent.sleep c)
        { r with sched := schedSleep r.sched c ms tick }
  | exit {r : SchedRun} {c : Nat} :
      c < r.sched.cpuCount ->
      SchedStep r (SchedEvent.exit c)
        { r with sched := schedExit r.sched c }
  | handoffStart {r : SchedRun} {c tid : Nat} :
      c < r.sched.cpuCount -> tid ≠ 0 -> r.handoff c = HandoffState.idle ->
      SchedStep r (SchedEvent.handoff c)
        { r with
          handoff := update r.handoff c
            (HandoffState.scanning tid 0) }
  | handoffMiss {r : SchedRun} {c tid i : Nat} {sched : SchedState} :
      c < r.sched.cpuCount -> r.handoff c = HandoffState.scanning tid i ->
      i < r.sched.cpuCount ->
      findOnCpu i tid (maxPriority + 1) r.sched = some (none, sched) ->
      SchedStep r (SchedEvent.handoff c)
        { r with
          sched := sched
          handoff := update r.handoff c
            (HandoffState.scanning tid (i + 1)) }
  | handoffFind {r : SchedRun} {c tid i target : Nat} {sched : SchedState} :
      c < r.sched.cpuCount -> r.handoff c = HandoffState.scanning tid i ->
      i < r.sched.cpuCount ->
      findOnCpu i tid (maxPriority + 1) r.sched = some (some target, sched) ->
      SchedStep r (SchedEvent.handoff c)
        { r with
          sched := sched
          handoff := update r.handoff c
            (HandoffState.holding target) }
  | handoffNone {r : SchedRun} {c tid i : Nat} :
      c < r.sched.cpuCount -> r.handoff c = HandoffState.scanning tid i ->
      r.sched.cpuCount <= i ->
      SchedStep r (SchedEvent.handoff c)
        { r with
          handoff := update r.handoff c HandoffState.idle }
  | handoffPlace {r : SchedRun} {c target : Nat} :
      c < r.sched.cpuCount -> r.handoff c = HandoffState.holding target ->
      SchedStep r (SchedEvent.handoff c)
        { r with
          sched := takeOver r.sched c target
          handoff := update r.handoff c HandoffState.idle }

/-!
# The start

`sched_init` has run once on every CPU, in any order.
-/

/-- The state before the first `sched_init`; the CPUs have been through
`cpu_init`. -/
def bootSched (cpuCount : Nat) (ids : Nat -> Nat) (threads : Nat -> Thread) :
    SchedState where
  threads := threads
  cpus := fun c =>
    { cpuId := ids c
      schedThread := 0
      readyQueues := fun _ => 0
      kernelStack := 0
      tssRsp0 := 0 }
  cpuCount := cpuCount
  extras := fun _ => { sleepQueue := 0, lastAgeTick := 0 }
  nextTid := 1
  nextCpuIndex := 0

def bootRun (cpuCount : Nat) (ids : Nat -> Nat) (threads : Nat -> Thread) :
    SchedRun where
  sched := bootSched cpuCount ids threads
  handoff := fun _ => HandoffState.idle
  alive := fun _ => none
  tids := []

/-- A call of `sched_init`: the CPU and what `kmalloc` returns. -/
structure InitCall where
  cpu : Nat
  idle : Nat
  stack : Nat

def initCpu (r : SchedRun) (i : InitCall) : SchedRun :=
  r.born (schedInit r.sched i.cpu i.idle i.stack) i.idle r.sched.nextTid false

/-- Every CPU is initialised once, with an idle thread of its own. -/
structure InitOrder (cpuCount : Nat) (calls : List InitCall) : Prop where
  cpus : (calls.map InitCall.cpu).Perm (List.range cpuCount)
  idles : (calls.map InitCall.idle).Nodup
  address : forall i, i ∈ calls -> i.idle ≠ 0 ∧ i.idle < 2 ^ 64

/-- The ids of the CPUs are distinct indices of `cpu_extras`. -/
structure ValidIds (cpuCount : Nat) (ids : Nat -> Nat) : Prop where
  lt : forall c, c < cpuCount -> ids c < 64
  distinct : forall c d, c < cpuCount -> d < cpuCount -> ids c = ids d -> c = d

def schedSystem (cpuCount : Nat) (ids : Nat -> Nat) :
    TransitionSystem SchedRun SchedEvent where
  Init := fun r => exists threads calls, InitOrder cpuCount calls ∧
    r = calls.foldl initCpu (bootRun cpuCount ids threads)
  Step := SchedStep

/-!
# The invariant
-/

structure TidInvariant (r : SchedRun) : Prop where
  next_tid : r.sched.nextTid = Word.add r.tids.length 1
  tids : r.tids = (List.range r.tids.length).map (fun k => Word.add k 1)
  serial : forall t b, r.alive t = some b ->
    b.serial < r.tids.length ∧
      (r.sched.threads t).tid = Word.add b.serial 1
  distinct : forall t u b b', r.alive t = some b -> r.alive u = some b' ->
    b.serial = b'.serial -> t = u

structure SchedInvariant (r : SchedRun) (place : Nat -> Option Place)
    (lists : Loc -> List Nat) : Prop where
  placed : Placed r.sched r.holds r.Spawned place lists
  alive_iff : forall t, r.alive t = none <-> place t = none
  running : forall c, c < r.sched.cpuCount ->
    place (r.sched.cpus c).schedThread = some (Place.running c)
  holding : forall c t, r.holds c = some t ->
    place t = some (Place.held c)
  next_cpu : r.sched.nextCpuIndex < r.sched.cpuCount
  tid : TidInvariant r

/-!
# Thread ids
-/

section Tids

variable {r : SchedRun}

theorem born_alive (sched : SchedState) (t tid : Nat) (spawned : Bool) :
    (r.born sched t tid spawned).alive t ≠ none := by
  simp [SchedRun.born]

theorem born_alive_other (sched : SchedState) {t u : Nat} (tid : Nat)
    (spawned : Bool) (h : u ≠ t) :
    (r.born sched t tid spawned).alive u = r.alive u :=
  update_of_ne h _ _

theorem born_cases {sched : SchedState} {t tid u : Nat} {spawned : Bool}
    {b : Birth} (h : (r.born sched t tid spawned).alive u = some b) :
    (u = t ∧ b = { serial := r.tids.length, spawned := spawned }) ∨
      (u ≠ t ∧ r.alive u = some b) := by
  rcases update_some_cases h with ⟨heq, hb⟩ | hold
  · exact Or.inl ⟨heq, (Option.some.inj hb).symm⟩
  · exact Or.inr hold

theorem TidInvariant.born (h : TidInvariant r) {sched : SchedState} {t : Nat}
    {spawned : Bool}
    (hnext : sched.nextTid = Word.add r.sched.nextTid 1)
    (htid : (sched.threads t).tid = r.sched.nextTid)
    (hothers : forall u, u ≠ t ->
      (sched.threads u).tid = (r.sched.threads u).tid) :
    TidInvariant (r.born sched t r.sched.nextTid spawned) := by
  have hlength : (r.tids ++ [r.sched.nextTid]).length = r.tids.length + 1 := by
    simp
  have hcases : forall u b,
      (r.born sched t r.sched.nextTid spawned).alive u = some b ->
      (u = t ∧ b.serial = r.tids.length) ∨ (u ≠ t ∧ r.alive u = some b) := by
    intro u b hu
    rcases born_cases hu with ⟨heq, hb⟩ | hold
    · exact Or.inl ⟨heq, congrArg Birth.serial hb⟩
    · exact Or.inr hold
  constructor
  · show sched.nextTid = Word.add (r.tids ++ [r.sched.nextTid]).length 1
    rw [hlength, hnext, h.next_tid, Word.add_add]
    unfold Word.add
    rw [Nat.add_assoc]
  · show r.tids ++ [r.sched.nextTid] = _
    unfold SchedRun.born
    rw [hlength, List.range_succ, List.map_append, ← h.tids, h.next_tid]
    rfl
  · intro u b hu
    show b.serial < (r.tids ++ [r.sched.nextTid]).length ∧ _
    rw [hlength]
    rcases hcases u b hu with ⟨heq, hserial⟩ | ⟨hne, hold⟩
    · rw [heq, hserial]
      exact ⟨Nat.lt_succ_self _, htid.trans h.next_tid⟩
    · rcases h.serial u b hold with ⟨hlt, hsame⟩
      exact ⟨Nat.lt_succ_of_lt hlt, (hothers u hne).trans hsame⟩
  · intro u v b b' hu hv hserial
    rcases hcases u b hu with ⟨hut, hbu⟩ | ⟨_, hold⟩
    · rcases hcases v b' hv with ⟨hvt, _⟩ | ⟨_, hold'⟩
      · rw [hut, hvt]
      · have hlt := (h.serial v b' hold').left
        lia
    · rcases hcases v b' hv with ⟨_, hbv⟩ | ⟨_, hold'⟩
      · have hlt := (h.serial u b hold).left
        lia
      · exact h.distinct u v b b' hold hold' hserial

theorem TidInvariant.of_subset (h : TidInvariant r) {r' : SchedRun}
    (htids : r'.tids = r.tids)
    (hnext : r'.sched.nextTid = r.sched.nextTid)
    (hthreads : forall t, (r'.sched.threads t).tid =
      (r.sched.threads t).tid)
    (halive : forall t b, r'.alive t = some b -> r.alive t = some b) :
    TidInvariant r' := by
  constructor
  · rw [hnext, htids]
    exact h.next_tid
  · rw [htids]
    exact h.tids
  · intro t b ht
    rw [htids, hthreads]
    exact h.serial t b (halive t b ht)
  · intro t u b b' ht hu hserial
    exact h.distinct t u b b' (halive t b ht) (halive u b' hu) hserial

/-- As long as the counter has not gone round, the ids are distinct. -/
theorem TidInvariant.nodup (h : TidInvariant r)
    (hlength : r.tids.length <= 2 ^ 64) :
    r.tids.Nodup ∧ forall t u b b', r.alive t = some b -> r.alive u = some b' ->
      (r.sched.threads t).tid = (r.sched.threads u).tid -> t = u := by
  have hinj : forall j k, j < r.tids.length -> k < r.tids.length ->
      Word.add j 1 = Word.add k 1 -> j = k := by
    intro j k hj hk heq
    unfold Word.add at heq
    generalize 2 ^ 64 = m at heq hlength
    generalize r.tids.length = n at hj hk hlength
    by_cases hjm : j + 1 = m
    · by_cases hkm : k + 1 = m
      · lia
      · rw [hjm, Nat.mod_self, Nat.mod_eq_of_lt (by lia)] at heq
        lia
    · by_cases hkm : k + 1 = m
      · rw [hkm, Nat.mod_self, Nat.mod_eq_of_lt (by lia)] at heq
        lia
      · rw [Nat.mod_eq_of_lt (by lia), Nat.mod_eq_of_lt (by lia)] at heq
        lia
  constructor
  · rw [h.tids]
    apply List.Nodup.map_on _ List.nodup_range
    intro j hj k hk heq
    exact hinj j k (List.mem_range.mp hj) (List.mem_range.mp hk) heq
  · intro t u b b' ht hu heq
    rcases h.serial t b ht with ⟨hlt, hbt⟩
    rcases h.serial u b' hu with ⟨hlt', hbu⟩
    rw [hbt, hbu] at heq
    exact h.distinct t u b b' ht hu (hinj _ _ hlt hlt' heq)

end Tids

/-!
# The start
-/

/-- While the CPUs are initialised, all queues are empty; `done` are the CPUs
that have an idle thread. -/
structure InitInvariant (cpuCount : Nat) (ids : Nat -> Nat) (done : List Nat)
    (r : SchedRun) (place : Nat -> Option Place) : Prop where
  count : r.sched.cpuCount = cpuCount
  ids : forall c, (r.sched.cpus c).cpuId = ids c
  queues : forall c p, (r.sched.cpus c).readyQueues p = 0
  sleep : forall id, (r.sched.extras id).sleepQueue = 0
  idle : forall c, r.handoff c = HandoffState.idle
  next_cpu : r.sched.nextCpuIndex = 0
  alive_iff : forall t, r.alive t = none <-> place t = none
  spawned : forall t, ¬ r.Spawned t
  place_running : forall t pl, place t = some pl -> exists c, c ∈ done ∧
    pl = Place.running c ∧ (r.sched.cpus c).schedThread = t
  running : forall c, c ∈ done ->
    place (r.sched.cpus c).schedThread = some (Place.running c)
  address : forall t pl, place t = some pl -> t ≠ 0 ∧ t < 2 ^ 64
  fits : forall t pl, place t = some pl ->
    (r.sched.threads t).state ≠ ThreadState.ready ∧
      (r.sched.threads t).priority <= maxPriority
  tid : TidInvariant r

section Init

variable {cpuCount : Nat} {ids : Nat -> Nat} {done : List Nat} {r : SchedRun}
  {place : Nat -> Option Place}

theorem initInvariant_boot (threads : Nat -> Thread) :
    InitInvariant cpuCount ids [] (bootRun cpuCount ids threads)
      (fun _ => none) := by
  constructor
  · rfl
  · intro c
    rfl
  · intro c p
    rfl
  · intro id
    rfl
  · intro c
    rfl
  · rfl
  · intro t
    exact ⟨fun _ => rfl, fun _ => rfl⟩
  · intro t ht
    rcases ht with ⟨b, hb, _⟩
    cases hb
  · intro t pl hpl
    cases hpl
  · intro c hc
    cases hc
  · intro t pl hpl
    cases hpl
  · intro t pl hpl
    cases hpl
  · constructor
    · rfl
    · rfl
    · intro t b hb
      cases hb
    · intro t u b b' hb
      cases hb

structure InitDone (s : SchedState) (c idle : Nat) (s' : SchedState) :
    Prop where
  count : s'.cpuCount = s.cpuCount
  ids : forall d, (s'.cpus d).cpuId = (s.cpus d).cpuId
  self : (s'.cpus c).schedThread = idle ∧
    (s'.cpus c).readyQueues = fun _ => 0
  other : forall d, d ≠ c -> s'.cpus d = s.cpus d
  sleep : (forall id, (s.extras id).sleepQueue = 0) ->
    forall id, (s'.extras id).sleepQueue = 0
  next_tid : s'.nextTid = Word.add s.nextTid 1
  next_cpu : s'.nextCpuIndex = s.nextCpuIndex
  idle_record : (s'.threads idle).tid = s.nextTid ∧
    (s'.threads idle).state = ThreadState.running ∧
    (s'.threads idle).priority = 0
  records : forall t, t ≠ idle -> s'.threads t = s.threads t

theorem modExtra_sleep_zero {s : SchedState}
    (h : forall id, (s.extras id).sleepQueue = 0) (j id : Nat) :
    ((modExtra s j (fun extra => { extra with sleepQueue := 0 })).extras
      id).sleepQueue = 0 := by
  show (update s.extras j _ id).sleepQueue = 0
  by_cases hidj : id = j
  · rw [hidj, update_self]
  · rw [update_of_ne hidj]
    exact h id

theorem schedInit_done (s : SchedState) (c idle stack : Nat) :
    InitDone s c idle (schedInit s c idle stack) := by
  -- clearing `cpu_extras` does not matter for the other fields
  have hcleared : exists extras,
      (if s.nextTid = 1 then
        { s with extras := fun _ => { sleepQueue := 0, lastAgeTick := 0 } }
      else s) = { s with extras := extras } ∧
      ((forall id, (s.extras id).sleepQueue = 0) ->
        forall id, (extras id).sleepQueue = 0) := by
    by_cases hfirst : s.nextTid = 1
    · rw [if_pos hfirst]
      exact ⟨_, rfl, fun _ _ => rfl⟩
    · rw [if_neg hfirst]
      exact ⟨s.extras, rfl, fun hzero => hzero⟩
  rcases hcleared with ⟨extras, hstart, hzero⟩
  unfold schedInit
  rw [hstart]
  constructor
  · rfl
  · intro d
    show (update s.cpus c _ d).cpuId = _
    by_cases hdc : d = c
    · rw [hdc, update_self]
    · rw [update_of_ne hdc]
  · show (update s.cpus c _ c).schedThread = idle ∧
      (update s.cpus c _ c).readyQueues = _
    rw [update_self]
    exact ⟨rfl, rfl⟩
  · intro d hd
    exact update_of_ne hd _ s.cpus
  · intro hold id
    exact modExtra_sleep_zero (hzero hold) _ id
  · rfl
  · rfl
  · show (update s.threads idle _ idle).tid = _ ∧
      (update s.threads idle _ idle).state = _ ∧
      (update s.threads idle _ idle).priority = _
    rw [update_self]
    exact ⟨rfl, rfl, rfl⟩
  · intro t ht
    exact update_of_ne ht _ s.threads

/-- What `sched_init` makes true of an idle thread's record holds of all records
while the CPUs are initialised. -/
theorem initCpus_records {P : Birth -> Thread -> Prop} {r : SchedRun}
    (hidle : forall s c idle stack serial,
      P { serial := serial, spawned := false }
        ((schedInit s c idle stack).threads idle))
    (calls : List InitCall)
    (h : forall t b, r.alive t = some b -> P b (r.sched.threads t)) :
    forall t b, (calls.foldl initCpu r).alive t = some b ->
      P b ((calls.foldl initCpu r).sched.threads t) := by
  induction calls generalizing r with
  | nil => exact h
  | cons i calls ih =>
      apply ih
      intro t b ht
      have hdone := schedInit_done r.sched i.cpu i.idle i.stack
      show P b ((schedInit r.sched i.cpu i.idle i.stack).threads t)
      rcases born_cases ht with ⟨heq, hb⟩ | ⟨hne, hold⟩
      · rw [heq, hb]
        exact hidle _ _ _ _ _
      · rw [hdone.records t hne]
        exact h t b hold

theorem initInvariant_init {i : InitCall}
    (h : InitInvariant cpuCount ids done r place) (hcpu : i.cpu ∉ done)
    (hidle : place i.idle = none)
    (haddress : i.idle ≠ 0 ∧ i.idle < 2 ^ 64) :
    InitInvariant cpuCount ids (done ++ [i.cpu]) (initCpu r i)
      (update place i.idle (some (Place.running i.cpu))) := by
  have hdone := schedInit_done r.sched i.cpu i.idle i.stack
  have hcases : forall t pl,
      update place i.idle (some (Place.running i.cpu)) t = some pl ->
      (t = i.idle ∧ pl = Place.running i.cpu) ∨
        (t ≠ i.idle ∧ place t = some pl) := by
    intro t pl hpl
    by_cases hhere : t = i.idle
    · rw [hhere, update_self] at hpl
      cases hpl
      exact Or.inl ⟨hhere, rfl⟩
    · rw [update_of_ne hhere] at hpl
      exact Or.inr ⟨hhere, hpl⟩
  constructor
  · exact hdone.count.trans h.count
  · intro c
    exact (hdone.ids c).trans (h.ids c)
  · intro c p
    show ((schedInit r.sched i.cpu i.idle i.stack).cpus c).readyQueues p = 0
    by_cases hcase : c = i.cpu
    · rw [hcase, hdone.self.right]
    · rw [hdone.other c hcase]
      exact h.queues c p
  · exact hdone.sleep h.sleep
  · exact h.idle
  · exact hdone.next_cpu.trans h.next_cpu
  · intro t
    show update r.alive i.idle _ t = none <-> _
    by_cases hsame : t = i.idle
    · rw [hsame, update_self, update_self]
      simp
    · rw [update_of_ne hsame, update_of_ne hsame]
      exact h.alive_iff t
  · intro t ht
    rcases ht with ⟨b, hb, hspawned⟩
    rcases born_cases hb with ⟨_, hnew⟩ | ⟨_, hold⟩
    · rw [hnew] at hspawned
      cases hspawned
    · exact h.spawned t ⟨b, hold, hspawned⟩
  · intro t pl hpl
    show exists c, c ∈ done ++ [i.cpu] ∧ pl = Place.running c ∧
      ((schedInit r.sched i.cpu i.idle i.stack).cpus c).schedThread = t
    rcases hcases t pl hpl with ⟨heq, hrun⟩ | ⟨_, hold⟩
    · exact ⟨i.cpu, by simp, hrun, hdone.self.left.trans heq.symm⟩
    · rcases h.place_running t pl hold with ⟨c, hc, hrun, hthread⟩
      have hne : c ≠ i.cpu := by
        intro heq
        rw [heq] at hc
        exact hcpu hc
      refine ⟨c, List.mem_append_left _ hc, hrun, ?_⟩
      rw [hdone.other c hne]
      exact hthread
  · intro c hc
    show update place i.idle _
      ((schedInit r.sched i.cpu i.idle i.stack).cpus c).schedThread = _
    rcases List.mem_append.mp hc with hold | hnew
    · have hne : c ≠ i.cpu := by
        intro heq
        rw [heq] at hold
        exact hcpu hold
      have hrunning := h.running c hold
      rw [hdone.other c hne]
      rw [update_of_ne]
      · exact hrunning
      · intro heq
        rw [heq, hidle] at hrunning
        cases hrunning
    · rw [List.mem_singleton.mp hnew, hdone.self.left, update_self]
  · intro t pl hpl
    rcases hcases t pl hpl with ⟨heq, _⟩ | ⟨_, hold⟩
    · rw [heq]
      exact haddress
    · exact h.address t pl hold
  · intro t pl hpl
    show ((schedInit r.sched i.cpu i.idle i.stack).threads t).state ≠ _ ∧
      ((schedInit r.sched i.cpu i.idle i.stack).threads t).priority <= _
    rcases hcases t pl hpl with ⟨heq, _⟩ | ⟨hne, hold⟩
    · rw [heq, hdone.idle_record.right.left, hdone.idle_record.right.right]
      simp
    · rw [hdone.records t hne]
      exact h.fits t pl hold
  · apply h.tid.born
    · exact hdone.next_tid
    · exact hdone.idle_record.left
    · intro t ht
      rw [hdone.records t ht]

theorem initInvariant_all (calls : List InitCall)
    (h : InitInvariant cpuCount ids done r place)
    (hcpus : (done ++ calls.map InitCall.cpu).Nodup)
    (hidles : (calls.map InitCall.idle).Nodup)
    (hnew : forall i, i ∈ calls -> place i.idle = none)
    (haddress : forall i, i ∈ calls -> i.idle ≠ 0 ∧ i.idle < 2 ^ 64) :
    exists place', InitInvariant cpuCount ids
      (done ++ calls.map InitCall.cpu) (calls.foldl initCpu r) place' := by
  induction calls generalizing done r place with
  | nil =>
      exists place
      simpa using h
  | cons i calls ih =>
      rw [List.map_cons] at hcpus hidles
      rcases List.nodup_cons.mp hidles with ⟨hi, hrest⟩
      have hcpu : i.cpu ∉ done := by
        intro hmem
        have hdisjoint := (List.nodup_append.mp hcpus).right.right
        exact hdisjoint i.cpu hmem i.cpu List.mem_cons_self rfl
      have hstep := initInvariant_init h hcpu (hnew i List.mem_cons_self)
        (haddress i List.mem_cons_self)
      have hassoc : done ++ (i :: calls).map InitCall.cpu =
          (done ++ [i.cpu]) ++ calls.map InitCall.cpu := by
        simp
      rw [hassoc, List.foldl_cons]
      apply ih hstep
      · simpa using hcpus
      · exact hrest
      · intro j hj
        have hne : j.idle ≠ i.idle := by
          intro heq
          apply hi
          rw [← heq]
          exact List.mem_map_of_mem hj
        rw [update_of_ne hne]
        exact hnew j (List.mem_cons_of_mem i hj)
      · intro j hj
        exact haddress j (List.mem_cons_of_mem i hj)

theorem InitInvariant.toSchedInvariant
    (h : InitInvariant cpuCount ids done r place)
    (hids : ValidIds cpuCount ids) (hpos : 0 < cpuCount)
    (hdone : forall c, c ∈ done <-> c < cpuCount) :
    SchedInvariant r place (fun _ => []) := by
  have hrunning : forall t pl, place t = some pl ->
      exists c, c < cpuCount ∧ pl = Place.running c ∧
        (r.sched.cpus c).schedThread = t := by
    intro t pl hpl
    rcases h.place_running t pl hpl with ⟨c, hc, hrun, hthread⟩
    exact ⟨c, (hdone c).mp hc, hrun, hthread⟩
  constructor
  · constructor
    · intro c d hc hd
      rw [h.ids, h.ids]
      rw [h.count] at hc hd
      exact hids.distinct c d hc hd
    · intro l hl
      rcases l with ⟨c, q⟩
      cases q with
      | ready p => exact h.queues c p
      | sleep => exact h.sleep _
    · intro l
      exact List.nodup_nil
    · intro l t
      constructor
      · intro hmem
        cases hmem
      · intro hqueue
        rcases hrunning t _ hqueue with ⟨c, _, hrun, _⟩
        cases hrun
    · intro t c hpl
      rcases hrunning t _ hpl with ⟨d, _, hrun, hthread⟩
      cases hrun
      exact hthread
    · intro t c hpl
      rcases hrunning t _ hpl with ⟨d, _, hrun, _⟩
      cases hrun
    · exact h.address
    · intro t pl hpl
      rcases hrunning t pl hpl with ⟨d, hd, hrun, _⟩
      rw [hrun, h.count]
      exact hd
    · intro t pl hpl
      rcases hrunning t pl hpl with ⟨d, _, hrun, _⟩
      rw [hrun] at hpl ⊢
      rcases h.fits t _ hpl with ⟨hstate, hpriority⟩
      exact ⟨hstate, hpriority, fun hspawned => absurd hspawned (h.spawned t)⟩
  · exact h.alive_iff
  · intro c hc
    rw [h.count] at hc
    exact h.running c ((hdone c).mpr hc)
  · intro c t hholds
    unfold SchedRun.holds at hholds
    rw [h.idle c] at hholds
    cases hholds
  · rw [h.next_cpu, h.count]
    exact hpos
  · exact h.tid

theorem schedInvariant_init (hids : ValidIds cpuCount ids)
    (hpos : 0 < cpuCount) (hinit : (schedSystem cpuCount ids).Init r) :
    exists place lists, SchedInvariant r place lists := by
  rcases hinit with ⟨threads, calls, horder, heq⟩
  have hboot : InitInvariant cpuCount ids [] (bootRun cpuCount ids threads)
      (fun _ => none) := initInvariant_boot threads
  have hnodup : ([] ++ calls.map InitCall.cpu).Nodup := by
    rw [List.nil_append, horder.cpus.nodup_iff]
    exact List.nodup_range
  rcases initInvariant_all calls hboot hnodup horder.idles (fun _ _ => rfl)
    horder.address with ⟨place, hinv⟩
  rw [← heq] at hinv
  refine ⟨place, fun _ => [], hinv.toSchedInvariant hids hpos ?_⟩
  intro c
  rw [List.nil_append, horder.cpus.mem_iff, List.mem_range]

end Init

end Sched
end Barium
