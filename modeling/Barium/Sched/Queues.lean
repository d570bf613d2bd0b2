import Mathlib.Data.Finset.Card
import Mathlib.Order.Interval.Finset.Nat
import Barium.Foundation.LinkedList
import Barium.Sched.Model

/-!
# Threads in their places

Where every thread is, and what the queues in memory have to do with it.  A
thread has at most one place; one that is just being moved has none.  Each
operation on a queue is described once, as a change of the places.
-/

namespace Barium
namespace Sched

open Foundation
open Function
open LinkedList

inductive Place where
  | running (cpu : Nat)
  | queue (l : Loc)
  | held (cpu : Nat)
  deriving DecidableEq

def Place.cpu : Place -> Nat
  | .running c => c
  | .queue l => l.1
  | .held c => c

def Queue.Valid : Queue -> Prop
  | .ready p => p <= maxPriority
  | .sleep => True

def LocValid (s : SchedState) (l : Loc) : Prop :=
  l.1 < s.cpuCount ∧ l.2.Valid

theorem locValid_ready {s : SchedState} {c p : Nat} (hc : c < s.cpuCount)
    (hp : p <= maxPriority) : LocValid s (c, Queue.ready p) :=
  ⟨hc, hp⟩

/-- What the record of a thread says about its place; `id` is the `cpu_id` of
the CPU that has the thread. -/
def Fits (th : Thread) (id : Nat) (spawned : Prop) : Place -> Prop
  | .running _ =>
      th.state ≠ ThreadState.ready ∧ th.priority <= maxPriority ∧
        (spawned -> th.coreAffinity = id % 2 ^ 8)
  | .queue (_, .ready p) =>
      th.state = ThreadState.ready ∧ th.priority = p ∧ p <= maxPriority ∧
        (spawned -> th.coreAffinity = id % 2 ^ 8)
  | .queue (_, .sleep) =>
      th.state = ThreadState.sleeping ∧ th.priority <= maxPriority ∧
        (spawned -> th.coreAffinity = id % 2 ^ 8)
  | .held _ =>
      th.state = ThreadState.ready ∧ th.priority <= maxPriority

theorem Fits.congr {th th' : Thread} {id : Nat} {spawned : Prop} {pl : Place}
    (h : Fits th id spawned pl) (hstate : th'.state = th.state)
    (hpriority : th'.priority = th.priority)
    (haffinity : th'.coreAffinity = th.coreAffinity) :
    Fits th' id spawned pl := by
  rcases pl with c | ⟨c, q⟩ | c
  · unfold Fits at h ⊢
    rw [hstate, hpriority, haffinity]
    exact h
  · cases q with
    | ready p =>
        unfold Fits at h ⊢
        rw [hstate, hpriority, haffinity]
        exact h
    | sleep =>
        unfold Fits at h ⊢
        rw [hstate, hpriority, haffinity]
        exact h
  · unfold Fits at h ⊢
    rw [hstate, hpriority]
    exact h

/-- The queues in memory hold the threads whose place they are. -/
structure Placed (s : SchedState) (holds : Nat -> Option Nat)
    (spawned : Nat -> Prop) (place : Nat -> Option Place)
    (lists : Loc -> List Nat) : Prop where
  ids : forall c d, c < s.cpuCount -> d < s.cpuCount ->
    (s.cpus c).cpuId = (s.cpus d).cpuId -> c = d
  chain : forall l, LocValid s l ->
    Chain 0 s.next (queueHead s l) (lists l)
  nodup : forall l, (lists l).Nodup
  mem_iff : forall l t, t ∈ lists l <-> place t = some (Place.queue l)
  running : forall t c, place t = some (Place.running c) ->
    (s.cpus c).schedThread = t
  held : forall t c, place t = some (Place.held c) -> holds c = some t
  address : forall t pl, place t = some pl -> t ≠ 0 ∧ t < 2 ^ 64
  cpu_lt : forall t pl, place t = some pl -> pl.cpu < s.cpuCount
  fits : forall t pl, place t = some pl ->
    Fits (s.threads t) (s.cpus pl.cpu).cpuId (spawned t) pl

/-!
# What queue operations leave alone
-/

def Thread.identity (th : Thread) : Thread :=
  { th with
    state := ThreadState.ready
    priority := 0
    ticksRemaining := 0
    totalTicks := 0
    wakeupTick := 0
    next := 0 }

structure Frame (s s' : SchedState) : Prop where
  count : s'.cpuCount = s.cpuCount
  ids : forall c, (s'.cpus c).cpuId = (s.cpus c).cpuId
  running : forall c, (s'.cpus c).schedThread = (s.cpus c).schedThread
  stack_tops : forall c, (s'.cpus c).kernelStack = (s.cpus c).kernelStack ∧
    (s'.cpus c).tssRsp0 = (s.cpus c).tssRsp0
  next_tid : s'.nextTid = s.nextTid
  next_cpu : s'.nextCpuIndex = s.nextCpuIndex
  identity : forall t, (s'.threads t).identity = (s.threads t).identity

theorem Frame.refl (s : SchedState) : Frame s s :=
  ⟨rfl, fun _ => rfl, fun _ => rfl, fun _ => ⟨rfl, rfl⟩, rfl, rfl,
    fun _ => rfl⟩

theorem Frame.trans {s t u : SchedState} (hst : Frame s t) (htu : Frame t u) :
    Frame s u := by
  constructor
  · exact htu.count.trans hst.count
  · intro c
    exact (htu.ids c).trans (hst.ids c)
  · intro c
    exact (htu.running c).trans (hst.running c)
  · intro c
    exact ⟨(htu.stack_tops c).left.trans (hst.stack_tops c).left,
      (htu.stack_tops c).right.trans (hst.stack_tops c).right⟩
  · exact htu.next_tid.trans hst.next_tid
  · exact htu.next_cpu.trans hst.next_cpu
  · intro t
    exact (htu.identity t).trans (hst.identity t)

theorem Frame.tid {s s' : SchedState} (h : Frame s s') (t : Nat) :
    (s'.threads t).tid = (s.threads t).tid := by
  have hid := congrArg Thread.tid (h.identity t)
  exact hid

theorem Frame.locValid {s s' : SchedState} (h : Frame s s') {l : Loc}
    (hl : LocValid s l) : LocValid s' l := by
  unfold LocValid
  rw [h.count]
  exact hl

section Fields

variable (s : SchedState) (t : Nat) (f : Thread -> Thread) (l : Loc)

@[simp]
theorem modThread_self : (modThread s t f).threads t = f (s.threads t) :=
  update_self _ _ _

theorem modThread_other {u : Nat} (h : u ≠ t) :
    (modThread s t f).threads u = s.threads u :=
  update_of_ne h _ _

theorem modThread_next :
    (modThread s t f).next =
      update s.next t (f (s.threads t)).next := by
  funext u
  unfold SchedState.next
  by_cases hut : u = t
  · rw [hut, modThread_self, update_self]
  · rw [modThread_other _ _ _ hut, update_of_ne hut]

@[simp]
theorem modThread_queueHead : queueHead (modThread s t f) l = queueHead s l :=
  rfl

theorem modThread_frame
    (h : (f (s.threads t)).identity = (s.threads t).identity) :
    Frame s (modThread s t f) := by
  refine ⟨rfl, fun _ => rfl, fun _ => rfl, fun _ => ⟨rfl, rfl⟩, rfl, rfl, ?_⟩
  intro u
  by_cases hut : u = t
  · rw [hut, modThread_self, h]
  · rw [modThread_other _ _ _ hut]

@[simp]
theorem setQueueHead_threads : (setQueueHead s l t).threads = s.threads := by
  rcases l with ⟨c, q⟩
  cases q with
  | ready p => rfl
  | sleep => rfl

@[simp]
theorem setQueueHead_next : (setQueueHead s l t).next = s.next := by
  unfold SchedState.next
  rw [setQueueHead_threads]

theorem setQueueHead_frame : Frame s (setQueueHead s l t) := by
  rcases l with ⟨c, q⟩
  cases q with
  | ready p =>
      have hcpu : forall d, exists queues,
          (setQueueHead s (c, Queue.ready p) t).cpus d =
            { s.cpus d with readyQueues := queues } := by
        intro d
        show exists queues, update s.cpus c _ d = _
        by_cases hdc : d = c
        · rw [hdc, update_self]
          exact ⟨_, rfl⟩
        · rw [update_of_ne hdc]
          exact ⟨_, rfl⟩
      constructor
      · rfl
      · intro d
        rcases hcpu d with ⟨queues, heq⟩
        rw [heq]
      · intro d
        rcases hcpu d with ⟨queues, heq⟩
        rw [heq]
      · intro d
        rcases hcpu d with ⟨queues, heq⟩
        rw [heq]
        exact ⟨rfl, rfl⟩
      · rfl
      · rfl
      · intro u
        rfl
  | sleep =>
      exact ⟨rfl, fun _ => rfl, fun _ => rfl, fun _ => ⟨rfl, rfl⟩, rfl, rfl,
        fun _ => rfl⟩

theorem setQueueHead_self : queueHead (setQueueHead s l t) l = t := by
  rcases l with ⟨c, q⟩
  cases q with
  | ready p =>
      show (update s.cpus c _ c).readyQueues p = t
      rw [update_self]
      exact update_self _ _ _
  | sleep =>
      show (update s.extras (s.cpus c).cpuId _
        (s.cpus c).cpuId).sleepQueue = t
      rw [update_self]

end Fields

/-- Queues of different CPUs lie apart because the ids of the CPUs differ. -/
theorem setQueueHead_other {s : SchedState}
    (hids : forall c d, c < s.cpuCount -> d < s.cpuCount ->
      (s.cpus c).cpuId = (s.cpus d).cpuId -> c = d)
    {l m : Loc} (hl : l.1 < s.cpuCount) (hm : m.1 < s.cpuCount) (hne : m ≠ l)
    (t : Nat) : queueHead (setQueueHead s l t) m = queueHead s m := by
  rcases l with ⟨c, q⟩
  rcases m with ⟨d, r⟩
  cases q with
  | ready p =>
      cases r with
      | ready p' =>
          show (update s.cpus c _ d).readyQueues p' = _
          by_cases hdc : d = c
          · have hp : p' ≠ p := by
              intro hp
              apply hne
              rw [hdc, hp]
            rw [hdc, update_self]
            exact update_of_ne hp _ _
          · rw [update_of_ne hdc]
            rfl
      | sleep =>
          have hid := (setQueueHead_frame s t (c, Queue.ready p)).ids d
          show (s.extras ((setQueueHead s (c, Queue.ready p) t).cpus d).cpuId
            ).sleepQueue = _
          rw [hid]
          rfl
  | sleep =>
      cases r with
      | ready p' => rfl
      | sleep =>
          have hid : (s.cpus d).cpuId ≠ (s.cpus c).cpuId := by
            intro heq
            apply hne
            rw [hids d c hm hl heq]
          show (update s.extras (s.cpus c).cpuId _
            (s.cpus d).cpuId).sleepQueue = _
          rw [update_of_ne hid]
          rfl

structure Links (s s' : SchedState) : Prop extends Frame s s' where
  threads : forall u, exists n, s'.threads u = { s.threads u with next := n }

theorem Links.trans {s t u : SchedState} (hst : Links s t) (htu : Links t u) :
    Links s u := by
  constructor
  · exact hst.toFrame.trans htu.toFrame
  · intro v
    rcases hst.threads v with ⟨n, hn⟩
    rcases htu.threads v with ⟨m, hm⟩
    exists m
    rw [hm, hn]

theorem modThread_links (s : SchedState) (t n : Nat) :
    Links s (modThread s t (fun th => { th with next := n })) := by
  constructor
  · exact modThread_frame s t _ rfl
  · intro u
    by_cases hut : u = t
    · exists n
      rw [hut, modThread_self]
    · exists (s.threads u).next
      rw [modThread_other _ _ _ hut]

theorem setQueueHead_links (s : SchedState) (l : Loc) (t : Nat) :
    Links s (setQueueHead s l t) := by
  constructor
  · exact setQueueHead_frame s t l
  · intro u
    exists (s.threads u).next
    rw [setQueueHead_threads]

theorem unlink_links (s : SchedState) (l : Loc) (prev curr : Nat) :
    Links s (unlink s l prev curr) := by
  unfold unlink
  by_cases hsame : prev ≠ 0
  · rw [if_pos hsame]
    exact modThread_links s prev _
  · rw [if_neg hsame]
    exact setQueueHead_links s l _

theorem push_links (s : SchedState) (l : Loc) (t : Nat) :
    Links s (push s l t) :=
  (modThread_links s t _).trans (setQueueHead_links _ l t)

/-!
# Places

The lemmas below say how `Placed` follows a change of the queues.
-/

section Places

variable {s : SchedState} {holds : Nat -> Option Nat} {spawned : Nat -> Prop}
  {place : Nat -> Option Place} {lists : Loc -> List Nat}

theorem Placed.not_mem (h : Placed s holds spawned place lists) {t : Nat}
    (ht : forall l, place t ≠ some (Place.queue l)) (l : Loc) :
    t ∉ lists l := by
  intro hmem
  exact ht l ((h.mem_iff l t).mp hmem)

theorem Placed.ne_running (h : Placed s holds spawned place lists)
    {c current t : Nat} {l : Loc}
    (hcurrent : place current = some (Place.running c)) (ht : t ∈ lists l) :
    t ≠ current := by
  intro heq
  rw [heq, h.mem_iff, hcurrent] at ht
  cases ht

theorem Placed.length_lt (h : Placed s holds spawned place lists) (l : Loc) :
    (lists l).length < queueFuel := by
  apply length_lt_of_nodup (h.nodup l) (Nat.two_pow_pos 64)
  intro t ht
  exact h.address t _ ((h.mem_iff l t).mp ht)

theorem Placed.modThread (h : Placed s holds spawned place lists) {t : Nat}
    {f : Thread -> Thread}
    (hnext : forall l, place t = some (Place.queue l) ->
      (f (s.threads t)).next = (s.threads t).next)
    (hfits : forall pl, place t = some pl ->
      Fits (f (s.threads t)) (s.cpus pl.cpu).cpuId (spawned t) pl) :
    Placed (modThread s t f) holds spawned place lists := by
  constructor
  · exact h.ids
  · intro l hl
    rw [modThread_next]
    apply chain_congr (h.chain l hl)
    intro x hx
    by_cases hxt : x = t
    · rw [hxt] at hx
      rw [hxt, update_self]
      exact hnext l ((h.mem_iff l t).mp hx)
    · exact update_of_ne hxt _ _
  · exact h.nodup
  · exact h.mem_iff
  · exact h.running
  · exact h.held
  · exact h.address
  · exact h.cpu_lt
  · intro u pl hu
    by_cases hut : u = t
    · rw [hut] at hu
      rw [hut, modThread_self]
      exact hfits pl hu
    · rw [modThread_other _ _ _ hut]
      exact h.fits u pl hu

theorem Placed.modThread_free (h : Placed s holds spawned place lists)
    {t : Nat} (ht : place t = none) (f : Thread -> Thread) :
    Placed (Sched.modThread s t f) holds spawned place lists := by
  apply h.modThread
  · intro l hl
    rw [ht] at hl
    cases hl
  · intro pl hpl
    rw [ht] at hpl
    cases hpl

theorem Placed.forget (h : Placed s holds spawned place lists) {t : Nat}
    (ht : forall l, place t ≠ some (Place.queue l)) :
    Placed s holds spawned (update place t none) lists := by
  have hback : forall {u pl}, update place t none u = some pl ->
      place u = some pl := by
    intro u pl hu
    by_cases hsame : u = t
    · rw [hsame, update_self] at hu
      cases hu
    · rwa [update_of_ne hsame] at hu
  constructor
  · exact h.ids
  · exact h.chain
  · exact h.nodup
  · intro l u
    by_cases hut : u = t
    · rw [hut, update_self]
      constructor
      · intro hmem
        exact absurd hmem (h.not_mem ht l)
      · intro hsome
        cases hsome
    · rw [update_of_ne hut]
      exact h.mem_iff l u
  · intro u c hu
    exact h.running u c (hback hu)
  · intro u c hu
    exact h.held u c (hback hu)
  · intro u pl hu
    exact h.address u pl (hback hu)
  · intro u pl hu
    exact h.cpu_lt u pl (hback hu)
  · intro u pl hu
    exact h.fits u pl (hback hu)

theorem Placed.congr_spawned (h : Placed s holds spawned place lists)
    {spawned' : Nat -> Prop}
    (hless : forall t pl, place t = some pl -> spawned' t -> spawned t) :
    Placed s holds spawned' place lists := by
  refine ⟨h.ids, h.chain, h.nodup, h.mem_iff, h.running, h.held, h.address,
    h.cpu_lt, ?_⟩
  intro t pl hpl
  have hfits := h.fits t pl hpl
  have hspawned := hless t pl hpl
  rcases pl with c | ⟨c, q⟩ | c
  · exact ⟨hfits.left, hfits.right.left,
      fun hs => hfits.right.right (hspawned hs)⟩
  · cases q with
    | ready p =>
        exact ⟨hfits.left, hfits.right.left, hfits.right.right.left,
          fun hs => hfits.right.right.right (hspawned hs)⟩
    | sleep =>
        exact ⟨hfits.left, hfits.right.left,
          fun hs => hfits.right.right (hspawned hs)⟩
  · exact hfits

theorem Placed.congr_holds (h : Placed s holds spawned place lists)
    {holds' : Nat -> Option Nat}
    (hheld : forall t c, place t = some (Place.held c) ->
      holds' c = some t) :
    Placed s holds' spawned place lists :=
  ⟨h.ids, h.chain, h.nodup, h.mem_iff, h.running, hheld, h.address, h.cpu_lt,
    h.fits⟩

theorem Placed.setCounters (h : Placed s holds spawned place lists)
    (tid index : Nat) :
    Placed { s with nextTid := tid, nextCpuIndex := index } holds spawned
      place lists := by
  refine ⟨h.ids, ?_, h.nodup, h.mem_iff, h.running, h.held, h.address,
    h.cpu_lt, h.fits⟩
  intro l hl
  have hchain := h.chain l hl
  rcases l with ⟨c, q⟩
  cases q with
  | ready p => exact hchain
  | sleep => exact hchain

theorem update_some_cases {value : Type} {f : Nat -> Option value} {t u : Nat}
    {new : Option value} {v : value}
    (h : update f t new u = some v) :
    (u = t ∧ new = some v) ∨ (u ≠ t ∧ f u = some v) := by
  by_cases hut : u = t
  · rw [hut, update_self] at h
    exact Or.inl ⟨hut, h⟩
  · rw [update_of_ne hut] at h
    exact Or.inr ⟨hut, h⟩

theorem Placed.hold (h : Placed s holds spawned place lists) {t c : Nat}
    (hplace : place t = none) (haddress : t ≠ 0 ∧ t < 2 ^ 64)
    (hc : c < s.cpuCount) (hfree : holds c = none)
    (hfits : Fits (s.threads t) (s.cpus c).cpuId (spawned t)
      (Place.held c)) :
    Placed s (update holds c (some t)) spawned
      (update place t (some (Place.held c))) lists := by
  have hcases : forall u pl,
      update place t (some (Place.held c)) u = some pl ->
      (u = t ∧ pl = Place.held c) ∨ (u ≠ t ∧ place u = some pl) := by
    intro u pl hu
    rcases update_some_cases hu with ⟨heq, hpl⟩ | hold
    · exact Or.inl ⟨heq, (Option.some.inj hpl).symm⟩
    · exact Or.inr hold
  constructor
  · exact h.ids
  · exact h.chain
  · exact h.nodup
  · intro l u
    rw [h.mem_iff]
    by_cases hut : u = t
    · simp [hut, hplace]
    · simp [hut]
  · intro u d hu
    rcases hcases u _ hu with ⟨_, hpl⟩ | ⟨_, hold⟩
    · cases hpl
    · exact h.running u d hold
  · intro u d hu
    rcases hcases u _ hu with ⟨heq, hpl⟩ | ⟨_, hold⟩
    · cases hpl
      rw [heq, update_self]
    · have hholds := h.held u d hold
      have hne : d ≠ c := by
        intro heq
        rw [heq, hfree] at hholds
        cases hholds
      rw [update_of_ne hne]
      exact hholds
  · intro u pl hu
    rcases hcases u pl hu with ⟨heq, _⟩ | ⟨_, hold⟩
    · rw [heq]
      exact haddress
    · exact h.address u pl hold
  · intro u pl hu
    rcases hcases u pl hu with ⟨_, hpl⟩ | ⟨_, hold⟩
    · rw [hpl]
      exact hc
    · exact h.cpu_lt u pl hold
  · intro u pl hu
    rcases hcases u pl hu with ⟨heq, hpl⟩ | ⟨_, hold⟩
    · rw [heq, hpl]
      exact hfits
    · exact h.fits u pl hold

/-- Moving one thread: the other places stay, and `t` gets no place or one in
queue `l`. -/
theorem Placed.relink (h : Placed s holds spawned place lists)
    {s' : SchedState} (hlinks : Links s s') {place' : Nat -> Option Place}
    {lists' : Loc -> List Nat} {t : Nat} {l : Loc}
    (hother : forall u, u ≠ t -> place' u = place u)
    (ht : forall pl, place' t = some pl ->
      pl = Place.queue l ∧ t ≠ 0 ∧ t < 2 ^ 64 ∧ l.1 < s.cpuCount ∧
        Fits (s.threads t) (s.cpus l.1).cpuId (spawned t) (Place.queue l))
    (hmem : forall m u, u ∈ lists' m <-> place' u = some (Place.queue m))
    (hnodup : forall m, (lists' m).Nodup)
    (hchain : forall m, LocValid s m ->
      Chain 0 s'.next (queueHead s' m) (lists' m)) :
    Placed s' holds spawned place' lists' := by
  have hcases : forall u pl, place' u = some pl ->
      (u = t ∧ pl = Place.queue l) ∨ (u ≠ t ∧ place u = some pl) := by
    intro u pl hu
    by_cases hut : u = t
    · rw [hut] at hu
      exact Or.inl ⟨hut, (ht pl hu).left⟩
    · rw [hother u hut] at hu
      exact Or.inr ⟨hut, hu⟩
  constructor
  · intro c d hc hd
    rw [hlinks.ids c, hlinks.ids d]
    rw [hlinks.count] at hc hd
    exact h.ids c d hc hd
  · intro m hm
    apply hchain
    unfold LocValid at hm
    rw [hlinks.count] at hm
    exact hm
  · exact hnodup
  · exact hmem
  · intro u c hu
    rcases hcases u _ hu with ⟨_, hpl⟩ | ⟨_, hold⟩
    · cases hpl
    · rw [hlinks.running c]
      exact h.running u c hold
  · intro u c hu
    rcases hcases u _ hu with ⟨_, hpl⟩ | ⟨_, hold⟩
    · cases hpl
    · exact h.held u c hold
  · intro u pl hu
    rcases hcases u pl hu with ⟨heq, _⟩ | ⟨_, hold⟩
    · rw [heq] at hu ⊢
      exact ⟨(ht pl hu).right.left, (ht pl hu).right.right.left⟩
    · exact h.address u pl hold
  · intro u pl hu
    rw [hlinks.count]
    rcases hcases u pl hu with ⟨heq, hpl⟩ | ⟨_, hold⟩
    · rw [heq] at hu
      rw [hpl]
      exact (ht pl hu).right.right.right.left
    · exact h.cpu_lt u pl hold
  · intro u pl hu
    rcases hlinks.threads u with ⟨n, hn⟩
    have hfits : Fits (s.threads u) (s.cpus pl.cpu).cpuId (spawned u) pl := by
      rcases hcases u pl hu with ⟨heq, hpl⟩ | ⟨_, hold⟩
      · rw [heq] at hu ⊢
        rw [hpl]
        exact (ht pl hu).right.right.right.right
      · exact h.fits u pl hold
    rw [hn, hlinks.ids]
    exact hfits.congr rfl rfl rfl

theorem Placed.unlink (h : Placed s holds spawned place lists) {l : Loc}
    (hl : LocValid s l) {before after : List Nat} {t : Nat}
    (hlist : lists l = before ++ t :: after) :
    Placed (Sched.unlink s l (last 0 before) t) holds spawned
      (update place t none)
      (update lists l (before ++ after)) := by
  have hnodup := h.nodup l
  rw [hlist] at hnodup
  have hplace : place t = some (Place.queue l) := by
    rw [← h.mem_iff, hlist]
    simp
  have hchain := h.chain l hl
  rw [hlist] at hchain
  apply h.relink (unlink_links s l _ t) (t := t) (l := l)
  · intro u hu
    exact update_of_ne hu _ _
  · intro pl hpl
    rw [update_self] at hpl
    cases hpl
  · intro m u
    by_cases hut : u = t
    · rw [hut, update_self]
      constructor
      · intro hmem
        exfalso
        by_cases hcond : m = l
        · rw [hcond, update_self] at hmem
          have hparts := List.nodup_middle.mp hnodup
          exact (List.nodup_cons.mp hparts).left hmem
        · rw [update_of_ne hcond, h.mem_iff, hplace] at hmem
          cases hmem
          exact hcond rfl
      · intro hsome
        cases hsome
    · rw [update_of_ne hut, ← h.mem_iff]
      by_cases hhere : m = l
      · rw [hhere, update_self, hlist]
        simp [hut]
      · rw [update_of_ne hhere]
  · intro m
    by_cases hml : m = l
    · rw [hml, update_self]
      exact (List.nodup_cons.mp (List.nodup_middle.mp hnodup)).right
    · rw [update_of_ne hml]
      exact h.nodup m
  · intro m hm
    rcases List.eq_nil_or_concat before with hnil | hsnoc
    · have hnext : (s.threads t).next = first 0 after := chain_next hchain
      rw [hnil] at hchain ⊢
      show Chain 0 (setQueueHead s l _).next (queueHead (setQueueHead s l _) m)
        _
      rw [setQueueHead_next]
      by_cases hcase : m = l
      · rw [hcase, update_self, setQueueHead_self]
        exact hchain.right.right
      · rw [update_of_ne hcase,
          setQueueHead_other h.ids hl.left hm.left hcase]
        exact h.chain m hm
    · rcases hsnoc with ⟨front, prev, hbefore⟩
      rw [List.concat_eq_append] at hbefore
      rw [hbefore] at hchain hnodup ⊢
      rw [last_snoc]
      have hprev : prev ≠ 0 := by
        apply chain_ne_null hchain
        simp
      have hprevPlace : place prev = some (Place.queue l) := by
        rw [← h.mem_iff, hlist, hbefore]
        simp
      unfold Sched.unlink
      rw [if_pos hprev, modThread_next, modThread_queueHead]
      by_cases hsame : m = l
      · rw [hsame, update_self]
        rw [List.append_assoc, List.singleton_append] at hchain hnodup ⊢
        exact chain_remove hchain hnodup
      · rw [update_of_ne hsame]
        apply chain_update_other (h.chain m hm)
        intro hmem
        rw [h.mem_iff, hprevPlace] at hmem
        cases hmem
        exact hsame rfl

/-- Only a thread in front of the one that is taken out is changed. -/
theorem unlink_other {l : Loc} {before : List Nat} (t : Nat) {u : Nat}
    (hu : u ∉ before) :
    (Sched.unlink s l (last 0 before) t).threads u = s.threads u := by
  unfold Sched.unlink
  by_cases hprev : last 0 before ≠ 0
  · rw [if_pos hprev]
    apply modThread_other
    intro heq
    rw [heq] at hu
    exact hu (last_mem hprev)
  · rw [if_neg hprev, setQueueHead_threads]

theorem not_mem_before {before after xs : List Nat} {t : Nat}
    (hnodup : xs.Nodup) (hlist : xs = before ++ t :: after) : t ∉ before := by
  rw [hlist] at hnodup
  have hnotin := (List.nodup_cons.mp (List.nodup_middle.mp hnodup)).left
  intro hmem
  exact hnotin (List.mem_append_left _ hmem)

theorem Placed.unlink_self (h : Placed s holds spawned place lists) {l : Loc}
    {before after : List Nat} {t : Nat}
    (hlist : lists l = before ++ t :: after) :
    (Sched.unlink s l (last 0 before) t).threads t = s.threads t :=
  unlink_other t (not_mem_before (h.nodup l) hlist)

section Give

variable {t : Nat} {l : Loc}

theorem Placed.give (h : Placed s holds spawned place lists)
    {s' : SchedState} (hlinks : Links s s') (hplace : place t = none)
    (haddress : t ≠ 0 ∧ t < 2 ^ 64) (hl : LocValid s l)
    (hfits : Fits (s.threads t) (s.cpus l.1).cpuId (spawned t)
      (Place.queue l))
    {xs : List Nat} (hperm : xs.Perm (t :: lists l))
    (hself : Chain 0 s'.next (queueHead s' l) xs)
    (hothers : forall m, LocValid s m -> m ≠ l ->
      Chain 0 s'.next (queueHead s' m) (lists m)) :
    Placed s' holds spawned
      (update place t (some (Place.queue l)))
      (update lists l xs) := by
  have hfree : t ∉ lists l := by
    rw [h.mem_iff, hplace]
    intro hsome
    cases hsome
  apply h.relink hlinks (t := t) (l := l)
  · intro u hu
    exact update_of_ne hu _ _
  · intro pl hpl
    rw [update_self] at hpl
    cases hpl
    exact ⟨rfl, haddress.left, haddress.right, hl.left, hfits⟩
  · intro m u
    by_cases hcond : m = l
    · rw [hcond, update_self, hperm.mem_iff, List.mem_cons, h.mem_iff]
      by_cases hhere : u = t
      · simp [hhere]
      · simp [hhere]
    · rw [update_of_ne hcond, h.mem_iff]
      by_cases hut : u = t
      · have hml : ¬ l = m := fun hut => hcond hut.symm
        simp [hut, hplace, hml]
      · simp [hut]
  · intro m
    by_cases hcase : m = l
    · rw [hcase, update_self, hperm.nodup_iff, List.nodup_cons]
      exact ⟨hfree, h.nodup l⟩
    · rw [update_of_ne hcase]
      exact h.nodup m
  · intro m hm
    by_cases hsame : m = l
    · rw [hsame, update_self]
      exact hself
    · rw [update_of_ne hsame]
      exact hothers m hm hsame

theorem Placed.push (h : Placed s holds spawned place lists)
    (hplace : place t = none) (haddress : t ≠ 0 ∧ t < 2 ^ 64)
    (hl : LocValid s l)
    (hfits : Fits (s.threads t) (s.cpus l.1).cpuId (spawned t)
      (Place.queue l)) :
    Placed (Sched.push s l t) holds spawned
      (update place t (some (Place.queue l)))
      (update lists l (t :: lists l)) := by
  have hfree : forall m, t ∉ lists m := by
    apply h.not_mem
    intro m hsome
    rw [hplace] at hsome
    cases hsome
  apply h.give (push_links s l t) hplace haddress hl hfits
    (List.Perm.refl _)
  · unfold Sched.push
    rw [setQueueHead_next, modThread_next, setQueueHead_self]
    exact chain_push (h.chain l hl) (hfree l) haddress.left
  · intro m hm hml
    unfold Sched.push
    rw [setQueueHead_next, modThread_next,
      setQueueHead_other (h.modThread_free hplace _).ids hl.left hm.left hml,
      modThread_queueHead]
    exact chain_update_other (h.chain m hm) (hfree m) _

theorem lastThread_spec {before : List Nat} {back head fuel : Nat}
    (hchain : Chain 0 s.next head (before ++ [back]))
    (hfuel : before.length < fuel) :
    lastThread s fuel head = some back := by
  induction before generalizing head fuel with
  | nil =>
      cases fuel with
      | zero => cases hfuel
      | succ fuel =>
          have hnext : (s.threads back).next = 0 := hchain.right.right
          unfold lastThread
          rw [hchain.left, if_neg (not_not.mpr hnext)]
  | cons x xs ih =>
      cases fuel with
      | zero => cases hfuel
      | succ fuel =>
          have hrest := hchain.right.right
          have hnext : (s.threads x).next ≠ 0 := by
            intro hnull
            have hend : Chain 0 s.next (s.next x) (xs ++ [back]) := hrest
            rw [show s.next x = 0 from hnull] at hend
            have hnil := chain_null hend
            simp at hnil
          unfold lastThread
          rw [hchain.left, if_pos hnext]
          exact ih hrest (Nat.lt_of_succ_lt_succ hfuel)

theorem Placed.append (h : Placed s holds spawned place lists)
    (hplace : place t = none) (haddress : t ≠ 0 ∧ t < 2 ^ 64)
    (hl : LocValid s l)
    (hfits : Fits (s.threads t) (s.cpus l.1).cpuId (spawned t)
      (Place.queue l))
    (hnull : (s.threads t).next = 0) :
    exists s', Sched.append s l t = some s' ∧ Links s s' ∧
      Placed s' holds spawned
        (update place t (some (Place.queue l)))
        (update lists l (lists l ++ [t])) := by
  have hfree : forall m, t ∉ lists m := by
    apply h.not_mem
    intro m hsome
    rw [hplace] at hsome
    cases hsome
  have hperm : (lists l ++ [t]).Perm (t :: lists l) :=
    List.perm_append_singleton t (lists l)
  have hchain := h.chain l hl
  unfold Sched.append
  rcases List.eq_nil_or_concat (lists l) with hnil | hsnoc
  · rw [hnil] at hchain
    have hzero : queueHead s l = 0 := hchain
    rw [if_pos hzero]
    refine ⟨_, rfl, setQueueHead_links s l t, ?_⟩
    apply h.give (setQueueHead_links s l t) hplace haddress hl hfits hperm
    · rw [setQueueHead_next, setQueueHead_self, hnil]
      exact ⟨rfl, haddress.left, hnull⟩
    · intro m hm hml
      rw [setQueueHead_next, setQueueHead_other h.ids hl.left hm.left hml]
      exact h.chain m hm
  · rcases hsnoc with ⟨front, back, hlist⟩
    rw [List.concat_eq_append] at hlist
    have hnodup := h.nodup l
    have hlength := h.length_lt l
    have hnotmem := hfree l
    rw [hlist] at hchain hnodup hlength hnotmem
    have hhead : queueHead s l ≠ 0 := by
      intro hzero
      rw [hzero] at hchain
      have hempty := chain_null hchain
      simp at hempty
    have hback : place back = some (Place.queue l) := by
      rw [← h.mem_iff, hlist]
      simp
    rw [List.length_append] at hlength
    rw [if_neg hhead, lastThread_spec hchain
      (Nat.lt_of_le_of_lt (Nat.le_add_right _ _) hlength)]
    refine ⟨_, rfl, modThread_links s back t, ?_⟩
    apply h.give (modThread_links s back t) hplace haddress hl hfits hperm
    · rw [modThread_next, modThread_queueHead, hlist, List.append_assoc]
      exact chain_snoc hchain hnodup hnotmem haddress.left hnull
    · intro m hm hml
      rw [modThread_next, modThread_queueHead]
      apply chain_update_other (h.chain m hm)
      intro hmem
      rw [h.mem_iff, hback] at hmem
      cases hmem
      exact hml rfl

/-- A thread without a place becomes the running thread of a CPU from which the
last one has been taken. -/
theorem Placed.run (h : Placed s holds spawned place lists) {c : Nat}
    {f : Cpu -> Cpu} (hplace : place t = none)
    (haddress : t ≠ 0 ∧ t < 2 ^ 64) (hc : c < s.cpuCount)
    (hfits : Fits (s.threads t) (s.cpus c).cpuId (spawned t)
      (Place.running c))
    (hvacant : forall u, place u ≠ some (Place.running c))
    (hid : (f (s.cpus c)).cpuId = (s.cpus c).cpuId)
    (hqueues : (f (s.cpus c)).readyQueues = (s.cpus c).readyQueues)
    (hthread : (f (s.cpus c)).schedThread = t) :
    Placed (modCpu s c f) holds spawned
      (update place t (some (Place.running c))) lists := by
  have hids : forall d, ((modCpu s c f).cpus d).cpuId =
      (s.cpus d).cpuId := by
    intro d
    show (update s.cpus c _ d).cpuId = _
    by_cases hsame : d = c
    · rw [hsame, update_self, hid]
    · rw [update_of_ne hsame]
  have hheads : forall m, queueHead (modCpu s c f) m = queueHead s m := by
    intro m
    rcases m with ⟨d, q⟩
    cases q with
    | ready p =>
        show (update s.cpus c _ d).readyQueues p = _
        by_cases hdc : d = c
        · rw [hdc, update_self, hqueues]
          rfl
        · rw [update_of_ne hdc]
          rfl
    | sleep =>
        show (s.extras ((modCpu s c f).cpus d).cpuId).sleepQueue = _
        rw [hids d]
        rfl
  have hcases : forall u pl,
      update place t (some (Place.running c)) u = some pl ->
      (u = t ∧ pl = Place.running c) ∨ (u ≠ t ∧ place u = some pl) := by
    intro u pl hu
    rcases update_some_cases hu with ⟨heq, hpl⟩ | hold
    · exact Or.inl ⟨heq, (Option.some.inj hpl).symm⟩
    · exact Or.inr hold
  constructor
  · intro d e hd he
    rw [hids d, hids e]
    exact h.ids d e hd he
  · intro m hm
    rw [hheads m]
    exact h.chain m hm
  · exact h.nodup
  · intro m u
    rw [h.mem_iff]
    by_cases hut : u = t
    · simp [hut, hplace]
    · simp [hut]
  · intro u d hu
    show (update s.cpus c _ d).schedThread = u
    rcases hcases u _ hu with ⟨heq, hpl⟩ | ⟨_, hold⟩
    · cases hpl
      rw [update_self, hthread, heq]
    · have hne : d ≠ c := by
        intro heq
        rw [heq] at hold
        exact hvacant u hold
      rw [update_of_ne hne]
      exact h.running u d hold
  · intro u d hu
    rcases hcases u _ hu with ⟨_, hpl⟩ | ⟨_, hold⟩
    · cases hpl
    · exact h.held u d hold
  · intro u pl hu
    rcases hcases u pl hu with ⟨heq, _⟩ | ⟨_, hold⟩
    · rw [heq]
      exact haddress
    · exact h.address u pl hold
  · intro u pl hu
    rcases hcases u pl hu with ⟨_, hpl⟩ | ⟨_, hold⟩
    · rw [hpl]
      exact hc
    · exact h.cpu_lt u pl hold
  · intro u pl hu
    rw [hids]
    rcases hcases u pl hu with ⟨heq, hpl⟩ | ⟨_, hold⟩
    · rw [heq, hpl]
      exact hfits
    · exact h.fits u pl hold

end Give

end Places

end Sched
end Barium
