import Barium.Sched.Placement

/-!
# Priorities decide

Which thread `sched_reschedule` goes on with, and where it leaves the others.
Everything is measured against the queues as waking and aging have left them.
-/

namespace Barium
namespace Sched

open Foundation
open TransitionSystem
open Function
open LinkedList

def Highest (lists : Loc -> List Nat) (c p : Nat) : Prop :=
  p <= maxPriority ∧ lists (c, Queue.ready p) ≠ [] ∧
    forall q, p < q -> q <= maxPriority -> lists (c, Queue.ready q) = []

def QueuesHold (s : SchedState) (lists : Loc -> List Nat) : Prop :=
  forall l, LocValid s l -> Chain 0 s.next (queueHead s l) (lists l)

/-- What a call of `sched_reschedule` on CPU `c` makes of the state `s` that
waking and aging have left. -/
structure Dominance (s : SchedState) (lists : Loc -> List Nat)
    (c current : Nat) (r : RescheduleResult) (lists' : Loc -> List Nat) :
    Prop where
  switch : forall p, Highest lists c p -> SwitchDue (s.threads current) p ->
    (lists (c, Queue.ready p)).head? = some (r.state.cpus c).schedThread
  stay : (forall p, Highest lists c p ->
      ¬ SwitchDue (s.threads current) p) ->
    (r.state.cpus c).schedThread = current
  highest : forall q t, q <= maxPriority -> t ∈ lists' (c, Queue.ready q) ->
    (r.state.threads t).priority <=
      (r.state.threads (r.state.cpus c).schedThread).priority
  preempted : (r.state.cpus c).schedThread ≠ current ->
    (s.threads current).state = ThreadState.running ->
    (exists before, lists' (c, Queue.ready (s.threads current).priority) =
      before ++ [current]) ∧
    (r.state.threads current).priority = (s.threads current).priority ∧
    (r.state.threads current).ticksRemaining =
      2 * (32 - (s.threads current).priority)
  sleeping : (r.state.cpus c).schedThread ≠ current ->
    (s.threads current).state = ThreadState.sleeping ->
    current ∈ lists' (c, Queue.sleep)
  others : forall q,
    (lists' (c, Queue.ready q)).filter (fun t => t ≠ current) =
      (lists (c, Queue.ready q)).filter
        (fun t => t ≠ (r.state.cpus c).schedThread)

section Dominance

variable {s : SchedState} {holds : Nat -> Option Nat} {spawned : Nat -> Prop}
  {place : Nat -> Option Place} {lists lists' : Loc -> List Nat}
  {c current : Nat} {r : RescheduleResult}

theorem timeSlice_eq {priority : Nat} (h : priority <= maxPriority) :
    timeSlice priority = 2 * (32 - priority) := by
  unfold maxPriority at h
  unfold timeSlice maxPriority
  rw [Word.sub_of_le (by decide) h, Word.add_of_lt (by lia),
    Word.mul_of_lt (by lia)]
  lia

theorem Placed.head_ne_zero (h : Placed s holds spawned place lists)
    {l : Loc} (hl : LocValid s l) :
    queueHead s l ≠ 0 <-> lists l ≠ [] := by
  have hchain := h.chain l hl
  constructor
  · intro hhead hempty
    rw [hempty] at hchain
    exact hhead hchain
  · intro hne hzero
    rw [hzero] at hchain
    exact hne (chain_null hchain)

theorem Placed.topQueue_iff (h : Placed s holds spawned place lists)
    (hc : c < s.cpuCount) (p : Nat) :
    topQueue s c (maxPriority + 1) = some p <-> Highest lists c p := by
  constructor
  · intro htop
    rcases topQueue_spec htop with ⟨hp, hhead, habove⟩
    have hle : p <= maxPriority := Nat.le_of_lt_succ hp
    refine ⟨hle, (h.head_ne_zero (locValid_ready hc hle)).mp hhead, ?_⟩
    intro q hlt hq
    have hzero := habove q hlt (Nat.lt_succ_of_le hq)
    by_cases hempty : lists (c, Queue.ready q) = []
    · exact hempty
    · exact absurd hzero ((h.head_ne_zero (locValid_ready hc hq)).mpr hempty)
  · intro hhighest
    rcases hhighest with ⟨hle, hne, habove⟩
    apply topQueue_eq (Nat.lt_succ_of_le hle)
      ((h.head_ne_zero (locValid_ready hc hle)).mpr hne)
    intro q hlt hq
    have hchain := h.chain (c, Queue.ready q) ⟨hc, Nat.le_of_lt_succ hq⟩
    rw [habove q hlt (Nat.le_of_lt_succ hq)] at hchain
    exact hchain

theorem Highest.le {p q : Nat} (h : Highest lists c p)
    (hq : q <= maxPriority) (hne : lists (c, Queue.ready q) ≠ []) :
    q <= p := by
  rcases Nat.lt_or_ge p q with hlt | hle
  · exact absurd (h.right.right q hlt hq) hne
  · exact hle

theorem Highest.unique {p q : Nat} (hp : Highest lists c p)
    (hq : Highest lists c q) : p = q :=
  Nat.le_antisymm (hq.le hp.left hp.right.left) (hp.le hq.left hq.right.left)

theorem filter_ne_self {t : Nat} {xs : List Nat} (h : t ∉ xs) :
    xs.filter (fun u => u ≠ t) = xs := by
  rw [List.filter_eq_self]
  intro u hu
  rw [decide_eq_true_iff]
  intro heq
  exact h (heq ▸ hu)

/-!
# The running thread goes on
-/

theorem dominance_stay (h : Placed s holds spawned place lists)
    (hcurrent : place current = some (Place.running c))
    (hno : forall p, topQueue s c (maxPriority + 1) = some p ->
      ¬ SwitchDue (s.threads current) p) (ret : Nat) (freed : List Nat) :
    Dominance s lists c current { ret := ret, state := s, freed := freed }
      lists := by
  have hc : c < s.cpuCount := h.cpu_lt current _ hcurrent
  have hthread := h.running current c hcurrent
  constructor
  · intro p hp hdue
    exact absurd hdue (hno p ((h.topQueue_iff hc p).mpr hp))
  · intro _
    exact hthread
  · intro q t hq ht
    show (s.threads t).priority <= (s.threads (s.cpus c).schedThread).priority
    have hpriority := (h.fits t _ ((h.mem_iff _ t).mp ht)).right.left
    rw [hthread, hpriority]
    cases htop : topQueue s c (maxPriority + 1) with
    | none =>
        have hzero := topQueue_none htop q (Nat.lt_succ_of_le hq)
        have hchain := h.chain _ (locValid_ready hc hq)
        rw [hzero] at hchain
        rw [chain_null hchain] at ht
        cases ht
    | some p =>
        have hle := ((h.topQueue_iff hc p).mp htop).le hq
          (List.ne_nil_of_mem ht)
        have hnot := hno p htop
        rcases Nat.lt_or_ge (s.threads current).priority p with hlt | hge
        · exact absurd (Or.inl hlt) hnot
        · exact Nat.le_trans hle hge
  · intro hne
    exact absurd hthread hne
  · intro hne
    exact absurd hthread hne
  · intro q
    rw [show RescheduleResult.state
      { ret := ret, state := s, freed := freed } = s from rfl, hthread]

/-!
# The running thread gives way
-/

theorem retiredLists_ready (lists : Loc -> List Nat) (th : Thread)
    (c current q : Nat) :
    retiredLists lists th c current (c, Queue.ready q) =
      if th.state = ThreadState.running ∧ q = th.priority then
        lists (c, Queue.ready q) ++ [current]
      else lists (c, Queue.ready q) := by
  unfold retiredLists
  cases hcase : th.state with
  | running =>
      by_cases hsame : q = th.priority
      · rw [if_pos ⟨rfl, hsame⟩, hsame]
        exact update_self _ _ _
      · rw [if_neg (fun hboth => hsame hboth.right)]
        exact update_of_ne (by simpa using hsame) _ _
  | sleeping => exact update_of_ne (by simp) _ _
  | ready => rfl
  | dead => rfl

theorem dominance_switch {place' : Nat -> Option Place} {p : Nat}
    (h : Placed s holds spawned place lists)
    (h' : Placed r.state holds spawned place' lists')
    (hcurrent : place current = some (Place.running c))
    (htop : topQueue s c (maxPriority + 1) = some p)
    (hdue : SwitchDue (s.threads current) p)
    (hqueues : Requeued s lists c current p r lists') :
    Dominance s lists c current r lists' := by
  have hc : c < s.cpuCount := h.cpu_lt current _ hcurrent
  have hhighest := (h.topQueue_iff hc p).mp htop
  have hfree : forall l, current ∉ lists l := by
    intro l hmem
    exact h.ne_running hcurrent hmem rfl
  rcases hqueues.queue with ⟨after, hlist, hlists'⟩
  have hready : forall q, lists' (c, Queue.ready q) =
      if (s.threads current).state = ThreadState.running ∧
          q = (s.threads current).priority then
        update lists (c, Queue.ready p) after (c, Queue.ready q) ++
          [current]
      else update lists (c, Queue.ready p) after
        (c, Queue.ready q) := by
    intro q
    rw [hlists']
    exact retiredLists_ready _ _ c current q
  generalize hnext : (r.state.cpus c).schedThread = next at hlist
  have hmem : next ∈ lists (c, Queue.ready p) := by
    rw [hlist]
    exact List.mem_cons_self
  have hnextPriority : (s.threads next).priority = p :=
    (h.fits next _ ((h.mem_iff _ next).mp hmem)).right.left
  have hpriority : (s.threads current).priority <= maxPriority :=
    (h.fits current _ hcurrent).right.left
  constructor
  · intro q hq _
    rw [hq.unique hhighest, hlist, hnext]
    rfl
  · intro hno
    exact absurd hdue (hno p hhighest)
  · intro q t hq ht
    rcases hqueues.entered with ⟨n, hn⟩
    rw [(h'.fits t _ ((h'.mem_iff _ t).mp ht)).right.left, hn, hnext]
    show q <= (s.threads next).priority
    rw [hnextPriority]
    by_cases hback : (s.threads current).state = ThreadState.running ∧
        q = (s.threads current).priority
    · rcases hback with ⟨hrunning, heq⟩
      rcases hdue with hlt | ⟨hsame, _⟩ | hother
      · exact heq ▸ Nat.le_of_lt hlt
      · exact Nat.le_of_eq (heq.trans hsame.symm)
      · exact absurd hrunning hother
    · rw [hready q, if_neg hback] at ht
      by_cases hcase : q = p
      · exact Nat.le_of_eq hcase
      · rw [update_of_ne (by simpa using hcase)] at ht
        exact hhighest.le hq (List.ne_nil_of_mem ht)
  · intro _ hrunning
    rcases hqueues.left with ⟨n, hn⟩
    constructor
    · rw [hready, if_pos ⟨hrunning, rfl⟩]
      exact ⟨_, rfl⟩
    · rw [hn]
      simp only [retired, hrunning]
      exact ⟨rfl, timeSlice_eq hpriority⟩
  · intro _ hsleeping
    rw [hlists']
    simp [retiredLists, hsleeping]
  · intro q
    have hpopped : update lists (c, Queue.ready p) after
        (c, Queue.ready q) =
        (lists (c, Queue.ready q)).filter (fun t => t ≠ next) := by
      by_cases hqp : q = p
      · have hnodup := h.nodup (c, Queue.ready p)
        rw [hlist] at hnodup
        rw [hqp, update_self, hlist, List.filter_cons_of_neg
          (by simp), filter_ne_self (List.nodup_cons.mp hnodup).left]
      · rw [update_of_ne (by simpa using hqp), filter_ne_self]
        intro hother
        rw [h.mem_iff] at hmem hother
        rw [hmem] at hother
        cases hother
        exact hqp rfl
    have hout : current ∉ update lists (c, Queue.ready p) after
        (c, Queue.ready q) := by
      rw [hpopped]
      intro hin
      exact hfree _ (List.mem_of_mem_filter hin)
    rw [hnext, ← hpopped, hready q]
    split
    case isTrue =>
        rw [List.filter_append, filter_ne_self hout]
        simp
    case isFalse => exact filter_ne_self hout

end Dominance

/-!
# The whole function
-/

section Whole

variable {s : SchedState} {holds : Nat -> Option Nat} {spawned : Nat -> Prop}
  {place : Nat -> Option Place} {lists : Loc -> List Nat} {c : Nat}

theorem schedReschedule_choice (rsp tick ageTick : Nat)
    (h : Placed s holds spawned place lists)
    (hcurrent : place (s.cpus c).schedThread = some (Place.running c)) :
    exists s1 lists1 r place' lists',
      serveTick s c (s.cpus c).schedThread rsp tick ageTick = some s1 ∧
      s1.threads (s.cpus c).schedThread =
        ticked rsp (s.threads (s.cpus c).schedThread) ∧
      QueuesHold s1 lists1 ∧
      schedReschedule s c rsp tick ageTick = some r ∧
      Placed r.state holds spawned place' lists' ∧
      Rescheduled s place c rsp r place' ∧
      Dominance s1 lists1 c (s.cpus c).schedThread r lists' := by
  rcases schedReschedule_outcome rsp tick ageTick h hcurrent with
    ⟨s1, place1, lists1, r, place', lists', hserve, hplaced1, hserved, hrecord,
      hrun, hplaced', hdone, houtcome⟩
  have hplace1 : place1 (s.cpus c).schedThread = some (Place.running c) :=
    hserved.running hcurrent
  refine ⟨s1, lists1, r, place', lists', hserve, hrecord, hplaced1.chain, hrun,
    hplaced', hdone, ?_⟩
  cases houtcome with
  | stay hno => exact dominance_stay hplaced1 hplace1 hno _ _
  | switch htop hdue hqueues =>
      exact dominance_switch hplaced1 hplaced' hplace1 htop hdue hqueues

/-- The ready queues above the priority of the thread that now runs. -/
theorem schedReschedule_above {rsp tick ageTick q : Nat}
    {r : RescheduleResult} (h : Placed s holds spawned place lists)
    (hcurrent : place (s.cpus c).schedThread = some (Place.running c))
    (hrun : schedReschedule s c rsp tick ageTick = some r)
    (hq : q <= maxPriority)
    (hlt : (r.state.threads (r.state.cpus c).schedThread).priority < q) :
    queueHead r.state (c, Queue.ready q) = 0 := by
  rcases schedReschedule_choice rsp tick ageTick h hcurrent with
    ⟨_, _, r', place', lists', _, _, _, hrun', hplaced, hdone, hdominance⟩
  rw [hrun] at hrun'
  cases hrun'
  have hc : c < r.state.cpuCount := by
    rw [hdone.count]
    exact h.cpu_lt _ _ hcurrent
  cases hlist : lists' (c, Queue.ready q) with
  | nil =>
      have hchain := hplaced.chain _ (locValid_ready hc hq)
      rw [hlist] at hchain
      exact hchain
  | cons t after =>
      have ht : t ∈ lists' (c, Queue.ready q) := by
        rw [hlist]
        exact List.mem_cons_self
      have hle := hdominance.highest q t hq ht
      rw [(hplaced.fits t _ ((hplaced.mem_iff _ t).mp ht)).right.left] at hle
      exact absurd hlt (Nat.not_lt_of_le hle)

end Whole

theorem schedReschedule_dominance {s : SchedState} {holds : Nat -> Option Nat}
    {spawned : Nat -> Prop} {place : Nat -> Option Place}
    {lists : Loc -> List Nat} {c : Nat} (rsp tick ageTick : Nat)
    (h : Placed s holds spawned place lists)
    (hcurrent : place (s.cpus c).schedThread = some (Place.running c)) :
    exists s1 lists1 r lists',
      serveTick s c (s.cpus c).schedThread rsp tick ageTick = some s1 ∧
      s1.threads (s.cpus c).schedThread =
        ticked rsp (s.threads (s.cpus c).schedThread) ∧
      QueuesHold s1 lists1 ∧
      schedReschedule s c rsp tick ageTick = some r ∧
      QueuesHold r.state lists' ∧
      Dominance s1 lists1 c (s.cpus c).schedThread r lists' := by
  rcases schedReschedule_choice rsp tick ageTick h hcurrent with
    ⟨s1, lists1, r, _, lists', hserve, hrecord, hqueues, hrun, hplaced, _,
      hdominance⟩
  exact ⟨s1, lists1, r, lists', hserve, hrecord, hqueues, hrun, hplaced.chain,
    hdominance⟩

theorem oneThread_invariant :
    exists place lists, SchedInvariant oneThread place lists :=
  sched_reachable_invariant oneCpu_ids (by decide)
    (reachable_step oneCpu_reachable oneThread_step)

theorem schedReschedule_dominance_oneThread :
    exists s1 lists1 r lists',
      serveTick oneThread.sched 0 0x1000 0x9000 1 1 = some s1 ∧
      s1.threads 0x1000 = ticked 0x9000 (oneThread.sched.threads 0x1000) ∧
      QueuesHold s1 lists1 ∧
      schedReschedule oneThread.sched 0 0x9000 1 1 = some r ∧
      QueuesHold r.state lists' ∧
      Dominance s1 lists1 0 0x1000 r lists' := by
  rcases oneThread_invariant with ⟨place, lists, h⟩
  exact schedReschedule_dominance 0x9000 1 1 h.placed (h.running 0 (by decide))

end Sched
end Barium
