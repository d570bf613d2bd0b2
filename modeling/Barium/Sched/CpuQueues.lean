import Barium.Sched.Queues

/-!
# The queues of one CPU

What the loops of `sched_reschedule` and `sched_age_threads` leave in the queues
of a CPU, thread by thread and in order.
-/

namespace Barium
namespace Sched

open Foundation
open Function
open LinkedList

structure Queued (valid : Queue -> Prop) (s : SchedState) (c : Nat)
    (lists : Queue -> List Nat) : Prop where
  family : Family valid 0 s.next (fun q => queueHead s (c, q)) lists
  address : forall q t, valid q -> t ∈ lists q -> t < 2 ^ 64

theorem setQueueHead_heads (s : SchedState) (c : Nat) (q : Queue) (t : Nat) :
    (fun q' => queueHead (setQueueHead s (c, q) t) (c, q')) =
      update (fun q' => queueHead s (c, q')) q t := by
  funext q'
  by_cases hqq : q' = q
  · rw [hqq, setQueueHead_self, update_self]
  · rw [update_of_ne hqq]
    cases q with
    | ready p =>
        cases q' with
        | ready p' =>
            have hp : p' ≠ p := by
              intro heq
              rw [heq] at hqq
              exact hqq rfl
            show (update s.cpus c _ c).readyQueues p' = _
            rw [update_self]
            exact update_of_ne hp _ _
        | sleep =>
            show (s.extras (update s.cpus c _ c).cpuId).sleepQueue =
              _
            rw [update_self]
            rfl
    | sleep =>
        cases q' with
        | ready p' => rfl
        | sleep => exact absurd rfl hqq

section Moves

variable {valid : Queue -> Prop} {s : SchedState} {c : Nat}
  {lists : Queue -> List Nat}

theorem Placed.queued {holds : Nat -> Option Nat} {spawned : Nat -> Prop}
    {place : Nat -> Option Place} {lists : Loc -> List Nat}
    (h : Placed s holds spawned place lists) (hc : c < s.cpuCount) :
    Queued Queue.Valid s c (fun q => lists (c, q)) := by
  constructor
  · constructor
    · intro q hq
      exact h.chain (c, q) ⟨hc, hq⟩
    · intro q _
      exact h.nodup (c, q)
    · intro q q' t _ _ hq hq'
      rw [h.mem_iff] at hq hq'
      rw [hq] at hq'
      cases hq'
      rfl
  · intro q t _ ht
    exact (h.address t _ ((h.mem_iff _ t).mp ht)).right

theorem Queued.unique (h : Queued valid s c lists)
    {lists' : Queue -> List Nat} (h' : Queued valid s c lists') {q : Queue}
    (hq : valid q) : lists q = lists' q :=
  chain_unique (h.family.chain q hq) (h'.family.chain q hq)

theorem Queued.of_valid {valid' : Queue -> Prop} (h : Queued valid s c lists)
    (hvalid : forall q, valid' q -> valid q) : Queued valid' s c lists := by
  constructor
  · constructor
    · intro q hq
      exact h.family.chain q (hvalid q hq)
    · intro q hq
      exact h.family.nodup q (hvalid q hq)
    · intro q q' t hq hq'
      exact h.family.apart q q' t (hvalid q hq) (hvalid q' hq')
  · intro q t hq
    exact h.address q t (hvalid q hq)

theorem Queued.ready_apart (h : Queued valid s c lists) {p q t : Nat}
    (hq : valid (Queue.ready q)) (hp : valid (Queue.ready p)) (hne : q ≠ p)
    (ht : t ∈ lists (Queue.ready q)) : t ∉ lists (Queue.ready p) := by
  intro hmem
  have heq := h.family.apart _ _ t hq hp ht hmem
  cases heq
  exact hne rfl

theorem Queued.congr (h : Queued valid s c lists)
    {lists' : Queue -> List Nat}
    (hsame : forall q, valid q -> lists' q = lists q) :
    Queued valid s c lists' := by
  constructor
  · constructor
    · intro q hq
      rw [hsame q hq]
      exact h.family.chain q hq
    · intro q hq
      rw [hsame q hq]
      exact h.family.nodup q hq
    · intro q q' t hq hq'
      rw [hsame q hq, hsame q' hq']
      exact h.family.apart q q' t hq hq'
  · intro q t hq
    rw [hsame q hq]
    exact h.address q t hq

theorem Queued.ne_zero (h : Queued valid s c lists) {q : Queue}
    (hq : valid q) {t : Nat} (ht : t ∈ lists q) : t ≠ 0 :=
  chain_ne_null (h.family.chain q hq) ht

theorem Queued.length_lt (h : Queued valid s c lists) {q : Queue}
    (hq : valid q) : (lists q).length < queueFuel := by
  apply length_lt_of_nodup (h.family.nodup q hq) (Nat.two_pow_pos 64)
  intro t ht
  exact ⟨h.ne_zero hq ht, h.address q t hq ht⟩

theorem Queued.walk (h : Queued valid s c lists) {q : Queue} (hq : valid q)
    {before after : List Nat} {t : Nat}
    (hlist : lists q = before ++ t :: after) :
    t ≠ 0 ∧ (s.threads t).next = first 0 after := by
  have hchain := h.family.chain q hq
  rw [hlist] at hchain
  refine ⟨?_, chain_next hchain⟩
  apply h.ne_zero hq
  rw [hlist]
  simp

theorem Queued.touch (h : Queued valid s c lists) {t : Nat}
    {f : Thread -> Thread}
    (hnext : (f (s.threads t)).next = (s.threads t).next) :
    Queued valid (modThread s t f) c lists := by
  refine ⟨h.family.congr ?_ (fun _ _ => rfl), h.address⟩
  intro _ u _ _
  rw [modThread_next]
  by_cases hut : u = t
  · rw [hut, update_self]
    exact hnext
  · exact update_of_ne hut _ _

theorem Queued.modThread_free (h : Queued valid s c lists) {t : Nat}
    (ht : forall q, valid q -> t ∉ lists q) (f : Thread -> Thread) :
    Queued valid (modThread s t f) c lists := by
  refine ⟨h.family.congr ?_ (fun _ _ => rfl), h.address⟩
  intro q u hq hu
  have hne : u ≠ t := by
    intro heq
    rw [heq] at hu
    exact ht q hq hu
  rw [modThread_next, update_of_ne hne]

theorem Queued.unlink (h : Queued valid s c lists) {q : Queue} (hq : valid q)
    {before after : List Nat} {t : Nat}
    (hlist : lists q = before ++ t :: after) :
    Queued valid (Sched.unlink s (c, q) (last 0 before) t) c
      (update lists q (before ++ after)) := by
  constructor
  · rcases List.eq_nil_or_concat before with hnil | hsnoc
    · rw [hnil] at hlist ⊢
      have hremoved := h.family.removeFirst hq hlist
      rw [show Sched.unlink s (c, q) (last 0 []) t =
        setQueueHead s (c, q) (s.threads t).next from rfl,
        setQueueHead_next, setQueueHead_heads]
      exact hremoved
    · rcases hsnoc with ⟨front, prev, hbefore⟩
      rw [List.concat_eq_append] at hbefore
      rw [hbefore] at hlist ⊢
      rw [last_snoc]
      rw [List.append_assoc, List.singleton_append] at hlist ⊢
      have hprev : prev ≠ 0 := by
        apply h.ne_zero hq
        rw [hlist]
        simp
      have hremoved := h.family.removeAfter hq hlist
      unfold Sched.unlink
      rw [if_pos hprev, modThread_next]
      exact hremoved
  · intro q' u hq' hu
    by_cases hqq : q' = q
    · rw [hqq, update_self] at hu
      apply h.address q u hq
      rw [hlist]
      rcases List.mem_append.mp hu with hu | hu
      · exact List.mem_append_left _ hu
      · exact List.mem_append_right _ (List.mem_cons_of_mem t hu)
    · rw [update_of_ne hqq] at hu
      exact h.address q' u hq' hu

theorem Queued.push (h : Queued valid s c lists) {q : Queue} (hq : valid q)
    {t : Nat} (haddress : t ≠ 0 ∧ t < 2 ^ 64)
    (hfree : forall q', valid q' -> t ∉ lists q') :
    Queued valid (Sched.push s (c, q) t) c
      (update lists q (t :: lists q)) := by
  constructor
  · have hpushed := h.family.push hq haddress.left hfree
    unfold Sched.push
    rw [setQueueHead_next, setQueueHead_heads, modThread_next]
    exact hpushed
  · intro q' u hq' hu
    by_cases hqq : q' = q
    · rw [hqq, update_self] at hu
      rcases List.mem_cons.mp hu with hut | hu
      · rw [hut]
        exact haddress.right
      · exact h.address q u hq hu
    · rw [update_of_ne hqq] at hu
      exact h.address q' u hq' hu

theorem Queued.unlink_self (h : Queued valid s c lists) {q : Queue}
    (hq : valid q) {before after : List Nat} {t : Nat}
    (hlist : lists q = before ++ t :: after) :
    (Sched.unlink s (c, q) (last 0 before) t).threads t = s.threads t :=
  unlink_other t (not_mem_before (h.family.nodup q hq) hlist)

/-- A thread is taken out of queue `q`, changed, and put in front of queue
`m`. -/
theorem Queued.move (h : Queued valid s c lists) {q m : Queue} (hq : valid q)
    (hm : valid m) {before after : List Nat} {t : Nat}
    (hlist : lists q = before ++ t :: after) (f : Thread -> Thread) :
    Queued valid
      (Sched.push (modThread (Sched.unlink s (c, q) (last 0 before) t) t f)
        (c, m) t) c
      (update (update lists q (before ++ after)) m
        (t :: update lists q (before ++ after) m)) := by
  have hnodup := h.family.nodup q hq
  have hmem : t ∈ lists q := by
    rw [hlist]
    simp
  rw [hlist] at hnodup
  have hfree : forall q', valid q' ->
      t ∉ update lists q (before ++ after) q' := by
    intro q' hq' hin
    by_cases hqq : q' = q
    · rw [hqq, update_self] at hin
      exact (List.nodup_cons.mp (List.nodup_middle.mp hnodup)).left hin
    · rw [update_of_ne hqq] at hin
      exact hqq (h.family.apart q' q t hq' hq hin hmem)
  exact ((h.unlink hq hlist).modThread_free hfree f).push hm
    ⟨h.ne_zero hq hmem, h.address q t hq hmem⟩ hfree

end Moves

/-!
# Records
-/

def Thread.content (th : Thread) : Thread :=
  { th with next := 0 }

theorem content_field {alpha : Type} {th th' : Thread}
    (h : th.content = th'.content) (f : Thread -> alpha)
    (hf : forall th : Thread, f th.content = f th) : f th = f th' := by
  rw [← hf th, h, hf th']

theorem Links.content {s s' : SchedState} (h : Links s s') (t : Nat) :
    (s'.threads t).content = (s.threads t).content := by
  rcases h.threads t with ⟨n, hn⟩
  rw [hn]
  rfl

theorem modThread_content (s : SchedState) (t : Nat) (f : Thread -> Thread)
    (u : Nat) :
    ((modThread s t f).threads u).content =
      if u = t then (f (s.threads t)).content
      else (s.threads u).content := by
  split
  case isTrue heq => rw [heq, modThread_self]
  case isFalse hne => rw [modThread_other _ _ _ hne]

theorem Queued.move_content {valid : Queue -> Prop} {s : SchedState} {c : Nat}
    {lists : Queue -> List Nat} (h : Queued valid s c lists) {q m : Queue}
    (hq : valid q) {before after : List Nat} {t : Nat}
    (hlist : lists q = before ++ t :: after) (f : Thread -> Thread)
    (u : Nat) :
    ((Sched.push (modThread (Sched.unlink s (c, q) (last 0 before) t) t f)
      (c, m) t).threads u).content =
      if u = t then (f (s.threads t)).content
      else (s.threads u).content := by
  rw [(push_links _ _ _).content, modThread_content, h.unlink_self hq hlist,
    (unlink_links _ _ _ _).content]

/-!
# Loops along a queue

A loop goes along queue `q` and changes each thread's record by `change`.  What
it leaves in the queues is `out`, which depends on the threads that it has
passed and left in place, on those in front of it and on the queues so far.
-/

abbrev LoopLists :=
  (Nat -> Thread) -> List Nat -> List Nat -> (Queue -> List Nat) ->
    Queue -> List Nat

/-- One visit: the loop has passed `before`, is at `t` and has `after` in front
of it.  Afterwards it has passed `before1`. -/
structure Visit (valid : Queue -> Prop) (c : Nat) (q : Queue)
    (change : Thread -> Thread) (out : LoopLists)
    (s : SchedState) (lists : Queue -> List Nat) (before : List Nat) (t : Nat)
    (after : List Nat)
    (s1 : SchedState) (lists1 : Queue -> List Nat) (before1 : List Nat) :
    Prop where
  queued : Queued valid s1 c lists1
  list : lists1 q = before1 ++ after
  records : forall u, (s1.threads u).content =
    if u = t then change (s.threads t).content else (s.threads u).content
  lists : out s.threads before1 after lists1 =
    out s.threads before (t :: after) lists

structure Walked (valid : Queue -> Prop) (c : Nat)
    (change : Thread -> Thread) (out : LoopLists)
    (s : SchedState) (lists : Queue -> List Nat) (before rest : List Nat)
    (s' : SchedState) : Prop where
  queued : Queued valid s' c (out s.threads before rest lists)
  records : forall u, (s'.threads u).content =
    if u ∈ rest then change (s.threads u).content else (s.threads u).content

section Visits

variable {valid : Queue -> Prop} {c : Nat} {q : Queue}
  {change : Thread -> Thread} {out : LoopLists}
  {s s1 s' : SchedState} {lists lists1 : Queue -> List Nat}
  {before before1 after : List Nat} {t : Nat}

theorem Queued.not_mem_after (h : Queued valid s c lists) (hq : valid q)
    (hlist : lists q = before ++ t :: after) : t ∉ after := by
  have hnodup := h.family.nodup q hq
  rw [hlist] at hnodup
  exact (List.nodup_cons.mp (List.nodup_append.mp hnodup).right.left).left

theorem Visit.content_after
    (h : Visit valid c q change out s lists before t after s1 lists1 before1)
    (ht : t ∉ after) {u : Nat} (hu : u ∈ after) :
    (s1.threads u).content = (s.threads u).content := by
  rw [h.records u, if_neg]
  intro heq
  rw [heq] at hu
  exact ht hu

theorem Visit.walked
    (h : Visit valid c q change out s lists before t after s1 lists1 before1)
    (ht : t ∉ after)
    (hcongr : out s1.threads before1 after lists1 =
      out s.threads before1 after lists1)
    (hwalked : Walked valid c change out s1 lists1 before1 after s') :
    Walked valid c change out s lists before (t :: after) s' := by
  constructor
  · rw [← h.lists, ← hcongr]
    exact hwalked.queued
  · intro u
    rw [hwalked.records u, h.records u]
    by_cases hut : u = t
    · rw [hut, if_neg ht, if_pos rfl, if_pos List.mem_cons_self]
    · simp [hut]

end Visits

/-!
# Waking
-/

def awoken (tick : Nat) (th : Thread) : Thread :=
  if th.wakeupTick <= tick then { th with state := ThreadState.ready } else th

def wokenLists (threads : Nat -> Thread) (tick : Nat)
    (before rest : List Nat) (lists : Queue -> List Nat) :
    Queue -> List Nat
  | .sleep =>
      before ++ rest.filter (fun t => tick < (threads t).wakeupTick)
  | .ready p =>
      (rest.filter (fun t => (threads t).wakeupTick <= tick ∧
        (threads t).priority = p)).reverse ++ lists (Queue.ready p)

theorem wokenLists_congr {threads threads' : Nat -> Thread} {rest : List Nat}
    (h : forall t, t ∈ rest -> (threads' t).wakeupTick =
      (threads t).wakeupTick ∧ (threads' t).priority = (threads t).priority)
    (tick : Nat) (before : List Nat) (lists : Queue -> List Nat) :
    wokenLists threads' tick before rest lists =
      wokenLists threads tick before rest lists := by
  funext q
  cases q with
  | sleep =>
      simp only [wokenLists]
      congr 1
      apply List.filter_congr
      intro t ht
      rw [(h t ht).left]
  | ready p =>
      simp only [wokenLists]
      congr 2
      apply List.filter_congr
      intro t ht
      rw [(h t ht).left, (h t ht).right]

theorem wokenLists_wait {threads : Nat -> Thread} {tick t : Nat}
    (hwait : ¬ (threads t).wakeupTick <= tick) (before after : List Nat)
    (lists : Queue -> List Nat) :
    wokenLists threads tick before (t :: after) lists =
      wokenLists threads tick (before ++ [t]) after lists := by
  funext q
  cases q with
  | sleep =>
      simp only [wokenLists]
      rw [List.filter_cons_of_pos (by simpa using hwait)]
      simp
  | ready p =>
      simp only [wokenLists]
      rw [List.filter_cons_of_neg (by simp [hwait])]

theorem wokenLists_wake {threads : Nat -> Thread} {tick t : Nat}
    (hdue : (threads t).wakeupTick <= tick) (before after : List Nat)
    (lists : Queue -> List Nat) :
    wokenLists threads tick before (t :: after) lists =
      wokenLists threads tick before after
        (update lists (Queue.ready (threads t).priority)
          (t :: lists (Queue.ready (threads t).priority))) := by
  funext q
  cases q with
  | sleep =>
      simp only [wokenLists]
      rw [List.filter_cons_of_neg (by simpa using hdue)]
  | ready p =>
      simp only [wokenLists]
      by_cases hsame : (threads t).priority = p
      · rw [List.filter_cons_of_pos (by simp [hdue, hsame]), hsame,
          update_self, List.reverse_cons, List.append_assoc,
          List.singleton_append]
      · have hqueue : Queue.ready p ≠ Queue.ready (threads t).priority := by
          intro heq
          cases heq
          exact hsame rfl
        rw [List.filter_cons_of_neg (by simp [hsame]),
          update_of_ne hqueue]

/-- Only the ready queues of the lists matter, next to what has been passed. -/
theorem wokenLists_sleep (threads : Nat -> Thread) (tick : Nat)
    (before rest : List Nat) (lists : Queue -> List Nat) (xs : List Nat) :
    wokenLists threads tick before rest
        (update lists Queue.sleep xs) =
      wokenLists threads tick before rest lists := by
  funext q
  cases q with
  | sleep => rfl
  | ready p =>
      simp only [wokenLists]
      rw [update_of_ne (by simp)]

section Wake

variable {s : SchedState} {c tick t : Nat} {lists : Queue -> List Nat}
  {before after : List Nat}

theorem visit_asleep (h : Queued Queue.Valid s c lists)
    (hlist : lists Queue.sleep = before ++ t :: after)
    (hwait : ¬ (s.threads t).wakeupTick <= tick) :
    Visit Queue.Valid c Queue.sleep (awoken tick)
      (fun threads => wokenLists threads tick) s lists before t after
      s lists (before ++ [t]) := by
  have hstays : awoken tick (s.threads t).content = (s.threads t).content :=
    if_neg hwait
  refine ⟨h, ?_, ?_, (wokenLists_wait hwait before after lists).symm⟩
  · rw [hlist, List.append_assoc]
    rfl
  · intro u
    split
    case isTrue heq => rw [heq, hstays]
    case isFalse => rfl

theorem visit_woken (h : Queued Queue.Valid s c lists)
    (hlist : lists Queue.sleep = before ++ t :: after)
    (hpriority : (s.threads t).priority <= maxPriority)
    (hdue : (s.threads t).wakeupTick <= tick) :
    exists lists1, Visit Queue.Valid c Queue.sleep (awoken tick)
      (fun threads => wokenLists threads tick) s lists before t after
      (wakeThread (Sched.unlink s (c, Queue.sleep) (last 0 before) t) c t)
      lists1 before := by
  have hsleep : Queue.Valid Queue.sleep := trivial
  have hready : Queue.Valid (Queue.ready (s.threads t).priority) := hpriority
  have hself := h.unlink_self hsleep hlist
  have hbody : wakeThread (Sched.unlink s (c, Queue.sleep)
      (last 0 before) t) c t = Sched.push (modThread
        (Sched.unlink s (c, Queue.sleep) (last 0 before) t) t
        (fun th => { th with state := ThreadState.ready }))
      (c, Queue.ready (s.threads t).priority) t := by
    unfold wakeThread
    simp only [modThread_self, hself]
  have hwoken : awoken tick (s.threads t).content =
      { (s.threads t).content with state := ThreadState.ready } := if_pos hdue
  rw [hbody]
  refine ⟨_, h.move hsleep hready hlist _, ?_, ?_, ?_⟩
  · rw [update_of_ne (by simp), update_self]
  · intro u
    rw [h.move_content hsleep hlist, hwoken]
    rfl
  · rw [wokenLists_wake hdue, update_of_ne (by simp),
      update_comm (by simp), wokenLists_sleep]

end Wake

theorem wakeLoop_lists {s : SchedState} {c fuel : Nat}
    {lists : Queue -> List Nat} {before rest : List Nat} (tick : Nat)
    (h : Queued Queue.Valid s c lists)
    (hlist : lists Queue.sleep = before ++ rest)
    (hpriority : forall t, t ∈ rest -> (s.threads t).priority <= maxPriority)
    (hfuel : rest.length < fuel) :
    exists s', wakeLoop c tick fuel s (last 0 before) (first 0 rest) =
        some s' ∧
      Walked Queue.Valid c (awoken tick)
        (fun threads => wokenLists threads tick) s lists before rest s' := by
  induction fuel generalizing s lists before rest with
  | zero => cases hfuel
  | succ fuel ih =>
      cases rest with
      | nil =>
          refine ⟨s, rfl, ?_, fun t => by simp⟩
          have hsame : wokenLists s.threads tick before [] lists = lists := by
            funext q
            cases q with
            | sleep => exact hlist.symm
            | ready p => rfl
          rw [hsame]
          exact h
      | cons t after =>
          have hsleep : Queue.Valid Queue.sleep := trivial
          have hshort : after.length < fuel := Nat.lt_of_succ_lt_succ hfuel
          have htnot := h.not_mem_after hsleep hlist
          rcases h.walk hsleep hlist with ⟨hne, hnext⟩
          unfold wakeLoop
          rw [show first 0 (t :: after) = t from rfl, if_neg hne]
          by_cases hdue : (s.threads t).wakeupTick <= tick
          · have hself := h.unlink_self hsleep hlist
            rcases visit_woken h hlist (hpriority t List.mem_cons_self) hdue
              with ⟨lists1, hvisit⟩
            rw [if_pos hdue]
            simp only [hself, hnext]
            generalize wakeThread (Sched.unlink s (c, Queue.sleep)
              (last 0 before) t) c t = s1 at hvisit ⊢
            have hpriority1 : forall u, u ∈ after ->
                (s1.threads u).priority <= maxPriority := by
              intro u hu
              rw [content_field (hvisit.content_after htnot hu)
                Thread.priority (fun _ => rfl)]
              exact hpriority u (List.mem_cons_of_mem t hu)
            have hsame : forall u, u ∈ after ->
                (s1.threads u).wakeupTick = (s.threads u).wakeupTick ∧
                  (s1.threads u).priority = (s.threads u).priority := by
              intro u hu
              have hcontent := hvisit.content_after htnot hu
              exact ⟨content_field hcontent Thread.wakeupTick
                (fun _ => rfl), content_field hcontent Thread.priority
                (fun _ => rfl)⟩
            rcases ih hvisit.queued hvisit.list hpriority1 hshort with
              ⟨s', hloop, hwalked⟩
            exact ⟨s', hloop, hvisit.walked htnot
              (wokenLists_congr hsame tick _ _) hwalked⟩
          · have hvisit := visit_asleep h hlist hdue
            rcases ih h hvisit.list (fun u hu =>
              hpriority u (List.mem_cons_of_mem t hu)) hshort with
              ⟨s', hloop, hwalked⟩
            rw [last_snoc] at hloop
            rw [if_neg hdue, hnext]
            exact ⟨s', hloop, hvisit.walked htnot rfl hwalked⟩

/-!
# Aging
-/

def GrownOld (th : Thread) : Prop :=
  th.tid ≠ 1 ∧ 19 < Word.add th.totalTicks 1

instance (th : Thread) : Decidable (GrownOld th) := by
  unfold GrownOld
  infer_instance

theorem grownOld_content {th th' : Thread} (h : th.content = th'.content) :
    GrownOld th <-> GrownOld th' := by
  unfold GrownOld
  rw [content_field h Thread.tid (fun _ => rfl),
    content_field h Thread.totalTicks (fun _ => rfl)]

/-- The record of a thread after a visit of `sched_age_threads`. -/
def visited (th : Thread) : Thread :=
  if th.tid = 1 then th
  else if 19 < Word.add th.totalTicks 1 then
    { th with totalTicks := 0, priority := th.priority + 1 }
  else { th with totalTicks := Word.add th.totalTicks 1 }

def agedLists (threads : Nat -> Thread) (p : Nat) (before rest : List Nat)
    (lists : Queue -> List Nat) : Queue -> List Nat :=
  update
    (update lists (Queue.ready p)
      (before ++ rest.filter (fun t => ¬ GrownOld (threads t))))
    (Queue.ready (p + 1))
    ((rest.filter (fun t => GrownOld (threads t))).reverse ++
      lists (Queue.ready (p + 1)))

section Aged

variable {threads : Nat -> Thread} {p : Nat} {before after : List Nat}
  {lists : Queue -> List Nat}

theorem ready_succ_ne (p : Nat) : Queue.ready (p + 1) ≠ Queue.ready p := by
  intro heq
  cases heq

theorem agedLists_congr {threads' : Nat -> Thread} {rest : List Nat}
    (h : forall t, t ∈ rest ->
      (threads' t).content = (threads t).content) :
    agedLists threads' p before rest lists =
      agedLists threads p before rest lists := by
  have hold : rest.filter (fun t => GrownOld (threads' t)) =
      rest.filter (fun t => GrownOld (threads t)) := by
    apply List.filter_congr
    intro t ht
    rw [decide_eq_decide]
    exact grownOld_content (h t ht)
  have hyoung : rest.filter (fun t => ¬ GrownOld (threads' t)) =
      rest.filter (fun t => ¬ GrownOld (threads t)) := by
    apply List.filter_congr
    intro t ht
    rw [decide_eq_decide, grownOld_content (h t ht)]
  unfold agedLists
  rw [hold, hyoung]

theorem agedLists_stay {t : Nat} (hyoung : ¬ GrownOld (threads t)) :
    agedLists threads p before (t :: after) lists =
      agedLists threads p (before ++ [t]) after lists := by
  unfold agedLists
  rw [List.filter_cons_of_pos (by simpa using hyoung),
    List.filter_cons_of_neg (by simpa using hyoung), List.append_assoc,
    List.singleton_append]

theorem agedLists_raise {t : Nat} (hold : GrownOld (threads t))
    (xs : List Nat) :
    agedLists threads p before (t :: after) lists =
      agedLists threads p before after
        (update (update lists (Queue.ready p) xs)
          (Queue.ready (p + 1)) (t :: lists (Queue.ready (p + 1)))) := by
  unfold agedLists
  rw [List.filter_cons_of_neg (by simpa using hold),
    List.filter_cons_of_pos (by simpa using hold), update_self,
    List.reverse_cons, List.append_assoc, List.singleton_append,
    update_comm (ready_succ_ne p), update_idem,
    update_idem]

end Aged

/-- What `sched_age_threads` does to a thread that it takes out. -/
def raised (th : Thread) : Thread :=
  if th.priority < maxPriority then { th with priority := th.priority + 1 }
  else th

theorem ageThread_eq {s : SchedState} {c p t : Nat}
    (hpriority : (s.threads t).priority = p) (hlt : p < maxPriority) :
    ageThread s c t =
      Sched.push (modThread s t raised) (c, Queue.ready (p + 1)) t := by
  have hraised : ((modThread s t raised).threads t).priority = p + 1 := by
    rw [modThread_self]
    unfold raised
    rw [if_pos (hpriority ▸ hlt), hpriority]
  unfold ageThread
  rw [← hraised]
  rfl

def counted (th : Thread) : Thread :=
  { th with totalTicks := Word.add th.totalTicks 1 }

section Age

variable {valid : Queue -> Prop} {s : SchedState} {c p t : Nat}
  {lists : Queue -> List Nat} {before after : List Nat}

theorem visit_young
    (hlist : lists (Queue.ready p) = before ++ t :: after)
    (hyoung : ¬ GrownOld (s.threads t)) {s1 : SchedState}
    (hqueued : Queued valid s1 c lists)
    (hrecords : forall u, (s1.threads u).content =
      if u = t then visited (s.threads t).content
      else (s.threads u).content) :
    Visit valid c (Queue.ready p) visited (fun threads => agedLists threads p)
      s lists before t after s1 lists (before ++ [t]) := by
  refine ⟨hqueued, ?_, hrecords, (agedLists_stay hyoung).symm⟩
  rw [hlist, List.append_assoc]
  rfl

def takenOut (s : SchedState) (c p : Nat) (before : List Nat) (t : Nat) :
    SchedState :=
  unlink (modThread (modThread s t counted) t
    (fun th => { th with totalTicks := 0 })) (c, Queue.ready p)
    (last 0 before) t

theorem takenOut_self (h : Queued valid s c lists)
    (hp : valid (Queue.ready p))
    (hlist : lists (Queue.ready p) = before ++ t :: after) :
    (takenOut s c p before t).threads t =
      { s.threads t with totalTicks := 0 } := by
  have hcleared : Queued valid (modThread (modThread s t counted) t
      (fun th => { th with totalTicks := 0 })) c lists :=
    (h.touch rfl).touch rfl
  unfold takenOut
  rw [hcleared.unlink_self hp hlist, modThread_self, modThread_self]
  rfl

theorem visit_old (h : Queued valid s c lists) (hp : valid (Queue.ready p))
    (hnextValid : valid (Queue.ready (p + 1))) (hlt : p < maxPriority)
    (hlist : lists (Queue.ready p) = before ++ t :: after)
    (hpriority : (s.threads t).priority = p)
    (hold : GrownOld (s.threads t)) :
    exists lists1, Visit valid c (Queue.ready p) visited
      (fun threads => agedLists threads p) s lists before t after
      (ageThread (takenOut s c p before t) c t) lists1 before := by
  have hcleared : Queued valid (modThread (modThread s t counted) t
      (fun th => { th with totalTicks := 0 })) c lists :=
    (h.touch rfl).touch rfl
  have hself := takenOut_self h hp hlist
  have hbody := ageThread_eq (s := takenOut s c p before t) (c := c)
    (by rw [hself]; exact hpriority) hlt
  have hraised : (raised { s.threads t with totalTicks := 0 }).content =
      visited (s.threads t).content := by
    have hvisited : visited (s.threads t).content =
        { (s.threads t).content with
          totalTicks := 0
          priority := (s.threads t).priority + 1 } :=
      (if_neg hold.left).trans (if_pos hold.right)
    rw [hvisited]
    unfold raised
    rw [if_pos (show ({ s.threads t with
      totalTicks := 0 } : Thread).priority < maxPriority from
      hpriority ▸ hlt)]
    rfl
  have hmoved := hcleared.move hp hnextValid hlist raised
  rw [update_of_ne (ready_succ_ne p)] at hmoved
  rw [hbody]
  refine ⟨_, hmoved, ?_, ?_, (agedLists_raise hold _).symm⟩
  · rw [update_of_ne (ready_succ_ne p).symm, update_self]
  · intro u
    unfold takenOut
    rw [hcleared.move_content hp hlist, modThread_self, modThread_self]
    split
    case isTrue => exact hraised
    case isFalse hne =>
        rw [modThread_other _ _ _ hne, modThread_other _ _ _ hne]

end Age

theorem ageLoop_lists {valid : Queue -> Prop} {s : SchedState}
    {c p fuel : Nat} {lists : Queue -> List Nat} {before rest : List Nat}
    (h : Queued valid s c lists) (hp : valid (Queue.ready p))
    (hnextValid : valid (Queue.ready (p + 1))) (hlt : p < maxPriority)
    (hlist : lists (Queue.ready p) = before ++ rest)
    (hpriority : forall t, t ∈ rest -> (s.threads t).priority = p)
    (hfuel : rest.length < fuel) :
    exists s', ageLoop c p fuel s (last 0 before) (first 0 rest) = some s' ∧
      Walked valid c visited (fun threads => agedLists threads p) s lists
        before rest s' := by
  induction fuel generalizing s lists before rest with
  | zero => cases hfuel
  | succ fuel ih =>
      cases rest with
      | nil =>
          refine ⟨s, rfl, ?_, fun t => by simp⟩
          have hsame : agedLists s.threads p before [] lists = lists := by
            unfold agedLists
            rw [List.filter_nil, List.filter_nil, List.append_nil,
              ← List.append_nil before, ← hlist, update_eq_self]
            exact update_eq_self _ _
          rw [hsame]
          exact h
      | cons t after =>
          have hshort : after.length < fuel := Nat.lt_of_succ_lt_succ hfuel
          have htnot := h.not_mem_after hp hlist
          rcases h.walk hp hlist with ⟨hne, hnext⟩
          -- the rest of the walk, from the state after the visit of `t`
          have hfinish : forall s1 lists1 before1, Visit valid c
              (Queue.ready p) visited (fun threads => agedLists threads p) s
              lists before t after s1 lists1 before1 ->
              exists s', ageLoop c p fuel s1 (last 0 before1)
                  (first 0 after) = some s' ∧
                Walked valid c visited (fun threads => agedLists threads p) s
                  lists before (t :: after) s' := by
            intro s1 lists1 before1 hvisit
            have hafter : forall u, u ∈ after ->
                (s1.threads u).content = (s.threads u).content :=
              fun u hu => hvisit.content_after htnot hu
            have hpriority1 : forall u, u ∈ after ->
                (s1.threads u).priority = p := by
              intro u hu
              rw [content_field (hafter u hu) Thread.priority (fun _ => rfl)]
              exact hpriority u (List.mem_cons_of_mem t hu)
            rcases ih hvisit.queued hvisit.list hpriority1 hshort with
              ⟨s', hloop, hwalked⟩
            exact ⟨s', hloop, hvisit.walked htnot (agedLists_congr hafter)
              hwalked⟩
          unfold ageLoop
          rw [show first 0 (t :: after) = t from rfl, if_neg hne]
          by_cases hidle : (s.threads t).tid = 1
          · have hvisited : visited (s.threads t).content =
                (s.threads t).content := if_pos hidle
            rcases hfinish s lists (before ++ [t]) (visit_young hlist
              (fun hold => hold.left hidle) h (by
                intro u
                split
                case isTrue heq => rw [heq, hvisited]
                case isFalse => rfl)) with ⟨s', hloop, hdone⟩
            rw [last_snoc] at hloop
            rw [if_pos hidle, hnext]
            exact ⟨s', hloop, hdone⟩
          · have hcounted : (modThread s t (fun th => { th with
                totalTicks := Word.add th.totalTicks 1 })).threads t =
                counted (s.threads t) := modThread_self _ _ _
            rw [if_neg hidle]
            simp only [hcounted]
            by_cases hmany : 19 < Word.add (s.threads t).totalTicks 1
            · rcases visit_old h hp hnextValid hlt hlist
                (hpriority t List.mem_cons_self) ⟨hidle, hmany⟩ with
                ⟨lists1, hvisit⟩
              rcases hfinish _ lists1 before hvisit with
                ⟨s', hloop, hdone⟩
              rw [if_pos (show 19 < (counted (s.threads t)).totalTicks
                from hmany)]
              have hlink : ((takenOut s c p before t).threads t).next =
                  first 0 after := by
                rw [takenOut_self h hp hlist]
                exact hnext
              have hgoes : ageLoop c p fuel
                  (ageThread (takenOut s c p before t) c t) (last 0 before)
                  ((takenOut s c p before t).threads t).next = some s' := by
                rw [hlink]
                exact hloop
              exact ⟨s', hgoes, hdone⟩
            · have hvisited : visited (s.threads t).content =
                  counted (s.threads t).content :=
                (if_neg hidle).trans (if_neg hmany)
              rcases hfinish (modThread s t counted) lists
                (before ++ [t]) (visit_young hlist
                (fun hold => hmany hold.right) (h.touch rfl) (by
                  intro u
                  rw [modThread_content, hvisited]
                  rfl)) with ⟨s', hloop, hdone⟩
              rw [last_snoc] at hloop
              rw [if_neg (show ¬ 19 < (counted (s.threads t)).totalTicks
                from hmany), show (counted (s.threads t)).next =
                first 0 after from hnext]
              exact ⟨s', hloop, hdone⟩

def passLists (threads : Nat -> Thread) (lists : Queue -> List Nat)
    (p n : Nat) : Queue -> List Nat
  | .sleep => lists Queue.sleep
  | .ready q =>
      (if p < q ∧ q <= p + n then
        ((lists (Queue.ready (q - 1))).filter
          (fun t => GrownOld (threads t))).reverse
      else []) ++
      (if p <= q ∧ q < p + n then
        (lists (Queue.ready q)).filter (fun t => ¬ GrownOld (threads t))
      else lists (Queue.ready q))

section PassLists

variable {threads : Nat -> Thread} {lists : Queue -> List Nat} {p n q : Nat}

theorem passLists_outside (h : q < p ∨ p + n < q ∨ n = 0) :
    passLists threads lists p n (Queue.ready q) = lists (Queue.ready q) := by
  have hup : ¬ (p < q ∧ q <= p + n) := by lia
  have hstay : ¬ (p <= q ∧ q < p + n) := by lia
  simp only [passLists, if_neg hup, if_neg hstay, List.nil_append]

theorem passLists_lowest (h : 0 < n) :
    passLists threads lists p n (Queue.ready p) =
      (lists (Queue.ready p)).filter (fun t => ¬ GrownOld (threads t)) := by
  have hup : ¬ (p < p ∧ p <= p + n) := by lia
  have hstay : p <= p ∧ p < p + n := by lia
  simp only [passLists, if_neg hup, if_pos hstay, List.nil_append]

theorem passLists_inside (hlt : p <= q) (hle : q + 1 < p + n) :
    passLists threads lists p n (Queue.ready (q + 1)) =
      ((lists (Queue.ready q)).filter
        (fun t => GrownOld (threads t))).reverse ++
      (lists (Queue.ready (q + 1))).filter
        (fun t => ¬ GrownOld (threads t)) := by
  have hup : p < q + 1 ∧ q + 1 <= p + n := by lia
  have hstay : p <= q + 1 ∧ q + 1 < p + n := by lia
  simp only [passLists, if_pos hup, if_pos hstay, Nat.add_sub_cancel]

theorem passLists_highest (hlt : p <= q) (heq : q + 1 = p + n) :
    passLists threads lists p n (Queue.ready (q + 1)) =
      ((lists (Queue.ready q)).filter
        (fun t => GrownOld (threads t))).reverse ++
      lists (Queue.ready (q + 1)) := by
  have hup : p < q + 1 ∧ q + 1 <= p + n := by lia
  have hstay : ¬ (p <= q + 1 ∧ q + 1 < p + n) := by lia
  simp only [passLists, if_pos hup, if_neg hstay, Nat.add_sub_cancel]

theorem passLists_congr {threads' : Nat -> Thread}
    (h : forall q t, t ∈ lists (Queue.ready q) ->
      (GrownOld (threads' t) <-> GrownOld (threads t))) :
    passLists threads' lists p n = passLists threads lists p n := by
  have hold : forall q, (lists (Queue.ready q)).filter
      (fun t => GrownOld (threads' t)) = (lists (Queue.ready q)).filter
        (fun t => GrownOld (threads t)) := by
    intro q
    apply List.filter_congr
    intro t ht
    rw [decide_eq_decide]
    exact h q t ht
  have hyoung : forall q, (lists (Queue.ready q)).filter
      (fun t => ¬ GrownOld (threads' t)) = (lists (Queue.ready q)).filter
        (fun t => ¬ GrownOld (threads t)) := by
    intro q
    apply List.filter_congr
    intro t ht
    rw [decide_eq_decide, h q t ht]
  funext q
  cases q with
  | sleep => rfl
  | ready q => simp only [passLists, hold, hyoung]

end PassLists

theorem visited_young {th : Thread} (h : GrownOld th) :
    ¬ GrownOld (visited th) := by
  intro hold
  have hvisited : visited th =
      { th with totalTicks := 0, priority := th.priority + 1 } :=
    (if_neg h.left).trans (if_pos h.right)
  rw [hvisited] at hold
  exact absurd (show 19 < Word.add 0 1 from hold.right) (by decide)

theorem visited_content (th : Thread) :
    (visited th.content).content = visited th.content := by
  unfold visited
  split
  case isTrue => rfl
  case isFalse =>
      split
      case isTrue => rfl
      case isFalse => rfl

theorem visited_priority {th : Thread} (h : GrownOld th) :
    (visited th).priority = th.priority + 1 := by
  unfold visited
  rw [if_neg h.left, if_pos h.right]

section Pass

variable {s s1 : SchedState} {p : Nat} {lists : Queue -> List Nat}

/-- What the loop for priority `p` leaves to the loop for the next one. -/
structure OnePass (s : SchedState) (p : Nat) (lists : Queue -> List Nat)
    (s1 : SchedState) : Prop where
  visited : forall t, t ∈ lists (Queue.ready p) ->
    (s1.threads t).content = visited (s.threads t).content
  others : forall t, t ∉ lists (Queue.ready p) ->
    (s1.threads t).content = (s.threads t).content

theorem OnePass.raised_young (h : OnePass s p lists s1) {t : Nat}
    (ht : t ∈ lists (Queue.ready p)) (hold : GrownOld (s.threads t)) :
    ¬ GrownOld (s1.threads t) := by
  rw [grownOld_content ((h.visited t ht).trans (visited_content _).symm)]
  exact visited_young (show GrownOld (s.threads t).content from hold)

theorem OnePass.old_iff (h : OnePass s p lists s1) {t : Nat}
    (ht : t ∉ lists (Queue.ready p)) :
    GrownOld (s1.threads t) <-> GrownOld (s.threads t) :=
  grownOld_content (h.others t ht)

theorem OnePass.filter_kept (h : OnePass s p lists s1) {xs : List Nat}
    (hxs : forall t, t ∈ xs -> t ∉ lists (Queue.ready p)) :
    xs.filter (fun t => GrownOld (s1.threads t)) =
      xs.filter (fun t => GrownOld (s.threads t)) ∧
    xs.filter (fun t => ¬ GrownOld (s1.threads t)) =
      xs.filter (fun t => ¬ GrownOld (s.threads t)) := by
  constructor
  · apply List.filter_congr
    intro t ht
    rw [decide_eq_decide]
    exact h.old_iff (hxs t ht)
  · apply List.filter_congr
    intro t ht
    rw [decide_eq_decide, h.old_iff (hxs t ht)]

theorem OnePass.filter_raised (h : OnePass s p lists s1) {xs : List Nat}
    (hxs : forall t, t ∈ xs -> t ∉ lists (Queue.ready p)) :
    (((lists (Queue.ready p)).filter
        (fun t => GrownOld (s.threads t))).reverse ++ xs).filter
          (fun t => GrownOld (s1.threads t)) =
      xs.filter (fun t => GrownOld (s.threads t)) ∧
    (((lists (Queue.ready p)).filter
        (fun t => GrownOld (s.threads t))).reverse ++ xs).filter
          (fun t => ¬ GrownOld (s1.threads t)) =
      ((lists (Queue.ready p)).filter
        (fun t => GrownOld (s.threads t))).reverse ++
        xs.filter (fun t => ¬ GrownOld (s.threads t)) := by
  have hraised : forall t, t ∈ ((lists (Queue.ready p)).filter
      (fun t => GrownOld (s.threads t))).reverse ->
      ¬ GrownOld (s1.threads t) := by
    intro t ht
    rw [List.mem_reverse, List.mem_filter, decide_eq_true_iff] at ht
    exact h.raised_young ht.left ht.right
  rcases h.filter_kept hxs with ⟨hold, hyoung⟩
  constructor
  · rw [List.filter_append, List.filter_eq_nil_iff.mpr, List.nil_append]
    · exact hold
    · intro t ht
      simpa using hraised t ht
  · rw [List.filter_append, List.filter_eq_self.mpr, hyoung]
    intro t ht
    simpa using hraised t ht

theorem agedLists_lowest (threads : Nat -> Thread) (p : Nat)
    (lists : Queue -> List Nat) :
    agedLists threads p [] (lists (Queue.ready p)) lists (Queue.ready p) =
      (lists (Queue.ready p)).filter (fun t => ¬ GrownOld (threads t)) := by
  unfold agedLists
  rw [update_of_ne (ready_succ_ne p).symm, update_self,
    List.nil_append]

theorem agedLists_next (threads : Nat -> Thread) (p : Nat)
    (lists : Queue -> List Nat) :
    agedLists threads p [] (lists (Queue.ready p)) lists
        (Queue.ready (p + 1)) =
      ((lists (Queue.ready p)).filter
        (fun t => GrownOld (threads t))).reverse ++
        lists (Queue.ready (p + 1)) := by
  unfold agedLists
  rw [update_self]

theorem agedLists_other (threads : Nat -> Thread) {q : Nat} (hq : q ≠ p)
    (hq' : q ≠ p + 1) :
    agedLists threads p [] (lists (Queue.ready p)) lists (Queue.ready q) =
      lists (Queue.ready q) := by
  unfold agedLists
  rw [update_of_ne (by simpa using hq'),
    update_of_ne (by simpa using hq)]

theorem passLists_step {c n : Nat} {valid : Queue -> Prop}
    (h : Queued valid s c lists)
    (hvalid : forall q, p <= q -> q <= p + (n + 1) -> valid (Queue.ready q))
    (hpass : OnePass s p lists s1) :
    passLists s1.threads
        (agedLists s.threads p [] (lists (Queue.ready p)) lists) (p + 1) n =
      passLists s.threads lists p (n + 1) := by
  have hapart : forall q, p < q -> q <= p + (n + 1) ->
      forall t, t ∈ lists (Queue.ready q) -> t ∉ lists (Queue.ready p) := by
    intro q hlt hle t ht
    exact h.ready_apart (hvalid q (by lia) hle) (hvalid p (by lia) (by lia))
      (Nat.ne_of_gt hlt) ht
  have hnext := agedLists_next s.threads p lists
  funext q
  cases q with
  | sleep =>
      simp only [passLists]
      unfold agedLists
      rw [update_of_ne (by simp), update_of_ne (by simp)]
  | ready q =>
      -- the threads that the next loop takes out are those of the start
      have hold : forall q, p < q -> q <= p + (n + 1) ->
          (agedLists s.threads p [] (lists (Queue.ready p)) lists
            (Queue.ready q)).filter (fun t => GrownOld (s1.threads t)) =
          (lists (Queue.ready q)).filter
            (fun t => GrownOld (s.threads t)) := by
        intro q hlt hle
        rcases Nat.lt_or_eq_of_le (Nat.succ_le_of_lt hlt) with hfar | heq
        · rw [agedLists_other _ (by lia) (by lia)]
          exact (hpass.filter_kept (hapart q hlt hle)).left
        · rw [← heq, hnext]
          exact (hpass.filter_raised (hapart _ (by lia) (by lia))).left
      rcases Nat.lt_or_ge q p with hlt | hge
      · rw [passLists_outside (by lia), passLists_outside (by lia),
          agedLists_other _ (by lia) (by lia)]
      · rcases Nat.eq_or_lt_of_le hge with heq | hgt
        · rw [← heq, passLists_outside (by lia), passLists_lowest (by lia),
            agedLists_lowest]
        · rcases Nat.exists_eq_add_of_lt hgt with ⟨k, hk⟩
          rw [hk]
          rcases Nat.lt_trichotomy (p + k + 1) (p + (n + 1)) with
            hlt | heq | hgt
          · rw [passLists_inside (q := p + k) (by lia) hlt]
            cases k with
            | zero =>
                rw [passLists_lowest (p := p + 1) (by lia), Nat.add_zero,
                  hnext]
                exact (hpass.filter_raised
                  (hapart _ (by lia) (by lia))).right
            | succ k =>
                rw [passLists_inside (q := p + (k + 1)) (by lia) (by lia),
                  hold _ (by lia) (by lia), agedLists_other _ (by lia)
                  (by lia), (hpass.filter_kept
                  (hapart _ (by lia) (by lia))).right]
          · rw [passLists_highest (q := p + k) (by lia) heq]
            cases k with
            | zero =>
                rw [passLists_outside (by lia)]
                exact hnext
            | succ k =>
                rw [passLists_highest (q := p + (k + 1)) (by lia) (by lia),
                  hold _ (by lia) (by lia), agedLists_other _ (by lia)
                  (by lia)]
          · rw [passLists_outside (by lia), passLists_outside (by lia),
              agedLists_other _ (by lia) (by lia)]

/-- Above queue `p` the loop for priority `p` only adds threads that it has
taken out. -/
theorem mem_agedLists {threads : Nat -> Thread} {q t : Nat} (hq : p < q) :
    t ∈ agedLists threads p [] (lists (Queue.ready p)) lists
        (Queue.ready q) <->
      t ∈ lists (Queue.ready q) ∨
        (q = p + 1 ∧ t ∈ lists (Queue.ready p) ∧ GrownOld (threads t)) := by
  by_cases hsame : q = p + 1
  · rw [hsame, agedLists_next, List.mem_append, List.mem_reverse,
      List.mem_filter, decide_eq_true_iff, or_comm]
    simp
  · rw [agedLists_other _ (Nat.ne_of_gt hq) hsame]
    simp [hsame]

/-- After the loop for priority `p`, the threads above have the priorities of
their queues. -/
theorem OnePass.priority (hpass : OnePass s p lists s1) {q t : Nat}
    (hq : p < q)
    (hapart : t ∈ lists (Queue.ready q) -> t ∉ lists (Queue.ready p))
    (hlow : t ∈ lists (Queue.ready p) -> (s.threads t).priority = p)
    (hhigh : t ∈ lists (Queue.ready q) -> (s.threads t).priority = q)
    (ht : t ∈ agedLists s.threads p [] (lists (Queue.ready p)) lists
      (Queue.ready q)) : (s1.threads t).priority = q := by
  rcases (mem_agedLists hq).mp ht with hmem | ⟨heq, hmem, hold⟩
  · rw [content_field (hpass.others t (hapart hmem)) Thread.priority
      (fun _ => rfl)]
    exact hhigh hmem
  · have hcontent := (hpass.visited t hmem).trans (visited_content _).symm
    rw [content_field hcontent Thread.priority (fun _ => rfl),
      visited_priority (show GrownOld (s.threads t).content from hold), heq,
      show (s.threads t).content.priority = p from hlow hmem]

theorem ageQueues_lists {c n : Nat} {valid : Queue -> Prop}
    (h : Queued valid s c lists)
    (hvalid : forall q, p <= q -> q <= p + n -> valid (Queue.ready q))
    (hle : p + n <= maxPriority)
    (hpriority : forall q t, p <= q -> q < p + n -> t ∈ lists (Queue.ready q) ->
      (s.threads t).priority = q) :
    exists s', ageQueues c n s p = some s' ∧
      Queued valid s' c (passLists s.threads lists p n) ∧
      (forall q t, p <= q -> q < p + n -> t ∈ lists (Queue.ready q) ->
        (s'.threads t).content =
          if GrownOld (s.threads t) ∧ q + 1 < p + n then
            visited (visited (s.threads t).content)
          else visited (s.threads t).content) ∧
      forall t, (forall q, p <= q -> q < p + n ->
        t ∉ lists (Queue.ready q)) ->
        (s'.threads t).content = (s.threads t).content := by
  induction n generalizing s p lists with
  | zero =>
      refine ⟨s, rfl, ?_, ?_, fun _ _ => rfl⟩
      · have hsame : passLists s.threads lists p 0 = lists := by
          funext q
          cases q with
          | sleep => rfl
          | ready q => exact passLists_outside (by lia)
        rw [hsame]
        exact h
      · intro q t hpq hlt
        lia
  | succ n ih =>
      have hp := hvalid p (by lia) (by lia)
      have hapart : forall q t, p < q -> q <= p + (n + 1) ->
          t ∈ lists (Queue.ready q) -> t ∉ lists (Queue.ready p) := by
        intro q t hlt hle ht
        exact h.ready_apart (hvalid q (by lia) hle) hp (Nat.ne_of_gt hlt) ht
      rcases ageLoop_lists h hp (hvalid (p + 1) (by lia) (by lia)) (by lia)
        (show lists (Queue.ready p) = [] ++ lists (Queue.ready p) from rfl)
        (fun t ht => hpriority p t (by lia) (by lia) ht) (h.length_lt hp) with
        ⟨s1, hloop, hqueued1, hrecords1⟩
      rw [← chain_first (h.family.chain _ hp)] at hloop
      have hpass : OnePass s p lists s1 := by
        constructor
        · intro t ht
          rw [hrecords1 t, if_pos ht]
        · intro t ht
          rw [hrecords1 t, if_neg ht]
      have hpriority1 : forall q t, p + 1 <= q -> q < p + 1 + n ->
          t ∈ agedLists s.threads p [] (lists (Queue.ready p)) lists
            (Queue.ready q) -> (s1.threads t).priority = q := by
        intro q t hpq hlt
        apply hpass.priority hpq
        · exact fun hmem => hapart q t hpq (by lia) hmem
        · exact fun hmem => hpriority p t (by lia) (by lia) hmem
        · exact fun hmem => hpriority q t (by lia) (by lia) hmem
      rcases ih hqueued1 (fun q hpq hle => hvalid q (by lia) (by lia))
        (by lia) hpriority1 with ⟨s', hrun, hqueued, hvisited, hothers⟩
      rw [passLists_step h hvalid hpass] at hqueued
      refine ⟨s', ?_, hqueued, ?_, ?_⟩
      · unfold ageQueues
        rw [show (0 : Nat) = last 0 ([] : List Nat) from rfl, hloop]
        exact hrun
      · intro q t hpq hlt ht
        rcases Nat.eq_or_lt_of_le hpq with heq | hgt
        · -- a thread of the first queue is seen again when it has moved up
          rw [← heq] at ht ⊢
          have hcontent := hpass.visited t ht
          by_cases hcase : GrownOld (s.threads t)
          · rcases Nat.eq_zero_or_pos n with hzero | hpos
            · rw [hothers t (fun q' hpq' hlt' => by lia), hcontent,
                if_neg (fun hboth => by lia)]
            · have hyoung := hpass.raised_young ht hcase
              rw [hvisited (p + 1) t (Nat.le_refl _) (by lia)
                ((mem_agedLists (Nat.lt_succ_self p)).mpr
                  (Or.inr ⟨rfl, ht, hcase⟩)),
                if_neg (fun hboth => hyoung hboth.left),
                if_pos ⟨hcase, by lia⟩, hcontent]
          · rw [hothers t, hcontent, if_neg (fun hboth => hcase hboth.left)]
            intro q' hpq' hlt' hmem
            rcases (mem_agedLists hpq').mp hmem with hmem | ⟨_, _, hold⟩
            · exact hapart q' t hpq' (by lia) hmem ht
            · exact hcase hold
        · have hcontent := hpass.others t (hapart q t hgt (by lia) ht)
          rw [hvisited q t hgt (by lia)
            ((mem_agedLists hgt).mpr (Or.inl ht)), hcontent]
          simp only [grownOld_content hcontent,
            show q + 1 < p + 1 + n <-> q + 1 < p + (n + 1) by lia]
      · intro t ht
        have hcontent := hpass.others t (ht p (by lia) (by lia))
        rw [hothers t, hcontent]
        intro q hpq hlt hmem
        rcases (mem_agedLists hpq).mp hmem with hmem | ⟨_, hmem, _⟩
        · exact ht q (by lia) (by lia) hmem
        · exact ht p (by lia) (by lia) hmem

end Pass

def Queue.Ready : Queue -> Prop
  | .ready p => p <= maxPriority
  | .sleep => False

theorem Queue.Ready.valid {q : Queue} (h : q.Ready) : q.Valid := by
  cases q with
  | ready p => exact h
  | sleep => exact absurd h (fun hfalse => hfalse)

/-- The record of a thread of queue `q` after an aging pass.  A thread that has
moved up is visited again, unless it is in the highest queue. -/
def passRecord (q : Nat) (th : Thread) : Thread :=
  if GrownOld th ∧ q + 1 < maxPriority then visited (visited th)
  else visited th

/-- What an aging pass that is due does. -/
theorem schedAgeThreads_lists {valid : Queue -> Prop} {s : SchedState}
    {c tick : Nat} {lists : Queue -> List Nat} (h : Queued valid s c lists)
    (hvalid : forall q, q <= maxPriority -> valid (Queue.ready q))
    (hpriority : forall q t, q < maxPriority -> t ∈ lists (Queue.ready q) ->
      (s.threads t).priority = q)
    (hdue : ¬ Word.sub tick (s.extras (s.cpus c).cpuId).lastAgeTick < 20) :
    exists s', schedAgeThreads s c tick = some s' ∧
      Queued valid s' c (passLists s.threads lists 0 maxPriority) ∧
      (forall q t, q < maxPriority -> t ∈ lists (Queue.ready q) ->
        (s'.threads t).content = passRecord q (s.threads t).content) ∧
      forall t, (forall q, q < maxPriority -> t ∉ lists (Queue.ready q)) ->
        (s'.threads t).content = (s.threads t).content := by
  have hstamped : Queued valid (modExtra s (s.cpus c).cpuId
      (fun extra => { extra with lastAgeTick := tick })) c lists := by
    refine ⟨h.family.congr (fun _ _ _ _ => rfl) ?_, h.address⟩
    intro q _
    cases q with
    | ready p => rfl
    | sleep =>
        show (update s.extras (s.cpus c).cpuId _
          (s.cpus c).cpuId).sleepQueue = _
        rw [update_self]
        rfl
  rcases ageQueues_lists hstamped
    (fun q _ hle => hvalid q (by lia)) (Nat.le_of_eq (Nat.zero_add _))
    (fun q t _ hlt ht => hpriority q t (by lia) ht) with
    ⟨s', hrun, hqueued, hvisited, hothers⟩
  refine ⟨s', ?_, hqueued, ?_, ?_⟩
  · unfold schedAgeThreads
    rw [if_neg hdue]
    exact hrun
  · intro q t hlt ht
    rw [hvisited q t (Nat.zero_le q) (by lia) ht, Nat.zero_add]
    rfl
  · intro t ht
    exact hothers t (fun q _ hlt => ht q (by lia))

end Sched
end Barium
