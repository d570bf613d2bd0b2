import Barium.Sched.Accesses
import Barium.Sched.Reschedule
import Barium.Sched.CpuQueues

/-!
# A call stays on its CPU

`sched_reschedule` follows the links of the threads that wait in the queues of
its CPU.  These links lead to threads of the same queues, so the threads of the
other CPUs, and the CPUs themselves, stay as they are.
-/

namespace Barium
namespace Sched

open Foundation
open Function
open LinkedList

/-- The queues of CPU `d` and the links of their threads lead to threads of
`own` only. -/
structure Owns (own : Nat -> Prop) (d : Nat) (s : SchedState) : Prop where
  head : forall q, q.Valid -> queueHead s (d, q) ≠ 0 ->
    own (queueHead s (d, q))
  next : forall t, own t -> (s.threads t).next ≠ 0 ->
    own (s.threads t).next
  priority : forall t, own t -> (s.threads t).priority <= maxPriority

/-- Only CPU `d` and threads of `own` may have changed, and the links still lead
to threads of `own`. -/
structure Works (own : Nat -> Prop) (d : Nat) (s s' : SchedState) : Prop where
  owns : Owns own d s'
  cpus : forall c, c ≠ d -> s'.cpus c = s.cpus c
  threads : forall t, ¬ own t -> s'.threads t = s.threads t

section Works

variable {own : Nat -> Prop} {d : Nat} {s s' : SchedState}

theorem Works.refl (h : Owns own d s) : Works own d s s :=
  ⟨h, fun _ _ => rfl, fun _ _ => rfl⟩

theorem Works.trans {t u : SchedState} (hst : Works own d s t)
    (htu : Works own d t u) : Works own d s u := by
  refine ⟨htu.owns, ?_, ?_⟩
  · intro c hc
    exact (htu.cpus c hc).trans (hst.cpus c hc)
  · intro x hx
    exact (htu.threads x hx).trans (hst.threads x hx)

theorem works_modThread (h : Owns own d s) {t : Nat} (ht : own t)
    {f : Thread -> Thread}
    (hnext : (f (s.threads t)).next ≠ 0 -> own (f (s.threads t)).next)
    (hpriority : (f (s.threads t)).priority <= maxPriority) :
    Works own d s (modThread s t f) := by
  refine ⟨⟨?_, ?_, ?_⟩, fun _ _ => rfl, ?_⟩
  · intro q hq
    rw [modThread_queueHead]
    exact h.head q hq
  · intro u hu
    by_cases hsame : u = t
    · rw [hsame, modThread_self]
      exact hnext
    · rw [modThread_other _ _ _ hsame]
      exact h.next u hu
  · intro u hu
    by_cases hut : u = t
    · rw [hut, modThread_self]
      exact hpriority
    · rw [modThread_other _ _ _ hut]
      exact h.priority u hu
  · intro u hu
    apply modThread_other
    intro heq
    rw [heq] at hu
    exact hu ht

theorem works_touch (h : Owns own d s) {t : Nat} (ht : own t)
    {f : Thread -> Thread}
    (hnext : (f (s.threads t)).next = (s.threads t).next)
    (hpriority : (f (s.threads t)).priority = (s.threads t).priority) :
    Works own d s (modThread s t f) := by
  apply works_modThread h ht
  · rw [hnext]
    exact h.next t ht
  · rw [hpriority]
    exact h.priority t ht

theorem setQueueHead_cpus (s : SchedState) (d : Nat) (q : Queue) (t : Nat)
    {c : Nat} (hc : c ≠ d) : (setQueueHead s (d, q) t).cpus c = s.cpus c := by
  cases q with
  | ready p => exact update_of_ne hc _ _
  | sleep => rfl

theorem works_setQueueHead (h : Owns own d s) (q : Queue) {t : Nat}
    (ht : t ≠ 0 -> own t) : Works own d s (setQueueHead s (d, q) t) := by
  refine ⟨⟨?_, ?_, ?_⟩, ?_, ?_⟩
  · intro q' hq'
    have hhead : queueHead (setQueueHead s (d, q) t) (d, q') =
        update (fun q => queueHead s (d, q)) q t q' :=
      congrFun (setQueueHead_heads s d q t) q'
    rw [hhead]
    by_cases hqq : q' = q
    · rw [hqq, update_self]
      exact ht
    · rw [update_of_ne hqq]
      exact h.head q' hq'
  · rw [setQueueHead_threads]
    exact h.next
  · rw [setQueueHead_threads]
    exact h.priority
  · intro c hc
    exact setQueueHead_cpus s d q t hc
  · intro u _
    rw [setQueueHead_threads]

theorem works_unlink (h : Owns own d s) (q : Queue) {prev curr : Nat}
    (hprev : prev ≠ 0 -> own prev) (hcurr : own curr) :
    Works own d s (unlink s (d, q) prev curr) := by
  unfold unlink
  split
  · rename_i hne
    exact works_modThread h (hprev hne) (h.next curr hcurr)
      (h.priority prev (hprev hne))
  · exact works_setQueueHead h q (h.next curr hcurr)

theorem works_push (h : Owns own d s) {q : Queue} (hq : q.Valid) {t : Nat}
    (ht : own t) : Works own d s (push s (d, q) t) := by
  have hlinked := works_modThread h ht
    (f := fun th => { th with next := queueHead s (d, q) }) (h.head q hq)
    (h.priority t ht)
  exact hlinked.trans (works_setQueueHead hlinked.owns q (fun _ => ht))

/-!
# The loops
-/

theorem works_wakeThread (h : Owns own d s) {awake : Nat} (ht : own awake) :
    Works own d s (wakeThread s d awake) := by
  have hready := works_touch h ht
    (f := fun th => { th with state := ThreadState.ready }) rfl rfl
  have hvalid := hready.owns.priority awake ht
  exact hready.trans (works_push hready.owns (q := Queue.ready _) hvalid ht)

theorem works_wakeLoop {tick fuel prev curr : Nat} (h : Owns own d s)
    (hprev : prev ≠ 0 -> own prev) (hcurr : curr ≠ 0 -> own curr)
    (hrun : wakeLoop d tick fuel s prev curr = some s') :
    Works own d s s' := by
  induction fuel generalizing s prev curr with
  | zero => cases hrun
  | succ fuel ih =>
      unfold wakeLoop at hrun
      split at hrun
      · cases hrun
        exact Works.refl h
      · rename_i hne
        have hmem := hcurr hne
        split at hrun
        · have hout := works_unlink h Queue.sleep hprev hmem
          have hwoken := works_wakeThread hout.owns hmem
          exact (hout.trans hwoken).trans (ih hwoken.owns hprev
            (hout.owns.next curr hmem) hrun)
        · exact ih h (fun _ => hmem) (h.next curr hmem) hrun

theorem works_ageThread (h : Owns own d s) {aged : Nat} (ht : own aged) :
    Works own d s (ageThread s d aged) := by
  have hle := h.priority aged ht
  have hraised : Works own d s (modThread s aged raised) := by
    apply works_modThread h ht
    · unfold raised
      split
      · exact h.next aged ht
      · exact h.next aged ht
    · unfold raised
      split
      · rename_i hlt
        exact hlt
      · exact hle
  have hvalid := hraised.owns.priority aged ht
  exact hraised.trans (works_push hraised.owns (q := Queue.ready _) hvalid ht)

theorem works_ageLoop {p fuel prev curr : Nat} (h : Owns own d s)
    (hprev : prev ≠ 0 -> own prev) (hcurr : curr ≠ 0 -> own curr)
    (hrun : ageLoop d p fuel s prev curr = some s') : Works own d s s' := by
  induction fuel generalizing s prev curr with
  | zero => cases hrun
  | succ fuel ih =>
      unfold ageLoop at hrun
      split at hrun
      · cases hrun
        exact Works.refl h
      · rename_i hne
        have hmem := hcurr hne
        split at hrun
        · exact ih h (fun _ => hmem) (h.next curr hmem) hrun
        · have hcounted := works_touch h hmem (f := counted) rfl rfl
          simp only at hrun
          split at hrun
          · have hreset := works_touch hcounted.owns hmem
              (f := fun th => { th with totalTicks := 0 }) rfl rfl
            have hout := works_unlink hreset.owns (Queue.ready p) hprev hmem
            have haged := works_ageThread hout.owns hmem
            exact ((hcounted.trans hreset).trans (hout.trans haged)).trans
              (ih haged.owns hprev (hout.owns.next curr hmem) hrun)
          · exact hcounted.trans (ih hcounted.owns (fun _ => hmem)
              (hcounted.owns.next curr hmem) hrun)

theorem works_ageQueues {n p : Nat} (h : Owns own d s)
    (hle : p + n <= maxPriority) (hrun : ageQueues d n s p = some s') :
    Works own d s s' := by
  induction n generalizing s p with
  | zero =>
      cases hrun
      exact Works.refl h
  | succ n ih =>
      rcases Option.bind_eq_some_iff.mp hrun with ⟨t, hloop, hrest⟩
      have hp : p <= maxPriority := by lia
      have hfirst := works_ageLoop h (fun hne => absurd rfl hne)
        (h.head (Queue.ready p) hp) hloop
      exact hfirst.trans (ih hfirst.owns (by lia) hrest)

theorem Owns.of_age (h : Owns own d s) (tick : Nat) :
    Owns own d (modExtra s (s.cpus d).cpuId
      (fun extra => { extra with lastAgeTick := tick })) := by
  refine ⟨?_, h.next, h.priority⟩
  intro q hq
  have hsame : queueHead (modExtra s (s.cpus d).cpuId
      (fun extra => { extra with lastAgeTick := tick })) (d, q) =
      queueHead s (d, q) := by
    cases q with
    | ready p => rfl
    | sleep =>
        show (update s.extras _ _ (s.cpus d).cpuId).sleepQueue = _
        rw [update_self]
        rfl
  rw [hsame]
  exact h.head q hq

theorem works_schedAgeThreads {tick : Nat} (h : Owns own d s)
    (hrun : schedAgeThreads s d tick = some s') : Works own d s s' := by
  unfold schedAgeThreads at hrun
  split at hrun
  · cases hrun
    exact Works.refl h
  · have hset : Works own d s (modExtra s (s.cpus d).cpuId
        (fun extra => { extra with lastAgeTick := tick })) :=
      ⟨h.of_age tick, fun _ _ => rfl, fun _ _ => rfl⟩
    exact hset.trans (works_ageQueues hset.owns (by decide) hrun)

/-!
# The running thread

The link of the running thread is not used before it is set anew.
-/

theorem Owns.other (h : Owns own d s) {t : Nat} (ht : ¬ own t)
    (f : Thread -> Thread) : Owns own d (modThread s t f) := by
  have hsame : forall u, own u -> (modThread s t f).threads u = s.threads u := by
    intro u hu
    apply modThread_other
    intro heq
    rw [heq] at hu
    exact ht hu
  refine ⟨?_, ?_, ?_⟩
  · intro q hq
    rw [modThread_queueHead]
    exact h.head q hq
  · intro u hu
    rw [hsame u hu]
    exact h.next u hu
  · intro u hu
    rw [hsame u hu]
    exact h.priority u hu

theorem Owns.adopt (h : Owns own d s) {t : Nat} {f : Thread -> Thread}
    (hnext : (f (s.threads t)).next ≠ 0 -> own (f (s.threads t)).next)
    (hpriority : (f (s.threads t)).priority <= maxPriority) :
    Owns (fun u => own u ∨ u = t) d (modThread s t f) := by
  refine ⟨?_, ?_, ?_⟩
  · intro q hq hne
    rw [modThread_queueHead] at hne ⊢
    exact Or.inl (h.head q hq hne)
  · intro u hu
    by_cases hsame : u = t
    · rw [hsame, modThread_self]
      intro hne
      exact Or.inl (hnext hne)
    · rw [modThread_other _ _ _ hsame]
      intro hlink
      exact Or.inl (h.next u (hu.resolve_right hsame) hlink)
  · intro u hu
    by_cases hut : u = t
    · rw [hut, modThread_self]
      exact hpriority
    · rw [modThread_other _ _ _ hut]
      exact h.priority u (hu.resolve_right hut)

theorem lastThread_own {fuel last back : Nat} (h : Owns own d s)
    (hlast : own last) (hrun : lastThread s fuel last = some back) :
    own back := by
  induction fuel generalizing last with
  | zero => cases hrun
  | succ fuel ih =>
      unfold lastThread at hrun
      split at hrun
      · rename_i hne
        exact ih (h.next last hlast hne) hrun
      · cases hrun
        exact hlast

theorem works_append {q : Queue} (hq : q.Valid) {t : Nat} (h : Owns own d s)
    (ht : own t) (hrun : append s (d, q) t = some s') : Works own d s s' := by
  unfold append at hrun
  split at hrun
  · cases hrun
    exact works_setQueueHead h q (fun _ => ht)
  · rename_i hne
    rcases Option.bind_eq_some_iff.mp hrun with ⟨back, hlast, heq⟩
    cases heq
    have hback := lastThread_own h (h.head q hq hne) hlast
    exact works_modThread h hback (fun _ => ht) (h.priority back hback)

structure StaysOn (own : Nat -> Prop) (d current : Nat)
    (s s' : SchedState) : Prop where
  cpus : forall c, c ≠ d -> s'.cpus c = s.cpus c
  threads : forall t, ¬ own t -> t ≠ current -> s'.threads t = s.threads t

variable {current : Nat}

theorem StaysOn.trans {t u : SchedState} (hst : StaysOn own d current s t)
    (htu : StaysOn own d current t u) : StaysOn own d current s u := by
  refine ⟨?_, ?_⟩
  · intro c hc
    exact (htu.cpus c hc).trans (hst.cpus c hc)
  · intro x hx hne
    exact (htu.threads x hx hne).trans (hst.threads x hx hne)

theorem Works.staysOn (h : Works own d s s') : StaysOn own d current s s' :=
  ⟨h.cpus, fun t ht _ => h.threads t ht⟩

theorem Works.staysOn_adopted
    (h : Works (fun u => own u ∨ u = current) d s s') :
    StaysOn own d current s s' := by
  refine ⟨h.cpus, ?_⟩
  intro t ht hne
  exact h.threads t (fun hor => hor.elim ht hne)

theorem staysOn_modCurrent (s : SchedState) (f : Thread -> Thread) :
    StaysOn own d current s (modThread s current f) :=
  ⟨fun _ _ => rfl, fun _ _ hne => modThread_other _ _ _ hne⟩

theorem staysOn_serveTick {rsp tick ageTick : Nat} (h : Owns own d s)
    (hcurrent : ¬ own current)
    (hrun : serveTick s d current rsp tick ageTick = some s') :
    Owns own d s' ∧ StaysOn own d current s s' := by
  rcases Option.bind_eq_some_iff.mp hrun with ⟨t, hwake, hage⟩
  have hsaved := h.other hcurrent (fun th => { th with rsp := rsp })
  have hwoken := works_wakeLoop hsaved (fun hne => absurd rfl hne)
    (hsaved.head Queue.sleep trivial) hwake
  have hticked := hwoken.owns.other hcurrent (fun th =>
    { th with ticksRemaining := th.ticksRemaining - 1 })
  have haged := works_schedAgeThreads hticked hage
  refine ⟨haged.owns, ?_⟩
  exact (((staysOn_modCurrent s _).trans hwoken.staysOn).trans
    (staysOn_modCurrent t _)).trans haged.staysOn

theorem staysOn_retire {freed : List Nat} (h : Owns own d s)
    (hpriority : (s.threads current).priority <= maxPriority)
    (hrun : retire s d current = some (s', freed)) :
    StaysOn own d current s s' := by
  have hrefl : StaysOn own d current s s := (Works.refl h).staysOn
  unfold retire at hrun
  simp only at hrun
  split at hrun
  · rcases Option.bind_eq_some_iff.mp hrun with ⟨t, happend, heq⟩
    cases heq
    have hadopted := h.adopt (t := current) (f := preempted)
      (fun hne => absurd rfl hne) hpriority
    have hput := works_append (q := Queue.ready _) hpriority hadopted
      (Or.inr rfl) happend
    exact (staysOn_modCurrent s preempted).trans hput.staysOn_adopted
  · cases hrun
    have hadopted := h.adopt (t := current)
      (f := fun th => { th with next := queueHead s (d, Queue.sleep) })
      (h.head Queue.sleep trivial) hpriority
    have hput := works_setQueueHead hadopted Queue.sleep
      (t := current) (fun _ => Or.inr rfl)
    exact (staysOn_modCurrent s _).trans hput.staysOn_adopted
  · split at hrun
    · cases hrun
      exact hrefl
    · cases hrun
      exact hrefl
  · cases hrun
    exact hrefl

theorem staysOn_resume {next : Nat} (hnext : own next) (freed : List Nat) :
    StaysOn own d current s (resume s d next freed).state := by
  refine ⟨?_, ?_⟩
  · intro c hc
    exact update_of_ne hc _ _
  · intro t ht _
    apply modThread_other
    intro heq
    rw [heq] at ht
    exact ht hnext

theorem staysOn_switchTo {p : Nat} {r : RescheduleResult} (h : Owns own d s)
    (hp : p <= maxPriority) (hhead : queueHead s (d, Queue.ready p) ≠ 0)
    (hpriority : (s.threads current).priority <= maxPriority)
    (hrun : switchTo s d current p = some r) :
    StaysOn own d current s r.state := by
  rcases Option.bind_eq_some_iff.mp hrun with ⟨⟨t, freed⟩, hretire, heq⟩
  cases heq
  have hnext := h.head (Queue.ready p) hp hhead
  have hpopped := works_setQueueHead h (Queue.ready p) (h.next _ hnext)
  have hleft := staysOn_retire hpopped.owns (by
    rw [setQueueHead_threads]
    exact hpriority) hretire
  exact (hpopped.staysOn.trans hleft).trans (staysOn_resume hnext freed)

theorem staysOn_schedReschedule {rsp tick ageTick : Nat}
    {r : RescheduleResult} (h : Owns own d s)
    (hcurrent : ¬ own (s.cpus d).schedThread)
    (hpriority : forall s1, serveTick s d (s.cpus d).schedThread rsp tick
      ageTick = some s1 ->
      (s1.threads (s.cpus d).schedThread).priority <= maxPriority)
    (hrun : schedReschedule s d rsp tick ageTick = some r) :
    StaysOn own d (s.cpus d).schedThread s r.state := by
  unfold schedReschedule at hrun
  simp only at hrun
  split at hrun
  · cases hrun
    exact (Works.refl h).staysOn
  · rcases Option.bind_eq_some_iff.mp hrun with ⟨s1, hserve, hchoose⟩
    rcases staysOn_serveTick h hcurrent hserve with ⟨howns, hserved⟩
    refine hserved.trans ?_
    have hrefl : StaysOn own d (s.cpus d).schedThread s1 s1 :=
      (Works.refl howns).staysOn
    split at hchoose
    · cases hchoose
      exact hrefl
    · rename_i p htop
      rcases topQueue_spec htop with ⟨hlt, hhead, _⟩
      split at hchoose
      · exact staysOn_switchTo howns (Nat.le_of_lt_succ hlt) hhead
          (hpriority s1 hserve) hchoose
      · cases hchoose
        exact hrefl

end Works

/-!
# The other CPUs
-/

section Elsewhere

variable {s : SchedState} {holds : Nat -> Option Nat} {spawned : Nat -> Prop}
  {place : Nat -> Option Place} {lists : Loc -> List Nat} {c d : Nat}

def WaitsOn (lists : Loc -> List Nat) (d t : Nat) : Prop :=
  exists q, q.Valid ∧ t ∈ lists (d, q)

theorem Placed.owns (h : Placed s holds spawned place lists)
    (hd : d < s.cpuCount) : Owns (WaitsOn lists d) d s := by
  have hqueued := h.queued hd
  refine ⟨?_, ?_, ?_⟩
  · intro q hq hhead
    have hchain := h.chain (d, q) ⟨hd, hq⟩
    cases hlist : lists (d, q) with
    | nil =>
        rw [hlist] at hchain
        exact absurd (chain_first hchain) hhead
    | cons t rest =>
        rw [hlist] at hchain
        have hfirst : queueHead s (d, q) = t := chain_first hchain
        rw [hfirst]
        exact ⟨q, hq, by rw [hlist]; exact List.mem_cons_self⟩
  · rintro t ⟨q, hq, ht⟩ hlink
    rcases List.append_of_mem ht with ⟨before, after, hlist⟩
    have hwalk := (hqueued.walk hq hlist).right
    cases after with
    | nil => exact absurd hwalk hlink
    | cons u rest =>
        rw [hwalk]
        refine ⟨q, hq, ?_⟩
        show u ∈ lists (d, q)
        rw [show lists (d, q) = _ from hlist]
        simp
  · rintro t ⟨q, hq, ht⟩
    have hfits := h.fits t _ ((h.mem_iff (d, q) t).mp ht)
    cases q with
    | ready p =>
        rw [hfits.right.left]
        exact hq
    | sleep => exact hfits.right.left

structure Elsewhere (s : SchedState) (place : Nat -> Option Place)
    (lists : Loc -> List Nat) (c : Nat) (s' : SchedState)
    (lists' : Loc -> List Nat) : Prop where
  cpu : s'.cpus c = s.cpus c
  extra : s'.extras (s.cpus c).cpuId = s.extras (s.cpus c).cpuId
  queues : forall q, q.Valid -> lists' (c, q) = lists (c, q)
  threads : forall t pl, place t = some pl -> pl.cpu = c ->
    s'.threads t = s.threads t

theorem schedReschedule_elsewhere {rsp tick ageTick : Nat}
    {r : RescheduleResult} {place' : Nat -> Option Place}
    {lists' : Loc -> List Nat} (h : Placed s holds spawned place lists)
    (hcurrent : place (s.cpus d).schedThread = some (Place.running d))
    (hrun : schedReschedule s d rsp tick ageTick = some r)
    (h' : Placed r.state holds spawned place' lists')
    (hc : c < s.cpuCount) (hne : c ≠ d) :
    Elsewhere s place lists c r.state lists' := by
  have hd : d < s.cpuCount := h.cpu_lt _ _ hcurrent
  have hown := schedReschedule_own hrun
  have hnot : ¬ WaitsOn lists d (s.cpus d).schedThread := by
    rintro ⟨q, _, hmem⟩
    rw [h.mem_iff, hcurrent] at hmem
    cases hmem
  have hstays := staysOn_schedReschedule (h.owns hd) hnot (by
    intro s1 hserve
    rcases serveTick_spec rsp tick ageTick h hcurrent with
      ⟨s1', _, _, hserve', _, _, hrecord⟩
    rw [hserve] at hserve'
    cases hserve'
    rw [hrecord]
    exact (h.fits _ _ hcurrent).right.left) hrun
  have hthreads : forall t pl, place t = some pl -> pl.cpu = c ->
      r.state.threads t = s.threads t := by
    intro t pl hpl hcpu
    apply hstays.threads
    · rintro ⟨q, _, hmem⟩
      rw [h.mem_iff, hpl] at hmem
      cases hmem
      exact hne hcpu.symm
    · intro heq
      rw [heq, hcurrent] at hpl
      cases hpl
      exact hne hcpu.symm
  have hextra : r.state.extras (s.cpus c).cpuId =
      s.extras (s.cpus c).cpuId := by
    apply hown.others
    intro heq
    exact hne (h.ids c d hc hd heq)
  refine ⟨hstays.cpus c hne, hextra, ?_, hthreads⟩
  intro q hq
  have hold := h.chain (c, q) ⟨hc, hq⟩
  have hnew := h'.chain (c, q) ⟨by rw [hown.count]; exact hc, hq⟩
  have hhead : queueHead r.state (c, q) = queueHead s (c, q) := by
    cases q with
    | ready p =>
        show (r.state.cpus c).readyQueues p = _
        rw [hstays.cpus c hne]
        rfl
    | sleep =>
        show (r.state.extras (r.state.cpus c).cpuId).sleepQueue = _
        rw [hstays.cpus c hne, hextra]
        rfl
  rw [hhead] at hnew
  refine chain_unique hnew (chain_congr hold ?_)
  intro t ht
  show (r.state.threads t).next = (s.threads t).next
  rw [hthreads t _ ((h.mem_iff (c, q) t).mp ht) rfl]

end Elsewhere

end Sched
end Barium
