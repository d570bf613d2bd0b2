import Mathlib.Data.Set.Basic
import Barium.Sched.Records
import Barium.Sched.Dominance

/-!
# Asking whether a thread is alive

`sched_is_alive` looks at one CPU after the other.  A thread that moves to
another CPU meanwhile, or that a call of `sched_handoff` holds, is missed.
-/

namespace Barium
namespace Sched

open Foundation
open TransitionSystem
open LinkedList

/-!
# One CPU
-/

section Search

variable {s : SchedState} {holds : Nat -> Option Nat} {spawned : Nat -> Prop}
  {place : Nat -> Option Place} {lists : Loc -> List Nat}

def HasTid (s : SchedState) (tid : Nat) (threads : List Nat) : Prop :=
  exists t, t ∈ threads ∧ (s.threads t).tid = tid

theorem hasTid_cons {tid t : Nat} {rest : List Nat} :
    HasTid s tid (t :: rest) <->
      (s.threads t).tid = tid ∨ HasTid s tid rest := by
  constructor
  · intro h
    rcases h with ⟨u, hu, htid⟩
    rcases List.mem_cons.mp hu with heq | hrest
    · rw [heq] at htid
      exact Or.inl htid
    · exact Or.inr ⟨u, hrest, htid⟩
  · intro h
    rcases h with htid | ⟨u, hu, htid⟩
    · exact ⟨t, List.mem_cons_self, htid⟩
    · exact ⟨u, List.mem_cons_of_mem t hu, htid⟩

theorem tidInQueue_spec (tid : Nat) {fuel head : Nat} {threads : List Nat}
    (hchain : Chain 0 s.next head threads) (hfuel : threads.length < fuel) :
    exists found, tidInQueue tid fuel s head = some found ∧
      (found = true <-> HasTid s tid threads) := by
  induction fuel generalizing head threads with
  | zero => cases hfuel
  | succ fuel ih =>
      unfold tidInQueue
      cases threads with
      | nil =>
          have hzero : head = 0 := hchain
          rw [if_pos hzero]
          refine ⟨false, rfl, ?_⟩
          constructor
          · intro hfound
            cases hfound
          · intro hfound
            rcases hfound with ⟨_, hmem, _⟩
            cases hmem
      | cons t rest =>
          rcases hchain with ⟨heq, hne, hrest⟩
          rw [heq, if_neg hne]
          by_cases htid : (s.threads t).tid = tid
          · rw [if_pos htid]
            exact ⟨true, rfl, fun _ => hasTid_cons.mpr (Or.inl htid),
              fun _ => rfl⟩
          · rw [if_neg htid]
            rcases ih hrest (Nat.lt_of_succ_lt_succ hfuel) with
              ⟨found, hrun, hfound⟩
            refine ⟨found, hrun, ?_⟩
            rw [hfound, hasTid_cons]
            exact ⟨Or.inr, fun h => h.resolve_left htid⟩

theorem tidInReady_spec {c : Nat} (tid n p : Nat)
    (h : Placed s holds spawned place lists) (hc : c < s.cpuCount)
    (hn : p + n <= maxPriority + 1) :
    exists found, tidInReady c tid n s p = some found ∧
      (found = true <-> exists q, p <= q ∧ q < p + n ∧
        HasTid s tid (lists (c, Queue.ready q))) := by
  induction n generalizing p with
  | zero =>
      refine ⟨false, rfl, ?_⟩
      constructor
      · intro hfound
        cases hfound
      · intro hfound
        rcases hfound with ⟨q, hle, hlt, _⟩
        lia
  | succ n ih =>
      have hp : p <= maxPriority := by lia
      rcases tidInQueue_spec tid (h.chain _ (locValid_ready hc hp))
        (h.length_lt _) with ⟨here, hrun, hhere⟩
      unfold tidInReady
      cases here with
      | true =>
          refine ⟨true, Option.bind_eq_some_iff.mpr ⟨true, hrun, rfl⟩, ?_⟩
          exact ⟨fun _ => ⟨p, Nat.le_refl _, by lia, hhere.mp rfl⟩,
            fun _ => rfl⟩
      | false =>
          rcases ih (p + 1) (by lia) with ⟨found, hrest, hfound⟩
          refine ⟨found, Option.bind_eq_some_iff.mpr ⟨false, hrun, hrest⟩, ?_⟩
          rw [hfound]
          constructor
          · intro hlater
            rcases hlater with ⟨q, hle, hlt, hhas⟩
            exact ⟨q, by lia, by lia, hhas⟩
          · intro hany
            rcases hany with ⟨q, hle, hlt, hhas⟩
            refine ⟨q, ?_, by lia, hhas⟩
            rcases Nat.eq_or_lt_of_le hle with heq | hlater
            · rw [← heq] at hhas
              cases hhere.mpr hhas
            · exact hlater

def OnCpu (place : Nat -> Option Place) (c t : Nat) : Prop :=
  place t = some (Place.running c) ∨
    exists q, place t = some (Place.queue (c, q))

theorem isAliveOnCpu_spec {c : Nat} (tid : Nat)
    (h : Placed s holds spawned place lists)
    (hcurrent : place (s.cpus c).schedThread = some (Place.running c)) :
    exists found, isAliveOnCpu s c tid = some found ∧
      (found = true <->
        exists t, OnCpu place c t ∧ (s.threads t).tid = tid) := by
  have hc : c < s.cpuCount := h.cpu_lt _ _ hcurrent
  have hne := (h.address _ _ hcurrent).left
  unfold isAliveOnCpu
  by_cases hsame : (s.threads (s.cpus c).schedThread).tid = tid
  · rw [if_pos ⟨hne, hsame⟩]
    exact ⟨true, rfl, fun _ => ⟨_, Or.inl hcurrent, hsame⟩, fun _ => rfl⟩
  · rw [if_neg (fun hboth => hsame hboth.right)]
    rcases tidInReady_spec tid (maxPriority + 1) 0 h hc (by lia) with
      ⟨ready, hready, hreadyIff⟩
    cases ready with
    | true =>
        refine ⟨true, Option.bind_eq_some_iff.mpr ⟨true, hready, rfl⟩, ?_⟩
        rcases hreadyIff.mp rfl with ⟨q, _, _, t, ht, htid⟩
        exact ⟨fun _ => ⟨t, Or.inr ⟨_, (h.mem_iff _ t).mp ht⟩, htid⟩,
          fun _ => rfl⟩
    | false =>
        rcases tidInQueue_spec tid
          (h.chain (c, Queue.sleep) ⟨hc, trivial⟩) (h.length_lt _) with
          ⟨found, hsleep, hfound⟩
        refine ⟨found, Option.bind_eq_some_iff.mpr ⟨false, hready,
          (if_neg Bool.false_ne_true).trans hsleep⟩, ?_⟩
        rw [hfound]
        constructor
        · intro hhas
          rcases hhas with ⟨t, ht, htid⟩
          exact ⟨t, Or.inr ⟨_, (h.mem_iff _ t).mp ht⟩, htid⟩
        · intro hany
          rcases hany with ⟨t, hrunning | ⟨q, hq⟩, htid⟩
          · rw [← h.running t c hrunning] at htid
            exact absurd htid hsame
          · cases q with
            | sleep => exact ⟨t, (h.mem_iff _ t).mpr hq, htid⟩
            | ready p =>
                have hp := (h.fits t _ hq).right.right.left
                have hhas : HasTid s tid (lists (c, Queue.ready p)) :=
                  ⟨t, (h.mem_iff _ t).mpr hq, htid⟩
                cases hreadyIff.mpr ⟨p, Nat.zero_le _, by lia, hhas⟩

end Search

/-!
# One call among the steps of the scheduler
-/

/-- A call of `sched_is_alive(tid)`: the number of threads created before it,
and the CPU it comes to next. -/
structure Inquiry where
  tid : Nat
  before : Nat
  next : Nat

/-- The scheduler, the numbers of the threads that have called `sched_exit`,
and the call of `sched_is_alive`. -/
structure InquiryRun where
  run : SchedRun
  exited : Set Nat
  inquiry : Option Inquiry

inductive InquiryEvent where
  | sched (event : SchedEvent)
  | start (tid : Nat)
  | miss
  | answer (alive : Bool)

def InquiryRun.exitedAfter (h : InquiryRun) : SchedEvent -> Set Nat
  | .exit c =>
      { k | k ∈ h.exited ∨ exists b,
        h.run.alive (h.run.sched.cpus c).schedThread = some b ∧ k = b.serial }
  | _ => h.exited

inductive InquiryStep : InquiryRun -> InquiryEvent -> InquiryRun -> Prop where
  | sched {h : InquiryRun} {event : SchedEvent} {run : SchedRun} :
      SchedStep h.run event run ->
      InquiryStep h (InquiryEvent.sched event)
        { h with run := run, exited := h.exitedAfter event }
  | start {h : InquiryRun} {tid : Nat} :
      h.inquiry = none ->
      InquiryStep h (InquiryEvent.start tid)
        { h with
          inquiry := some (Inquiry.mk tid h.run.tids.length 0) }
  | miss {h : InquiryRun} {q : Inquiry} :
      h.inquiry = some q -> q.next < h.run.sched.cpuCount ->
      isAliveOnCpu h.run.sched q.next q.tid = some false ->
      InquiryStep h InquiryEvent.miss
        { h with inquiry := some { q with next := q.next + 1 } }
  | found {h : InquiryRun} {q : Inquiry} :
      h.inquiry = some q -> q.next < h.run.sched.cpuCount ->
      isAliveOnCpu h.run.sched q.next q.tid = some true ->
      InquiryStep h (InquiryEvent.answer true) { h with inquiry := none }
  | missing {h : InquiryRun} {q : Inquiry} :
      h.inquiry = some q -> h.run.sched.cpuCount <= q.next ->
      InquiryStep h (InquiryEvent.answer false) { h with inquiry := none }

/-- No call of `sched_handoff` disturbs the search: it does not put the thread
on a CPU that the search has left behind, and it does not hold the thread at
the end. -/
def Undisturbed (h : InquiryRun) (event : InquiryEvent) : Prop :=
  forall q c t, h.inquiry = some q ->
    h.run.handoff c = HandoffState.holding t ->
    (h.run.sched.threads t).tid = q.tid ->
    (event = InquiryEvent.sched (SchedEvent.handoff c) -> q.next <= c) ∧
      event ≠ InquiryEvent.answer false

def inquirySystem (cpuCount : Nat) (ids : Nat -> Nat) :
    TransitionSystem InquiryRun InquiryEvent where
  Init := fun h => (schedSystem cpuCount ids).Init h.run ∧ h.exited = ∅ ∧
    h.inquiry = none
  Step := fun h event h' => InquiryStep h event h' ∧ Undisturbed h event

/-!
# The invariant
-/

def Ahead (place : Nat -> Option Place) (q : Inquiry) (t : Nat) : Prop :=
  exists pl, place t = some pl ∧
    ((exists c, pl = Place.held c) ∨ q.next <= pl.cpu)

structure InquiryInvariant (h : InquiryRun) (place : Nat -> Option Place)
    (lists : Loc -> List Nat) : Prop where
  sched : SchedInvariant h.run place lists
  alive : forall k, k < h.run.tids.length ->
    k ∈ h.exited ∨ exists t b, h.run.alive t = some b ∧ b.serial = k
  dead : forall t b, h.run.alive t = some b ->
    (h.run.sched.threads t).state = ThreadState.dead -> b.serial ∈ h.exited
  before : forall q, h.inquiry = some q -> q.before <= h.run.tids.length
  ahead : forall q t b, h.inquiry = some q -> h.run.alive t = some b ->
    b.serial < q.before -> (h.run.sched.threads t).tid = q.tid ->
    b.serial ∈ h.exited ∨ Ahead place q t

/-!
# Dead threads
-/

section Dead

variable {r r' : SchedRun} {event : SchedEvent} {place : Nat -> Option Place}
  {lists : Loc -> List Nat}

theorem dead_rule (tick : Nat) : RecordRule tick (fun th th' =>
    th'.state = ThreadState.dead -> th.state = ThreadState.dead) := by
  constructor
  · intro th h
    exact h
  · intro th th' th'' h h' hdead
    exact h (h' hdead)
  · intro th n h
    exact h
  · intro th _ h
    cases h
  · intro th n _ h
    exact h
  · intro th _ h
    exact h

theorem retired_dead {th : Thread}
    (h : (retired th).state = ThreadState.dead) :
    th.state = ThreadState.dead := by
  by_cases hrunning : th.state = ThreadState.running
  · unfold retired at h
    rw [hrunning] at h
    cases h
  · rw [retired_of_ne hrunning] at h
    exact h

theorem schedReschedule_dead {c rsp tick ageTick t : Nat}
    {result : RescheduleResult} (h : SchedInvariant r place lists)
    (hc : c < r.sched.cpuCount)
    (hrun : schedReschedule r.sched c rsp tick ageTick = some result)
    (hdead : (result.state.threads t).state = ThreadState.dead) :
    (r.sched.threads t).state = ThreadState.dead := by
  by_cases hcase : t = (r.sched.cpus c).schedThread
  · rcases schedReschedule_current h.placed (h.running c hc) hrun with
      ⟨th, n, hth, hn⟩
    rw [hcase, hn] at hdead
    rw [hcase]
    rcases hth with hsame | hretired
    · rw [hsame] at hdead
      exact hdead
    · have hstate : (retired (ticked rsp
          (r.sched.threads (r.sched.cpus c).schedThread))).state =
          ThreadState.dead := by
        rw [hretired] at hdead
        exact hdead
      have hticked := retired_dead hstate
      exact hticked
  · rcases schedReschedule_waiting (dead_rule tick) h.placed
      (h.running c hc) hrun hcase with ⟨th, n, hkept, hsame | ⟨_, hstarted⟩⟩
    · rw [hsame] at hdead
      exact hkept hdead
    · rw [hstarted] at hdead
      cases hdead

theorem Links.state {s s' : SchedState} (h : Links s s') (t : Nat) :
    (s'.threads t).state = (s.threads t).state := by
  rcases h.threads t with ⟨n, hn⟩
  rw [hn]

theorem findOnCpu_links {s s' : SchedState} {holds : Nat -> Option Nat}
    {spawned : Nat -> Prop} {c tid : Nat} {found : Option Nat}
    (h : Placed s holds spawned place lists) (hc : c < s.cpuCount)
    (hrun : findOnCpu c tid (maxPriority + 1) s = some (found, s')) :
    Links s s' := by
  rcases findOnCpu_spec h hc (Nat.le_refl _) with ⟨r, hrun', hsearch⟩
  rw [hrun] at hrun'
  cases hrun'
  cases hsearch with
  | missing => exact ⟨Frame.refl s, fun u => ⟨(s.threads u).next, rfl⟩⟩
  | found _ _ _ _ _ hlinks => exact hlinks

theorem schedStep_dead (h : SchedInvariant r place lists)
    (hstep : SchedStep r event r') {t : Nat} {b : Birth}
    (ht : r'.alive t = some b)
    (hdead : (r'.sched.threads t).state = ThreadState.dead) :
    r.alive t = some b ∧
      ((r.sched.threads t).state = ThreadState.dead ∨ exists c,
        event = SchedEvent.exit c ∧ t = (r.sched.cpus c).schedThread) := by
  have hspawn : forall {thread stack userLimit userTop priority : Nat}
      {name : Option (List UInt8)} {frame : List Nat} {tid : Nat},
      (r.born (spawnThread r.sched thread stack userLimit userTop priority
        name frame).state thread tid true).alive t = some b ->
      ((spawnThread r.sched thread stack userLimit userTop priority name
        frame).state.threads t).state = ThreadState.dead ->
      r.alive t = some b ∧ (r.sched.threads t).state = ThreadState.dead := by
    intro thread stack userLimit userTop priority name frame tid ht hdead
    rcases born_cases ht with ⟨heq, _⟩ | ⟨hne, hold⟩
    · rcases spawnThread_self r.sched thread stack userLimit userTop priority
        name frame with ⟨n, hn⟩
      rw [heq, hn] at hdead
      cases hdead
    · rcases spawnThread_other r.sched thread stack userLimit userTop priority
        name frame hne with ⟨n, hn⟩
      rw [hn] at hdead
      exact ⟨hold, hdead⟩
  cases hstep with
  | spawn _ _ =>
      rcases hspawn ht hdead with ⟨hold, hstate⟩
      exact ⟨hold, Or.inl hstate⟩
  | spawnUser _ _ =>
      rcases hspawn ht hdead with ⟨hold, hstate⟩
      exact ⟨hold, Or.inl hstate⟩
  | reschedule hc hrun =>
      exact ⟨aliveAfter_some ht, Or.inl (schedReschedule_dead h hc hrun hdead)⟩
  | @sleep c ms tick hc =>
      refine ⟨ht, Or.inl ?_⟩
      by_cases hhere : t = (r.sched.cpus c).schedThread
      · have hself := schedSleep_self
          (h.placed.address _ _ (h.running c hc)).left ms tick
        rw [hhere] at hdead
        cases (congrArg Thread.state hself).symm.trans hdead
      · exact (congrArg Thread.state (schedSleep_other ms tick hhere)).symm.trans
          hdead
  | @exit c hc =>
      refine ⟨ht, ?_⟩
      by_cases hcase : t = (r.sched.cpus c).schedThread
      · exact Or.inr ⟨c, rfl, hcase⟩
      · left
        exact (congrArg Thread.state (schedExit_other hcase)).symm.trans hdead
  | handoffStart _ _ _ => exact ⟨ht, Or.inl hdead⟩
  | handoffMiss _ _ hi hrun =>
      exact ⟨ht, Or.inl ((findOnCpu_links h.placed hi hrun).state t ▸ hdead)⟩
  | handoffFind _ _ hi hrun =>
      exact ⟨ht, Or.inl ((findOnCpu_links h.placed hi hrun).state t ▸ hdead)⟩
  | handoffNone _ _ _ => exact ⟨ht, Or.inl hdead⟩
  | @handoffPlace c target _ _ =>
      refine ⟨ht, Or.inl ?_⟩
      have hlinks := push_links
        (modThread r.sched target (promoted (r.sched.cpus c).cpuId))
        (c, Queue.ready maxPriority) target
      have hstate := (hlinks.state t).symm.trans hdead
      by_cases hsame : t = target
      · rw [hsame, modThread_self] at hstate
        rw [hsame]
        exact hstate
      · rw [modThread_other _ _ _ hsame] at hstate
        exact hstate

end Dead

/-!
# Threads that come and go
-/

structure Births (r r' : SchedRun) : Prop where
  length : r.tids.length <= r'.tids.length
  born : forall k, k < r'.tids.length -> k < r.tids.length ∨
    exists t b, r'.alive t = some b ∧ b.serial = k
  old : forall t b, r'.alive t = some b ->
    r.alive t = some b ∨ b.serial = r.tids.length
  kept : forall t b, r.alive t = some b -> r'.alive t = some b ∨
    (r.sched.threads t).state = ThreadState.dead

section Births

variable {r r' : SchedRun} {event : SchedEvent}

theorem births_born {thread : Nat} (hfresh : FreshThread r thread)
    (sched : SchedState) (tid : Nat) :
    Births r (r.born sched thread tid true) := by
  have hlength : (r.born sched thread tid true).tids.length =
      r.tids.length + 1 := List.length_append
  constructor
  · rw [hlength]
    exact Nat.le_succ _
  · intro k hk
    rw [hlength] at hk
    rcases Nat.lt_succ_iff_lt_or_eq.mp hk with hlt | heq
    · exact Or.inl hlt
    · right
      exact ⟨thread, _, Function.update_self _ _ _, heq.symm⟩
  · intro t b ht
    rcases born_cases ht with ⟨_, hb⟩ | ⟨_, hold⟩
    · exact Or.inr (congrArg Birth.serial hb)
    · exact Or.inl hold
  · intro t b ht
    left
    rw [born_alive_other]
    · exact ht
    · intro heq
      rw [heq, hfresh.unused] at ht
      cases ht

theorem births_same (htids : r'.tids = r.tids) (halive : r'.alive = r.alive) :
    Births r r' := by
  constructor
  · rw [htids]
  · intro k hk
    rw [htids] at hk
    exact Or.inl hk
  · intro t b ht
    rw [halive] at ht
    exact Or.inl ht
  · intro t b ht
    rw [halive]
    exact Or.inl ht

theorem schedStep_births (hstep : SchedStep r event r') : Births r r' := by
  cases hstep with
  | spawn hfresh _ => exact births_born hfresh _ _
  | spawnUser hfresh _ => exact births_born hfresh _ _
  | @reschedule c rsp tick ageTick result _ _ =>
      refine ⟨Nat.le_refl _, fun k hk => Or.inl hk,
        fun t b ht => Or.inl (aliveAfter_some ht), ?_⟩
      intro t b ht
      show r.aliveAfter c result.state t = some b ∨ _
      by_cases hdead : (r.sched.threads t).state = ThreadState.dead
      · exact Or.inr hdead
      · left
        by_cases hsame : t = (r.sched.cpus c).schedThread
        · rw [hsame] at hdead
          rw [aliveAfter_stays c result.state hdead]
          exact ht
        · exact (aliveAfter_other result.state hsame).trans ht
  | _ => exact births_same rfl rfl

end Births

/-!
# The steps
-/

section Steps

variable {h : InquiryRun} {place : Nat -> Option Place}
  {lists : Loc -> List Nat}

theorem exitedAfter_mono {k : Nat} (hk : k ∈ h.exited) (event : SchedEvent) :
    k ∈ h.exitedAfter event := by
  cases event with
  | exit c => exact Or.inl hk
  | _ => exact hk

theorem Ahead.step {q : Inquiry} {t : Nat} {event : SchedEvent}
    {run : SchedRun} {place' : Nat -> Option Place} {pl' : Place}
    (hahead : Ahead place q t) (hinv : SchedInvariant h.run place lists)
    (hframe : StepFrame h.run event run place place')
    (hq : h.inquiry = some q) (htid : (h.run.sched.threads t).tid = q.tid)
    (hcalm : Undisturbed h (InquiryEvent.sched event))
    (hplace' : place' t = some pl') : Ahead place' q t := by
  rcases hahead with ⟨pl, hplace, hheld | hnext⟩
  · rcases hheld with ⟨c, hc⟩
    rw [hc] at hplace
    rcases hframe.held t c pl' hplace hplace' with hstill | ⟨hevent, hput⟩
    · exact ⟨pl', hplace', Or.inl ⟨c, hstill⟩⟩
    · have hholding := ((hinv.at_iff t _).mpr hplace).right
      refine ⟨pl', hplace', Or.inr ?_⟩
      rw [hput]
      exact (hcalm q c t hq hholding htid).left (by rw [hevent])
  · rcases hframe.home t pl pl' hplace hplace' with hsame | ⟨c, _, hheld⟩
    · refine ⟨pl', hplace', Or.inr ?_⟩
      rw [hsame]
      exact hnext
    · exact ⟨pl', hplace', Or.inl ⟨c, hheld⟩⟩

theorem inquiryInvariant_sched {event : SchedEvent} {run : SchedRun}
    (hinv : InquiryInvariant h place lists)
    (hstep : SchedStep h.run event run)
    (hcalm : Undisturbed h (InquiryEvent.sched event)) :
    exists place' lists', InquiryInvariant
      { h with run := run, exited := h.exitedAfter event } place' lists' := by
  rcases schedInvariant_stepFrame hinv.sched hstep with
    ⟨place', lists', hsched, hframe⟩
  have hbirths := schedStep_births hstep
  refine ⟨place', lists', hsched, ?_, ?_, ?_, ?_⟩
  · intro k hk
    rcases hbirths.born k hk with hold | hnew
    · rcases hinv.alive k hold with hexited | ⟨t, b, ht, hb⟩
      · exact Or.inl (exitedAfter_mono hexited event)
      · rcases hbirths.kept t b ht with hkept | hdead
        · exact Or.inr ⟨t, b, hkept, hb⟩
        · left
          rw [← hb]
          exact exitedAfter_mono (hinv.dead t b ht hdead) event
    · exact Or.inr hnew
  · intro t b ht hdead
    rcases schedStep_dead hinv.sched hstep ht hdead with
      ⟨hold, hbefore | ⟨c, hevent, hcurrent⟩⟩
    · exact exitedAfter_mono (hinv.dead t b hold hbefore) event
    · rw [hevent]
      rw [hcurrent] at hold
      exact Or.inr ⟨b, hold, rfl⟩
  · intro q hq
    exact Nat.le_trans (hinv.before q hq) hbirths.length
  · intro q t b hq ht hb htid
    have hlt := Nat.lt_of_lt_of_le hb (hinv.before q hq)
    rcases hbirths.old t b ht with hold | hnew
    · have htid' : (h.run.sched.threads t).tid = q.tid := by
        rw [(hinv.sched.tid.serial t b hold).right, ← htid,
          (hsched.tid.serial t b ht).right]
      rcases hinv.ahead q t b hq hold hb htid' with hexited | hahead
      · exact Or.inl (exitedAfter_mono hexited event)
      · right
        cases hplace' : place' t with
        | none =>
            rw [(hsched.alive_iff t).mpr hplace'] at ht
            cases ht
        | some pl' =>
            exact hahead.step hinv.sched hframe hq htid' hcalm hplace'
    · lia

/-- A thread that is not found on one CPU is on a later one. -/
theorem Ahead.pass {q : Inquiry} {t : Nat} (hahead : Ahead place q t)
    (hinv : SchedInvariant h.run place lists)
    (hlt : q.next < h.run.sched.cpuCount)
    (htid : (h.run.sched.threads t).tid = q.tid)
    (hmiss : isAliveOnCpu h.run.sched q.next q.tid = some false) :
    Ahead place { q with next := q.next + 1 } t := by
  have hnobody : ¬ OnCpu place q.next t := by
    intro hon
    rcases isAliveOnCpu_spec q.tid hinv.placed (hinv.running q.next hlt) with
      ⟨found, hrun, hfound⟩
    rw [hmiss] at hrun
    cases hrun
    cases hfound.mpr ⟨t, hon, htid⟩
  rcases hahead with ⟨pl, hplace, hheld | hnext⟩
  · exact ⟨pl, hplace, Or.inl hheld⟩
  · refine ⟨pl, hplace, ?_⟩
    cases Nat.eq_or_lt_of_le hnext with
    | inr hlater => exact Or.inr hlater
    | inl heq =>
        rcases pl with c | ⟨c, queue⟩ | c
        · rw [show c = q.next from heq.symm] at hplace
          exact absurd (Or.inl hplace) hnobody
        · rw [show c = q.next from heq.symm] at hplace
          exact absurd (Or.inr ⟨queue, hplace⟩) hnobody
        · exact Or.inl ⟨c, rfl⟩

theorem inquiryInvariant_step {event : InquiryEvent} {h' : InquiryRun}
    (hinv : InquiryInvariant h place lists) (hstep : InquiryStep h event h')
    (hcalm : Undisturbed h event) :
    exists place' lists', InquiryInvariant h' place' lists' := by
  cases hstep with
  | sched hstep => exact inquiryInvariant_sched hinv hstep hcalm
  | start hnone =>
      refine ⟨place, lists, hinv.sched, hinv.alive, hinv.dead, ?_, ?_⟩
      · intro q hq
        cases hq
        exact Nat.le_refl _
      · intro q t b hq ht _ _
        cases hq
        right
        cases hplace : place t with
        | none =>
            rw [(hinv.sched.alive_iff t).mpr hplace] at ht
            cases ht
        | some pl => exact ⟨pl, hplace, Or.inr (Nat.zero_le _)⟩
  | @miss q hq hlt hmiss =>
      refine ⟨place, lists, hinv.sched, hinv.alive, hinv.dead, ?_, ?_⟩
      · intro q' hq'
        cases hq'
        exact hinv.before q hq
      · intro q' t b hq' ht hb htid
        cases hq'
        rcases hinv.ahead q t b hq ht hb htid with hexited | hahead
        · exact Or.inl hexited
        · exact Or.inr (hahead.pass hinv.sched hlt htid hmiss)
  | found _ _ _ =>
      refine ⟨place, lists, hinv.sched, hinv.alive, hinv.dead, ?_, ?_⟩
      · intro q hq
        cases hq
      · intro q t b hq
        cases hq
  | missing _ _ =>
      refine ⟨place, lists, hinv.sched, hinv.alive, hinv.dead, ?_, ?_⟩
      · intro q hq
        cases hq
      · intro q t b hq
        cases hq

end Steps

/-!
# The start
-/

structure BootInvariant (r : SchedRun) : Prop where
  serials : forall k, k < r.tids.length ->
    exists t b, r.alive t = some b ∧ b.serial = k
  states : forall t b, r.alive t = some b ->
    (r.sched.threads t).state ≠ ThreadState.dead

theorem bootInvariant_init {r : SchedRun} {i : InitCall}
    (h : BootInvariant r) (hnew : r.alive i.idle = none) :
    BootInvariant (initCpu r i) := by
  have hdone := schedInit_done r.sched i.cpu i.idle i.stack
  have hlength : (initCpu r i).tids.length = r.tids.length + 1 :=
    List.length_append
  constructor
  · intro k hk
    rw [hlength] at hk
    rcases Nat.lt_succ_iff_lt_or_eq.mp hk with hlt | heq
    · rcases h.serials k hlt with ⟨t, b, ht, hb⟩
      refine ⟨t, b, ?_, hb⟩
      have hne : t ≠ i.idle := by
        intro heq
        rw [heq, hnew] at ht
        cases ht
      exact (born_alive_other _ _ _ hne).trans ht
    · exact ⟨i.idle, _, Function.update_self _ _ _, heq.symm⟩
  · intro t b ht
    show ((schedInit r.sched i.cpu i.idle i.stack).threads t).state ≠ _
    rcases born_cases ht with ⟨heq, _⟩ | ⟨hne, hold⟩
    · rw [heq, hdone.idle_record.right.left]
      simp
    · rw [hdone.records t hne]
      exact h.states t b hold

theorem bootInvariant_all (calls : List InitCall) {r : SchedRun}
    (h : BootInvariant r) (hidles : (calls.map InitCall.idle).Nodup)
    (hnew : forall i, i ∈ calls -> r.alive i.idle = none) :
    BootInvariant (calls.foldl initCpu r) := by
  induction calls generalizing r with
  | nil => exact h
  | cons i calls ih =>
      rw [List.map_cons] at hidles
      rcases List.nodup_cons.mp hidles with ⟨hi, hrest⟩
      apply ih (bootInvariant_init h (hnew i List.mem_cons_self)) hrest
      intro j hj
      have hne : j.idle ≠ i.idle := by
        intro heq
        apply hi
        rw [← heq]
        exact List.mem_map_of_mem hj
      exact (born_alive_other _ _ _ hne).trans
        (hnew j (List.mem_cons_of_mem i hj))

theorem inquiryInvariant_init {cpuCount : Nat} {ids : Nat -> Nat}
    {h : InquiryRun} (hids : ValidIds cpuCount ids) (hpos : 0 < cpuCount)
    (hinit : (inquirySystem cpuCount ids).Init h) :
    exists place lists, InquiryInvariant h place lists := by
  rcases hinit with ⟨hrun, _, hnone⟩
  rcases schedInvariant_init hids hpos hrun with ⟨place, lists, hsched⟩
  have hboot : BootInvariant h.run := by
    rcases hrun with ⟨threads, calls, horder, heq⟩
    rw [heq]
    apply bootInvariant_all calls _ horder.idles (fun _ _ => rfl)
    constructor
    · intro k hk
      cases hk
    · intro t b hb
      cases hb
  refine ⟨place, lists, hsched, ?_, ?_, ?_, ?_⟩
  · intro k hk
    exact Or.inr (hboot.serials k hk)
  · intro t b ht hdead
    exact absurd hdead (hboot.states t b ht)
  · intro q hq
    rw [hnone] at hq
    cases hq
  · intro q t b hq
    rw [hnone] at hq
    cases hq

/-!
# The answer
-/

/-- The threads with the id that were created before the call have all called
`sched_exit`. -/
def AllExited (h : InquiryRun) (q : Inquiry) : Prop :=
  forall k, k < q.before -> h.run.tids[k]? = some q.tid -> k ∈ h.exited

theorem sched_isAlive_missing {cpuCount : Nat} {ids : Nat -> Nat}
    {h h' : InquiryRun} {q : Inquiry} (hids : ValidIds cpuCount ids)
    (hpos : 0 < cpuCount) (hreach : (inquirySystem cpuCount ids).Reachable h)
    (hq : h.inquiry = some q)
    (hstep : (inquirySystem cpuCount ids).Step h (InquiryEvent.answer false)
      h') : AllExited h q := by
  have hinv : exists place lists, InquiryInvariant h place lists := by
    apply reachable_invariant
      (P := fun h => exists place lists, InquiryInvariant h place lists) _ _
      hreach
    · intro h0 hinit
      exact inquiryInvariant_init hids hpos hinit
    · intro h1 event h2 hh hstep
      rcases hh with ⟨place, lists, hinv⟩
      exact inquiryInvariant_step hinv hstep.left hstep.right
  rcases hinv with ⟨place, lists, hinv⟩
  rcases hstep with ⟨hanswer, hcalm⟩
  have hend : h.run.sched.cpuCount <= q.next := by
    cases hanswer with
    | missing hq' hend =>
        rw [hq] at hq'
        cases hq'
        exact hend
  intro k hk htid
  have hlt := Nat.lt_of_lt_of_le hk (hinv.before q hq)
  rcases hinv.alive k hlt with hexited | ⟨t, b, ht, hb⟩
  · exact hexited
  have hthread : (h.run.sched.threads t).tid = q.tid := by
    rw [(hinv.sched.tid.serial t b ht).right, hb]
    rw [hinv.sched.tid.tids, List.getElem?_map, List.getElem?_range hlt] at htid
    exact Option.some.inj htid
  rw [← hb] at hk ⊢
  rcases hinv.ahead q t b hq ht hk hthread with hexited |
    ⟨pl, hplace, ⟨c, hheld⟩ | hnext⟩
  · exact hexited
  · rw [hheld] at hplace
    have hholding := ((hinv.sched.at_iff t _).mpr hplace).right
    exact absurd rfl (hcalm q c t hq hholding hthread).right
  · have hcpu := hinv.sched.placed.cpu_lt t pl hplace
    lia

def oneExits : SchedRun :=
  { oneRuns with sched := schedExit oneRuns.sched 0 }

theorem undisturbed_idle {h : InquiryRun} {event : InquiryEvent}
    (hidle : forall c, h.run.handoff c = HandoffState.idle) :
    Undisturbed h event := by
  intro q c t _ hholding
  rw [hidle c] at hholding
  cases hholding

theorem inquiry_reachable_sched {cpuCount : Nat} {ids : Nat -> Nat}
    {h : InquiryRun} {event : SchedEvent} {run : SchedRun}
    (hreach : (inquirySystem cpuCount ids).Reachable h)
    (hstep : SchedStep h.run event run)
    (hidle : forall c, h.run.handoff c = HandoffState.idle) :
    (inquirySystem cpuCount ids).Reachable
      { h with run := run, exited := h.exitedAfter event } :=
  reachable_step hreach ⟨InquiryStep.sched hstep, undisturbed_idle hidle⟩

def oneExited : Set Nat :=
  { k | k ∈ (∅ : Set Nat) ∨ exists b,
    oneRuns.alive (oneRuns.sched.cpus 0).schedThread = some b ∧ k = b.serial }

def oneSearched (next : Nat) : InquiryRun where
  run := oneExits.rescheduled 0 0 0
  exited := oneExited
  inquiry := some { tid := 2, before := 2, next := next }

theorem oneSearched_reachable :
    (inquirySystem 1 (fun _ => 0)).Reachable (oneSearched 1) := by
  have hstart : (inquirySystem 1 (fun _ => 0)).Reachable
      { run := oneCpu, exited := ∅, inquiry := none } :=
    ⟨_, [], ⟨oneCpu_init, rfl, rfl⟩, Runs.nil _⟩
  have hborn := inquiry_reachable_sched hstart oneThread_step (fun _ => rfl)
  have hfirst : SchedStep oneThread (SchedEvent.reschedule 0) oneRuns :=
    SchedRun.rescheduled_step (by decide) (by decide)
  have hlast : SchedStep oneExits (SchedEvent.reschedule 0)
      (oneExits.rescheduled 0 0 0) :=
    SchedRun.rescheduled_step (by decide) (by decide)
  have hruns := inquiry_reachable_sched hborn hfirst (fun _ => rfl)
  have hexits := inquiry_reachable_sched hruns
    (SchedStep.exit (c := 0) (by decide)) (fun _ => rfl)
  have hgone := inquiry_reachable_sched hexits hlast (fun _ => rfl)
  have hasked : (inquirySystem 1 (fun _ => 0)).Reachable (oneSearched 0) :=
    reachable_step hgone
      ⟨InquiryStep.start rfl, undisturbed_idle (fun _ => rfl)⟩
  have hmiss : InquiryStep (oneSearched 0) InquiryEvent.miss (oneSearched 1) :=
    InquiryStep.miss (h := oneSearched 0) rfl (by decide) (by decide)
  exact reachable_step hasked ⟨hmiss, undisturbed_idle (fun _ => rfl)⟩

theorem sched_isAlive_missing_oneThread :
    AllExited (oneSearched 1) { tid := 2, before := 2, next := 1 } ∧
    (oneSearched 1).run.tids = [1, 2] := by
  refine ⟨?_, rfl⟩
  apply sched_isAlive_missing oneCpu_ids Nat.one_pos oneSearched_reachable rfl
  exact ⟨InquiryStep.missing rfl (by decide),
    undisturbed_idle (fun _ => rfl)⟩

def twoCpus : SchedRun :=
  [InitCall.mk 0 0x1000 0x2000, InitCall.mk 1 0x3000 0x4000].foldl initCpu
    (bootRun 2 (fun c => c) (fun _ => zeroThread))

theorem twoCpus_init : (schedSystem 2 (fun c => c)).Init twoCpus := by
  refine ⟨fun _ => zeroThread,
    [InitCall.mk 0 0x1000 0x2000, InitCall.mk 1 0x3000 0x4000], ?_, rfl⟩
  constructor
  · decide
  · decide
  · decide

def twoThread : SchedRun :=
  twoCpus.born (schedSpawn twoCpus.sched 0x5000 0x6000 0x100000 5 none).state
    0x5000 (schedSpawn twoCpus.sched 0x5000 0x6000 0x100000 5 none).ret true

theorem twoThread_step :
    SchedStep twoCpus (SchedEvent.spawn 0x5000) twoThread := by
  apply SchedStep.spawn
  · exact ⟨by decide, by decide, rfl⟩
  · intro bytes hbytes
    cases hbytes

def twoScans : SchedRun :=
  { twoThread with
    handoff := Function.update twoThread.handoff 1
      (HandoffState.scanning 3 0) }

def twoHolds : SchedRun :=
  { twoScans with
    sched := ((findOnCpu 0 3 (maxPriority + 1) twoScans.sched).get
      (by decide)).2
    handoff := Function.update twoScans.handoff 1
      (HandoffState.holding 0x5000) }

theorem twoHolds_step :
    SchedStep twoScans (SchedEvent.handoff 1) twoHolds := by
  have hfound : ((findOnCpu 0 3 (maxPriority + 1) twoScans.sched).get
      (by decide)).1 = some 0x5000 := by decide
  apply SchedStep.handoffFind (by decide) rfl (by decide)
  apply (Option.some_get (by decide)).symm.trans
  exact congrArg some (Prod.ext hfound rfl)

def twoSearched (run : SchedRun) (next : Nat) : InquiryRun where
  run := run
  exited := ∅
  inquiry := some { tid := 3, before := 3, next := next }

/-- A call of `sched_handoff` holds the thread while both CPUs are searched:
the answer is 0, and no thread has called `sched_exit`. -/
theorem sched_isAlive_missed :
    (schedSystem 2 (fun c => c)).Reachable twoThread ∧
    twoThread.tids[2]? = some 3 ∧
    InquiryStep { run := twoThread, exited := ∅, inquiry := none }
      (InquiryEvent.start 3) (twoSearched twoThread 0) ∧
    InquiryStep (twoSearched twoThread 0)
      (InquiryEvent.sched (SchedEvent.handoff 1)) (twoSearched twoScans 0) ∧
    InquiryStep (twoSearched twoScans 0)
      (InquiryEvent.sched (SchedEvent.handoff 1)) (twoSearched twoHolds 0) ∧
    InquiryStep (twoSearched twoHolds 0) InquiryEvent.miss
      (twoSearched twoHolds 1) ∧
    InquiryStep (twoSearched twoHolds 1) InquiryEvent.miss
      (twoSearched twoHolds 2) ∧
    InquiryStep (twoSearched twoHolds 2) (InquiryEvent.answer false)
      { twoSearched twoHolds 2 with inquiry := none } ∧
    2 ∉ (twoSearched twoHolds 2).exited := by
  refine ⟨?_, rfl, InquiryStep.start rfl, ?_, ?_, ?_, ?_, ?_, ?_⟩
  · exact reachable_step ⟨twoCpus, [], twoCpus_init, Runs.nil _⟩ twoThread_step
  · exact InquiryStep.sched (h := twoSearched twoThread 0)
      (SchedStep.handoffStart (by decide) (by decide) rfl)
  · exact InquiryStep.sched (h := twoSearched twoScans 0) twoHolds_step
  · exact InquiryStep.miss (h := twoSearched twoHolds 0) rfl (by decide)
      (by decide)
  · exact InquiryStep.miss (h := twoSearched twoHolds 1) rfl (by decide)
      (by decide)
  · exact InquiryStep.missing rfl (by decide)
  · intro hexited
    cases hexited

end Sched
end Barium
