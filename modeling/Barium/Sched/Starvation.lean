import Barium.Foundation.Progress
import Barium.Sched.Records
import Barium.Sched.RoundRobin
import Barium.Sched.Waiting

/-!
# No thread starves

A thread that waits in a ready queue gets its turn: aging takes it to the highest
priority, and there the threads that run before it go behind it.
-/

namespace Barium
namespace Sched

open Foundation
open Function
open LinkedList
open TransitionSystem

/-!
# The time of the last pass
-/

section LastPass

variable {s s' : SchedState} {c : Nat}

theorem ageThread_lastAge (s : SchedState) (c aged id : Nat) :
    ((ageThread s c aged).extras id).lastAgeTick =
      (s.extras id).lastAgeTick := by
  unfold ageThread
  exact push_lastAge _ _ _ id

theorem ageLoop_lastAge {p fuel prev curr : Nat}
    (hrun : ageLoop c p fuel s prev curr = some s') (id : Nat) :
    (s'.extras id).lastAgeTick = (s.extras id).lastAgeTick := by
  induction fuel generalizing s prev curr with
  | zero => cases hrun
  | succ fuel ih =>
      unfold ageLoop at hrun
      split at hrun
      case isTrue =>
          cases hrun
          rfl
      case isFalse =>
          split at hrun
          case isTrue => exact ih hrun
          case isFalse =>
              simp only at hrun
              split at hrun
              case isTrue =>
                  rw [ih hrun, ageThread_lastAge, unlink_lastAge]
                  rfl
              case isFalse =>
                  rw [ih hrun]
                  rfl

theorem ageQueues_lastAge {n p : Nat} (hrun : ageQueues c n s p = some s')
    (id : Nat) : (s'.extras id).lastAgeTick = (s.extras id).lastAgeTick := by
  induction n generalizing s p with
  | zero =>
      cases hrun
      rfl
  | succ n ih =>
      rcases Option.bind_eq_some_iff.mp hrun with ⟨s1, hloop, hrest⟩
      rw [ih hrest, ageLoop_lastAge hloop]

theorem schedAgeThreads_lastAge {tick : Nat}
    (hrun : schedAgeThreads s c tick = some s') :
    lastAge s' c = if AgeDue s c tick then tick else lastAge s c := by
  have hid : (s'.cpus c).cpuId = (s.cpus c).cpuId :=
    (schedAgeThreads_own hrun).ids c
  unfold schedAgeThreads at hrun
  unfold lastAge
  rw [hid]
  split at hrun
  case isTrue hearly =>
      rw [if_neg (fun hdue => hdue hearly)]
      cases hrun
      rfl
  case isFalse hdue =>
      rw [if_pos (show AgeDue s c tick from hdue), ageQueues_lastAge hrun]
      show (update s.extras (s.cpus c).cpuId _
        (s.cpus c).cpuId).lastAgeTick = tick
      rw [update_self]

theorem serveTick_lastAge {current rsp tick ageTick : Nat}
    (hrun : serveTick s c current rsp tick ageTick = some s') :
    lastAge s' c = if AgeDue s c ageTick then ageTick else lastAge s c := by
  rcases Option.bind_eq_some_iff.mp hrun with ⟨sw, hwake, hage⟩
  have hid : (sw.cpus c).cpuId = (s.cpus c).cpuId := (wakeLoop_own hwake).ids c
  have hlast : (sw.extras (sw.cpus c).cpuId).lastAgeTick = lastAge s c := by
    rw [wakeLoop_lastAge hwake, hid]
    rfl
  have hdue : AgeDue (modThread sw current (fun th =>
      { th with ticksRemaining := th.ticksRemaining - 1 })) c ageTick <->
      AgeDue s c ageTick := by
    show ¬ Word.sub ageTick (sw.extras (sw.cpus c).cpuId).lastAgeTick < 20 <-> _
    rw [hlast]
    rfl
  have hdone := schedAgeThreads_lastAge hage
  simp only [hdue] at hdone
  rw [hdone]
  split
  case isTrue => rfl
  case isFalse => exact hlast

theorem append_lastAge {l : Loc} {t : Nat} (hrun : append s l t = some s')
    (id : Nat) : (s'.extras id).lastAgeTick = (s.extras id).lastAgeTick := by
  unfold append at hrun
  split at hrun
  case isTrue =>
      cases hrun
      exact setQueueHead_lastAge l t id
  case isFalse =>
      rcases Option.bind_eq_some_iff.mp hrun with ⟨last, _, heq⟩
      cases heq
      rfl

theorem retire_lastAge {current : Nat} {freed : List Nat}
    (hrun : retire s c current = some (s', freed)) (id : Nat) :
    (s'.extras id).lastAgeTick = (s.extras id).lastAgeTick := by
  unfold retire at hrun
  simp only at hrun
  split at hrun
  · rcases Option.bind_eq_some_iff.mp hrun with ⟨s1, happend, heq⟩
    cases heq
    exact append_lastAge happend id
  · cases hrun
    exact push_lastAge _ _ _ id
  · split at hrun
    · cases hrun
      rfl
    · cases hrun
      rfl
  · cases hrun
    rfl

theorem switchTo_lastAge {current p : Nat} {r : RescheduleResult}
    (hrun : switchTo s c current p = some r) (id : Nat) :
    (r.state.extras id).lastAgeTick = (s.extras id).lastAgeTick := by
  rcases Option.bind_eq_some_iff.mp hrun with ⟨⟨s1, freed⟩, hretire, heq⟩
  cases heq
  show (s1.extras id).lastAgeTick = _
  rw [retire_lastAge hretire, setQueueHead_lastAge]

theorem schedReschedule_lastAge {rsp tick ageTick : Nat}
    {r : RescheduleResult} (hthread : (s.cpus c).schedThread ≠ 0)
    (hrun : schedReschedule s c rsp tick ageTick = some r) :
    lastAge r.state c =
      if AgeDue s c ageTick then ageTick else lastAge s c := by
  unfold schedReschedule at hrun
  simp only [if_neg hthread] at hrun
  rcases Option.bind_eq_some_iff.mp hrun with ⟨s1, hserve, hchoose⟩
  rw [← serveTick_lastAge hserve]
  split at hchoose
  · cases hchoose
    rfl
  · split at hchoose
    · unfold lastAge
      rw [(switchTo_own hchoose).ids c, switchTo_lastAge hchoose]
    · cases hchoose
      rfl

end LastPass

/-!
# Slices

A thread never has more than 64 ticks left.
-/

def ShortSlices (r : SchedRun) : Prop :=
  forall t b, r.alive t = some b -> (r.sched.threads t).ticksRemaining <= 64

theorem timeSlice_le {priority : Nat} (h : priority <= maxPriority) :
    timeSlice priority <= 64 := by
  rw [timeSlice_eq h]
  lia

section Slices

variable {r r' : SchedRun} {place : Nat -> Option Place}
  {lists : Loc -> List Nat}

theorem slice_rule (tick : Nat) :
    RecordRule tick (fun th th' => th'.ticksRemaining = th.ticksRemaining) := by
  refine ⟨fun _ => rfl, fun _ _ _ h h' => h'.trans h, fun _ _ => rfl,
    fun _ _ => rfl, fun _ _ _ => rfl, fun _ _ => rfl⟩

theorem retired_slice {th : Thread} (hpriority : th.priority <= maxPriority)
    (hslice : th.ticksRemaining <= 64) :
    (retired th).ticksRemaining <= 64 := by
  unfold retired
  split
  · exact timeSlice_le hpriority
  · exact hslice

theorem schedReschedule_slice {s : SchedState} {holds : Nat -> Option Nat}
    {spawned : Nat -> Prop} {c rsp tick ageTick : Nat}
    {result : RescheduleResult} (h : Placed s holds spawned place lists)
    (hcurrent : place (s.cpus c).schedThread = some (Place.running c))
    (hrun : schedReschedule s c rsp tick ageTick = some result) {t : Nat}
    (ht : (s.threads t).ticksRemaining <= 64) :
    (result.state.threads t).ticksRemaining <= 64 := by
  by_cases hcase : t = (s.cpus c).schedThread
  · rw [hcase] at ht ⊢
    rcases schedReschedule_current h hcurrent hrun with ⟨th, n, hth, hn⟩
    have hless : (ticked rsp (s.threads
        (s.cpus c).schedThread)).ticksRemaining <= 64 :=
      Nat.le_trans (Nat.sub_le _ _) ht
    rw [hn]
    show th.ticksRemaining <= 64
    rcases hth with hkept | hleft
    · rw [hkept]
      exact hless
    · rw [hleft]
      exact retired_slice (h.fits _ _ hcurrent).right.left hless
  · rcases schedReschedule_waiting (slice_rule tick) h hcurrent hrun hcase with
      ⟨th, n, hth, hsame | ⟨_, hstarted⟩⟩
    · rw [hsame]
      show th.ticksRemaining <= 64
      rw [hth]
      exact ht
    · rw [hstarted]
      show th.ticksRemaining <= 64
      rw [hth]
      exact ht

theorem shortSlices_spawn (h : ShortSlices r) (thread stack userLimit userTop
    priority : Nat) (name : Option (List UInt8)) (frame : List Nat)
    (tid : Nat) :
    ShortSlices (r.born (spawnThread r.sched thread stack userLimit userTop
      priority name frame).state thread tid true) := by
  intro t b ht
  show ((spawnThread r.sched thread stack userLimit userTop priority name
    frame).state.threads t).ticksRemaining <= 64
  rcases born_cases ht with ⟨heq, _⟩ | ⟨hne, hold⟩
  · rcases spawnThread_self r.sched thread stack userLimit userTop priority name
      frame with ⟨n, hn⟩
    rw [heq, hn]
    exact timeSlice_le (clampPriority_le priority)
  · rcases spawnThread_other r.sched thread stack userLimit userTop priority
      name frame hne with ⟨n, hn⟩
    rw [hn]
    exact h t b hold

theorem shortSlices_modThread {u : Nat} {f : Thread -> Thread}
    (h : ShortSlices r)
    (hf : forall th, (f th).ticksRemaining = th.ticksRemaining) :
    ShortSlices { r with sched := modThread r.sched u f } := by
  intro t b ht
  show ((modThread r.sched u f).threads t).ticksRemaining <= 64
  by_cases htu : t = u
  · rw [htu, modThread_self, hf]
    exact h u b (htu ▸ ht)
  · rw [modThread_other _ _ _ htu]
    exact h t b ht

theorem shortSlices_links {sched sched' : SchedState}
    {handoff : Nat -> HandoffState}
    (h : ShortSlices { r with sched := sched }) (hlinks : Links sched sched') :
    ShortSlices { r with sched := sched', handoff := handoff } := by
  intro t b ht
  rcases hlinks.threads t with ⟨n, hn⟩
  show (sched'.threads t).ticksRemaining <= 64
  rw [hn]
  exact h t b ht

theorem shortSlices_step {event : SchedEvent} (h : ShortSlices r)
    (hinv : SchedInvariant r place lists) (hstep : SchedStep r event r') :
    ShortSlices r' := by
  cases hstep with
  | spawn _ _ => exact shortSlices_spawn h _ _ _ _ _ _ _ _
  | spawnUser _ _ => exact shortSlices_spawn h _ _ _ _ _ _ _ _
  | reschedule hc hrun =>
      intro t b ht
      exact schedReschedule_slice hinv.placed (hinv.running _ hc) hrun
        (h t b (aliveAfter_some ht))
  | @sleep c ms tick hc =>
      unfold schedSleep
      split
      case isTrue => exact shortSlices_modThread h (fun _ => rfl)
      case isFalse => exact h
  | @exit c hc =>
      unfold schedExit
      split
      case isTrue => exact shortSlices_modThread h (fun _ => rfl)
      case isFalse => exact h
  | handoffStart _ _ _ => exact h
  | handoffMiss _ _ _ hrun =>
      rcases findOnCpu_result hrun with ⟨_, heq⟩ | ⟨_, _, _, hsome, _⟩
      · rw [heq]
        exact h
      · cases hsome
  | handoffFind _ _ _ hrun =>
      rcases findOnCpu_result hrun with ⟨hnone, _⟩ | ⟨l, u, before, _, heq⟩
      · cases hnone
      · rw [heq]
        exact shortSlices_links h (unlink_links _ _ _ _)
  | handoffNone _ _ _ => exact h
  | @handoffPlace c target _ _ =>
      exact shortSlices_links
        (shortSlices_modThread h (u := target)
          (f := promoted (r.sched.cpus c).cpuId) (fun _ => rfl))
        (push_links _ _ _)

theorem schedInit_slice (s : SchedState) (c idle stack : Nat) :
    ((schedInit s c idle stack).threads idle).ticksRemaining = 0 := by
  unfold schedInit modExtra modCpu
  simp only [update_self]
  rfl

theorem shortSlices_init (calls : List InitCall) (h : ShortSlices r) :
    ShortSlices (calls.foldl initCpu r) := by
  refine initCpus_records (P := fun _ th => th.ticksRemaining <= 64) ?_ calls h
  intro s c idle stack _
  rw [schedInit_slice]
  exact Nat.zero_le 64

end Slices

/-!
# A call on the CPU
-/

theorem seniority_visited {th : Thread} (htid : th.tid ≠ 1)
    (hticks : th.totalTicks <= 19) :
    seniority (visited th) = seniority th + 1 := by
  have hsum : Word.add th.totalTicks 1 = th.totalTicks + 1 :=
    Word.add_of_lt (Nat.lt_of_le_of_lt (Nat.succ_le_succ hticks) (by decide))
  unfold visited seniority
  rw [if_neg htid, hsum]
  split
  case isTrue hold =>
      show 20 * (th.priority + 1) + 0 = _
      lia
  case isFalse => rfl

theorem seniority_passRecord {th : Thread} (htid : th.tid ≠ 1)
    (hticks : th.totalTicks <= 19) (q : Nat) :
    seniority th + 1 <= seniority (passRecord q th) := by
  have hfirst := seniority_visited htid hticks
  unfold passRecord
  split
  case isTrue =>
      have htid' : (visited th).tid ≠ 1 := by
        rw [visited_field Thread.tid (fun _ _ => rfl) (fun _ _ => rfl)]
        exact htid
      rw [seniority_visited htid' (visited_ticks hticks), hfirst]
      exact Nat.le_succ _
  case isFalse => exact Nat.le_of_eq hfirst.symm

section Call

variable {s s1 : SchedState} {holds : Nat -> Option Nat}
  {spawned : Nat -> Prop} {place place1 : Nat -> Option Place}
  {lists lists1 : Loc -> List Nat} {c p t current rsp tick ageTick : Nat}

theorem Serves.waits (h : Placed s holds spawned place lists)
    (h1 : Placed s1 holds spawned place1 lists1)
    (hserved : Served s place current rsp s1 place1)
    (hserves : Serves s lists c current tick ageTick s1 lists1)
    (ht : t ∈ lists (c, Queue.ready p)) :
    exists q, q <= maxPriority ∧ t ∈ lists1 (c, Queue.ready q) := by
  have hplace := (h.mem_iff _ t).mp ht
  rcases hserved.queued t _ hplace with ⟨q, hq⟩
  have hmem := (h1.mem_iff _ t).mpr hq
  cases q with
  | ready q => exact ⟨q, (h1.fits t _ hq).right.right.left, hmem⟩
  | sleep =>
      have hasleep : afterTick s c tick ageTick lists Queue.sleep =
          afterWaking s c tick lists Queue.sleep := by
        unfold afterTick
        split
        case isTrue => rfl
        case isFalse => rfl
      rw [hserves.queues Queue.sleep trivial, hasleep] at hmem
      have hbefore : t ∈ lists (c, Queue.sleep) := List.mem_of_mem_filter hmem
      rw [h.mem_iff, hplace] at hbefore
      cases hbefore

theorem Serves.seniority (h : Serves s lists c current tick ageTick s1 lists1)
    (hne : t ≠ current) (ht : t ∈ lists (c, Queue.ready p))
    (hp : p < maxPriority) (htid : (s.threads t).tid ≠ 1)
    (hticks : (s.threads t).totalTicks <= 19) :
    (AgeDue s c ageTick ->
      Sched.seniority (s.threads t) + 1 <= Sched.seniority (s1.threads t)) ∧
    (¬ AgeDue s c ageTick ->
      Sched.seniority (s1.threads t) = Sched.seniority (s.threads t)) := by
  have hwoken : Sched.seniority
      (wokenRecord s (lists (c, Queue.sleep)) tick t) =
      Sched.seniority (s.threads t) :=
    wokenRecord_field Sched.seniority (fun _ => rfl) (fun _ => rfl) _ _ _
  constructor
  · intro hdue
    have hmem : t ∈ afterWaking s c tick lists (Queue.ready p) :=
      mem_afterWaking.mpr (Or.inl ht)
    show _ <= Sched.seniority (s1.threads t).content
    rw [h.aged hdue p t hp hmem, ← hwoken]
    apply seniority_passRecord
    · rw [wokenRecord_field Thread.tid (fun _ => rfl) (fun _ => rfl)]
      exact htid
    · rw [wokenRecord_field Thread.totalTicks (fun _ => rfl) (fun _ => rfl)]
      exact hticks
  · intro hearly
    show Sched.seniority (s1.threads t).content = _
    rw [h.kept t hne (fun hdue => absurd hdue hearly)]
    exact hwoken

theorem Outcome.waits {r : RescheduleResult} {lists' : Loc -> List Nat}
    (h : Outcome s lists c current r lists')
    (ht : t ∈ lists (c, Queue.ready p))
    (hnext : (r.state.cpus c).schedThread ≠ t) :
    t ∈ lists' (c, Queue.ready p) := by
  cases h with
  | stay _ => exact ht
  | @switch top r lists' _ _ hqueues =>
      rcases hqueues.queue with ⟨after, hlist, hlists'⟩
      have hkept : t ∈ update lists (c, Queue.ready top) after
          (c, Queue.ready p) := by
        by_cases hptop : p = top
        · rw [hptop, hlist] at ht
          rw [hptop, update_self]
          exact (List.mem_cons.mp ht).resolve_left hnext.symm
        · rw [update_of_ne (by simpa using hptop)]
          exact ht
      rw [hlists', retiredLists_ready]
      split
      case isTrue => exact List.mem_append_left _ hkept
      case isFalse => exact hkept

end Call

def SchedRun.called (r : SchedRun) (c : Nat) (result : RescheduleResult) :
    SchedRun :=
  { r with
    sched := result.state
    alive := r.aliveAfter c result.state }

structure Halves (r : SchedRun) (place : Nat -> Option Place)
    (lists : Loc -> List Nat) (c : Nat) (call : TimerCall)
    (s1 : SchedState) (lists1 : Loc -> List Nat)
    (result : RescheduleResult) (lists' : Loc -> List Nat) : Prop where
  placed : exists place1,
    Placed s1 r.holds r.Spawned place1 lists1 ∧
      Served r.sched place (r.sched.cpus c).schedThread call.rsp s1 place1
  serves : Serves r.sched lists c (r.sched.cpus c).schedThread call.tick
    call.ageTick s1 lists1
  record : s1.threads (r.sched.cpus c).schedThread =
    ticked call.rsp (r.sched.threads (r.sched.cpus c).schedThread)
  outcome : exists lists2,
    Outcome s1 lists1 c (r.sched.cpus c).schedThread result lists2 ∧
      forall q, q.Valid -> lists' (c, q) = lists2 (c, q)
  subset : residents (r.called c result) lists' c ⊆ residents r lists c
  gone : (result.state.cpus c).schedThread ≠ (r.sched.cpus c).schedThread ->
    (r.sched.threads (r.sched.cpus c).schedThread).state =
      ThreadState.dead ->
    (r.sched.cpus c).schedThread ∉ residents (r.called c result) lists' c

section Halves

variable {r : SchedRun} {place : Nat -> Option Place}
  {lists lists' lists1 : Loc -> List Nat} {s1 : SchedState}
  {result : RescheduleResult} {c p t : Nat} {call : TimerCall}

theorem schedReschedule_halves (h : SchedInvariant r place lists)
    (hc : c < r.sched.cpuCount)
    (hrun : schedReschedule r.sched c call.rsp call.tick call.ageTick =
      some result) :
    exists s1 lists1 place' lists',
      SchedInvariant (r.called c result) place' lists' ∧
      Halves r place lists c call s1 lists1 result lists' := by
  rcases schedReschedule_exact call.rsp call.tick call.ageTick h.placed
    (h.running c hc) with
    ⟨s1, place1, lists1, result', place2, lists2, _, hplaced1, hserved, hserves,
      hrecord, hrun', hplaced2, hdone, houtcome⟩
  rw [hrun] at hrun'
  cases hrun'
  rcases schedInvariant_reschedule h hc hrun with ⟨place', lists', h', hframe⟩
  have hc' : c < (r.called c result).sched.cpuCount := by
    show c < result.state.cpuCount
    rw [hdone.count]
    exact hc
  refine ⟨s1, lists1, place', lists', h', ⟨place1, hplaced1, hserved⟩, hserves,
    hrecord, ⟨lists2, houtcome, ?_⟩, ?_, ?_⟩
  · intro q hq
    exact h'.placed.lists_eq hplaced2 ⟨hc', hq⟩
  · intro u hu
    rcases (SchedInvariant.mem_residents_iff h' hc').mp hu with
      ⟨pl', hpl', hcpu⟩
    rw [h.mem_residents_iff hc]
    cases hpl : place u with
    | none =>
        have halive : r.aliveAfter c result.state u ≠ none := by
          intro hdead
          rw [(h'.alive_iff u).mp hdead] at hpl'
          cases hpl'
        rcases Option.ne_none_iff_exists'.mp halive with ⟨b, hb⟩
        have hold := aliveAfter_some hb
        rw [(h.alive_iff u).mpr hpl] at hold
        cases hold
    | some pl =>
        refine ⟨pl, rfl, ?_⟩
        rcases hframe.home u pl pl' hpl hpl' with hsame | ⟨_, hevent, _⟩
        · rw [← hsame]
          exact hcpu
        · cases hevent
  · intro hswitched hdead hmem
    rcases (SchedInvariant.mem_residents_iff h' hc').mp hmem with
      ⟨pl', hpl', _⟩
    have hnone : r.aliveAfter c result.state (r.sched.cpus c).schedThread =
        none := by
      unfold SchedRun.aliveAfter
      rw [if_pos ⟨hswitched, hdead⟩, update_self]
    rw [(h'.alive_iff _).mp hnone] at hpl'
    cases hpl'

theorem Halves.kept
    (h : Halves r place lists c call s1 lists1 result lists') :
    (lists (c, Queue.ready maxPriority)).Sublist
      (lists1 (c, Queue.ready maxPriority)) := by
  rw [h.serves.queues (Queue.ready maxPriority) (Nat.le_refl _),
    afterTick_highest]
  exact List.sublist_append_right _ _

theorem Served.came_from {place1 : Nat -> Option Place} {current rsp u : Nat}
    {q : Queue} (h : Served r.sched place current rsp s1 place1)
    (hu : place1 u = some (Place.queue (c, q))) :
    exists q', place u = some (Place.queue (c, q')) := by
  by_cases hqueued : exists l, place u = some (Place.queue l)
  · rcases hqueued with ⟨⟨d, q'⟩, hl⟩
    rcases h.queued u _ hl with ⟨q1, hq1⟩
    rw [hu] at hq1
    cases hq1
    exact ⟨q', hl⟩
  · rw [h.same u (fun l hl => hqueued ⟨l, hl⟩)] at hu
    exact absurd ⟨_, hu⟩ hqueued

theorem Halves.top_stay (h : SchedInvariant r place lists)
    (hc : c < r.sched.cpuCount)
    (hhalves : Halves r place lists c call s1 lists1 result lists')
    (hresult : result.state = s1)
    (hlists' : lists' (c, Queue.ready maxPriority) =
      lists1 (c, Queue.ready maxPriority))
    (hno : ¬ SwitchDue (s1.threads (r.sched.cpus c).schedThread)
      maxPriority) :
    ahead (r.called c result) lists' c t ⊆ ahead r lists c t ∧
      (result.state.threads
        (result.state.cpus c).schedThread).ticksRemaining + 1 <=
        (r.sched.threads (r.sched.cpus c).schedThread).ticksRemaining := by
  rcases hhalves.placed with ⟨place1, _, hserved⟩
  have hrunning : (result.state.cpus c).schedThread =
      (r.sched.cpus c).schedThread := by
    rw [hresult]
    exact hserved.frame.running c
  have hpriority : (r.sched.threads (r.sched.cpus c).schedThread).priority <=
      maxPriority := (h.placed.fits _ _ (h.running c hc)).right.left
  constructor
  · intro u hu
    rcases mem_ahead.mp hu with ⟨hresident, hne, hpassed'⟩
    rw [mem_ahead]
    refine ⟨hhalves.subset hresident, hne, fun hpassed => hpassed' ?_⟩
    rcases hpassed with hbehind | ⟨heq, hhigh, hstate⟩
    · left
      rw [hlists']
      exact hbehind.trans hhalves.kept
    · right
      show u = (result.state.cpus c).schedThread ∧
        (result.state.threads u).priority = maxPriority ∧
        (result.state.threads u).state ≠ ThreadState.sleeping
      rw [heq] at hhigh hstate ⊢
      rw [hrunning, hresult, hhalves.record]
      exact ⟨rfl, hhigh, hstate⟩
  · unfold SwitchDue at hno
    rw [hhalves.record] at hno
    push Not at hno
    have hleft : (r.sched.threads
        (r.sched.cpus c).schedThread).ticksRemaining - 1 ≠ 0 :=
      hno.right.left (Nat.le_antisymm hno.left hpriority)
    rw [hrunning, hresult, hhalves.record]
    show (r.sched.threads (r.sched.cpus c).schedThread).ticksRemaining - 1 +
      1 <= _
    lia

/-- The first thread of the queue takes over, and will go behind `t`. -/
theorem Halves.top_switch {lists2 : Loc -> List Nat}
    (h : SchedInvariant r place lists) (hc : c < r.sched.cpuCount)
    (hhalves : Halves r place lists c call s1 lists1 result lists')
    (hqueues : Requeued s1 lists1 c (r.sched.cpus c).schedThread maxPriority
      result lists2)
    (hlists' : lists' (c, Queue.ready maxPriority) =
      lists2 (c, Queue.ready maxPriority))
    (ht : t ∈ lists (c, Queue.ready maxPriority))
    (hnext : (result.state.cpus c).schedThread ≠ t) :
    (result.state.cpus c).schedThread ∈ ahead r lists c t ∧
      ahead (r.called c result) lists' c t ⊆
        (ahead r lists c t).erase (result.state.cpus c).schedThread ∧
      (result.state.threads
        (result.state.cpus c).schedThread).ticksRemaining =
        (r.sched.threads
          (result.state.cpus c).schedThread).ticksRemaining := by
  rcases hhalves.placed with ⟨place1, hplaced1, hserved⟩
  have hcurrent := h.running c hc
  have hne := hqueues.ne hplaced1 (hserved.running hcurrent)
  rcases hqueues.queue with ⟨after, hlist, hlists2⟩
  rcases hqueues.entered with ⟨n, hentered⟩
  have hmem : (result.state.cpus c).schedThread ∈
      lists1 (c, Queue.ready maxPriority) := by
    rw [hlist]
    exact List.mem_cons_self
  have hplace := (hplaced1.mem_iff _ _).mp hmem
  have hnodup := hplaced1.nodup (c, Queue.ready maxPriority)
  rw [hlist] at hnodup
  have htafter : t ∈ after := by
    have ht1 := hhalves.kept.subset ht
    rw [hlist] at ht1
    exact (List.mem_cons.mp ht1).resolve_left hnext.symm
  have hbehind : forall u,
      [t, u].Sublist (lists (c, Queue.ready maxPriority)) ->
      [t, u].Sublist after := by
    intro u hu
    have hu1 := hu.trans hhalves.kept
    rw [hlist, List.sublist_cons_iff] at hu1
    rcases hu1 with hafter | ⟨rest, heq, _⟩
    · exact hafter
    · cases heq
      exact absurd rfl hnext
  have hnew : lists' (c, Queue.ready maxPriority) =
      if (s1.threads (r.sched.cpus c).schedThread).state =
          ThreadState.running ∧
          maxPriority =
            (s1.threads (r.sched.cpus c).schedThread).priority then
        after ++ [(r.sched.cpus c).schedThread]
      else after := by
    rw [hlists', hlists2, retiredLists_ready, update_self]
  refine ⟨?_, ?_, ?_⟩
  · rw [mem_ahead]
    refine ⟨?_, hnext, ?_⟩
    · rcases hserved.came_from hplace with ⟨q, hq⟩
      exact (h.mem_residents_iff hc).mpr ⟨_, hq, rfl⟩
    · intro hpassed
      rcases hpassed with hsublist | ⟨heq, _⟩
      · have hin := (hbehind _ hsublist).subset
          (List.mem_cons_of_mem _ List.mem_cons_self)
        exact (List.nodup_cons.mp hnodup).left hin
      · exact hne heq
  · intro u hu
    rcases mem_ahead.mp hu with ⟨hresident, hut, hpassed'⟩
    rw [Finset.mem_erase, mem_ahead]
    refine ⟨?_, hhalves.subset hresident, hut, fun hpassed => hpassed' ?_⟩
    · intro heq
      apply hpassed'
      right
      refine ⟨heq, ?_⟩
      show (result.state.threads u).priority = maxPriority ∧
        (result.state.threads u).state ≠ ThreadState.sleeping
      rw [heq, hentered]
      refine ⟨(hplaced1.fits _ _ hplace).right.left, ?_⟩
      intro hsleeping
      cases hsleeping
    · rcases hpassed with hsublist | ⟨heq, hhigh, hstate⟩
      · left
        rw [hnew]
        split
        case isTrue =>
            exact (hbehind u hsublist).trans (List.sublist_append_left _ _)
        case isFalse => exact hbehind u hsublist
      · -- The thread that has run goes behind `t`, unless it has ended.
        rw [heq] at hhigh hstate hresident ⊢
        have hready := (h.placed.fits _ _ hcurrent).left
        cases hcase : (r.sched.threads (r.sched.cpus c).schedThread).state with
        | ready => exact absurd hcase hready
        | sleeping => exact absurd hcase hstate
        | dead => exact absurd hresident (hhalves.gone hne hcase)
        | running =>
            left
            rw [hnew, hhalves.record, if_pos ⟨hcase, hhigh.symm⟩]
            exact (List.singleton_sublist.mpr htafter).append
              (List.Sublist.refl [(r.sched.cpus c).schedThread])
  · rw [hentered]
    show (s1.threads (result.state.cpus c).schedThread).ticksRemaining = _
    exact hhalves.serves.field Thread.ticksRemaining (fun _ => rfl)
      (fun _ => rfl) (fun _ _ => rfl) (fun _ _ => rfl) hne

/-- A thread with the highest priority comes closer to its turn. -/
theorem Halves.turn (h : SchedInvariant r place lists)
    (hshort : ShortSlices r) (hc : c < r.sched.cpuCount)
    (hhalves : Halves r place lists c call s1 lists1 result lists')
    (ht : t ∈ lists (c, Queue.ready maxPriority))
    (hnext : (result.state.cpus c).schedThread ≠ t) :
    66 * (ahead (r.called c result) lists' c t).card +
      (result.state.threads
        (result.state.cpus c).schedThread).ticksRemaining + 1 <=
    66 * (ahead r lists c t).card +
      (r.sched.threads (r.sched.cpus c).schedThread).ticksRemaining := by
  rcases hhalves.placed with ⟨place1, hplaced1, hserved⟩
  rcases hhalves.outcome with ⟨lists2, houtcome, hlists'⟩
  have hc1 : c < s1.cpuCount := by
    rw [hserved.frame.count]
    exact hc
  have htop : topQueue s1 c (maxPriority + 1) = some maxPriority := by
    rw [hplaced1.topQueue_iff hc1]
    refine ⟨Nat.le_refl _, List.ne_nil_of_mem (hhalves.kept.subset ht), ?_⟩
    intro q hlt hle
    exact absurd hlt (Nat.not_lt_of_le hle)
  have hhigh := hlists' (Queue.ready maxPriority) (Nat.le_refl _)
  cases houtcome with
  | stay hno =>
      rcases hhalves.top_stay (t := t) h hc rfl hhigh (hno _ htop) with
        ⟨hahead, hticks⟩
      have hcard := Finset.card_le_card hahead
      lia
  | switch htop' _ hqueues =>
      rw [htop] at htop'
      cases htop'
      rcases hhalves.top_switch h hc hqueues hhigh ht hnext with
        ⟨hmem, hahead, hticks⟩
      have hcard := Finset.card_le_card hahead
      have hless := Finset.card_erase_lt_of_mem hmem
      have hslice : (r.sched.threads
          (result.state.cpus c).schedThread).ticksRemaining <= 64 := by
        rcases (h.mem_residents_iff hc).mp (ahead_subset hmem) with
          ⟨pl, hpl, _⟩
        have halive : r.alive (result.state.cpus c).schedThread ≠ none := by
          intro hnone
          rw [(h.alive_iff _).mp hnone] at hpl
          cases hpl
        rcases Option.ne_none_iff_exists'.mp halive with ⟨b, hb⟩
        exact hshort _ b hb
      lia

end Halves

/-!
# The turn comes
-/

structure Clocked where
  run : SchedRun
  now : Nat

inductive ClockedLabel where
  | call (call : TimerCall)
  | other (event : SchedEvent)

/-- CPU `c` serves one timer interrupt after the other, with a clock that
advances.  In between the threads and the other CPUs do anything. -/
inductive ClockedStep (c : Nat) : Clocked -> ClockedLabel -> Clocked -> Prop where
  | call {s : Clocked} {call : TimerCall} {result : RescheduleResult} :
      c < s.run.sched.cpuCount -> s.now < call.ageTick ->
      call.ageTick < 2 ^ 64 ->
      schedReschedule s.run.sched c call.rsp call.tick call.ageTick =
        some result ->
      ClockedStep c s (ClockedLabel.call call)
        { run := s.run.called c result, now := call.ageTick }
  | other {s : Clocked} {event : SchedEvent} {r' : SchedRun} :
      event ≠ SchedEvent.reschedule c -> SchedStep s.run event r' ->
      ClockedStep c s (ClockedLabel.other event) { run := r', now := s.now }

def clockedSystem (c : Nat) : TransitionSystem Clocked ClockedLabel where
  Init := fun _ => True
  Step := ClockedStep c

def ClockedLabel.calls : ClockedLabel -> Nat
  | .call _ => 1
  | .other _ => 0

def ClockedLabel.delay : ClockedLabel -> Nat
  | .call _ => 0
  | .other event => event.delay

/-- Thread `t` runs on CPU `c`, or `sched_handoff` has taken it elsewhere. -/
def HasTurn (c t : Nat) (s : Clocked) : Prop :=
  (s.run.sched.cpus c).schedThread = t ∨
    exists d, s.run.handoff d = HandoffState.holding t

structure Awaits (c t : Nat) (s : Clocked) (place : Nat -> Option Place)
    (lists : Loc -> List Nat) : Prop where
  invariant : SchedInvariant s.run place lists
  few : FewTicks s.run
  short : ShortSlices s.run
  cpu : c < s.run.sched.cpuCount
  waits : exists p, p <= maxPriority ∧ t ∈ lists (c, Queue.ready p)
  tid : (s.run.sched.threads t).tid ≠ 1
  clock : lastAge s.run.sched c <= s.now

section Turn

variable {c t : Nat} {s : Clocked} {place : Nat -> Option Place}
  {lists : Loc -> List Nat}

theorem SchedInvariant.alive {r : SchedRun} (h : SchedInvariant r place lists)
    {u : Nat} {pl : Place} (hu : place u = some pl) :
    exists b, r.alive u = some b := by
  apply Option.ne_none_iff_exists'.mp
  intro hnone
  rw [(h.alive_iff u).mp hnone] at hu
  cases hu

theorem SchedInvariant.ready_priority {r : SchedRun} {p : Nat}
    (h : SchedInvariant r place lists) (ht : t ∈ lists (c, Queue.ready p)) :
    (r.sched.threads t).priority = p :=
  (h.placed.fits t _ ((h.placed.mem_iff _ t).mp ht)).right.left

theorem Awaits.ticks (h : Awaits c t s place lists) :
    (s.run.sched.threads t).totalTicks <= 19 := by
  rcases h.waits with ⟨p, _, hmem⟩
  rcases h.invariant.alive ((h.invariant.placed.mem_iff _ t).mp hmem) with
    ⟨b, hb⟩
  exact h.few t b hb

theorem callsLeft_le {r : SchedRun} (h : SchedInvariant r place lists)
    (hshort : ShortSlices r) (hc : c < r.sched.cpuCount) (now : Nat) :
    callsLeft r lists c t now <= 66 * (residents r lists c).card + 13105 := by
  have hahead : ahead r lists c t ⊆ residents r lists c := ahead_subset
  have hcard := Finset.card_le_card hahead
  rcases h.alive (h.running c hc) with ⟨b, hb⟩
  have hslice := hshort _ b hb
  unfold callsLeft
  split
  case isTrue => lia
  case isFalse => lia

theorem ageDue_iff {s : SchedState} {tick : Nat} (hclock : lastAge s c <= tick)
    (hbound : tick < 2 ^ 64) :
    AgeDue s c tick <-> 20 <= tick - lastAge s c := by
  unfold AgeDue
  rw [show (s.extras (s.cpus c).cpuId).lastAgeTick = lastAge s c from rfl,
    Word.sub_of_le hbound hclock]
  lia

section Served

variable {s1 : SchedState} {lists1 lists' : Loc -> List Nat}
  {place' : Nat -> Option Place} {result : RescheduleResult} {p : Nat}
  {call : TimerCall}

/-- Below the highest priority the call brings the next pass closer, or it is
the call that makes the pass. -/
theorem Halves.climb (h : Awaits c t s place lists)
    (hhalves : Halves s.run place lists c call s1 lists1 result lists')
    (h' : SchedInvariant (s.run.called c result) place' lists')
    (hshort' : ShortSlices (s.run.called c result))
    (hrun : schedReschedule s.run.sched c call.rsp call.tick call.ageTick =
      some result)
    (hnow : s.now < call.ageTick) (hbound : call.ageTick < 2 ^ 64)
    (ht : t ∈ lists (c, Queue.ready p)) (hp : p < maxPriority) :
    callsLeft (s.run.called c result) lists' c t call.ageTick + 1 <=
      callsLeft s.run lists c t s.now := by
  have hpriority := h.invariant.ready_priority ht
  have hcurrent := h.invariant.running c h.cpu
  have hclock := h.clock
  have hticks := h.ticks
  have hpass := hhalves.serves.seniority
    (h.invariant.placed.ne_running hcurrent ht) ht hp h.tid hticks
  rcases hhalves.outcome with ⟨lists2, houtcome, _⟩
  have hsame : seniority (result.state.threads t) =
      seniority (s1.threads t) :=
    houtcome.field seniority (fun _ _ => rfl) (fun _ => rfl) (fun _ => rfl) t
  have hlast : lastAge result.state c = _ := schedReschedule_lastAge
    (h.invariant.placed.address _ _ hcurrent).left hrun
  have hless : seniority (s.run.sched.threads t) < 620 := by
    unfold seniority
    unfold maxPriority at hp
    lia
  have hresidents := Finset.card_le_card hhalves.subset
  have hsubset : ahead (s.run.called c result) lists' c t ⊆
      residents (s.run.called c result) lists' c := ahead_subset
  have hahead := Finset.card_le_card hsubset
  have hslice : (result.state.threads
      (result.state.cpus c).schedThread).ticksRemaining <= 64 := by
    have hc' : c < (s.run.called c result).sched.cpuCount := by
      show c < result.state.cpuCount
      rw [(schedReschedule_own hrun).count]
      exact h.cpu
    rcases h'.alive (h'.running c hc') with ⟨b, hb⟩
    exact hshort' _ b hb
  have hbefore : callsLeft s.run lists c t s.now =
      66 * (residents s.run lists c).card + 65 +
        21 * (620 - seniority (s.run.sched.threads t)) +
        (20 - (s.now - lastAge s.run.sched c)) := by
    unfold callsLeft
    rw [if_neg (by lia)]
  rw [hbefore]
  unfold callsLeft
  show (if (result.state.threads t).priority = maxPriority then
      66 * (ahead (s.run.called c result) lists' c t).card +
        (result.state.threads
          (result.state.cpus c).schedThread).ticksRemaining
    else
      66 * (residents (s.run.called c result) lists' c).card + 65 +
        21 * (620 - seniority (result.state.threads t)) +
        (20 - (call.ageTick - lastAge result.state c))) + 1 <= _
  split
  case isTrue => lia
  case isFalse =>
      rw [hsame, hlast]
      by_cases hdue : AgeDue s.run.sched c call.ageTick
      · have hraised := hpass.left hdue
        rw [if_pos hdue]
        lia
      · have hkept := hpass.right hdue
        rw [if_neg hdue, hkept]
        rw [ageDue_iff (by lia) hbound] at hdue
        lia

end Served

theorem awaits_call {call : TimerCall} {result : RescheduleResult}
    (h : Awaits c t s place lists) (hnow : s.now < call.ageTick)
    (hbound : call.ageTick < 2 ^ 64)
    (hrun : schedReschedule s.run.sched c call.rsp call.tick call.ageTick =
      some result) (hnext : (result.state.cpus c).schedThread ≠ t) :
    exists place' lists',
      Awaits c t { run := s.run.called c result, now := call.ageTick } place'
        lists' ∧
      callsLeft (s.run.called c result) lists' c t call.ageTick + 1 <=
        callsLeft s.run lists c t s.now := by
  have hstep : SchedStep s.run (SchedEvent.reschedule c)
      (s.run.called c result) := SchedStep.reschedule h.cpu hrun
  have hcurrent := h.invariant.running c h.cpu
  have hfew' := fewTicks_step h.few h.invariant hstep
  have hshort' := shortSlices_step h.short h.invariant hstep
  rcases schedReschedule_halves h.invariant h.cpu hrun with
    ⟨s1, lists1, place', lists', h', hhalves⟩
  rcases hhalves.placed with ⟨place1, hplaced1, hserved⟩
  rcases hhalves.outcome with ⟨lists2, houtcome, hlists'⟩
  have hlast := schedReschedule_lastAge
    (h.invariant.placed.address _ _ hcurrent).left hrun
  -- Where the thread waits after the call.
  have hstays : forall q, q <= maxPriority -> t ∈ lists1 (c, Queue.ready q) ->
      t ∈ lists' (c, Queue.ready q) := by
    intro q hq hmem
    rw [hlists' (Queue.ready q) hq]
    exact houtcome.waits hmem hnext
  rcases h.waits with ⟨p, hp, ht⟩
  have hwaits : exists q, q <= maxPriority ∧
      t ∈ lists' (c, Queue.ready q) := by
    rcases hhalves.serves.waits h.invariant.placed hplaced1 hserved ht with
      ⟨q, hq, hmem⟩
    exact ⟨q, hq, hstays q hq hmem⟩
  refine ⟨place', lists', ⟨h', hfew', hshort', ?_, hwaits, ?_, ?_⟩, ?_⟩
  · show c < result.state.cpuCount
    rw [(schedReschedule_own hrun).count]
    exact h.cpu
  · show (result.state.threads t).tid ≠ 1
    rw [houtcome.field Thread.tid (fun _ _ => rfl) (fun _ => rfl)
      (fun _ => rfl), hhalves.serves.field Thread.tid (fun _ => rfl)
      (fun _ => rfl) (fun _ _ => rfl) (fun _ _ => rfl)
      (h.invariant.placed.ne_running hcurrent ht)]
    exact h.tid
  · show lastAge result.state c <= call.ageTick
    rw [hlast]
    have hclock := h.clock
    split
    case isTrue => exact Nat.le_refl _
    case isFalse => lia
  · rcases Nat.lt_or_eq_of_le hp with hlow | heq
    · exact hhalves.climb h h' hshort' hrun hnow hbound ht hlow
    · rw [heq] at ht
      have hturn := hhalves.turn h.invariant h.short h.cpu ht hnext
      have hhigh := hstays maxPriority (Nat.le_refl _) (hhalves.kept.subset ht)
      unfold callsLeft
      rw [if_pos (h.invariant.ready_priority ht),
        if_pos (h'.ready_priority hhigh)]
      exact hturn

theorem awaits_other {event : SchedEvent} {r' : SchedRun}
    (h : Awaits c t s place lists) (hother : event ≠ SchedEvent.reschedule c)
    (hstep : SchedStep s.run event r') :
    (exists d, r'.handoff d = HandoffState.holding t) ∨
      exists place' lists',
        Awaits c t { run := r', now := s.now } place' lists' ∧
        callsLeft r' lists' c t s.now <=
          callsLeft s.run lists c t s.now + event.delay := by
  rcases schedInvariant_stepFrame h.invariant hstep with
    ⟨place', lists', h', hframe⟩
  rcases h.waits with ⟨p, hp, ht⟩
  rcases disturbs_step h.invariant h.cpu ht hstep hother h' with
    hheld | ⟨moved, hmoved, hdelay⟩
  · exact Or.inl hheld
  · right
    refine ⟨place', lists', ⟨h', fewTicks_step h.few h.invariant hstep,
      shortSlices_step h.short h.invariant hstep, ?_,
      ⟨p, hp, hmoved.waits p hp ht⟩, ?_, ?_⟩, ?_⟩
    · show c < r'.sched.cpuCount
      rw [hframe.count]
      exact h.cpu
    · show (r'.sched.threads t).tid ≠ 1
      rw [content_field hmoved.record Thread.tid (fun _ => rfl)]
      exact h.tid
    · show lastAge r'.sched c <= s.now
      rw [hmoved.age]
      exact h.clock
    · exact (hmoved.callsLeft_le s.now).trans (by lia)

def WithinCalls (c t : Nat) (s : Clocked) (n : Nat) : Prop :=
  exists place lists, Awaits c t s place lists ∧
    callsLeft s.run lists c t s.now <= n

theorem withinCalls_step {l : ClockedLabel} {s' : Clocked} {n : Nat}
    (h : WithinCalls c t s n) (hstep : ClockedStep c s l s') :
    HasTurn c t s' ∨
      exists m, WithinCalls c t s' m ∧ m + l.calls <= n + l.delay := by
  rcases h with ⟨place, lists, hawaits, hle⟩
  cases hstep with
  | @call call result _ hnow hbound hrun =>
      by_cases hturn : (result.state.cpus c).schedThread = t
      · exact Or.inl (Or.inl hturn)
      · rcases awaits_call hawaits hnow hbound hrun hturn with
          ⟨place', lists', hawaits', hless⟩
        exact Or.inr ⟨_, ⟨place', lists', hawaits', Nat.le_refl _⟩,
          Nat.le_trans hless hle⟩
  | @other event r' hother hstep =>
      rcases awaits_other hawaits hother hstep with
        hheld | ⟨place', lists', hawaits', hmore⟩
      · exact Or.inl (Or.inr hheld)
      · exact Or.inr ⟨_, ⟨place', lists', hawaits', Nat.le_refl _⟩,
          Nat.le_trans hmore (Nat.add_le_add_right hle _)⟩

end Turn

theorem sched_reachable_slices {cpuCount : Nat} {ids : Nat -> Nat}
    {r : SchedRun} (hids : ValidIds cpuCount ids) (hpos : 0 < cpuCount)
    (hreach : (schedSystem cpuCount ids).Reachable r) :
    (exists place lists, SchedInvariant r place lists) ∧ FewTicks r ∧
      ShortSlices r := by
  refine reachable_invariant (P := fun r =>
    (exists place lists, SchedInvariant r place lists) ∧ FewTicks r ∧
      ShortSlices r) ?_ ?_ hreach
  · intro r hinit
    refine ⟨schedInvariant_init hids hpos hinit, ?_⟩
    rcases hinit with ⟨threads, calls, _, heq⟩
    rw [heq]
    constructor
    · apply fewTicks_init
      intro t b ht
      cases ht
    · apply shortSlices_init
      intro t b ht
      cases ht
  · rintro r event r' ⟨⟨place, lists, hinv⟩, hfew, hshort⟩ hstep
    exact ⟨schedInvariant_step hinv hstep, fewTicks_step hfew hinv hstep,
      shortSlices_step hshort hinv hstep⟩

theorem residents_congr {r : SchedRun} {lists lists' : Loc -> List Nat}
    {c : Nat} (h : forall q, q.Valid -> lists' (c, q) = lists (c, q)) :
    residents r lists' c = residents r lists c := by
  ext u
  rw [mem_residents, mem_residents]
  constructor
  · intro hu
    refine hu.imp_right (Or.imp_left ?_)
    rintro ⟨q, hq, hmem⟩
    exact ⟨q, hq, h q hq ▸ hmem⟩
  · intro hu
    refine hu.imp_right (Or.imp_left ?_)
    rintro ⟨q, hq, hmem⟩
    exact ⟨q, hq, (h q hq).symm ▸ hmem⟩

theorem sched_ready_turn {cpuCount : Nat} {ids : Nat -> Nat} {r : SchedRun}
    {lists : Loc -> List Nat} {c p t now : Nat} {trace : List ClockedLabel}
    {s' : Clocked} (hids : ValidIds cpuCount ids) (hpos : 0 < cpuCount)
    (hreach : (schedSystem cpuCount ids).Reachable r)
    (hqueues : QueuesHold r.sched lists) (hc : c < r.sched.cpuCount)
    (hp : p <= maxPriority) (ht : t ∈ lists (c, Queue.ready p))
    (htid : (r.sched.threads t).tid ≠ 1) (hclock : lastAge r.sched c <= now)
    (hrun : Runs (clockedSystem c) { run := r, now := now } trace s')
    (hlong : 66 * (residents r lists c).card + 13105 +
        (trace.map ClockedLabel.delay).sum <
      (trace.map ClockedLabel.calls).sum) :
    Visits (clockedSystem c) (HasTurn c t) { run := r, now := now } trace
      s' := by
  rcases sched_reachable_slices hids hpos hreach with
    ⟨⟨place, lists0, hinv⟩, hfew, hshort⟩
  have hsame : forall q, q.Valid -> lists0 (c, q) = lists (c, q) := by
    intro q hq
    exact chain_unique (hinv.placed.chain _ ⟨hc, hq⟩) (hqueues _ ⟨hc, hq⟩)
  have hawaits : Awaits c t { run := r, now := now } place lists0 := by
    refine ⟨hinv, hfew, hshort, hc, ⟨p, hp, ?_⟩, htid, hclock⟩
    rw [hsame (Queue.ready p) hp]
    exact ht
  rw [← residents_congr hsame] at hlong
  have hbound : WithinCalls c t { run := r, now := now } _ :=
    ⟨place, lists0, hawaits, callsLeft_le hinv hshort hc now⟩
  exact visits_of_bound (fun s l u n hs hstep => withinCalls_step hs hstep)
    hbound hrun hlong

theorem clocked_runs {r : SchedRun} {place : Nat -> Option Place}
    {lists : Loc -> List Nat} {c : Nat} (h : SchedInvariant r place lists)
    (hc : c < r.sched.cpuCount) (n : Nat) (hn : n < 2 ^ 64) :
    exists trace s', Runs (clockedSystem c) { run := r, now := 0 } trace s' ∧
      (trace.map ClockedLabel.calls).sum = n ∧
      (trace.map ClockedLabel.delay).sum = 0 ∧ s'.now = n ∧
      c < s'.run.sched.cpuCount ∧
      exists place' lists', SchedInvariant s'.run place' lists' := by
  induction n with
  | zero => exact ⟨[], _, Runs.nil _, rfl, rfl, rfl, hc, place, lists, h⟩
  | succ n ih =>
      rcases ih (by lia) with
        ⟨trace, s', hrun, hcalls, hdelay, hnow, hcpu, place', lists', h'⟩
      rcases schedReschedule_spec 0 (n + 1) (n + 1) h'.placed
        (h'.running c hcpu) with ⟨result, _, _, hresult, _, hdone⟩
      have hstep : ClockedStep c s'
          (ClockedLabel.call { rsp := 0, tick := n + 1, ageTick := n + 1 })
          { run := s'.run.called c result, now := n + 1 } :=
        ClockedStep.call hcpu (by rw [hnow]; exact Nat.lt_succ_self n) hn hresult
      refine ⟨trace ++ [_], _, Runs.snoc hrun hstep, ?_, ?_, rfl, ?_, ?_⟩
      · rw [List.map_append, List.sum_append, hcalls]
        rfl
      · rw [List.map_append, List.sum_append, hdelay]
        rfl
      · show c < result.state.cpuCount
        rw [hdone.count]
        exact hcpu
      · exact schedInvariant_step h' (SchedStep.reschedule hcpu hresult)

def oneThreadLists (l : Loc) : List Nat :=
  if l = (0, Queue.ready 5) then [0x5000] else []

theorem oneThreadLists_hold : QueuesHold oneThread.sched oneThreadLists := by
  rintro ⟨c, q⟩ ⟨hc, hq⟩
  have hzero : c = 0 := Nat.lt_one_iff.mp hc
  rw [hzero]
  cases q with
  | sleep => rfl
  | ready p =>
      by_cases hp5 : p = 5
      · rw [hp5]
        exact ⟨rfl, by decide, rfl⟩
      · have hempty : oneThreadLists (0, Queue.ready p) = [] :=
          if_neg (by simpa using hp5)
        rw [hempty]
        show update (fun _ => 0) 5 0x5000 p = 0
        exact update_of_ne hp5 _ _

theorem sched_ready_turn_oneThread :
    exists trace s', (trace.map ClockedLabel.calls).sum = 13238 ∧
      Visits (clockedSystem 0) (HasTurn 0 0x5000)
        { run := oneThread, now := 0 } trace s' := by
  rcases oneThread_invariant with ⟨place, lists, h⟩
  rcases clocked_runs (c := 0) h (by decide) 13238 (by decide) with
    ⟨trace, s', hrun, hcalls, hdelay, _⟩
  refine ⟨trace, s', hcalls, ?_⟩
  refine sched_ready_turn oneCpu_ids (by decide)
    (reachable_step oneCpu_reachable oneThread_step) oneThreadLists_hold
    (by decide) (show 5 <= maxPriority by decide)
    (show 0x5000 ∈ oneThreadLists (0, Queue.ready 5) by decide) (by decide)
    (Nat.le_refl 0) hrun ?_
  rw [hcalls, hdelay, show (residents oneThread oneThreadLists 0).card = 2 by
    decide]
  decide

end Sched
end Barium
