import Barium.Sched.Runs

/-!
# The accesses to `cpu_extras`

`cpu_extras` has 64 elements and is indexed by `cpu_id`.  The functions of the
scheduler are followed here access by access; each one stays with the element of
a CPU it works on.
-/

namespace Barium
namespace Sched

open Foundation

/-!
# What a CPU changes
-/

structure OwnExtra (c : Nat) (s s' : SchedState) : Prop where
  count : s'.cpuCount = s.cpuCount
  ids : forall d, (s'.cpus d).cpuId = (s.cpus d).cpuId
  others : forall j, j ≠ (s.cpus c).cpuId -> s'.extras j = s.extras j

section Own

variable {s s' : SchedState} {c : Nat}

theorem OwnExtra.refl (c : Nat) (s : SchedState) : OwnExtra c s s :=
  ⟨rfl, fun _ => rfl, fun _ _ => rfl⟩

theorem OwnExtra.trans {t u : SchedState} (hst : OwnExtra c s t)
    (htu : OwnExtra c t u) : OwnExtra c s u := by
  constructor
  · exact htu.count.trans hst.count
  · intro d
    exact (htu.ids d).trans (hst.ids d)
  · intro j hj
    have hj' : j ≠ (t.cpus c).cpuId := by
      rw [hst.ids]
      exact hj
    exact (htu.others j hj').trans (hst.others j hj)

theorem modThread_own (c : Nat) (s : SchedState) (t : Nat)
    (f : Thread -> Thread) : OwnExtra c s (modThread s t f) :=
  ⟨rfl, fun _ => rfl, fun _ _ => rfl⟩

theorem modCpu_own (c : Nat) (s : SchedState) (d : Nat) {f : Cpu -> Cpu}
    (h : (f (s.cpus d)).cpuId = (s.cpus d).cpuId) :
    OwnExtra c s (modCpu s d f) := by
  refine ⟨rfl, ?_, fun _ _ => rfl⟩
  intro e
  show (Function.update s.cpus d _ e).cpuId = _
  by_cases hed : e = d
  · rw [hed, Function.update_self, h]
  · rw [Function.update_of_ne hed]

theorem modExtra_own (c : Nat) (s : SchedState) (f : CpuExtra -> CpuExtra) :
    OwnExtra c s (modExtra s (s.cpus c).cpuId f) := by
  refine ⟨rfl, fun _ => rfl, ?_⟩
  intro j hj
  exact Function.update_of_ne hj _ _

theorem setQueueHead_own (s : SchedState) (c : Nat) (q : Queue) (t : Nat) :
    OwnExtra c s (setQueueHead s (c, q) t) := by
  cases q with
  | ready p =>
      unfold setQueueHead
      exact modCpu_own c s c rfl
  | sleep =>
      unfold setQueueHead
      exact modExtra_own c s _

theorem unlink_own (s : SchedState) (c : Nat) (q : Queue) (prev curr : Nat) :
    OwnExtra c s (unlink s (c, q) prev curr) := by
  unfold unlink
  split
  · exact modThread_own c s prev _
  · exact setQueueHead_own s c q _

theorem push_own (s : SchedState) (c : Nat) (q : Queue) (t : Nat) :
    OwnExtra c s (push s (c, q) t) :=
  (modThread_own c s t _).trans (setQueueHead_own _ c q t)

theorem append_own {q : Queue} {t : Nat}
    (h : append s (c, q) t = some s') : OwnExtra c s s' := by
  unfold append at h
  split at h
  · cases h
    exact setQueueHead_own s c q t
  · rcases Option.bind_eq_some_iff.mp h with ⟨last, _, heq⟩
    cases heq
    exact modThread_own c s last _

theorem wakeThread_own (s : SchedState) (c awake : Nat) :
    OwnExtra c s (wakeThread s c awake) :=
  (modThread_own c s awake _).trans (push_own _ c _ awake)

theorem wakeLoop_own {tick fuel prev curr : Nat}
    (h : wakeLoop c tick fuel s prev curr = some s') : OwnExtra c s s' := by
  induction fuel generalizing s prev curr with
  | zero => cases h
  | succ fuel ih =>
      unfold wakeLoop at h
      split at h
      · cases h
        exact OwnExtra.refl c _
      · split at h
        · exact ((unlink_own s c _ prev curr).trans
            (wakeThread_own _ c curr)).trans (ih h)
        · exact ih h

theorem ageThread_own (s : SchedState) (c aged : Nat) :
    OwnExtra c s (ageThread s c aged) :=
  (modThread_own c s aged _).trans (push_own _ c _ aged)

theorem ageLoop_own {p fuel prev curr : Nat}
    (h : ageLoop c p fuel s prev curr = some s') : OwnExtra c s s' := by
  induction fuel generalizing s prev curr with
  | zero => cases h
  | succ fuel ih =>
      unfold ageLoop at h
      split at h
      · cases h
        exact OwnExtra.refl c _
      · split at h
        · exact ih h
        · have hcount := modThread_own c s curr (fun th =>
            { th with totalTicks := Word.add th.totalTicks 1 })
          simp only at h
          split at h
          · have hreset := hcount.trans (modThread_own c _ curr (fun th =>
              { th with totalTicks := 0 }))
            have hout := hreset.trans (unlink_own _ c (Queue.ready p) prev curr)
            exact (hout.trans (ageThread_own _ c curr)).trans (ih h)
          · exact hcount.trans (ih h)

theorem ageQueues_own {n p : Nat} (h : ageQueues c n s p = some s') :
    OwnExtra c s s' := by
  induction n generalizing s p with
  | zero =>
      cases h
      exact OwnExtra.refl c _
  | succ n ih =>
      rcases Option.bind_eq_some_iff.mp h with ⟨t, hloop, hrest⟩
      exact (ageLoop_own hloop).trans (ih hrest)

theorem schedAgeThreads_own {tick : Nat}
    (h : schedAgeThreads s c tick = some s') : OwnExtra c s s' := by
  unfold schedAgeThreads at h
  split at h
  · cases h
    exact OwnExtra.refl c s
  · exact (modExtra_own c s _).trans (ageQueues_own h)

theorem serveTick_own {current rsp tick ageTick : Nat}
    (h : serveTick s c current rsp tick ageTick = some s') :
    OwnExtra c s s' := by
  rcases Option.bind_eq_some_iff.mp h with ⟨t, hwake, hage⟩
  have hwoken := (modThread_own c s current _).trans (wakeLoop_own hwake)
  exact (hwoken.trans (modThread_own c t current _)).trans
    (schedAgeThreads_own hage)

theorem retire_own {current : Nat} {freed : List Nat}
    (h : retire s c current = some (s', freed)) : OwnExtra c s s' := by
  unfold retire at h
  simp only at h
  split at h
  · rcases Option.bind_eq_some_iff.mp h with ⟨t, happend, heq⟩
    cases heq
    exact (modThread_own c s current preempted).trans (append_own happend)
  · cases h
    exact push_own s c Queue.sleep current
  · split at h
    · cases h
      exact OwnExtra.refl c s
    · cases h
      exact OwnExtra.refl c s
  · cases h
    exact OwnExtra.refl c s

theorem switchTo_own {current p : Nat} {r : RescheduleResult}
    (h : switchTo s c current p = some r) : OwnExtra c s r.state := by
  rcases Option.bind_eq_some_iff.mp h with ⟨⟨t, freed⟩, hretire, heq⟩
  cases heq
  have hleft := (setQueueHead_own s c (Queue.ready p) _).trans
    (retire_own hretire)
  exact (hleft.trans (modThread_own c t _ started)).trans
    (modCpu_own c _ c rfl)

theorem schedReschedule_own {rsp tick ageTick : Nat} {r : RescheduleResult}
    (h : schedReschedule s c rsp tick ageTick = some r) :
    OwnExtra c s r.state := by
  unfold schedReschedule at h
  simp only at h
  split at h
  · cases h
    exact OwnExtra.refl c s
  · rcases Option.bind_eq_some_iff.mp h with ⟨t, hserve, hchoose⟩
    refine (serveTick_own hserve).trans ?_
    split at hchoose
    · cases hchoose
      exact OwnExtra.refl c t
    · split at hchoose
      · exact switchTo_own hchoose
      · cases hchoose
        exact OwnExtra.refl c t

end Own

/-!
# The accesses, one by one
-/

/-- The element that `cpu_extras[cpu->cpu_id]` names for CPU `c`. -/
def extraIndex (s : SchedState) (c : Nat) : Nat :=
  (s.cpus c).cpuId

/-- `sched_init` sets the sleep queue. -/
def initAccesses (s : SchedState) (c : Nat) : List Nat :=
  [extraIndex s c]

/-- `sched_age_threads` reads the last tick and sets it when it is due. -/
def ageAccesses (s : SchedState) (c tick : Nat) : List Nat :=
  if Word.sub tick (s.extras (extraIndex s c)).lastAgeTick < 20 then
    [extraIndex s c]
  else
    [extraIndex s c, extraIndex s c]

/-- The loop over the sleep queue sets its head when the first thread wakes. -/
def wakeAccesses (c tick : Nat) : Nat -> SchedState -> Nat -> Nat -> List Nat
  | 0, _, _, _ => []
  | fuel + 1, s, prev, curr =>
      if curr = 0 then
        []
      else if (s.threads curr).wakeupTick <= tick then
        let t := unlink s (c, Queue.sleep) prev curr
        (if prev ≠ 0 then [] else [extraIndex s c]) ++
          wakeAccesses c tick fuel (wakeThread t c curr) prev
            (t.threads curr).next
      else
        wakeAccesses c tick fuel s curr (s.threads curr).next

/-- A thread that goes to sleep is put in front of the sleep queue. -/
def retireAccesses (s : SchedState) (c current : Nat) : List Nat :=
  match (s.threads current).state with
  | .sleeping => [extraIndex s c, extraIndex s c]
  | _ => []

/-- `sched_reschedule`: the head of the sleep queue, the loop over it, the aging
and the switch. -/
def rescheduleAccesses (s : SchedState) (c rsp tick ageTick : Nat) :
    List Nat :=
  let current := (s.cpus c).schedThread
  if current = 0 then
    []
  else
    let s := modThread s current (fun th => { th with rsp := rsp })
    let head := queueHead s (c, Queue.sleep)
    [extraIndex s c] ++ wakeAccesses c tick queueFuel s 0 head ++
      match wakeLoop c tick queueFuel s 0 head with
      | none => []
      | some s =>
          let s := modThread s current (fun th =>
            { th with ticksRemaining := th.ticksRemaining - 1 })
          ageAccesses s c ageTick ++
            match schedAgeThreads s c ageTick with
            | none => []
            | some s => switchAccesses s c current
where
  switchAccesses (s : SchedState) (c current : Nat) : List Nat :=
    let th := s.threads current
    match topQueue s c (maxPriority + 1) with
    | none => []
    | some p =>
        if th.priority < p ∨ (p = th.priority ∧ th.ticksRemaining = 0) ∨
            th.state ≠ ThreadState.running then
          let next := queueHead s (c, Queue.ready p)
          retireAccesses
            (setQueueHead s (c, Queue.ready p) (s.threads next).next) c current
        else
          []

/-- `sched_is_alive` reads the sleep queue of a CPU when it has not found the
thread before. -/
def isAliveAccesses (s : SchedState) (c tid : Nat) : List Nat :=
  if (s.cpus c).schedThread ≠ 0 ∧
      (s.threads (s.cpus c).schedThread).tid = tid then
    []
  else
    match tidInReady c tid (maxPriority + 1) s 0 with
    | some false => [extraIndex s c]
    | _ => []

section Accesses

variable {s : SchedState} {c j : Nat}

theorem OwnExtra.index {s' : SchedState} (h : OwnExtra c s s') :
    extraIndex s' c = extraIndex s c :=
  h.ids c

theorem mem_ageAccesses {tick : Nat} (h : j ∈ ageAccesses s c tick) :
    j = extraIndex s c := by
  unfold ageAccesses at h
  split at h
  · exact List.mem_singleton.mp h
  · simpa using h

theorem mem_wakeAccesses {tick fuel prev curr : Nat}
    (h : j ∈ wakeAccesses c tick fuel s prev curr) : j = extraIndex s c := by
  induction fuel generalizing s prev curr with
  | zero => cases h
  | succ fuel ih =>
      unfold wakeAccesses at h
      split at h
      · cases h
      · split at h
        · simp only at h
          rcases List.mem_append.mp h with hhead | hrest
          · split at hhead
            · cases hhead
            · exact List.mem_singleton.mp hhead
          · have hown := (unlink_own s c Queue.sleep prev curr).trans
              (wakeThread_own _ c curr)
            rw [ih hrest, hown.index]
        · exact ih h

theorem mem_retireAccesses {current : Nat}
    (h : j ∈ retireAccesses s c current) : j = extraIndex s c := by
  unfold retireAccesses at h
  split at h
  · simpa using h
  · cases h

theorem mem_switchAccesses {current : Nat}
    (h : j ∈ rescheduleAccesses.switchAccesses s c current) :
    j = extraIndex s c := by
  unfold rescheduleAccesses.switchAccesses at h
  simp only at h
  split at h
  · cases h
  · split at h
    · rw [mem_retireAccesses h, (setQueueHead_own s c _ _).index]
    · cases h

theorem mem_rescheduleAccesses {rsp tick ageTick : Nat}
    (h : j ∈ rescheduleAccesses s c rsp tick ageTick) :
    j = extraIndex s c := by
  unfold rescheduleAccesses at h
  simp only at h
  split at h
  · cases h
  · rcases List.mem_append.mp h with hwake | hlater
    · rcases List.mem_append.mp hwake with hhead | hloop
      · exact List.mem_singleton.mp hhead
      · rw [mem_wakeAccesses hloop]
        rfl
    · split at hlater
      · cases hlater
      · rename_i t hrun
        have hown := wakeLoop_own hrun
        rcases List.mem_append.mp hlater with hage | hswitch
        · rw [mem_ageAccesses hage]
          exact hown.index
        · split at hswitch
          · cases hswitch
          · rename_i u hage
            rw [mem_switchAccesses hswitch, (schedAgeThreads_own hage).index]
            exact hown.index

theorem mem_isAliveAccesses {tid : Nat} (h : j ∈ isAliveAccesses s c tid) :
    j = extraIndex s c := by
  unfold isAliveAccesses at h
  split at h
  · cases h
  · split at h
    · exact List.mem_singleton.mp h
    · cases h

theorem extraIndex_mem (hsome : (s.cpus c).schedThread ≠ 0)
    (rsp tick ageTick : Nat) :
    extraIndex s c ∈ rescheduleAccesses s c rsp tick ageTick := by
  unfold rescheduleAccesses
  rw [if_neg hsome]
  exact List.mem_append_left _ (List.mem_append_left _
    (List.mem_singleton.mpr rfl))

/-- The accesses are all there: a call changes no other element. -/
theorem schedReschedule_accesses {rsp tick ageTick : Nat}
    {r : RescheduleResult}
    (h : schedReschedule s c rsp tick ageTick = some r)
    (hj : j ∉ rescheduleAccesses s c rsp tick ageTick) :
    r.state.extras j = s.extras j := by
  by_cases hnone : (s.cpus c).schedThread = 0
  · unfold schedReschedule at h
    rw [if_pos hnone] at h
    cases h
    rfl
  · apply (schedReschedule_own h).others
    intro heq
    apply hj
    rw [heq]
    exact extraIndex_mem hnone rsp tick ageTick

end Accesses

end Sched
end Barium
