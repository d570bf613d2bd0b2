import Barium.Acpi.Robustness
import Barium.Acpi.Discovery
import Barium.Sched.Accesses

/-!
# The tables of the CPUs

Three arrays of 64 elements: `acpi_init` stores the APIC ids it finds in
`cpu_apic_ids`, `cpu_init` stores the address of a new CPU's record in `cpus`,
and the scheduler keeps two words for each CPU in `cpu_extras`, which it indexes
by the APIC id.
-/

namespace Barium
namespace PerCpu

open Foundation
open Function
open TransitionSystem
open Acpi
open Sched

/-!
# Starting CPUs

`cpu_init` runs without a lock, and `smp_init` may start a CPU while the one
before is still in `cpu_init`: the counter is read in one step and written in
another.
-/

/-- The statics of `cpu.c`, with the ids of the stored CPUs; the CPUs that have
read `cpu_count_actual`, and those that are through. -/
structure CpuBoot where
  cpuCountActual : Nat
  cpus : Nat -> Nat
  loaded : Nat -> Option Nat
  finished : List Nat

inductive CpuEvent where
  | load (k : Nat)
  | store (k index : Nat)

/-- `cpus[cpu_count_actual++] = cpu`, on the `k`-th of the CPUs. -/
inductive CpuStep (ids : List Nat) : CpuBoot -> CpuEvent -> CpuBoot -> Prop where
  | load {s : CpuBoot} {k : Nat} :
      k < ids.length -> k ∉ s.finished -> s.loaded k = none ->
      CpuStep ids s (CpuEvent.load k)
        { s with
          loaded := update s.loaded k (some s.cpuCountActual) }
  | store {s : CpuBoot} {k n : Nat} :
      s.loaded k = some n ->
      CpuStep ids s (CpuEvent.store k n)
        { cpuCountActual := n + 1
          cpus := update s.cpus n (ids.getD k 0)
          loaded := update s.loaded k none
          finished := k :: s.finished }

def cpuStart : CpuBoot where
  cpuCountActual := 0
  cpus := fun _ => 0
  loaded := fun _ => none
  finished := []

def cpuSystem (ids : List Nat) : TransitionSystem CpuBoot CpuEvent where
  Init := fun s => s = cpuStart
  Step := CpuStep ids

/-- The CPUs that run `cpu_init`: the bootstrap processor, and one for every
other entry of `cpu_apic_ids`. -/
def startedIds (bspId : Nat) (ids : List Nat) : List Nat :=
  bspId :: ids.filter (fun id => id ≠ bspId)

structure CpuInvariant (ids : List Nat) (s : CpuBoot) : Prop where
  nodup : s.finished.Nodup
  finished_lt : forall k, k ∈ s.finished -> k < ids.length
  count_le : s.cpuCountActual <= s.finished.length
  loaded : forall k n, s.loaded k = some n ->
    k < ids.length ∧ k ∉ s.finished ∧ n <= s.finished.length

section Boot

variable {ids : List Nat} {s s' : CpuBoot}

theorem CpuInvariant.index_lt (h : CpuInvariant ids s) {k n : Nat}
    (hloaded : s.loaded k = some n) : n < ids.length := by
  rcases h.loaded k n hloaded with ⟨hk, hout, hn⟩
  have hall : (k :: s.finished).Subperm (List.range ids.length) := by
    refine List.subperm_of_subset (List.nodup_cons.mpr ⟨hout, h.nodup⟩) ?_
    intro j hj
    rw [List.mem_range]
    rcases List.mem_cons.mp hj with heq | hdone
    · rw [heq]
      exact hk
    · exact h.finished_lt j hdone
  have hlength := hall.length_le
  rw [List.length_cons, List.length_range] at hlength
  lia

theorem cpuInvariant_step {event : CpuEvent} (h : CpuInvariant ids s)
    (hstep : CpuStep ids s event s') : CpuInvariant ids s' := by
  cases hstep with
  | @load k hk hout hnone =>
      refine ⟨h.nodup, h.finished_lt, h.count_le, ?_⟩
      intro j n hj
      change update s.loaded k (some s.cpuCountActual) j = some n at hj
      by_cases hsame : j = k
      · rw [hsame, update_self] at hj
        cases hj
        rw [hsame]
        exact ⟨hk, hout, h.count_le⟩
      · rw [update_of_ne hsame] at hj
        exact h.loaded j n hj
  | @store k n hloaded =>
      rcases h.loaded k n hloaded with ⟨hk, hout, hn⟩
      refine ⟨List.nodup_cons.mpr ⟨hout, h.nodup⟩, ?_, ?_, ?_⟩
      · intro j hj
        rcases List.mem_cons.mp hj with heq | hdone
        · rw [heq]
          exact hk
        · exact h.finished_lt j hdone
      · show n + 1 <= (k :: s.finished).length
        rw [List.length_cons]
        lia
      · intro j m hj
        by_cases hjk : j = k
        · rw [hjk] at hj
          change update s.loaded k none k = some m at hj
          rw [update_self] at hj
          cases hj
        · change update s.loaded k none j = some m at hj
          rw [update_of_ne hjk] at hj
          rcases h.loaded j m hj with ⟨hlt, hnot, hle⟩
          refine ⟨hlt, ?_, ?_⟩
          · intro hin
            rcases List.mem_cons.mp hin with heq | hdone
            · exact hjk heq
            · exact hnot hdone
          · show m <= (k :: s.finished).length
            rw [List.length_cons]
            lia

theorem cpuInvariant_start : CpuInvariant ids cpuStart := by
  constructor
  · exact List.nodup_nil
  · intro k hk
    cases hk
  · exact Nat.le_refl 0
  · intro k n hk
    cases hk

/-- However the calls overlap, a CPU stores below the number of CPUs. -/
theorem cpuSystem_store_lt {trace : List CpuEvent}
    (hrun : (cpuSystem ids).Runs cpuStart trace s) {k n : Nat}
    (hstore : CpuEvent.store k n ∈ trace) : n < ids.length := by
  have hhistory : CpuInvariant ids s ∧
      forall k n, CpuEvent.store k n ∈ trace -> n < ids.length := by
    refine runs_history_invariant
      (P := fun trace s => CpuInvariant ids s ∧
        forall k n, CpuEvent.store k n ∈ trace -> n < ids.length)
      ⟨cpuInvariant_start, ?_⟩ ?_ hrun
    · intro k n hnil
      cases hnil
    · intro trace t event u ht hstep
      refine ⟨cpuInvariant_step ht.left hstep, ?_⟩
      intro k n hmem
      rcases List.mem_append.mp hmem with hold | hlast
      · exact ht.right k n hold
      · rw [← List.mem_singleton.mp hlast] at hstep
        cases hstep with
        | store hloaded => exact ht.left.index_lt hloaded
  exact hhistory.right k n hstore

theorem startedIds_length {bspId : Nat} (hbsp : bspId ∈ ids) :
    (startedIds bspId ids).length <= ids.length := by
  have hshorter : (ids.filter (fun id => id ≠ bspId)).length < ids.length := by
    rw [List.length_filter_lt_length_iff_exists]
    exact ⟨bspId, hbsp, by simp⟩
  exact hshorter

end Boot

/-!
# The CPUs of the scheduler
-/

def upIds (bspId : Nat) (others : List Nat) (c : Nat) : Nat :=
  (bspId :: others).getD c 0

def SameIds (count : Nat) (ids : Nat -> Nat) (s : SchedState) : Prop :=
  s.cpuCount = count ∧ forall c, (s.cpus c).cpuId = ids c

section Ids

variable {count : Nat} {ids : Nat -> Nat} {s s' : SchedState}

theorem SameIds.own {c : Nat} (h : SameIds count ids s)
    (hown : OwnExtra c s s') : SameIds count ids s' :=
  ⟨hown.count.trans h.left, fun d => (hown.ids d).trans (h.right d)⟩

theorem schedInit_sameIds (h : SameIds count ids s) (c idle stack : Nat) :
    SameIds count ids (schedInit s c idle stack) := by
  unfold schedInit
  have hcleared : SameIds count ids
      (if s.nextTid = 1 then
        { s with extras := fun _ => { sleepQueue := 0, lastAgeTick := 0 } }
      else s) := by
    split
    · exact h
    · exact h
  generalize (if s.nextTid = 1 then
    { s with extras := fun _ => { sleepQueue := 0, lastAgeTick := 0 } }
    else s) = t at hcleared
  have hborn : SameIds count ids
      { t with
        threads := update t.threads idle
          { zeroThread with
            tid := t.nextTid
            state := ThreadState.running
            name := idleName
            stackLimit := stack
            stackTop := Word.add stack 8192 }
        nextTid := Word.add t.nextTid 1 } :=
    hcleared
  exact (hborn.own (modCpu_own c _ c rfl)).own (modExtra_own c _ _)

theorem initCpu_sameIds {r : SchedRun} (calls : List InitCall)
    (h : SameIds count ids r.sched) :
    SameIds count ids (calls.foldl initCpu r).sched := by
  induction calls generalizing r with
  | nil => exact h
  | cons call rest ih =>
      exact ih (schedInit_sameIds h call.cpu call.idle call.stack)

theorem spawnThread_sameIds (h : SameIds count ids s)
    (thread stack limit top priority : Nat) (name : Option (List UInt8))
    (frame : List Nat) :
    SameIds count ids
      (spawnThread s thread stack limit top priority name frame).state := by
  have hcounted : SameIds count ids
      { s with
        nextTid := Word.add s.nextTid 1
        nextCpuIndex := (s.nextCpuIndex + 1) % s.cpuCount } :=
    h
  have hrecord := hcounted.own (modThread_own 0 _ thread
    (fun _ => newThread s stack limit top (clampPriority priority) name frame))
  exact hrecord.own (push_own _ s.nextCpuIndex
    (Queue.ready (clampPriority priority)) thread)

theorem findInQueue_own {c tid fuel prev curr : Nat} {q : Queue}
    {found : Option Nat}
    (hrun : findInQueue (c, q) tid fuel s prev curr = some (found, s')) :
    OwnExtra c s s' := by
  induction fuel generalizing s prev curr with
  | zero => cases hrun
  | succ fuel ih =>
      unfold findInQueue at hrun
      split at hrun
      · cases hrun
        exact OwnExtra.refl c _
      · split at hrun
        · cases hrun
          exact unlink_own _ c q prev curr
        · exact ih hrun

theorem findOnCpu_own {c tid n : Nat} {found : Option Nat}
    (hrun : findOnCpu c tid n s = some (found, s')) : OwnExtra c s s' := by
  induction n generalizing s with
  | zero =>
      cases hrun
      exact OwnExtra.refl c _
  | succ n ih =>
      rcases Option.bind_eq_some_iff.mp hrun with
        ⟨⟨target, t⟩, hqueue, hrest⟩
      have hown := findInQueue_own hqueue
      cases target with
      | some u =>
          cases hrest
          exact hown
      | none => exact hown.trans (ih hrest)

theorem schedStep_sameIds {r r' : SchedRun} {event : SchedEvent}
    (h : SameIds count ids r.sched) (hstep : SchedStep r event r') :
    SameIds count ids r'.sched := by
  cases hstep with
  | spawn _ _ => exact spawnThread_sameIds h _ _ _ _ _ _ _
  | spawnUser _ _ => exact spawnThread_sameIds h _ _ _ _ _ _ _
  | reschedule _ hrun => exact h.own (schedReschedule_own hrun)
  | @sleep c ms tick _ =>
      show SameIds count ids (schedSleep r.sched c ms tick)
      unfold schedSleep
      split
      · exact h.own (modThread_own c _ _ _)
      · exact h
  | @exit c _ =>
      show SameIds count ids (schedExit r.sched c)
      unfold schedExit
      split
      · exact h.own (modThread_own c _ _ _)
      · exact h
  | handoffStart _ _ _ => exact h
  | handoffMiss _ _ _ hfind => exact h.own (findOnCpu_own hfind)
  | handoffFind _ _ _ hfind => exact h.own (findOnCpu_own hfind)
  | handoffNone _ _ _ => exact h
  | @handoffPlace c target _ _ =>
      show SameIds count ids (takeOver r.sched c target)
      unfold takeOver
      exact (h.own (modThread_own c _ target _)).own (push_own _ c _ target)

theorem schedSystem_sameIds {r : SchedRun}
    (hreach : (schedSystem count ids).Reachable r) :
    SameIds count ids r.sched := by
  apply reachable_invariant _ _ hreach
  · intro r hinit
    rcases hinit with ⟨threads, calls, _, hr⟩
    rw [hr]
    exact initCpu_sameIds calls ⟨rfl, fun _ => rfl⟩
  · intro r event r' hr hstep
    exact schedStep_sameIds hr hstep

end Ids

/-!
# All accesses
-/

structure ExtrasBounded (s : SchedState) : Prop where
  reschedule : forall c rsp tick ageTick i, c < s.cpuCount ->
    i ∈ rescheduleAccesses s c rsp tick ageTick -> i < cpuSlots
  age : forall c tick i, c < s.cpuCount -> i ∈ ageAccesses s c tick ->
    i < cpuSlots
  alive : forall c tid i, c < s.cpuCount -> i ∈ isAliveAccesses s c tid ->
    i < cpuSlots

/-- All accesses to the three tables, on a machine with this MADT and enabled
processors: during the entry loop of `acpi_init`, during any calls of
`cpu_init`, during the calls of `sched_init` on the CPUs that are up, and in
every state that the scheduler reaches. -/
structure PerCpuBounded (ram : ByteMemory) (madt bspId : Nat)
    (ids : List Nat) : Prop where
  apicIds : exists scan, entryLoop ram madt acpiStart = some scan ∧
    forall i, i ∈ scan.stores -> i < cpuSlots
  cpus : forall trace s,
    (cpuSystem (startedIds bspId ids)).Runs cpuStart trace s ->
    forall k i, CpuEvent.store k i ∈ trace -> i < cpuSlots
  init : forall others : List Nat, (forall id, id ∈ others -> id ∈ ids) ->
    forall threads (calls : List InitCall) c, c < others.length + 1 ->
    forall i, i ∈ initAccesses (calls.foldl initCpu (bootRun
      (others.length + 1) (upIds bspId others) threads)).sched c ->
    i < cpuSlots
  run : forall others : List Nat, (forall id, id ∈ others -> id ∈ ids) ->
    forall r, (schedSystem (others.length + 1)
      (upIds bspId others)).Reachable r -> ExtrasBounded r.sched

section Bounds

variable {ram : ByteMemory} {madt bspId : Nat} {ids : List Nat}

theorem upIds_mem {others : List Nat} {c : Nat} (hbsp : bspId ∈ ids)
    (hothers : forall id, id ∈ others -> id ∈ ids)
    (hc : c < others.length + 1) : upIds bspId others c ∈ ids := by
  unfold upIds
  cases c with
  | zero => exact hbsp
  | succ c =>
      rw [List.getD_cons_succ, List.getD_eq_getElem _ _ (by lia)]
      exact hothers _ (List.getElem_mem _)

theorem extrasBounded_of_ids {s : SchedState} {count : Nat}
    {table : Nat -> Nat} (h : SameIds count table s)
    (hids : forall c, c < count -> table c < cpuSlots) : ExtrasBounded s := by
  have hindex : forall c, c < s.cpuCount -> extraIndex s c < cpuSlots := by
    intro c hc
    rw [extraIndex, h.right]
    exact hids c (h.left ▸ hc)
  constructor
  · intro c rsp tick ageTick i hc hi
    rw [mem_rescheduleAccesses hi]
    exact hindex c hc
  · intro c tick i hc hi
    rw [mem_ageAccesses hi]
    exact hindex c hc
  · intro c tid i hc hi
    rw [mem_isAliveAccesses hi]
    exact hindex c hc

theorem perCpu_bounded_iff {entries : List MadtEntry}
    (hmadt : MadtAt ram madt entries) (hbsp : bspId ∈ enabledIds entries) :
    PerCpuBounded ram madt bspId (enabledIds entries) <->
      (enabledIds entries).length <= cpuSlots ∧
        forall id, id ∈ enabledIds entries -> id < cpuSlots := by
  rcases entryLoop_of_madt hmadt acpiStart with ⟨scan, hloop, _, hstores⟩
  constructor
  · intro hbounded
    constructor
    · rcases hbounded.apicIds with ⟨scan', hloop', hlt⟩
      rw [hloop] at hloop'
      cases hloop'
      by_contra hmany
      have hlast := hlt cpuSlots (by
        rw [hstores, List.mem_range'_1]
        exact ⟨Nat.zero_le _, by
          rw [show acpiStart.cpuCount = 0 from rfl]
          lia⟩)
      exact Nat.lt_irrefl _ hlast
    · -- the CPU with this id is up and runs `sched_init`
      intro id hid
      refine hbounded.init [id] ?_ (fun _ => zeroThread) [] 1
        (Nat.lt_succ_self 1) id ?_
      · intro other hother
        rw [List.mem_singleton.mp hother]
        exact hid
      · exact List.mem_singleton_self id
  · intro hsmall
    have hup : forall others : List Nat, (forall id, id ∈ others ->
        id ∈ enabledIds entries) -> forall c, c < others.length + 1 ->
        upIds bspId others c < cpuSlots := by
      intro others hothers c hc
      exact hsmall.right _ (upIds_mem hbsp hothers hc)
    constructor
    · refine ⟨scan, hloop, ?_⟩
      intro i hi
      rw [hstores, List.mem_range'_1] at hi
      have hlt := hi.right
      rw [show acpiStart.cpuCount = 0 from rfl] at hlt
      lia
    · intro trace s hrun k i hstore
      have hlt := cpuSystem_store_lt hrun hstore
      have hlength := startedIds_length hbsp
      lia
    · intro others hothers threads calls c hc i hi
      have hsame : SameIds (others.length + 1) (upIds bspId others)
          (calls.foldl initCpu (bootRun (others.length + 1)
            (upIds bspId others) threads)).sched :=
        initCpu_sameIds calls ⟨rfl, fun _ => rfl⟩
      rw [List.mem_singleton.mp hi, extraIndex, hsame.right]
      exact hup others hothers c hc
    · intro others hothers r hreach
      exact extrasBounded_of_ids (schedSystem_sameIds hreach)
        (hup others hothers)

end Bounds

def twoEntries (second : UInt8) : List MadtEntry :=
  [{ type := 0, payload := [0, 0, 1, 0, 0, 0], size_lt := by decide,
     lapic := by decide },
   { type := 0, payload := [1, second, 1, 0, 0, 0], size_lt := by simp,
     lapic := by simp }]

def twoMadt (second : UInt8) : ByteMemory :=
  smallMadt [0, 8, 0, 0, 1, 0, 0, 0, 0, 8, 1, second, 1, 0, 0, 0]

theorem twoMadt_at (second : UInt8) :
    MadtAt (twoMadt second) 0x1000 (twoEntries second) := by
  have hlength : tableLength (twoMadt second) 0x1000 = 60 := rfl
  constructor
  · rw [hlength]
    refine ⟨?_, ?_, rfl⟩
    · exact ⟨rfl, rfl, rfl, rfl, rfl, rfl, rfl, rfl, trivial⟩
    · exact ⟨rfl, rfl, rfl, rfl, rfl, rfl, rfl, rfl, trivial⟩
  · rw [hlength]
    decide

theorem perCpu_bounded_iff_two :
    PerCpuBounded (twoMadt 5) 0x1000 0 (enabledIds (twoEntries 5)) :=
  (perCpu_bounded_iff (twoMadt_at 5) (by decide)).mpr (by decide)

/-- APIC id 64 for the second processor: its `sched_init` stores to
`cpu_extras[64]`. -/
theorem perCpu_not_bounded :
    MadtAt (twoMadt 64) 0x1000 (twoEntries 64) ∧
      ¬ PerCpuBounded (twoMadt 64) 0x1000 0 (enabledIds (twoEntries 64)) := by
  refine ⟨twoMadt_at 64, ?_⟩
  intro hbounded
  have hindex := hbounded.init [64] (by decide) (fun _ => zeroThread) [] 1
    (by decide) 64 (List.mem_singleton_self 64)
  exact Nat.lt_irrefl 64 hindex

end PerCpu
end Barium
