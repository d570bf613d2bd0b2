import Mathlib.Data.List.Nodup
import Barium.Console
import Barium.Sched.Stacks

/-!
# Listing the threads

`sched_print_tasks` goes through the CPUs and prints a line for the running
thread and for every thread in a ready queue or in the sleep queue.  It holds
the lock of one CPU at a time; here nothing else happens during the call.
-/

namespace Barium
namespace Sched

open Foundation
open TransitionSystem
open LinkedList

/-!
# The lines
-/

/-- The word in the fourth column. -/
inductive TaskState where
  | running
  | ready
  | sleeping
  deriving DecidableEq, Repr

structure TaskLine where
  tid : Nat
  priority : Nat
  core : Nat
  state : TaskState
  name : List UInt8
  deriving DecidableEq, Repr

def textBytes (text : String) : List UInt8 :=
  text.toList.map (fun c => UInt8.ofNat c.toNat)

def TaskState.word : TaskState -> String
  | .running => " running "
  | .ready => " ready "
  | .sleeping => " sleeping "

/-- What is printed for one thread. -/
def TaskLine.bytes (line : TaskLine) : List UInt8 :=
  Console.numBytes line.tid ++ textBytes " " ++
    Console.numBytes line.priority ++ textBytes " " ++
    Console.numBytes line.core ++ textBytes line.state.word ++ line.name ++
    textBytes "\n"

def taskHeader : List UInt8 :=
  textBytes "tid pri core state name\n" ++
    textBytes "------------------------\n"

def taskLine (s : SchedState) (c : Nat) (state : TaskState) (t : Nat) :
    TaskLine where
  tid := (s.threads t).tid
  priority := (s.threads t).priority
  core := (s.cpus c).cpuId
  state := state
  name := (s.threads t).name

def queueLines (c : Nat) (state : TaskState) :
    Nat -> SchedState -> Nat -> Option (List TaskLine)
  | 0, _, _ => none
  | fuel + 1, s, curr =>
      if curr = 0 then some []
      else do
        let rest <- queueLines c state fuel s (s.threads curr).next
        some (taskLine s c state curr :: rest)

/-- The lines of `n` ready queues from priority `p` on. -/
def readyLines (c : Nat) : Nat -> SchedState -> Nat -> Option (List TaskLine)
  | 0, _, _ => some []
  | n + 1, s, p => do
      let here <- queueLines c TaskState.ready queueFuel s
        (queueHead s (c, Queue.ready p))
      let rest <- readyLines c n s (p + 1)
      some (here ++ rest)

/-- The critical section for one CPU. -/
def cpuLines (s : SchedState) (c : Nat) : Option (List TaskLine) := do
  let ready <- readyLines c (maxPriority + 1) s 0
  let sleeping <- queueLines c TaskState.sleeping queueFuel s
    (queueHead s (c, Queue.sleep))
  some ((if (s.cpus c).schedThread = 0 then []
    else [taskLine s c TaskState.running (s.cpus c).schedThread]) ++
      ready ++ sleeping)

/-- The loop over the CPUs, with `n` of them left. -/
def taskLines (s : SchedState) : Nat -> Nat -> Option (List TaskLine)
  | 0, _ => some []
  | n + 1, c => do
      let here <- cpuLines s c
      let rest <- taskLines s n (c + 1)
      some (here ++ rest)

def schedPrintTasks (s : SchedState) : Option (List UInt8) := do
  let lines <- taskLines s s.cpuCount 0
  some (taskHeader ++ lines.flatMap TaskLine.bytes)

/-!
# The threads behind the lines
-/

/-- The state that is printed for a thread of CPU `c`. -/
def taskState (s : SchedState) (c t : Nat) : TaskState :=
  if (s.cpus c).schedThread = t then TaskState.running
  else if (s.threads t).state = ThreadState.sleeping then TaskState.sleeping
  else TaskState.ready

def taskRow (s : SchedState) (c t : Nat) : TaskLine :=
  taskLine s c (taskState s c t) t

/-- CPU `c` runs the thread or has it in one of its queues. -/
def HasThread (s : SchedState) (c t : Nat) : Prop :=
  (s.cpus c).schedThread = t ∨
    exists q threads, LocValid s (c, q) ∧
      Chain 0 s.next (queueHead s (c, q)) threads ∧ t ∈ threads

def cpuThreads (s : SchedState) (lists : Loc -> List Nat) (c : Nat) :
    List Nat :=
  (s.cpus c).schedThread ::
    ((List.range' 0 (maxPriority + 1)).flatMap
      (fun p => lists (c, Queue.ready p)) ++ lists (c, Queue.sleep))

section Lines

variable {s : SchedState} {holds : Nat -> Option Nat} {spawned : Nat -> Prop}
  {place : Nat -> Option Place} {lists : Loc -> List Nat} {c : Nat}

theorem queueLines_spec (c : Nat) (state : TaskState) {fuel head : Nat}
    {threads : List Nat} (hchain : Chain 0 s.next head threads)
    (hfuel : threads.length < fuel) :
    queueLines c state fuel s head =
      some (threads.map (taskLine s c state)) := by
  induction fuel generalizing head threads with
  | zero => cases hfuel
  | succ fuel ih =>
      unfold queueLines
      cases threads with
      | nil =>
          have hzero : head = 0 := hchain
          rw [if_pos hzero]
          rfl
      | cons t rest =>
          rcases hchain with ⟨heq, hne, hrest⟩
          have hlines := ih hrest (Nat.lt_of_succ_lt_succ hfuel)
          rw [heq, if_neg hne]
          change (queueLines c state fuel s (s.next t)).bind _ = _
          rw [hlines]
          rfl

theorem readyLines_spec (h : Placed s holds spawned place lists)
    (hc : c < s.cpuCount) (n p : Nat) (hn : p + n <= maxPriority + 1) :
    readyLines c n s p =
      some ((List.range' p n).flatMap (fun q =>
        (lists (c, Queue.ready q)).map (taskLine s c TaskState.ready))) := by
  induction n generalizing p with
  | zero => rfl
  | succ n ih =>
      have hp : p <= maxPriority := by lia
      have hhere := queueLines_spec c TaskState.ready
        (h.chain _ (locValid_ready hc hp)) (h.length_lt _)
      have hrest := ih (p + 1) (by lia)
      unfold readyLines
      rw [hhere, Option.bind_eq_bind, Option.bind_some, hrest,
        Option.bind_some, List.range'_succ, List.flatMap_cons]

theorem taskState_ready (h : Placed s holds spawned place lists)
    (hcurrent : place (s.cpus c).schedThread = some (Place.running c))
    {p t : Nat} (ht : t ∈ lists (c, Queue.ready p)) :
    taskState s c t = TaskState.ready := by
  have hne := h.ne_running hcurrent ht
  have hstate := (h.fits t _ ((h.mem_iff _ t).mp ht)).left
  simp [taskState, hne.symm, hstate]

theorem taskState_sleeping (h : Placed s holds spawned place lists)
    (hcurrent : place (s.cpus c).schedThread = some (Place.running c))
    {t : Nat} (ht : t ∈ lists (c, Queue.sleep)) :
    taskState s c t = TaskState.sleeping := by
  have hne := h.ne_running hcurrent ht
  have hstate := (h.fits t _ ((h.mem_iff _ t).mp ht)).left
  simp [taskState, hne.symm, hstate]

theorem cpuLines_spec (h : Placed s holds spawned place lists)
    (hcurrent : place (s.cpus c).schedThread = some (Place.running c)) :
    cpuLines s c = some ((cpuThreads s lists c).map (taskRow s c)) := by
  have hc : c < s.cpuCount := h.cpu_lt _ _ hcurrent
  have hne := (h.address _ _ hcurrent).left
  have hready : forall p, (lists (c, Queue.ready p)).map
      (taskLine s c TaskState.ready) =
      (lists (c, Queue.ready p)).map (taskRow s c) := by
    intro p
    apply List.map_congr_left
    intro t ht
    rw [taskRow, taskState_ready h hcurrent ht]
  have hsleeping : (lists (c, Queue.sleep)).map
      (taskLine s c TaskState.sleeping) =
      (lists (c, Queue.sleep)).map (taskRow s c) := by
    apply List.map_congr_left
    intro t ht
    rw [taskRow, taskState_sleeping h hcurrent ht]
  have hrunning : taskRow s c (s.cpus c).schedThread =
      taskLine s c TaskState.running (s.cpus c).schedThread := by
    simp [taskRow, taskState]
  unfold cpuLines
  rw [readyLines_spec h hc (maxPriority + 1) 0 (by lia),
    Option.bind_eq_bind, Option.bind_some,
    queueLines_spec c TaskState.sleeping (h.chain (c, Queue.sleep)
      ⟨hc, trivial⟩) (h.length_lt _), Option.bind_some, if_neg hne]
  simp [cpuThreads, hready, hsleeping, hrunning, List.map_flatMap]

theorem mem_cpuThreads (h : Placed s holds spawned place lists)
    (hcurrent : place (s.cpus c).schedThread = some (Place.running c))
    (t : Nat) : t ∈ cpuThreads s lists c <-> OnCpu place c t := by
  unfold cpuThreads OnCpu
  rw [List.mem_cons, List.mem_append, List.mem_flatMap]
  constructor
  · rintro (heq | ⟨p, _, hp⟩ | hsleep)
    · rw [heq]
      exact Or.inl hcurrent
    · exact Or.inr ⟨_, (h.mem_iff _ t).mp hp⟩
    · exact Or.inr ⟨_, (h.mem_iff _ t).mp hsleep⟩
  · rintro (hrunning | ⟨q, hq⟩)
    · exact Or.inl (h.running t c hrunning).symm
    · cases q with
      | sleep => exact Or.inr (Or.inr ((h.mem_iff _ t).mpr hq))
      | ready p =>
          have hp := (h.fits t _ hq).right.right.left
          have hrange : p ∈ List.range' 0 (maxPriority + 1) := by
            rw [List.mem_range'_1]
            lia
          exact Or.inr (Or.inl ⟨p, hrange, (h.mem_iff _ t).mpr hq⟩)

/-- A thread has one place, so no queue repeats a thread of another. -/
theorem cpuThreads_nodup (h : Placed s holds spawned place lists)
    (hcurrent : place (s.cpus c).schedThread = some (Place.running c)) :
    (cpuThreads s lists c).Nodup := by
  have hqueue : forall l m t, t ∈ lists l -> t ∈ lists m -> l = m := by
    intro l m t hl hm
    have hplace := ((h.mem_iff l t).mp hl).symm.trans ((h.mem_iff m t).mp hm)
    cases hplace
    rfl
  unfold cpuThreads
  rw [List.nodup_cons, List.nodup_append, List.nodup_flatMap]
  constructor
  · intro hmem
    rw [List.mem_append, List.mem_flatMap] at hmem
    rcases hmem with ⟨p, _, hp⟩ | hsleep
    · exact h.ne_running hcurrent hp rfl
    · exact h.ne_running hcurrent hsleep rfl
  constructor
  · constructor
    · intro p _
      exact h.nodup _
    · have hrange : (List.range' 0 (maxPriority + 1)).Nodup :=
        List.nodup_range' ..
      apply List.Pairwise.imp _ hrange
      intro p q hne t hp hq
      cases hqueue _ _ t hp hq
      exact hne rfl
  constructor
  · exact h.nodup _
  · intro t ht u hu heq
    rw [List.mem_flatMap] at ht
    rcases ht with ⟨p, _, hp⟩
    rw [← heq] at hu
    cases hqueue _ _ t hp hu

theorem taskLines_spec (h : Placed s holds spawned place lists)
    (hrunning : forall c, c < s.cpuCount ->
      place (s.cpus c).schedThread = some (Place.running c))
    (n c : Nat) (hn : c + n <= s.cpuCount) :
    taskLines s n c =
      some ((List.range' c n).flatMap (fun d =>
        (cpuThreads s lists d).map (taskRow s d))) := by
  induction n generalizing c with
  | zero => rfl
  | succ n ih =>
      have hhere := cpuLines_spec h (hrunning c (by lia))
      have hrest := ih (c + 1) (by lia)
      unfold taskLines
      rw [hhere, Option.bind_eq_bind, Option.bind_some, hrest,
        Option.bind_some, List.range'_succ, List.flatMap_cons]

end Lines

/-!
# Every thread once
-/

section Once

variable {s : SchedState} {holds : Nat -> Option Nat} {spawned : Nat -> Prop}
  {place : Nat -> Option Place} {lists : Loc -> List Nat}

def allThreads (s : SchedState) (lists : Loc -> List Nat) : List Nat :=
  (List.range' 0 s.cpuCount).flatMap (cpuThreads s lists)

def cpuOf (place : Nat -> Option Place) (t : Nat) : Nat :=
  match place t with
  | some pl => pl.cpu
  | none => 0

theorem OnCpu.cpuOf {c t : Nat} (h : OnCpu place c t) : cpuOf place t = c := by
  rcases h with hrunning | ⟨q, hq⟩
  · simp [Sched.cpuOf, hrunning, Place.cpu]
  · simp [Sched.cpuOf, hq, Place.cpu]

theorem mem_allThreads (h : Placed s holds spawned place lists)
    (hrunning : forall c, c < s.cpuCount ->
      place (s.cpus c).schedThread = some (Place.running c)) (t : Nat) :
    t ∈ allThreads s lists <-> exists c, OnCpu place c t := by
  unfold allThreads
  rw [List.mem_flatMap]
  constructor
  · rintro ⟨c, hc, ht⟩
    rw [List.mem_range'_1] at hc
    exact ⟨c, (mem_cpuThreads h (hrunning c (by lia)) t).mp ht⟩
  · rintro ⟨c, hon⟩
    have hc : c < s.cpuCount := by
      rcases hon with hplace | ⟨q, hplace⟩
      · exact h.cpu_lt t _ hplace
      · exact h.cpu_lt t _ hplace
    have hrange : c ∈ List.range' 0 s.cpuCount := by
      rw [List.mem_range'_1]
      lia
    exact ⟨c, hrange, (mem_cpuThreads h (hrunning c hc) t).mpr hon⟩

theorem allThreads_nodup (h : Placed s holds spawned place lists)
    (hrunning : forall c, c < s.cpuCount ->
      place (s.cpus c).schedThread = some (Place.running c)) :
    (allThreads s lists).Nodup := by
  have hmem : forall c, c ∈ List.range' 0 s.cpuCount -> c < s.cpuCount := by
    intro c hc
    rw [List.mem_range'_1] at hc
    lia
  have hrange : (List.range' 0 s.cpuCount).Nodup :=
    List.nodup_range' ..
  unfold allThreads
  rw [List.nodup_flatMap]
  constructor
  · intro c hc
    exact cpuThreads_nodup h (hrunning c (hmem c hc))
  · apply List.Pairwise.imp_of_mem _ hrange
    intro c d hc hd hne t htc htd
    have honc := (mem_cpuThreads h (hrunning c (hmem c hc)) t).mp htc
    have hond := (mem_cpuThreads h (hrunning d (hmem d hd)) t).mp htd
    exact hne (honc.cpuOf.symm.trans hond.cpuOf)

theorem schedPrintTasks_spec (h : Placed s holds spawned place lists)
    (hrunning : forall c, c < s.cpuCount ->
      place (s.cpus c).schedThread = some (Place.running c)) :
    schedPrintTasks s =
      some (taskHeader ++ (allThreads s lists).flatMap
        (fun t => (taskRow s (cpuOf place t) t).bytes)) := by
  have hrows : (List.range' 0 s.cpuCount).flatMap (fun d =>
      (cpuThreads s lists d).map (taskRow s d)) =
      (allThreads s lists).map (fun t => taskRow s (cpuOf place t) t) := by
    unfold allThreads
    rw [List.map_flatMap]
    apply List.flatMap_congr
    intro c hc
    rw [List.mem_range'_1] at hc
    apply List.map_congr_left
    intro t ht
    rw [((mem_cpuThreads h (hrunning c (by lia)) t).mp ht).cpuOf]
  unfold schedPrintTasks
  rw [taskLines_spec h hrunning s.cpuCount 0 (by lia), Option.bind_eq_bind,
    Option.bind_some, hrows, List.flatMap_map]

theorem onCpu_iff {t : Nat} : (exists c, OnCpu place c t) <->
    place t ≠ none ∧ forall c, place t ≠ some (Place.held c) := by
  constructor
  · rintro ⟨c, hplace | ⟨q, hplace⟩⟩
    · simp [hplace]
    · simp [hplace]
  · rintro ⟨hsome, hfree⟩
    cases hplace : place t with
    | none => exact absurd hplace hsome
    | some pl =>
        cases pl with
        | running c => exact ⟨c, Or.inl hplace⟩
        | queue l => exact ⟨l.1, Or.inr ⟨l.2, hplace⟩⟩
        | held c => exact absurd hplace (hfree c)

theorem Placed.onCpu (h : Placed s holds spawned place lists) {c t : Nat}
    (hon : OnCpu place c t) :
    c < s.cpuCount ∧ HasThread s c t ∧ (spawned t ->
      (s.threads t).coreAffinity = (s.cpus c).cpuId % 2 ^ 8) := by
  rcases hon with hplace | ⟨q, hplace⟩
  · exact ⟨h.cpu_lt t _ hplace, Or.inl (h.running t c hplace),
      (h.fits t _ hplace).right.right⟩
  · have hc : c < s.cpuCount := h.cpu_lt t _ hplace
    have hmem := (h.mem_iff (c, q) t).mpr hplace
    cases q with
    | ready p =>
        have hfits := (h.fits t _ hplace).right.right
        have hvalid := locValid_ready hc hfits.left
        exact ⟨hc, Or.inr ⟨_, _, hvalid, h.chain _ hvalid, hmem⟩, hfits.right⟩
    | sleep =>
        have hvalid : LocValid s (c, Queue.sleep) := ⟨hc, trivial⟩
        exact ⟨hc, Or.inr ⟨_, _, hvalid, h.chain _ hvalid, hmem⟩,
          (h.fits t _ hplace).right.right⟩

theorem holds_iff {r : SchedRun} {c t : Nat} :
    r.holds c = some t <-> r.handoff c = HandoffState.holding t := by
  unfold SchedRun.holds
  cases r.handoff c with
  | idle => simp [HandoffState.target]
  | scanning tid i => simp [HandoffState.target]
  | holding u => simp [HandoffState.target]

end Once

/-- The list has one line for each thread that no `sched_handoff` is moving,
and shows the CPU that has it. -/
theorem sched_print_tasks_once {cpuCount : Nat} {ids : Nat -> Nat}
    {r : SchedRun} (hids : ValidIds cpuCount ids) (hpos : 0 < cpuCount)
    (hreach : (schedSystem cpuCount ids).Reachable r) :
    exists (threads : List Nat) (cpu : Nat -> Nat), threads.Nodup ∧
      (forall t, t ∈ threads <-> r.alive t ≠ none ∧
        forall c, r.handoff c ≠ HandoffState.holding t) ∧
      (forall t, t ∈ threads -> cpu t < r.sched.cpuCount ∧
        HasThread r.sched (cpu t) t ∧
        (r.Spawned t -> (r.sched.threads t).coreAffinity =
          (r.sched.cpus (cpu t)).cpuId % 2 ^ 8)) ∧
      schedPrintTasks r.sched =
        some (taskHeader ++
          threads.flatMap (fun t => (taskRow r.sched (cpu t) t).bytes)) := by
  obtain ⟨place, lists, hinv⟩ := sched_reachable_invariant hids hpos hreach
  have hplaced := hinv.placed
  have hheld : forall t c, place t = some (Place.held c) <->
      r.handoff c = HandoffState.holding t := by
    intro t c
    rw [← holds_iff]
    exact ⟨hplaced.held t c, hinv.holding c t⟩
  refine ⟨allThreads r.sched lists, cpuOf place,
    allThreads_nodup hplaced hinv.running, ?_, ?_,
    schedPrintTasks_spec hplaced hinv.running⟩
  · intro t
    rw [mem_allThreads hplaced hinv.running, onCpu_iff]
    simp only [ne_eq, hheld, hinv.alive_iff]
  · intro t ht
    obtain ⟨c, hon⟩ := (mem_allThreads hplaced hinv.running t).mp ht
    rw [hon.cpuOf]
    exact hplaced.onCpu hon

theorem sched_print_tasks_once_twoThread :
    (schedSystem 2 (fun c => c)).Reachable twoThread ∧
      exists (threads : List Nat) (cpu : Nat -> Nat), threads.Nodup ∧
        0x5000 ∈ threads ∧ HasThread twoThread.sched (cpu 0x5000) 0x5000 ∧
        0x3000 ∈ threads ∧ HasThread twoThread.sched (cpu 0x3000) 0x3000 ∧
        schedPrintTasks twoThread.sched =
          some (taskHeader ++ threads.flatMap
            (fun t => (taskRow twoThread.sched (cpu t) t).bytes)) := by
  have hreach : (schedSystem 2 (fun c => c)).Reachable twoThread :=
    reachable_step ⟨twoCpus, [], twoCpus_init, Runs.nil _⟩ twoThread_step
  have hidle : forall c t, twoThread.handoff c ≠ HandoffState.holding t := by
    intro c t hholding
    cases hholding
  obtain ⟨threads, cpu, hnodup, hmem, hhas, hlines⟩ :=
    sched_print_tasks_once pair_ids (by decide) hreach
  have hspawned : 0x5000 ∈ threads :=
    (hmem 0x5000).mpr ⟨Option.some_ne_none _, fun c => hidle c _⟩
  have hidler : 0x3000 ∈ threads :=
    (hmem 0x3000).mpr ⟨Option.some_ne_none _, fun c => hidle c _⟩
  exact ⟨hreach, threads, cpu, hnodup, hspawned,
    (hhas 0x5000 hspawned).right.left, hidler, (hhas 0x3000 hidler).right.left,
    hlines⟩

end Sched
end Barium
