import Mathlib.Logic.Function.Basic
import Barium.Foundation.Word

/-!
# The scheduler

`sched.c`: every CPU has a running thread, 32 ready queues and a sleep queue.
The queues are linked through the `next` field of the threads.  Threads are
records in memory, found by their addresses; address 0 is `NULL`.

The loops over the queues are given fuel; `none` is a loop that has not ended.
A queue without a cycle has fewer nodes than there are addresses, so its loops
end.
-/

namespace Barium
namespace Sched

open Foundation
open Function

def maxPriority : Nat := 31
def queueFuel : Nat := 2 ^ 64

inductive ThreadState where
  | ready
  | running
  | sleeping
  | dead
  deriving DecidableEq, Repr

structure Thread where
  tid : Nat
  rsp : Nat
  state : ThreadState
  priority : Nat
  name : List UInt8
  coreAffinity : Nat
  ticksRemaining : Nat
  totalTicks : Nat
  wakeupTick : Nat
  stackLimit : Nat
  stackTop : Nat
  userStackLimit : Nat
  userStackTop : Nat
  next : Nat
  deriving DecidableEq, Repr

/-- A thread after `b_memset(thread, 0, sizeof(thread_t))`. -/
def zeroThread : Thread where
  tid := 0
  rsp := 0
  state := ThreadState.ready
  priority := 0
  name := []
  coreAffinity := 0
  ticksRemaining := 0
  totalTicks := 0
  wakeupTick := 0
  stackLimit := 0
  stackTop := 0
  userStackLimit := 0
  userStackTop := 0
  next := 0

/-- The fields of `cpu_t` that the scheduler uses. -/
structure Cpu where
  cpuId : Nat
  schedThread : Nat
  readyQueues : Nat -> Nat
  kernelStack : Nat
  tssRsp0 : Nat

structure CpuExtra where
  sleepQueue : Nat
  lastAgeTick : Nat

/-- The threads, the CPUs by their index, and the static variables of
`sched.c`; `cpu_extras` is indexed by `cpu_id`. -/
structure SchedState where
  threads : Nat -> Thread
  cpus : Nat -> Cpu
  cpuCount : Nat
  extras : Nat -> CpuExtra
  nextTid : Nat
  nextCpuIndex : Nat

def SchedState.next (s : SchedState) (t : Nat) : Nat :=
  (s.threads t).next

def modThread (s : SchedState) (t : Nat) (f : Thread -> Thread) : SchedState :=
  { s with threads := update s.threads t (f (s.threads t)) }

def modCpu (s : SchedState) (c : Nat) (f : Cpu -> Cpu) : SchedState :=
  { s with cpus := update s.cpus c (f (s.cpus c)) }

def modExtra (s : SchedState) (id : Nat) (f : CpuExtra -> CpuExtra) :
    SchedState :=
  { s with extras := update s.extras id (f (s.extras id)) }

/-!
# Queues

A ready queue or the sleep queue of a CPU, with the three ways in which the
code changes one.
-/

inductive Queue where
  | ready (priority : Nat)
  | sleep
  deriving DecidableEq, Repr

/-- A queue of the CPU with the given index. -/
abbrev Loc := Nat × Queue

def queueHead (s : SchedState) : Loc -> Nat
  | (c, .ready p) => (s.cpus c).readyQueues p
  | (c, .sleep) => (s.extras (s.cpus c).cpuId).sleepQueue

def setQueueHead (s : SchedState) (l : Loc) (t : Nat) : SchedState :=
  match l with
  | (c, .ready p) =>
      modCpu s c (fun cpu =>
        { cpu with readyQueues := update cpu.readyQueues p t })
  | (c, .sleep) =>
      modExtra s (s.cpus c).cpuId (fun extra => { extra with sleepQueue := t })

/-- Take `curr` out of a queue; `prev` is the thread before it, if any. -/
def unlink (s : SchedState) (l : Loc) (prev curr : Nat) : SchedState :=
  if prev ≠ 0 then
    modThread s prev (fun th => { th with next := (s.threads curr).next })
  else
    setQueueHead s l (s.threads curr).next

def push (s : SchedState) (l : Loc) (t : Nat) : SchedState :=
  setQueueHead (modThread s t (fun th => { th with next := queueHead s l })) l t

def lastThread (s : SchedState) : Nat -> Nat -> Option Nat
  | 0, _ => none
  | fuel + 1, last =>
      if (s.threads last).next ≠ 0 then
        lastThread s fuel (s.threads last).next
      else
        some last

/-- Put a thread, whose `next` is `NULL`, behind the last one of a queue. -/
def append (s : SchedState) (l : Loc) (t : Nat) : Option SchedState :=
  if queueHead s l = 0 then
    some (setQueueHead s l t)
  else do
    let last <- lastThread s queueFuel (queueHead s l)
    some (modThread s last (fun th => { th with next := t }))

/-!
# Creating threads
-/

/-- `(MAX_PRIORITY - priority + 1) * 2`, converted to 64 bits. -/
def timeSlice (priority : Nat) : Nat :=
  Word.mul (Word.add (Word.sub maxPriority priority) 1) 2

def idleName : List UInt8 := [0x69, 0x64, 0x6C, 0x65]

/-- `sched_init` on a CPU; `idle` and `stack` are what `kmalloc` returns. -/
def schedInit (s : SchedState) (c idle stack : Nat) : SchedState :=
  let s :=
    if s.nextTid = 1 then
      { s with extras := fun _ => { sleepQueue := 0, lastAgeTick := 0 } }
    else s
  let s := { s with
    threads := update s.threads idle
      { zeroThread with
        tid := s.nextTid
        state := ThreadState.running
        name := idleName
        stackLimit := stack
        stackTop := Word.add stack 8192 }
    nextTid := Word.add s.nextTid 1 }
  let s := modCpu s c (fun cpu =>
    { cpu with schedThread := idle, readyQueues := fun _ => 0 })
  modExtra s (s.cpus c).cpuId (fun extra => { extra with sleepQueue := 0 })

/-- A new thread's id, the scheduler after the call and the words that the call
has put on the thread's stack, from its `rsp` upwards. -/
structure SpawnResult where
  ret : Nat
  state : SchedState
  frame : List Nat

/-- The 22 words of a first frame: registers, interrupt number and error code,
then what `iretq` pops. -/
def firstFrame (entry cs rsp ss : Nat) : List Nat :=
  List.replicate 15 0 ++ [0, 0, entry, cs, 0x202, rsp, ss]

def clampPriority (priority : Nat) : Nat :=
  if maxPriority < priority then maxPriority else priority

/-- The record of a new thread, which goes to the next CPU in turn. -/
def newThread (s : SchedState) (stack userStackLimit userStackTop priority : Nat)
    (name : Option (List UInt8)) (frame : List Nat) : Thread :=
  { zeroThread with
    tid := s.nextTid
    rsp := Word.sub (Word.add stack 8192) (8 * frame.length)
    state := ThreadState.ready
    priority := priority
    name := name.getD []
    coreAffinity := (s.cpus s.nextCpuIndex).cpuId % 2 ^ 8
    ticksRemaining := timeSlice priority
    stackLimit := stack
    stackTop := Word.add stack 8192
    userStackLimit := userStackLimit
    userStackTop := userStackTop }

/-- The part that both ways to create a thread share. -/
def spawnThread (s : SchedState)
    (thread stack userStackLimit userStackTop priority : Nat)
    (name : Option (List UInt8)) (frame : List Nat) : SpawnResult :=
  let record := newThread s stack userStackLimit userStackTop
    (clampPriority priority) name frame
  let counted := { s with
    nextTid := Word.add s.nextTid 1
    nextCpuIndex := (s.nextCpuIndex + 1) % s.cpuCount }
  { ret := s.nextTid
    state := push (modThread counted thread (fun _ => record))
      (s.nextCpuIndex, Queue.ready (clampPriority priority)) thread
    frame := frame }

/-- `sched_spawn`; `thread` and `stack` are what `kmalloc` returns. -/
def schedSpawn (s : SchedState) (thread stack entry priority : Nat)
    (name : Option (List UInt8)) : SpawnResult :=
  spawnThread s thread stack 0 0 priority name
    (firstFrame entry 0x08 (Word.add stack 8192) 0x10)

/-- `sched_spawn_user`, with a second stack for user mode. -/
def schedSpawnUser (s : SchedState)
    (thread kstack ustack entry priority : Nat)
    (name : Option (List UInt8)) : SpawnResult :=
  spawnThread s thread kstack ustack (Word.add ustack 8192) priority name
    (firstFrame entry 0x23 (Word.add ustack 8192) 0x1B)

/-!
# Rescheduling
-/

/-- The rest of waking a thread that has been taken out of the sleep queue. -/
def wakeThread (s : SchedState) (c awake : Nat) : SchedState :=
  let s := modThread s awake (fun th => { th with state := ThreadState.ready })
  push s (c, Queue.ready (s.threads awake).priority) awake

def wakeLoop (c tick : Nat) :
    Nat -> SchedState -> Nat -> Nat -> Option SchedState
  | 0, _, _, _ => none
  | fuel + 1, s, prev, curr =>
      if curr = 0 then
        some s
      else if (s.threads curr).wakeupTick <= tick then
        let s := unlink s (c, Queue.sleep) prev curr
        wakeLoop c tick fuel (wakeThread s c curr) prev (s.threads curr).next
      else
        wakeLoop c tick fuel s curr (s.threads curr).next

/-- The rest of aging a thread that has been taken out of its queue. -/
def ageThread (s : SchedState) (c aged : Nat) : SchedState :=
  let s := modThread s aged (fun th =>
    if th.priority < maxPriority then { th with priority := th.priority + 1 }
    else th)
  push s (c, Queue.ready (s.threads aged).priority) aged

def ageLoop (c p : Nat) : Nat -> SchedState -> Nat -> Nat -> Option SchedState
  | 0, _, _, _ => none
  | fuel + 1, s, prev, curr =>
      if curr = 0 then
        some s
      else if (s.threads curr).tid = 1 then
        ageLoop c p fuel s curr (s.threads curr).next
      else
        let s := modThread s curr (fun th =>
          { th with totalTicks := Word.add th.totalTicks 1 })
        if 19 < (s.threads curr).totalTicks then
          let s := modThread s curr (fun th => { th with totalTicks := 0 })
          let s := unlink s (c, Queue.ready p) prev curr
          ageLoop c p fuel (ageThread s c curr) prev (s.threads curr).next
        else
          ageLoop c p fuel s curr (s.threads curr).next

/-- Age `n` queues from priority `p` on. -/
def ageQueues (c : Nat) : Nat -> SchedState -> Nat -> Option SchedState
  | 0, s, _ => some s
  | n + 1, s, p => do
      let s <- ageLoop c p queueFuel s 0 (queueHead s (c, Queue.ready p))
      ageQueues c n s (p + 1)

def schedAgeThreads (s : SchedState) (c tick : Nat) : Option SchedState :=
  if Word.sub tick (s.extras (s.cpus c).cpuId).lastAgeTick < 20 then
    some s
  else
    ageQueues c maxPriority
      (modExtra s (s.cpus c).cpuId (fun extra =>
        { extra with lastAgeTick := tick })) 0

/-- The highest of the `n` lowest ready queues that is not empty. -/
def topQueue (s : SchedState) (c : Nat) : Nat -> Option Nat
  | 0 => none
  | p + 1 =>
      if queueHead s (c, Queue.ready p) ≠ 0 then some p
      else topQueue s c p

/-- The value that `sched_reschedule` returns, the scheduler afterwards and the
addresses it has given to `kfree`. -/
structure RescheduleResult where
  ret : Nat
  state : SchedState
  freed : List Nat

def started (th : Thread) : Thread :=
  { th with state := ThreadState.running }

/-- A CPU with a new running thread, whose kernel stack ends at `top`. -/
def runThread (thread top : Nat) (cpu : Cpu) : Cpu :=
  { cpu with schedThread := thread, kernelStack := top, tssRsp0 := top }

/-- Make `next` the running thread of a CPU. -/
def resume (s : SchedState) (c next : Nat) (freed : List Nat) :
    RescheduleResult :=
  let s := modThread s next started
  { ret := (s.threads next).rsp
    state := modCpu s c (runThread next (s.threads next).stackTop)
    freed := freed }

/-- A thread that has to wait for its next turn. -/
def preempted (th : Thread) : Thread :=
  { th with
    state := ThreadState.ready
    ticksRemaining := timeSlice th.priority
    next := 0 }

/-- What happens to a thread that is switched away from. -/
def retire (s : SchedState) (c current : Nat) :
    Option (SchedState × List Nat) :=
  let th := s.threads current
  match th.state with
  | .running => do
      let s <- append (modThread s current preempted)
        (c, Queue.ready th.priority) current
      some (s, [])
  | .sleeping => some (push s (c, Queue.sleep) current, [])
  | .dead =>
      if th.priority ≠ 0 then
        some (s, (if th.userStackLimit ≠ 0 then [th.userStackLimit] else []) ++
          [th.stackLimit, current])
      else
        some (s, [])
  | .ready => some (s, [])

/-- Switch from `current` to the first thread of ready queue `p`. -/
def switchTo (s : SchedState) (c current p : Nat) :
    Option RescheduleResult := do
  let next := queueHead s (c, Queue.ready p)
  let s := setQueueHead s (c, Queue.ready p) (s.threads next).next
  let (s, freed) <- retire s c current
  some (resume s c next freed)

/-- The first half of `sched_reschedule`: threads whose time has come are
woken, the running thread's time runs down and waiting threads are aged. -/
def serveTick (s : SchedState) (c current rsp tick ageTick : Nat) :
    Option SchedState := do
  let s := modThread s current (fun th => { th with rsp := rsp })
  let s <- wakeLoop c tick queueFuel s 0 (queueHead s (c, Queue.sleep))
  let s := modThread s current (fun th =>
    { th with ticksRemaining := th.ticksRemaining - 1 })
  schedAgeThreads s c ageTick

/-- `sched_reschedule` on a CPU; the ticks are the two values it reads from
the timer. -/
def schedReschedule (s : SchedState) (c rsp tick ageTick : Nat) :
    Option RescheduleResult :=
  let current := (s.cpus c).schedThread
  if current = 0 then
    some { ret := rsp, state := s, freed := [] }
  else do
    let s <- serveTick s c current rsp tick ageTick
    let th := s.threads current
    match topQueue s c (maxPriority + 1) with
    | none => some { ret := th.rsp, state := s, freed := [] }
    | some p =>
        if th.priority < p ∨ (p = th.priority ∧ th.ticksRemaining = 0) ∨
            th.state ≠ ThreadState.running then
          switchTo s c current p
        else
          some { ret := th.rsp, state := s, freed := [] }

/-!
# Sleeping, leaving and handing off
-/

/-- The state change in `sched_sleep`. -/
def schedSleep (s : SchedState) (c ms tick : Nat) : SchedState :=
  if (s.cpus c).schedThread ≠ 0 then
    modThread s (s.cpus c).schedThread (fun th =>
      { th with
        state := ThreadState.sleeping
        wakeupTick := Word.add tick (ms / 10) })
  else s

/-- The state change in `sched_exit`. -/
def schedExit (s : SchedState) (c : Nat) : SchedState :=
  if (s.cpus c).schedThread ≠ 0 then
    modThread s (s.cpus c).schedThread (fun th =>
      { th with state := ThreadState.dead })
  else s

/-- Look for a thread in one queue and take it out. -/
def findInQueue (l : Loc) (tid : Nat) :
    Nat -> SchedState -> Nat -> Nat -> Option (Option Nat × SchedState)
  | 0, _, _, _ => none
  | fuel + 1, s, prev, curr =>
      if curr = 0 then
        some (none, s)
      else if (s.threads curr).tid = tid then
        some (some curr, unlink s l prev curr)
      else
        findInQueue l tid fuel s curr (s.threads curr).next

/-- The first critical section of `sched_handoff` for one CPU: look through
its `n` lowest ready queues, from the highest one down. -/
def findOnCpu (c tid : Nat) :
    Nat -> SchedState -> Option (Option Nat × SchedState)
  | 0, s => some (none, s)
  | p + 1, s => do
      let (target, s) <- findInQueue (c, Queue.ready p) tid queueFuel s 0
        (queueHead s (c, Queue.ready p))
      match target with
      | some t => some (some t, s)
      | none => findOnCpu c tid p s

/-- A thread that is handed to the CPU with the given id. -/
def promoted (id : Nat) (th : Thread) : Thread :=
  { th with priority := maxPriority, coreAffinity := id % 2 ^ 8 }

/-- The second critical section of `sched_handoff`. -/
def takeOver (s : SchedState) (c target : Nat) : SchedState :=
  push (modThread s target (promoted (s.cpus c).cpuId))
    (c, Queue.ready maxPriority) target

/-!
# Asking for a thread
-/

def tidInQueue (tid : Nat) : Nat -> SchedState -> Nat -> Option Bool
  | 0, _, _ => none
  | fuel + 1, s, curr =>
      if curr = 0 then
        some false
      else if (s.threads curr).tid = tid then
        some true
      else
        tidInQueue tid fuel s (s.threads curr).next

/-- Look through `n` ready queues from priority `p` on. -/
def tidInReady (c tid : Nat) : Nat -> SchedState -> Nat -> Option Bool
  | 0, _, _ => some false
  | n + 1, s, p => do
      let found <- tidInQueue tid queueFuel s (queueHead s (c, Queue.ready p))
      if found then some true
      else tidInReady c tid n s (p + 1)

/-- The critical section of `sched_is_alive` for one CPU. -/
def isAliveOnCpu (s : SchedState) (c tid : Nat) : Option Bool :=
  if (s.cpus c).schedThread ≠ 0 ∧
      (s.threads (s.cpus c).schedThread).tid = tid then
    some true
  else do
    let found <- tidInReady c tid (maxPriority + 1) s 0
    if found then some true
    else tidInQueue tid queueFuel s (queueHead s (c, Queue.sleep))

end Sched
end Barium
