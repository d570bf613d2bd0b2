import Barium.Foundation.LockOrder

/-!
# The locks of the kernel

What the functions of the kernel do with its spinlocks and with the interrupt
flag, path by path.  Every function takes the code that follows its return, and
tests on data are branches of which either may be taken.  `section_lock` of
`alpc.c` and the functions that use it are left out.
-/

namespace Barium
namespace Locks

open Foundation
open TransitionSystem
open LockCode

inductive Lock where
  | heap
  | pmm
  | console
  | kbd
  | globalSched
  | portList
  | port (id : Nat)
  | sched (cpu : Nat)
  deriving DecidableEq, Repr

/-- A lock as the code names it; `here` is the `sched_lock` of the CPU that runs
the code, by way of `cpu_get`. -/
inductive LockRef where
  | named (lock : Lock)
  | here
  deriving DecidableEq, Repr

def LockRef.resolve (cpu : Nat) : LockRef -> Lock
  | .named l => l
  | .here => Lock.sched cpu

abbrev Code := LockCode LockRef

/-- `b_irq_save` and `spin_lock`. -/
def irqLock (l : Lock) (rest : Code) : Code :=
  save (acquire (LockRef.named l) rest)

/-- `spin_unlock` and `b_irq_restore`. -/
def irqUnlock (l : Lock) (rest : Code) : Code :=
  release (LockRef.named l) (restore rest)

/-- `spin_lock` and `spin_unlock` with interrupts off already. -/
def underLock (r : LockRef) (rest : Code) : Code :=
  acquire r (release r rest)

/-!
# Memory
-/

def kmalloc (rest : Code) : Code :=
  branch rest (irqLock Lock.heap
    (branch (irqUnlock Lock.heap rest) (irqUnlock Lock.heap rest)))

def kfree (rest : Code) : Code :=
  branch rest (irqLock Lock.heap
    (branch (irqUnlock Lock.heap rest) (irqUnlock Lock.heap rest)))

def pmmAlloc (rest : Code) : Code :=
  irqLock Lock.pmm (branch (irqUnlock Lock.pmm rest)
    (branch (irqUnlock Lock.pmm rest) (irqUnlock Lock.pmm rest)))

def pmmFree (rest : Code) : Code :=
  irqLock Lock.pmm (irqUnlock Lock.pmm rest)

/-!
# Console and keyboard
-/

def consoleLockAcquire (rest : Code) : Code :=
  irqLock Lock.console rest

def consoleLockRelease (rest : Code) : Code :=
  irqUnlock Lock.console rest

def consoleClear (rest : Code) : Code :=
  irqLock Lock.console (irqUnlock Lock.console rest)

def consolePutc (rest : Code) : Code :=
  irqLock Lock.console (irqUnlock Lock.console rest)

def consolePrint (rest : Code) : Code :=
  irqLock Lock.console (irqUnlock Lock.console rest)

def consolePrintNum (rest : Code) : Code :=
  irqLock Lock.console (irqUnlock Lock.console rest)

/-- A scancode without a character is dropped. -/
def keyboardHandler (rest : Code) : Code :=
  branch rest (irqLock Lock.kbd (irqUnlock Lock.kbd rest))

def keyboardGetChar (rest : Code) : Code :=
  irqLock Lock.kbd
    (branch (irqUnlock Lock.kbd rest) (irqUnlock Lock.kbd rest))

/-!
# Scheduler
-/

/-- From the choice of a CPU on. -/
def spawnThread (rest : Code) : Code :=
  save (underLock (LockRef.named Lock.globalSched)
    (choose (fun target =>
      underLock (LockRef.named (Lock.sched target)) (restore rest))))

def schedSpawn (rest : Code) : Code :=
  kmalloc (kmalloc (spawnThread rest))

def schedSpawnUser (rest : Code) : Code :=
  kmalloc (kmalloc (kmalloc (spawnThread rest)))

/-- Giving a dead thread back, with or without a user stack. -/
def freeThread (rest : Code) : Code :=
  branch (kfree (kfree (kfree rest))) (kfree (kfree rest))

/-- No thread is current yet; the current thread goes on; or another one is
chosen, and the current one is freed when it is dead. -/
def schedReschedule (rest : Code) : Code :=
  branch rest (save (acquire LockRef.here
    (branch (release LockRef.here (restore rest))
      (branch (freeThread (release LockRef.here (restore rest)))
        (release LockRef.here (restore rest))))))

/-- The loop over the CPUs from `index` on, `n` of them. -/
def isAliveFrom (rest : Code) : Nat -> Nat -> Code
  | 0, _ => rest
  | n + 1, index =>
      irqLock (Lock.sched index)
        (branch (irqUnlock (Lock.sched index) rest)
          (irqUnlock (Lock.sched index) (isAliveFrom rest n (index + 1))))

def schedIsAlive (cpus : Nat) (rest : Code) : Code :=
  isAliveFrom rest cpus 0

/-- The line of one thread. -/
def printTask (rest : Code) : Code :=
  consolePrintNum (consolePrint (consolePrintNum (consolePrint
    (consolePrintNum (consolePrint (consolePrint (consolePrint rest)))))))

def printTasksFrom (rest : Code) : Nat -> Nat -> Code
  | 0, _ => rest
  | n + 1, index =>
      irqLock (Lock.sched index) (loop printTask
        (irqUnlock (Lock.sched index) (printTasksFrom rest n (index + 1))))

def schedPrintTasks (cpus : Nat) (rest : Code) : Code :=
  consolePrint (consolePrint (printTasksFrom rest cpus 0))

/-- The search for the thread; it ends with the code for a thread that was
found, or for one that was not. -/
def handoffFrom (found missing : Code) : Nat -> Nat -> Code
  | 0, _ => missing
  | n + 1, index =>
      acquire (LockRef.named (Lock.sched index))
        (branch (release (LockRef.named (Lock.sched index)) found)
          (release (LockRef.named (Lock.sched index))
            (handoffFrom found missing n (index + 1))))

def schedYield (rest : Code) : Code :=
  trap rest

def schedHandoff (cpus : Nat) (rest : Code) : Code :=
  branch rest (save (handoffFrom
    (underLock LockRef.here (restore (schedYield rest))) (restore rest)
    cpus 0))

def schedSleep (rest : Code) : Code :=
  flag false (flag true (schedYield rest))

/-- The thread halts with interrupts on. -/
def schedExit : Code :=
  flag false (flag true done)

/-!
# Ports
-/

def alpcCreatePort (rest : Code) : Code :=
  kmalloc (kmalloc (irqLock Lock.portList (irqUnlock Lock.portList rest)))

def alpcConnectPort (rest : Code) : Code :=
  irqLock Lock.portList
    (branch (irqUnlock Lock.portList rest) (irqUnlock Lock.portList rest))

def alpcSend (cpus port : Nat) (rest : Code) : Code :=
  branch rest (irqLock (Lock.port port)
    (branch (irqUnlock (Lock.port port) rest)
      (irqUnlock (Lock.port port) (schedHandoff cpus rest))))

def alpcRecv (port : Nat) (rest : Code) : Code :=
  branch rest (irqLock (Lock.port port)
    (branch (irqUnlock (Lock.port port) rest)
      (irqUnlock (Lock.port port) rest)))

/-!
# Threads and interrupts
-/

/-- What a thread may call. -/
inductive Call where
  | kmalloc
  | kfree
  | pmmAlloc
  | pmmFree
  | consoleClear
  | consolePutc
  | consolePrint
  | consolePrintNum
  | consoleLocked
  | keyboardGetChar
  | schedSpawn
  | schedSpawnUser
  | schedIsAlive
  | schedPrintTasks
  | schedHandoff
  | schedYield
  | schedSleep
  | alpcCreatePort
  | alpcConnectPort
  | alpcSend (port : Nat)
  | alpcRecv (port : Nat)
  deriving DecidableEq, Repr

def Call.code (cpus : Nat) : Call -> Code -> Code
  | .kmalloc => Locks.kmalloc
  | .kfree => Locks.kfree
  | .pmmAlloc => Locks.pmmAlloc
  | .pmmFree => Locks.pmmFree
  | .consoleClear => Locks.consoleClear
  | .consolePutc => Locks.consolePutc
  | .consolePrint => Locks.consolePrint
  | .consolePrintNum => Locks.consolePrintNum
  | .consoleLocked => fun rest => consoleLockAcquire (consoleLockRelease rest)
  | .keyboardGetChar => Locks.keyboardGetChar
  | .schedSpawn => Locks.schedSpawn
  | .schedSpawnUser => Locks.schedSpawnUser
  | .schedIsAlive => Locks.schedIsAlive cpus
  | .schedPrintTasks => Locks.schedPrintTasks cpus
  | .schedHandoff => Locks.schedHandoff cpus
  | .schedYield => Locks.schedYield
  | .schedSleep => Locks.schedSleep
  | .alpcCreatePort => Locks.alpcCreatePort
  | .alpcConnectPort => Locks.alpcConnectPort
  | .alpcSend port => Locks.alpcSend cpus port
  | .alpcRecv port => Locks.alpcRecv port

/-- A thread makes any calls, in any order, and exits. -/
def threadCode (cpus : Nat) : List Call -> Code
  | [] => schedExit
  | call :: rest => call.code cpus (threadCode cpus rest)

inductive Irq where
  | timer
  | keyboard
  deriving DecidableEq, Repr

/-- `interrupt_handler`; a thread switch happens when `sched_reschedule` has
returned. -/
def interruptHandler : Irq -> Code -> Code
  | .timer, rest => schedReschedule (switch rest)
  | .keyboard, rest => keyboardHandler rest

/-- `int $32` of `sched_yield` is the vector of the timer. -/
def kernel (cpus : Nat) : LockKernel (Fin cpus) Lock LockRef Irq where
  resolve := fun cpu => LockRef.resolve cpu.val
  handler := interruptHandler
  soft := Irq.timer
  Thread := fun code => exists calls, code = threadCode cpus calls

/-!
# The order

A `sched_lock` comes before the locks that are taken under it; all other locks
are taken last.
-/

def Lock.rank : Lock -> Nat
  | .sched _ => 0
  | _ => 1

def LockRef.rank : LockRef -> Nat
  | .named l => l.rank
  | .here => 0

theorem resolve_rank (cpu : Nat) (r : LockRef) :
    (r.resolve cpu).rank = r.rank := by
  cases r with
  | named l => rfl
  | here => rfl

/-- Code in front of which a lock of the last rank may be taken: only locks of
CPUs are held, and none outside of a save. -/
structure TakesLast (n : Nat) (held : List LockRef) : Prop where
  below : forall r, r ∈ held -> r.rank < 1
  outside : n = 0 -> held = []

theorem takesLast_nil (n : Nat) : TakesLast n [] := by
  constructor
  · intro r hr
    cases hr
  · intro _
    rfl

section Functions

variable {n : Nat} {held : List LockRef} {rest : Code}

theorem irqLock_ordered {l : Lock} (hheld : TakesLast n held)
    (hl : l.rank = 1)
    (hrest : rest.Ordered LockRef.rank (n + 1) (LockRef.named l :: held)) :
    (irqLock l rest).Ordered LockRef.rank n held := by
  refine ⟨Nat.succ_pos n, ?_, hrest⟩
  intro r hr
  rw [show (LockRef.named l).rank = 1 from hl]
  exact hheld.below r hr

theorem irqUnlock_ordered {l : Lock} (hheld : n = 0 -> held = [])
    (hrest : rest.Ordered LockRef.rank n held) :
    (irqUnlock l rest).Ordered LockRef.rank (n + 1)
      (LockRef.named l :: held) :=
  Ordered.unlock hheld hrest

theorem critical_ordered {l : Lock} (hheld : TakesLast n held)
    (hl : l.rank = 1) (hrest : rest.Ordered LockRef.rank n held) :
    (irqLock l (irqUnlock l rest)).Ordered LockRef.rank n held :=
  irqLock_ordered hheld hl (irqUnlock_ordered hheld.outside hrest)

theorem critical_branch_ordered {l : Lock} (hheld : TakesLast n held)
    (hl : l.rank = 1) (hrest : rest.Ordered LockRef.rank n held) :
    (irqLock l (branch (irqUnlock l rest) (irqUnlock l rest))).Ordered
      LockRef.rank n held := by
  have hout := irqUnlock_ordered (l := l) hheld.outside hrest
  exact irqLock_ordered hheld hl (Ordered.branch hout hout)

theorem kmalloc_ordered (hheld : TakesLast n held)
    (hrest : rest.Ordered LockRef.rank n held) :
    (kmalloc rest).Ordered LockRef.rank n held :=
  Ordered.branch hrest (critical_branch_ordered hheld rfl hrest)

theorem kfree_ordered (hheld : TakesLast n held)
    (hrest : rest.Ordered LockRef.rank n held) :
    (kfree rest).Ordered LockRef.rank n held :=
  Ordered.branch hrest (critical_branch_ordered hheld rfl hrest)

theorem pmmAlloc_ordered (hheld : TakesLast n held)
    (hrest : rest.Ordered LockRef.rank n held) :
    (pmmAlloc rest).Ordered LockRef.rank n held := by
  have hout := irqUnlock_ordered (l := Lock.pmm) hheld.outside hrest
  exact irqLock_ordered hheld rfl
    (Ordered.branch hout (Ordered.branch hout hout))

theorem keyboardHandler_ordered (hheld : TakesLast n held)
    (hrest : rest.Ordered LockRef.rank n held) :
    (keyboardHandler rest).Ordered LockRef.rank n held :=
  Ordered.branch hrest (critical_ordered hheld rfl hrest)

theorem underLock_ordered {r : LockRef} (hn : 0 < n)
    (hrest : rest.Ordered LockRef.rank n []) :
    (underLock r rest).Ordered LockRef.rank n [] :=
  Ordered.first hn ⟨[], rfl, hrest⟩

theorem restore_ordered (hrest : rest.Ordered LockRef.rank n []) :
    (restore rest).Ordered LockRef.rank (n + 1) [] :=
  ⟨n, rfl, fun _ => rfl, hrest⟩

theorem spawnThread_ordered (hrest : rest.Ordered LockRef.rank n []) :
    (spawnThread rest).Ordered LockRef.rank n [] := by
  show (underLock (LockRef.named Lock.globalSched) _).Ordered LockRef.rank
    (n + 1) []
  apply underLock_ordered (Nat.succ_pos n)
  intro target
  exact underLock_ordered (Nat.succ_pos n) (restore_ordered hrest)

theorem freeThread_ordered (hheld : TakesLast n held)
    (hrest : rest.Ordered LockRef.rank n held) :
    (freeThread rest).Ordered LockRef.rank n held := by
  have hone := kfree_ordered hheld hrest
  have htwo := kfree_ordered hheld hone
  exact Ordered.branch (kfree_ordered hheld htwo) htwo

/-- Under the lock of a CPU, the locks of the last rank may be taken. -/
theorem takesLast_sched {r : LockRef} (hr : r.rank = 0) :
    TakesLast (n + 1) [r] := by
  constructor
  · intro other hother
    rw [List.mem_singleton.mp hother, hr]
    exact Nat.one_pos
  · intro hzero
    cases hzero

theorem schedReschedule_ordered (hrest : rest.Ordered LockRef.rank n []) :
    (schedReschedule rest).Ordered LockRef.rank n [] := by
  have hout : (release LockRef.here (restore rest)).Ordered LockRef.rank
      (n + 1) [LockRef.here] := Ordered.unlock (fun _ => rfl) hrest
  apply Ordered.branch hrest
  apply Ordered.first (Nat.succ_pos n)
  apply Ordered.branch hout
  exact Ordered.branch (freeThread_ordered (takesLast_sched rfl) hout) hout

theorem schedLock_ordered {index : Nat}
    (hrest : rest.Ordered LockRef.rank (n + 1)
      [LockRef.named (Lock.sched index)]) :
    (irqLock (Lock.sched index) rest).Ordered LockRef.rank n [] :=
  Ordered.first (Nat.succ_pos n) hrest

theorem isAliveFrom_ordered (hrest : rest.Ordered LockRef.rank n [])
    (k index : Nat) :
    (isAliveFrom rest k index).Ordered LockRef.rank n [] := by
  induction k generalizing index with
  | zero => exact hrest
  | succ k ih =>
      exact schedLock_ordered (Ordered.branch
        (irqUnlock_ordered (fun _ => rfl) hrest)
        (irqUnlock_ordered (fun _ => rfl) (ih (index + 1))))

theorem printTask_ordered (hheld : TakesLast n held)
    (hrest : rest.Ordered LockRef.rank n held) :
    (printTask rest).Ordered LockRef.rank n held := by
  have hprint : forall code : Code, code.Ordered LockRef.rank n held ->
      (irqLock Lock.console (irqUnlock Lock.console code)).Ordered
        LockRef.rank n held := by
    intro code hcode
    exact critical_ordered hheld rfl hcode
  exact hprint _ (hprint _ (hprint _ (hprint _ (hprint _ (hprint _
    (hprint _ (hprint _ hrest)))))))

theorem printTasksFrom_ordered (hrest : rest.Ordered LockRef.rank n [])
    (k index : Nat) :
    (printTasksFrom rest k index).Ordered LockRef.rank n [] := by
  induction k generalizing index with
  | zero => exact hrest
  | succ k ih =>
      apply schedLock_ordered
      apply Ordered.loop
      · intro code hcode
        exact printTask_ordered (takesLast_sched rfl) hcode
      · exact irqUnlock_ordered (fun _ => rfl) (ih (index + 1))

theorem handoffFrom_ordered {found missing : Code} (hn : 0 < n)
    (hfound : found.Ordered LockRef.rank n [])
    (hmissing : missing.Ordered LockRef.rank n []) (k index : Nat) :
    (handoffFrom found missing k index).Ordered LockRef.rank n [] := by
  induction k generalizing index with
  | zero => exact hmissing
  | succ k ih =>
      apply Ordered.first hn
      apply Ordered.branch
      · exact ⟨[], rfl, hfound⟩
      · exact ⟨[], rfl, ih (index + 1)⟩

theorem schedYield_ordered (hrest : rest.Ordered LockRef.rank 0 []) :
    (schedYield rest).Ordered LockRef.rank 0 [] :=
  ⟨rfl, hrest⟩

theorem schedHandoff_ordered (cpus : Nat)
    (hrest : rest.Ordered LockRef.rank 0 []) :
    (schedHandoff cpus rest).Ordered LockRef.rank 0 [] := by
  apply Ordered.branch hrest
  show (handoffFrom _ _ cpus 0).Ordered LockRef.rank 1 []
  apply handoffFrom_ordered Nat.one_pos
  · exact underLock_ordered Nat.one_pos
      (restore_ordered (schedYield_ordered hrest))
  · exact restore_ordered hrest

theorem alpcSend_ordered (cpus port : Nat)
    (hrest : rest.Ordered LockRef.rank 0 []) :
    (alpcSend cpus port rest).Ordered LockRef.rank 0 [] := by
  apply Ordered.branch hrest
  apply irqLock_ordered (takesLast_nil 0) rfl
  apply Ordered.branch
  · exact irqUnlock_ordered (fun _ => rfl) hrest
  · exact irqUnlock_ordered (fun _ => rfl) (schedHandoff_ordered cpus hrest)

/-- Every call keeps the order, outside of any save. -/
theorem call_ordered (cpus : Nat) (call : Call)
    (hrest : rest.Ordered LockRef.rank 0 []) :
    (call.code cpus rest).Ordered LockRef.rank 0 [] := by
  have hnil := takesLast_nil 0
  have hmalloc : forall code : Code, code.Ordered LockRef.rank 0 [] ->
      (kmalloc code).Ordered LockRef.rank 0 [] := by
    intro code hcode
    exact kmalloc_ordered hnil hcode
  cases call with
  | kmalloc => exact hmalloc _ hrest
  | kfree => exact kfree_ordered hnil hrest
  | pmmAlloc => exact pmmAlloc_ordered hnil hrest
  | pmmFree => exact critical_ordered hnil rfl hrest
  | consoleClear => exact critical_ordered hnil rfl hrest
  | consolePutc => exact critical_ordered hnil rfl hrest
  | consolePrint => exact critical_ordered hnil rfl hrest
  | consolePrintNum => exact critical_ordered hnil rfl hrest
  | consoleLocked => exact critical_ordered hnil rfl hrest
  | keyboardGetChar => exact critical_branch_ordered hnil rfl hrest
  | schedSpawn => exact hmalloc _ (hmalloc _ (spawnThread_ordered hrest))
  | schedSpawnUser =>
      exact hmalloc _ (hmalloc _ (hmalloc _ (spawnThread_ordered hrest)))
  | schedIsAlive => exact isAliveFrom_ordered hrest cpus 0
  | schedPrintTasks =>
      exact critical_ordered hnil rfl (critical_ordered hnil rfl
        (printTasksFrom_ordered hrest cpus 0))
  | schedHandoff => exact schedHandoff_ordered cpus hrest
  | schedYield => exact schedYield_ordered hrest
  | schedSleep => exact ⟨rfl, rfl, schedYield_ordered hrest⟩
  | alpcCreatePort =>
      exact hmalloc _ (hmalloc _ (critical_ordered hnil rfl hrest))
  | alpcConnectPort => exact critical_branch_ordered hnil rfl hrest
  | alpcSend port => exact alpcSend_ordered cpus port hrest
  | alpcRecv port =>
      exact Ordered.branch hrest (critical_branch_ordered hnil rfl hrest)

end Functions

theorem threadCode_ordered (cpus : Nat) (calls : List Call) :
    (threadCode cpus calls).Ordered LockRef.rank 0 [] := by
  induction calls with
  | nil => exact ⟨rfl, rfl, rfl, rfl⟩
  | cons call rest ih => exact call_ordered cpus call ih

theorem interruptHandler_ordered (i : Irq) {rest : Code}
    (hrest : rest.Ordered LockRef.rank 1 []) :
    (interruptHandler i rest).Ordered LockRef.rank 1 [] := by
  cases i with
  | timer => exact schedReschedule_ordered ⟨rfl, rfl, hrest⟩
  | keyboard => exact keyboardHandler_ordered (takesLast_nil 1) hrest

theorem kernel_keepsOrder (cpus : Nat) :
    (kernel cpus).KeepsOrder LockRef.rank := by
  constructor
  · intro c d r r' hsame
    rw [← resolve_rank c.val r, ← resolve_rank d.val r']
    exact congrArg Lock.rank hsame
  · exists 1
    intro r
    cases r with
    | named l =>
        show l.rank <= 1
        cases l with
        | sched _ => exact Nat.zero_le 1
        | heap => exact Nat.le_refl 1
        | pmm => exact Nat.le_refl 1
        | console => exact Nat.le_refl 1
        | kbd => exact Nat.le_refl 1
        | globalSched => exact Nat.le_refl 1
        | portList => exact Nat.le_refl 1
        | port _ => exact Nat.le_refl 1
    | here => exact Nat.zero_le 1
  · intro i rest hrest
    exact interruptHandler_ordered i hrest
  · rintro code ⟨calls, hcode⟩
    rw [hcode]
    exact threadCode_ordered cpus calls

/-!
# The theorem about runs
-/

theorem kernel_locks_safe {cpus : Nat}
    {s : LockState (Fin cpus) Lock LockRef}
    (hreach : (lockSystem (kernel cpus)).Reachable s) :
    LocksSafe (kernel cpus) s :=
  (kernel_keepsOrder cpus).safe hreach

def duoStart : LockState (Fin 2) Lock LockRef where
  shared := { owner := fun _ => none, pool := [] }
  place := fun cpu =>
    { code := threadCode 2 (if cpu = 0 then [] else [Call.kmalloc])
      saved := []
      enabled := true }

/-- CPU 1 takes the heap's lock; a timer interrupt on CPU 0 finds a dead thread
and gets as far as its first `kfree`. -/
def duoSteps : List (Fin 2 × Option Irq × Nat) :=
  [(1, none, 1), (1, none, 0), (1, none, 0), (0, some Irq.timer, 0),
    (0, none, 1), (0, none, 0), (0, none, 0), (0, none, 1), (0, none, 0),
    (0, none, 0), (0, none, 1), (0, none, 0)]

def duoNext (s : LockState (Fin 2) Lock LockRef)
    (a : Fin 2 × Option Irq × Nat) : Option (LockState (Fin 2) Lock LockRef) :=
  lockNext (kernel 2) s a.1 a.2.1 a.2.2

theorem kernel_locks_safe_duo :
    exists s, (lockSystem (kernel 2)).Reachable s ∧
      s.shared.owner (Lock.sched 0) = some 0 ∧
      s.shared.owner Lock.heap = some 1 ∧ Tries (kernel 2) s 0 Lock.heap ∧
      LocksSafe (kernel 2) s := by
  have hstart : LockStart (kernel 2) duoStart := by
    constructor
    · intro l
      rfl
    · rfl
    · intro cpu
      exact ⟨_, rfl⟩
    · intro cpu
      rfl
  have hreach : (lockSystem (kernel 2)).Reachable
      ((execute duoNext duoSteps duoStart).get (by decide)) :=
    reachable_of_execute
      (fun _ a _ hstep => ⟨a.1, lockNext_step hstep⟩)
      ⟨duoStart, [], hstart, TransitionSystem.Runs.nil _⟩
      (Option.some_get _).symm
  refine ⟨_, hreach, by decide, by decide, ⟨LockRef.named Lock.heap, _, rfl, rfl⟩,
    kernel_locks_safe hreach⟩

end Locks
end Barium
