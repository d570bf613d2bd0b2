import Barium.Foundation.ByteMemory
import Barium.Foundation.Run
import Barium.Foundation.Word
import Barium.Console

/-!
# System calls and the console lock

`syscall_handler`, the calls of `console.c` that it makes and the exceptions of
`interrupt_handler`, as the operations that one processor has still to do.  The
print call reads a string byte by byte at the address that the program passed,
with `console_lock` held.  A read of a page that is not mapped enters
`interrupt_handler` in the middle of the string.

System calls run with interrupts off, so only exceptions come in between.  The
kernel's own texts are always mapped.
-/

namespace Barium
namespace Syscall

open Foundation
open TransitionSystem
open Lib

inductive Op where
  | acquire
  | release
  | put (c : UInt8)
  | string (p : Nat)
  | exit
  | halt
  deriving DecidableEq, Repr

/-!
# Console calls
-/

def locked (body : List Op) : List Op :=
  Op.acquire :: (body ++ [Op.release])

def consolePutc (c : UInt8) : List Op :=
  locked [Op.put c]

def consoleNewline : List Op :=
  consolePutc 10

def consolePrint (p : Nat) : List Op :=
  locked [Op.string p]

def putAll (bytes : List UInt8) : List Op :=
  locked (bytes.map Op.put)

/-- `console_print` of a text of the kernel. -/
def consolePrintText (text : String) : List Op :=
  putAll (text.toList.map (fun c => UInt8.ofNat c.toNat))

def consolePrintNum (val : Nat) : List Op :=
  putAll (Console.numBytes val)

/-!
# The handlers
-/

def syscallHandler (syscallNo arg1 : Nat) : List Op :=
  if syscallNo = 1 then
    consoleNewline ++ consolePrint arg1 ++ consoleNewline
  else if syscallNo = 2 then
    [Op.exit]
  else if 256 <= syscallNo then
    consolePrintText "bad syscall " ++ consolePrintNum syscallNo ++
      consoleNewline
  else
    consolePrintText "unknown syscall " ++ consolePrintNum syscallNo ++
      consoleNewline

def exceptionMessages : List String :=
  ["division by zero", "debug", "nmi", "breakpoint",
    "overflow", "out of bounds", "invalid opcode", "no coprocessor",
    "double fault", "coprocessor segment overrun", "bad tss",
    "segment not present", "stack fault", "general protection fault",
    "page fault", "unknown interrupt", "coprocessor fault",
    "alignment check", "machine check", "simd floating point",
    "virtualization", "reserved", "reserved", "reserved", "reserved",
    "reserved", "reserved", "reserved", "reserved", "reserved",
    "security exception", "reserved"]

/-- The fields of `context_t` that the handler of exceptions reads. -/
structure Context where
  intNo : Fin 32
  errCode : Nat
  rip : Nat
  cs : Nat

/-- `interrupt_handler` for an exception, with `vmm_test_active` zero. -/
def interruptHandler (ctx : Context) : List Op :=
  if ctx.intNo = 3 ∨ ctx.intNo = 4 then
    consolePrintText "[idt] idt diag called\n"
  else if ctx.cs % 4 = 3 then
    consolePrintText "user exception: " ++
      consolePrintText (exceptionMessages.getD ctx.intNo "") ++
      consolePrintText " at " ++ consolePrintNum ctx.rip ++ consoleNewline ++
      consolePrintText "fault at rip " ++ consolePrintNum ctx.rip ++
      consoleNewline ++ [Op.exit, Op.halt]
  else
    consolePrintText "exception " ++ consolePrintNum ctx.intNo ++
      consolePrintText " err " ++ consolePrintNum ctx.errCode ++
      consolePrintText " rip " ++ consolePrintNum ctx.rip ++
      consoleNewline ++ [Op.halt]

/-!
# The processor
-/

/-- The mapped pages, the memory behind them, and what a page fault pushes. -/
structure Machine where
  pages : Nat -> Bool
  mem : ByteMemory
  errCode : Nat
  rip : Nat

def Machine.pageFault (m : Machine) : Context where
  intNo := 14
  errCode := m.errCode
  rip := m.rip
  cs := 8

structure CpuState where
  held : Bool
  code : List Op
  output : List UInt8
  deriving DecidableEq, Repr

/-- One operation.  `spin_lock` of a lock that the processor holds itself never
returns, and neither do `sched_exit` and the loop of `hlt`. -/
def next (m : Machine) (s : CpuState) : Option CpuState :=
  match s.code with
  | [] => none
  | .acquire :: rest =>
      if s.held then none else some { s with held := true, code := rest }
  | .release :: rest => some { s with held := false, code := rest }
  | .put c :: rest =>
      some { s with code := rest, output := s.output ++ [c] }
  | .string p :: rest =>
      if m.pages (p / 4096) then
        if m.mem p = 0 then some { s with code := rest }
        else
          some
            { s with
              code := Op.string (Word.add p 1) :: rest
              output := s.output ++ [m.mem p] }
      else
        -- the instruction that faulted comes again if the handler returns
        some
          { s with
            code := interruptHandler m.pageFault ++ Op.string p :: rest }
  | .exit :: _ => none
  | .halt :: _ => none

def syscallStart (syscallNo arg1 : Nat) : CpuState where
  held := false
  code := syscallHandler syscallNo arg1
  output := []

def syscallSystem (m : Machine) (syscallNo arg1 : Nat) :
    TransitionSystem CpuState Unit where
  Init := fun s => s = syscallStart syscallNo arg1
  Step := fun s _ s' => next m s = some s'

def Reacquires (s : CpuState) : Prop :=
  s.held = true ∧ s.code.head? = some Op.acquire

instance (s : CpuState) : Decidable (Reacquires s) :=
  inferInstanceAs (Decidable (_ ∧ _))

/-!
# Balanced code

Code is balanced if it takes the lock only when it is free, gives it back and
reads mapped strings only.
-/

/-- The bytes up to the first zero byte are mapped, the zero byte included. -/
def StringMapped (m : Machine) (p : Nat) : Prop :=
  forall k, (forall j, j < k -> m.mem (Word.add p j) ≠ 0) ->
    m.pages (Word.add p k / 4096) = true

def Balanced (m : Machine) : Bool -> List Op -> Prop
  | held, [] => held = false
  | held, .acquire :: rest => held = false ∧ Balanced m true rest
  | held, .release :: rest => held = true ∧ Balanced m false rest
  | held, .put _ :: rest => Balanced m held rest
  | held, .string p :: rest =>
      p < 2 ^ 64 ∧ StringMapped m p ∧ Balanced m held rest
  | held, .exit :: _ => held = false
  | held, .halt :: _ => held = false

section Balanced

variable {m : Machine} {p : Nat} {s s' : CpuState}

theorem StringMapped.first (h : StringMapped m p) (hp : p < 2 ^ 64) :
    m.pages (p / 4096) = true := by
  have hfirst := h 0 (fun j hj => absurd hj (Nat.not_lt_zero j))
  rwa [Word.add_zero hp] at hfirst

theorem StringMapped.tail (h : StringMapped m p) (hp : p < 2 ^ 64)
    (hbyte : m.mem p ≠ 0) : StringMapped m (Word.add p 1) := by
  intro k hk
  rw [Word.add_add, Nat.add_comm]
  apply h
  intro j hj
  cases j with
  | zero =>
      rw [Word.add_zero hp]
      exact hbyte
  | succ j =>
      have hnext := hk j (Nat.lt_of_succ_lt_succ hj)
      rwa [Word.add_add, Nat.add_comm] at hnext

theorem balanced_next (h : Balanced m s.held s.code)
    (hnext : next m s = some s') : Balanced m s'.held s'.code := by
  rcases s with ⟨held, code, output⟩
  cases code with
  | nil => cases hnext
  | cons op rest =>
      cases op with
      | acquire =>
          rcases h with ⟨hfree, hrest⟩
          cases hfree
          cases hnext
          exact hrest
      | release =>
          cases hnext
          exact h.right
      | put c =>
          cases hnext
          exact h
      | string p =>
          rcases h with ⟨hp, hmapped, hrest⟩
          simp only [next, hmapped.first hp, if_true] at hnext
          split at hnext
          · cases hnext
            exact hrest
          · rename_i hbyte
            cases hnext
            exact ⟨Word.add_lt p 1, hmapped.tail hp hbyte, hrest⟩
      | exit => cases hnext
      | halt => cases hnext

theorem balanced_not_reacquires (h : Balanced m s.held s.code) :
    ¬ Reacquires s := by
  rcases s with ⟨held, code, output⟩
  rintro ⟨hheld, hhead⟩
  cases code with
  | nil => cases hhead
  | cons op rest =>
      cases hhead
      rw [show held = true from hheld] at h
      cases h.left

theorem balanced_append {left right : List Op} {held : Bool}
    (hleft : Balanced m held left) (hright : Balanced m false right) :
    Balanced m held (left ++ right) := by
  induction left generalizing held with
  | nil =>
      rw [show held = false from hleft]
      exact hright
  | cons op rest ih =>
      cases op with
      | acquire => exact ⟨hleft.left, ih hleft.right⟩
      | release => exact ⟨hleft.left, ih hleft.right⟩
      | put c => exact ih (show Balanced m held rest from hleft)
      | string p => exact ⟨hleft.left, hleft.right.left, ih hleft.right.right⟩
      | exit => exact hleft
      | halt => exact hleft

theorem balanced_putAll (bytes : List UInt8) :
    Balanced m false (putAll bytes) := by
  refine ⟨rfl, ?_⟩
  induction bytes with
  | nil => exact ⟨rfl, rfl⟩
  | cons c rest ih => exact ih

theorem balanced_newline : Balanced m false consoleNewline :=
  balanced_putAll [10]

theorem balanced_print (hp : p < 2 ^ 64) (h : StringMapped m p) :
    Balanced m false (consolePrint p) :=
  ⟨rfl, hp, h, rfl, rfl⟩

theorem balanced_number (text : String) (val : Nat) :
    Balanced m false
      (consolePrintText text ++ consolePrintNum val ++ consoleNewline) :=
  balanced_append
    (balanced_append (balanced_putAll _) (balanced_putAll _)) balanced_newline

theorem syscallHandler_balanced {syscallNo arg1 : Nat} (harg : arg1 < 2 ^ 64)
    (h : syscallNo = 1 -> StringMapped m arg1) :
    Balanced m false (syscallHandler syscallNo arg1) := by
  unfold syscallHandler
  split
  · rename_i hprint
    exact balanced_append
      (balanced_append balanced_newline (balanced_print harg (h hprint)))
      balanced_newline
  · split
    · rfl
    · split
      · exact balanced_number _ syscallNo
      · exact balanced_number _ syscallNo

end Balanced

/-!
# Reading a string
-/

section Reading

variable {m : Machine} {syscallNo arg1 p : Nat} {held : Bool}
  {rest : List Op} {output : List UInt8}

def bytesFrom (m : Machine) (p k : Nat) : List UInt8 :=
  (List.range k).map (fun j => m.mem (Word.add p j))

theorem reachable_read (hp : p < 2 ^ 64) {k : Nat}
    (hread : forall j, j < k -> m.pages (Word.add p j / 4096) = true ∧
      m.mem (Word.add p j) ≠ 0)
    (hreach : (syscallSystem m syscallNo arg1).Reachable
      { held := held, code := Op.string p :: rest, output := output }) :
    (syscallSystem m syscallNo arg1).Reachable
      { held := held
        code := Op.string (Word.add p k) :: rest
        output := output ++ bytesFrom m p k } := by
  induction k with
  | zero =>
      rw [Word.add_zero hp, show bytesFrom m p 0 = [] from rfl, List.append_nil]
      exact hreach
  | succ k ih =>
      have hbefore := ih (fun j hj => hread j (Nat.lt_succ_of_lt hj))
      rcases hread k (Nat.lt_succ_self k) with ⟨hpage, hbyte⟩
      refine reachable_step (l := ()) hbefore ?_
      show next m _ = _
      simp only [next, hpage, if_true, if_neg hbyte, Word.add_add, bytesFrom,
        List.range_succ, List.map_append, List.append_assoc, List.map_cons,
        List.map_nil]

theorem reachable_start :
    (syscallSystem m syscallNo arg1).Reachable (syscallStart syscallNo arg1) :=
  ⟨_, [], rfl, TransitionSystem.Runs.nil _⟩

theorem reachable_execute {n : Nat} {s t : CpuState}
    (hreach : (syscallSystem m syscallNo arg1).Reachable s)
    (h : execute (fun s (_ : Unit) => next m s)
      (List.replicate n ()) s = some t) :
    (syscallSystem m syscallNo arg1).Reachable t :=
  reachable_of_execute (fun _ _ _ h => ⟨(), h⟩) hreach h

theorem reachable_print :
    (syscallSystem m 1 arg1).Reachable
      { held := true
        code := Op.string arg1 :: Op.release :: consoleNewline
        output := [10] } :=
  reachable_execute (n := 4) reachable_start rfl

theorem exists_fault (h : ¬ StringMapped m p) :
    exists k, (forall j, j < k -> m.pages (Word.add p j / 4096) = true ∧
      m.mem (Word.add p j) ≠ 0) ∧ m.pages (Word.add p k / 4096) = false := by
  classical
  have hsome : exists k, (forall j, j < k -> m.mem (Word.add p j) ≠ 0) ∧
      m.pages (Word.add p k / 4096) = false := by
    unfold StringMapped at h
    push Not at h
    rcases h with ⟨k, hbytes, hpage⟩
    exact ⟨k, hbytes, Bool.eq_false_iff.mpr hpage⟩
  rcases Nat.find_spec hsome with ⟨hbytes, hpage⟩
  refine ⟨Nat.find hsome, ?_, hpage⟩
  intro j hj
  refine ⟨?_, hbytes j hj⟩
  by_contra hj'
  exact Nat.find_min hsome hj
    ⟨fun i hi => hbytes i (hi.trans hj), Bool.eq_false_iff.mpr hj'⟩

theorem pageFault_acquires (m : Machine) :
    (interruptHandler m.pageFault).head? = some Op.acquire := by
  have hvector : ¬ (m.pageFault.intNo = 3 ∨ m.pageFault.intNo = 4) :=
    show ¬ ((14 : Fin 32) = 3 ∨ (14 : Fin 32) = 4) by decide
  have hkernel : m.pageFault.cs % 4 ≠ 3 := show 8 % 4 ≠ 3 by decide
  rw [interruptHandler, if_neg hvector, if_neg hkernel]
  rfl

/-- The handler of the page fault starts with `console_print`. -/
theorem fault_reacquires (hpage : m.pages (p / 4096) = false)
    (hreach : (syscallSystem m syscallNo arg1).Reachable
      { held := true, code := Op.string p :: rest, output := output }) :
    exists s, (syscallSystem m syscallNo arg1).Reachable s ∧ Reacquires s := by
  refine ⟨{ held := true
            code := interruptHandler m.pageFault ++ Op.string p :: rest
            output := output }, ?_, rfl, ?_⟩
  · refine reachable_step (l := ()) hreach ?_
    show next m _ = _
    simp only [next, hpage, Bool.false_eq_true, if_false]
  · show (interruptHandler m.pageFault ++ _).head? = _
    rw [List.head?_append, pageFault_acquires, Option.some_or]

/-- The print call with a mapped string prints it on a line of its own and
returns with the lock free. -/
theorem syscall_prints {str : CString} (harg : arg1 < 2 ^ 64)
    (hbytes : forall i, i <= str.bytes.length ->
      m.pages (Word.add arg1 i / 4096) = true ∧
        m.mem (Word.add arg1 i) = str.byteAt i) :
    (syscallSystem m 1 arg1).Reachable
      { held := false, code := [], output := 10 :: (str.bytes ++ [10]) } := by
  have hread := reachable_read (k := str.bytes.length) harg (by
    intro i hi
    rcases hbytes i (Nat.le_of_lt hi) with ⟨hpage, hbyte⟩
    refine ⟨hpage, ?_⟩
    rw [hbyte, CString.byteAt, List.getD_eq_getElem _ _ hi]
    exact str.nonzero _ (List.getElem_mem hi)) (reachable_print (m := m))
  have hcopy : bytesFrom m arg1 str.bytes.length = str.bytes := by
    apply List.ext_getElem
    · rw [bytesFrom, List.length_map, List.length_range]
    · intro i hi hi'
      rw [← List.getD_eq_getElem _ 0 hi']
      simp only [bytesFrom, List.getElem_map, List.getElem_range]
      exact (hbytes i (Nat.le_of_lt hi')).right
  rcases hbytes str.bytes.length (Nat.le_refl _) with ⟨hpage, hzero⟩
  rw [CString.byteAt, List.getD_eq_default _ _ (Nat.le_refl _)] at hzero
  rw [hcopy] at hread
  have hend : next m
      { held := true
        code := Op.string (Word.add arg1 str.bytes.length) :: Op.release ::
          consoleNewline
        output := [10] ++ str.bytes } =
      some
        { held := true
          code := Op.release :: consoleNewline
          output := [10] ++ str.bytes } := by
    simp only [next, hpage, hzero, if_true]
  exact reachable_execute (n := 4)
    (reachable_step (l := ()) hread hend) rfl

end Reading

/-!
# The law
-/

theorem balanced_reachable {m : Machine} {syscallNo arg1 : Nat} {s : CpuState}
    (harg : arg1 < 2 ^ 64) (hmapped : syscallNo = 1 -> StringMapped m arg1)
    (hreach : (syscallSystem m syscallNo arg1).Reachable s) :
    Balanced m s.held s.code := by
  refine reachable_invariant
    (P := fun s => Balanced m s.held s.code) ?_ ?_ hreach
  · intro s hs
    rw [show s = syscallStart syscallNo arg1 from hs]
    exact syscallHandler_balanced harg hmapped
  · intro s _ s' hs hstep
    exact balanced_next hs hstep

def NeverReacquires (m : Machine) (syscallNo arg1 : Nat) : Prop :=
  forall s, (syscallSystem m syscallNo arg1).Reachable s -> ¬ Reacquires s

theorem syscallHandler_lock_iff (m : Machine) (syscallNo arg1 : Nat)
    (harg : arg1 < 2 ^ 64) :
    NeverReacquires m syscallNo arg1 <->
      (syscallNo = 1 -> StringMapped m arg1) := by
  constructor
  · intro hsafe hprint
    subst hprint
    by_contra hunmapped
    rcases exists_fault hunmapped with ⟨k, hread, hpage⟩
    rcases fault_reacquires hpage (reachable_read harg hread reachable_print)
      with ⟨s, hreach, hagain⟩
    exact hsafe s hreach hagain
  · intro hmapped s hreach
    exact balanced_not_reacquires (balanced_reachable harg hmapped hreach)

def onePage (last : Nat) : Machine where
  pages := fun page => page == 5
  mem := fun a => if a <= last then 0x41 else 0
  errCode := 0
  rip := 0x100000

theorem syscallHandler_lock_iff_letter :
    NeverReacquires (onePage 0x5000) 1 0x5000 := by
  apply (syscallHandler_lock_iff (onePage 0x5000) 1 0x5000 (by decide)).mpr
  intro _ k hk
  have hshort : k < 2 := by
    by_contra hlong
    exact hk 1 (Nat.lt_of_succ_le (Nat.le_of_not_lt hlong)) (by decide)
  cases k with
  | zero => decide
  | succ k =>
      cases k with
      | zero => decide
      | succ k => lia

/-- The last byte of page 5 is a letter and page 6 is not mapped: the letter is
printed, and the processor waits for itself. -/
theorem syscallHandler_hangs :
    exists s, (syscallSystem (onePage 0x5FFF) 1 0x5FFF).Reachable s ∧
      Reacquires s ∧ s.output = [10, 0x41] ∧
        next (onePage 0x5FFF) s = none := by
  have hrun : ((execute
      (fun s (_ : Unit) => next (onePage 0x5FFF) s) (List.replicate 6 ())
      (syscallStart 1 0x5FFF)).map (fun s =>
        decide (Reacquires s ∧ s.output = [10, 0x41] ∧
          next (onePage 0x5FFF) s = none))) = some true := by
    decide +kernel
  rcases Option.map_eq_some_iff.mp hrun with ⟨s, hs, hend⟩
  exact ⟨s, reachable_execute reachable_start hs, of_decide_eq_true hend⟩

end Syscall
end Barium
