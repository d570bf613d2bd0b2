import Barium.Foundation.Run
import Barium.Keyboard

/-!
# The shell

`shell_run` reads characters into `cmd`, an array of 64 bytes, until a newline,
and then runs the command whose name is there.  Meanwhile the keyboard may
interrupt at any time.  Its output on the console is left out.
-/

namespace Barium
namespace Shell

open Foundation
open Function
open TransitionSystem
open Lib
open Keyboard

def cmdSize : Nat := 64
def newlineChar : UInt8 := 10
def backspaceChar : UInt8 := 8

/-- In front of the first prompt, in the input loop, or running a command. -/
inductive ShellStage where
  | starting
  | reading
  | running
  deriving DecidableEq, Repr

structure ShellState where
  cmd : ByteMemory
  pos : Nat
  stage : ShellStage

/-- The start of the outer loop. -/
def shellPrompt (s : ShellState) : ShellState where
  cmd := bMemset s.cmd 0 0 cmdSize
  pos := 0
  stage := ShellStage.reading

/-- The body of the input loop for the character it has read; at 0 it only
sleeps. -/
def shellInput (s : ShellState) (c : UInt8) : ShellState :=
  if c = 0 then
    s
  else if c = newlineChar then
    { s with stage := ShellStage.running }
  else if c = backspaceChar then
    if 0 < s.pos then
      { s with cmd := update s.cmd (s.pos - 1) 0, pos := s.pos - 1 }
    else s
  else if 32 <= c ∧ c <= 126 then
    if s.pos < 63 then
      { s with cmd := update s.cmd s.pos c, pos := s.pos + 1 }
    else s
  else s

/-!
# Commands
-/

inductive Command where
  | gdttest
  | tsstest
  | ringtest
  | pmmtest
  | idttest
  | vmmtest
  | tasks
  | heaptest
  | timertest
  | schedtest
  | coretest
  | shstest
  | help
  deriving DecidableEq, Repr

def Command.letters : Command -> List Char
  | .gdttest => ['g', 'd', 't', 't', 'e', 's', 't']
  | .tsstest => ['t', 's', 's', 't', 'e', 's', 't']
  | .ringtest => ['r', 'i', 'n', 'g', 't', 'e', 's', 't']
  | .pmmtest => ['p', 'm', 'm', 't', 'e', 's', 't']
  | .idttest => ['i', 'd', 't', 't', 'e', 's', 't']
  | .vmmtest => ['v', 'm', 'm', 't', 'e', 's', 't']
  | .tasks => ['t', 'a', 's', 'k', 's']
  | .heaptest => ['h', 'e', 'a', 'p', 't', 'e', 's', 't']
  | .timertest => ['t', 'i', 'm', 'e', 'r', 't', 'e', 's', 't']
  | .schedtest => ['s', 'c', 'h', 'e', 'd', 't', 'e', 's', 't']
  | .coretest => ['c', 'o', 'r', 'e', 't', 'e', 's', 't']
  | .shstest => ['s', 'h', 's', 't', 'e', 's', 't']
  | .help => ['h', 'e', 'l', 'p']

theorem Command.letters_nonzero (c : Command) :
    c.letters.all (fun l => UInt8.ofNat l.toNat != 0) = true := by
  cases c <;> rfl

def Command.name (c : Command) : CString where
  bytes := c.letters.map (fun l => UInt8.ofNat l.toNat)
  nonzero := by
    intro b hb
    rcases List.mem_map.mp hb with ⟨l, hl, hlb⟩
    rw [← hlb]
    exact bne_iff_ne.mp (List.all_eq_true.mp c.letters_nonzero l hl)

/-- In the order in which `shell_run` compares. -/
def commands : List Command :=
  [Command.gdttest, Command.tsstest, Command.ringtest, Command.pmmtest,
    Command.idttest, Command.vmmtest, Command.tasks, Command.heaptest,
    Command.timertest, Command.schedtest, Command.coretest, Command.shstest,
    Command.help]

/-- What follows a newline: a command, the message that it is unknown, or
nothing. -/
inductive Action where
  | run (command : Command)
  | unknown
  | nothing
  deriving DecidableEq, Repr

def shellAction (s : ShellState) : Action :=
  match commands.find? (fun c => bStrcmp s.cmd 0 c.name = 0) with
  | some c => Action.run c
  | none => if 0 < s.pos then Action.unknown else Action.nothing

/-!
# Lines
-/

/-- A line of at most 63 printable characters, edited by one more. -/
def editLine (line : List UInt8) (c : UInt8) : List UInt8 :=
  if c = backspaceChar then line.dropLast
  else if 32 <= c ∧ c <= 126 ∧ line.length < 63 then line ++ [c]
  else line

def lineOf (chars : List UInt8) : List UInt8 :=
  chars.foldl editLine []

def sinceNewline (chars : List UInt8) : List UInt8 :=
  chars.foldl (fun rest c => if c = newlineChar then [] else rest ++ [c]) []

def lineAction (line : List UInt8) : Action :=
  match commands.find? (fun c => line = c.name.bytes) with
  | some c => Action.run c
  | none => if line = [] then Action.nothing else Action.unknown

structure HoldsLine (s : ShellState) (line : List UInt8) : Prop where
  pos_eq : s.pos = line.length
  length_le : line.length <= 63
  printable : forall c, c ∈ line -> 32 <= c ∧ c <= 126
  cells : forall i, i < cmdSize -> s.cmd i = line.getD i 0

section Lines

variable {s : ShellState} {line : List UInt8} {c : UInt8}

theorem HoldsLine.nonzero (h : HoldsLine s line) :
    forall b, b ∈ line -> b ≠ 0 := by
  intro b hb hzero
  have hlow := (h.printable b hb).left
  rw [hzero] at hlow
  exact absurd hlow (by decide)

theorem HoldsLine.bytesAt (h : HoldsLine s line) : BytesAt s.cmd 0 line := by
  intro i hi
  have hle := h.length_le
  rw [Nat.zero_add]
  exact h.cells i (by unfold cmdSize; lia)

theorem HoldsLine.last_zero (h : HoldsLine s line) : s.cmd 63 = 0 := by
  rw [h.cells 63 (by decide)]
  exact List.getD_eq_default _ _ h.length_le

theorem holdsLine_prompt (s : ShellState) : HoldsLine (shellPrompt s) [] := by
  constructor
  · rfl
  · exact Nat.zero_le 63
  · intro c hc
    cases hc
  · intro i hi
    show bMemset s.cmd 0 0 cmdSize i = _
    rw [bMemset_apply, if_pos (by lia)]
    rfl

theorem HoldsLine.erase (h : HoldsLine s line) (hpos : 0 < s.pos) :
    HoldsLine
      { s with cmd := update s.cmd (s.pos - 1) 0, pos := s.pos - 1 }
      line.dropLast := by
  have hlength := h.pos_eq
  constructor
  · show s.pos - 1 = _
    rw [List.length_dropLast, hlength]
  · rw [List.length_dropLast]
    exact Nat.le_trans (Nat.sub_le _ 1) h.length_le
  · intro c hc
    exact h.printable c (List.mem_of_mem_dropLast hc)
  · intro i hi
    show update s.cmd (s.pos - 1) 0 i = _
    rw [List.getD_eq_getElem?_getD, List.getElem?_dropLast]
    by_cases hsame : i = s.pos - 1
    · rw [hsame, update_self, if_neg (by lia)]
      rfl
    · rw [update_of_ne hsame, h.cells i hi,
        List.getD_eq_getElem?_getD]
      rcases Nat.lt_or_ge i (line.length - 1) with hlt | hge
      · rw [if_pos hlt]
      · rw [if_neg (Nat.not_lt.mpr hge),
          List.getElem?_eq_none (by lia)]

theorem HoldsLine.insert (h : HoldsLine s line) (hpos : s.pos < 63)
    (hc : 32 <= c ∧ c <= 126) :
    HoldsLine
      { s with cmd := update s.cmd s.pos c, pos := s.pos + 1 }
      (line ++ [c]) := by
  have hlength := h.pos_eq
  constructor
  · show s.pos + 1 = _
    rw [List.length_append, hlength, List.length_singleton]
  · rw [List.length_append, List.length_singleton]
    lia
  · intro b hb
    rcases List.mem_append.mp hb with hold | hnew
    · exact h.printable b hold
    · rw [List.mem_singleton.mp hnew]
      exact hc
  · intro i hi
    show update s.cmd s.pos c i = _
    rcases Nat.lt_trichotomy i s.pos with hlt | hge
    · rw [update_of_ne (by lia), h.cells i hi,
        List.getD_append _ _ _ _ (by lia)]
    · rcases hge with heq | hgt
      · rw [heq, update_self, hlength,
          List.getD_append_right _ _ _ _ (Nat.le_refl _), Nat.sub_self]
        rfl
      · rw [update_of_ne (by lia), h.cells i hi,
          List.getD_eq_default _ _ (by lia), List.getD_eq_default _ _ (by
            rw [List.length_append, List.length_singleton]
            lia)]

/-- The input loop edits the line in place. -/
theorem holdsLine_input (h : HoldsLine s line) (hzero : c ≠ 0)
    (hline : c ≠ newlineChar) :
    HoldsLine (shellInput s c) (editLine line c) ∧
      (shellInput s c).stage = s.stage := by
  have hlength := h.pos_eq
  unfold shellInput editLine
  rw [if_neg hzero, if_neg hline]
  by_cases hback : c = backspaceChar
  · rw [if_pos hback, if_pos hback]
    rcases Nat.eq_zero_or_pos s.pos with hnone | hpos
    · have hnil : line = [] :=
        List.eq_nil_of_length_eq_zero (hlength.symm.trans hnone)
      rw [if_neg (by lia), hnil]
      rw [hnil] at h
      exact ⟨h, rfl⟩
    · rw [if_pos hpos]
      exact ⟨h.erase hpos, rfl⟩
  · rw [if_neg hback, if_neg hback]
    by_cases hprint : 32 <= c ∧ c <= 126
    · rw [if_pos hprint]
      rcases Nat.lt_or_ge s.pos 63 with hroom | hfull
      · rw [if_pos hroom, if_pos ⟨hprint.left, hprint.right, by lia⟩]
        exact ⟨h.insert hroom hprint, rfl⟩
      · rw [if_neg (Nat.not_lt.mpr hfull), if_neg (by lia)]
        exact ⟨h, rfl⟩
    · rw [if_neg hprint, if_neg (fun hall =>
        hprint ⟨hall.left, hall.right.left⟩)]
      exact ⟨h, rfl⟩

/-- The shell compares what the line says. -/
theorem shellAction_eq (h : HoldsLine s line) :
    shellAction s = lineAction line := by
  have hcompare : forall c : Command,
      bStrcmp s.cmd 0 c.name = 0 <-> line = c.name.bytes :=
    fun c => bStrcmp_eq_zero (show BytesAt s.cmd 0
      (CString.mk line h.nonzero).bytes from h.bytesAt)
  unfold shellAction lineAction
  simp only [hcompare]
  split
  · rfl
  · have hpos : 0 < s.pos <-> ¬ line = [] := by
      rw [h.pos_eq, List.length_pos_iff]
    by_cases hnil : line = []
    · rw [if_neg (fun hp => hpos.mp hp hnil), if_pos hnil]
    · rw [if_pos (hpos.mpr hnil), if_neg hnil]

theorem lineOf_snoc (chars : List UInt8) (c : UInt8) :
    lineOf (chars ++ [c]) = editLine (lineOf chars) c := by
  unfold lineOf
  rw [List.foldl_append]
  rfl

theorem sinceNewline_snoc (chars : List UInt8) (c : UInt8) :
    sinceNewline (chars ++ [c]) =
      if c = newlineChar then [] else sinceNewline chars ++ [c] := by
  unfold sinceNewline
  rw [List.foldl_append]
  rfl

end Lines

/-!
# The keyboard and the shell together
-/

structure InputState where
  kbd : KbdState
  shell : ShellState

/-- A scancode arrives, the input loop reads a character, or the outer loop
starts again. -/
inductive InputEvent where
  | key (scancode : UInt8)
  | read (c : UInt8)
  | prompt
  deriving DecidableEq, Repr

def inputStep (s : InputState) : InputEvent -> Option InputState
  | .key scancode =>
      some { s with kbd := keyboardHandler s.kbd scancode }
  | .read c =>
      if s.shell.stage = ShellStage.reading ∧
          (keyboardGetChar s.kbd).1 = c then
        some { kbd := (keyboardGetChar s.kbd).2, shell := shellInput s.shell c }
      else none
  | .prompt =>
      if s.shell.stage = ShellStage.reading then none
      else some { s with shell := shellPrompt s.shell }

/-- After `keyboard_init`, when `shell_run` starts; its array is not
initialised. -/
def inputStart (buffer : Nat -> UInt8) (cmd : ByteMemory) : InputState where
  kbd := keyboardInit buffer
  shell := { cmd := cmd, pos := 0, stage := ShellStage.starting }

def inputSystem : TransitionSystem InputState InputEvent where
  Init := fun s => exists buffer cmd, s = inputStart buffer cmd
  Step := fun s event s' => inputStep s event = some s'

/-!
# What has been typed
-/

structure Typed where
  accepted : List UInt8
  taken : List UInt8

/-- A character is accepted while fewer than 127 are waiting. -/
def Typed.arrive (t : Typed) (c : UInt8) : Typed :=
  if t.accepted.length - t.taken.length < 127 then
    { t with accepted := t.accepted ++ [c] }
  else t

def Typed.next (t : Typed) : InputEvent -> Typed
  | .key scancode =>
      match Keyboard.translate scancode with
      | some c => t.arrive c
      | none => t
  | .read c =>
      if c = 0 then t else { t with taken := t.taken ++ [c] }
  | .prompt => t

def typed (trace : List InputEvent) : Typed :=
  trace.foldl Typed.next { accepted := [], taken := [] }

def IsString (cmd : ByteMemory) (bytes : List UInt8) : Prop :=
  BytesAt cmd 0 bytes ∧ forall b, b ∈ bytes -> b ≠ 0

structure InputIntact (trace : List InputEvent) (s : InputState) : Prop where
  fifo : (typed trace).taken ++ pending s.kbd = (typed trace).accepted
  read_next : (keyboardGetChar s.kbd).1 = (pending s.kbd).headD 0 ∧
    ((keyboardGetChar s.kbd).1 = 0 <-> pending s.kbd = [])
  pos_le : s.shell.pos <= 63
  last_zero : s.shell.stage ≠ ShellStage.starting -> s.shell.cmd 63 = 0
  newline : s.shell.stage = ShellStage.running ->
    exists earlier, (typed trace).taken = earlier ++ [newlineChar] ∧
      IsString s.shell.cmd (lineOf (sinceNewline earlier)) ∧
      shellAction s.shell = lineAction (lineOf (sinceNewline earlier))

inductive StageLine (chars : List UInt8) (s : ShellState) : Prop where
  | starting :
      s.stage = ShellStage.starting -> chars = [] -> s.pos = 0 ->
      StageLine chars s
  | reading :
      s.stage = ShellStage.reading ->
      HoldsLine s (lineOf (sinceNewline chars)) -> StageLine chars s
  | running {earlier : List UInt8} :
      s.stage = ShellStage.running -> chars = earlier ++ [newlineChar] ->
      HoldsLine s (lineOf (sinceNewline earlier)) -> StageLine chars s

structure InputInvariant (trace : List InputEvent) (s : InputState) : Prop where
  ring : RingValid s.kbd
  fifo : (typed trace).taken ++ pending s.kbd = (typed trace).accepted
  line : StageLine (typed trace).taken s.shell

section Runs

variable {trace : List InputEvent} {s s' : InputState}

theorem typed_snoc (trace : List InputEvent) (event : InputEvent) :
    typed (trace ++ [event]) = (typed trace).next event := by
  unfold typed
  rw [List.foldl_append]
  rfl

theorem inputInvariant_start (buffer : Nat -> UInt8) (cmd : ByteMemory) :
    InputInvariant [] (inputStart buffer cmd) := by
  rcases ringValid_init buffer with ⟨hring, hnil⟩
  refine ⟨hring, ?_, StageLine.starting rfl rfl rfl⟩
  show [] ++ pending (keyboardInit buffer) = []
  rw [hnil]
  rfl

theorem inputInvariant_key (h : InputInvariant trace s) (scancode : UInt8) :
    InputInvariant (trace ++ [InputEvent.key scancode])
      { s with kbd := keyboardHandler s.kbd scancode } := by
  have hring := ringValid_handler h.ring scancode
  have hkbd := keyboardHandler_eq s.kbd scancode
  have htyped := typed_snoc trace (InputEvent.key scancode)
  unfold Typed.next at htyped
  cases hc : Keyboard.translate scancode with
  | none =>
      simp only [hc] at hkbd htyped
      refine ⟨hring, ?_, ?_⟩
      · rw [htyped, hkbd]
        exact h.fifo
      · rw [htyped]
        exact h.line
  | some c =>
      simp only [hc] at hkbd htyped
      have hwaiting : (typed trace).accepted.length -
          (typed trace).taken.length = (pending s.kbd).length := by
        rw [← h.fifo, List.length_append, Nat.add_sub_cancel_left]
      have hpending : pending (keyboardHandler s.kbd scancode) =
          enqueue (pending s.kbd) c := by
        rw [hkbd]
        exact pending_storeChar h.ring c
      unfold Typed.arrive at htyped
      unfold enqueue at hpending
      rw [show bufferSize - 1 = 127 from rfl] at hpending
      rw [hwaiting] at htyped
      rcases Nat.lt_or_ge (pending s.kbd).length 127 with hroom | hfull
      · rw [if_pos hroom] at htyped hpending
        refine ⟨hring, ?_, ?_⟩
        · rw [htyped, hpending, ← List.append_assoc, h.fifo]
        · rw [htyped]
          exact h.line
      · have hnot := Nat.not_lt.mpr hfull
        rw [if_neg hnot] at htyped hpending
        refine ⟨hring, ?_, ?_⟩
        · rw [htyped, hpending]
          exact h.fifo
        · rw [htyped]
          exact h.line

theorem stageLine_input {chars : List UInt8} {shell : ShellState} {c : UInt8}
    (h : StageLine chars shell) (hstage : shell.stage = ShellStage.reading)
    (hzero : c ≠ 0) : StageLine (chars ++ [c]) (shellInput shell c) := by
  cases h with
  | starting hother _ _ =>
      rw [hstage] at hother
      cases hother
  | running hother _ _ =>
      rw [hstage] at hother
      cases hother
  | reading _ hholds =>
      by_cases hline : c = newlineChar
      · have hrun : shellInput shell c =
            { shell with stage := ShellStage.running } := by
          unfold shellInput
          rw [if_neg hzero, if_pos hline]
        rw [hrun, hline]
        exact StageLine.running rfl rfl
          ⟨hholds.pos_eq, hholds.length_le, hholds.printable, hholds.cells⟩
      · rcases holdsLine_input hholds hzero hline with ⟨hedit, hsame⟩
        refine StageLine.reading (hsame.trans hstage) ?_
        rw [sinceNewline_snoc, if_neg hline, lineOf_snoc]
        exact hedit

theorem inputInvariant_read (h : InputInvariant trace s) {c : UInt8}
    (hstage : s.shell.stage = ShellStage.reading)
    (hread : (keyboardGetChar s.kbd).1 = c) :
    InputInvariant (trace ++ [InputEvent.read c])
      { kbd := (keyboardGetChar s.kbd).2, shell := shellInput s.shell c } := by
  rcases keyboardGetChar_spec h.ring with ⟨hfirst, hrest, hring⟩
  have hempty := keyboardGetChar_zero_iff h.ring
  have hfifo := h.fifo
  rw [hread] at hfirst hempty
  by_cases hc0 : c = 0
  · -- nothing is pending, and the loop only sleeps
    have hnil := hempty.mp hc0
    have hsame : typed (trace ++ [InputEvent.read c]) = typed trace := by
      rw [typed_snoc]
      exact if_pos hc0
    have hshell : shellInput s.shell c = s.shell := if_pos hc0
    refine ⟨hring, ?_, ?_⟩
    · show _ ++ pending (keyboardGetChar s.kbd).2 = _
      rw [hsame, hrest, hnil]
      rw [hnil] at hfifo
      exact hfifo
    · rw [hsame, hshell]
      exact h.line
  · have htaken : typed (trace ++ [InputEvent.read c]) =
        { typed trace with taken := (typed trace).taken ++ [c] } := by
      rw [typed_snoc]
      exact if_neg hc0
    refine ⟨hring, ?_, ?_⟩
    · show _ ++ pending (keyboardGetChar s.kbd).2 = _
      rw [htaken, hrest]
      cases hpending : pending s.kbd with
      | nil =>
          rw [hpending] at hfirst
          exact absurd hfirst hc0
      | cons d rest =>
          rw [hpending] at hfirst hfifo
          rw [← hfifo, hfirst, List.append_assoc]
          rfl
    · rw [htaken]
      exact stageLine_input h.line hstage hc0

theorem inputInvariant_prompt (h : InputInvariant trace s)
    (hstage : s.shell.stage ≠ ShellStage.reading) :
    InputInvariant (trace ++ [InputEvent.prompt])
      { s with shell := shellPrompt s.shell } := by
  have hsame : typed (trace ++ [InputEvent.prompt]) = typed trace := by
    rw [typed_snoc]
    rfl
  refine ⟨h.ring, ?_, ?_⟩
  · rw [hsame]
    exact h.fifo
  · rw [hsame]
    have hnew : sinceNewline (typed trace).taken = [] := by
      cases h.line with
      | starting _ hchars _ =>
          rw [hchars]
          rfl
      | reading hcase _ => exact absurd hcase hstage
      | running _ hchars _ => rw [hchars, sinceNewline_snoc, if_pos rfl]
    refine StageLine.reading rfl ?_
    rw [hnew]
    exact holdsLine_prompt s.shell

theorem inputInvariant_step {event : InputEvent} (h : InputInvariant trace s)
    (hstep : inputStep s event = some s') :
    InputInvariant (trace ++ [event]) s' := by
  cases event with
  | key scancode =>
      cases hstep
      exact inputInvariant_key h scancode
  | read c =>
      unfold inputStep at hstep
      simp only at hstep
      split at hstep
      · rename_i hready
        cases hstep
        exact inputInvariant_read h hready.left hready.right
      · cases hstep
  | prompt =>
      unfold inputStep at hstep
      simp only at hstep
      split at hstep
      · cases hstep
      · rename_i hstage
        cases hstep
        exact inputInvariant_prompt h hstage

theorem HoldsLine.isString {shell : ShellState} {line : List UInt8}
    (h : HoldsLine shell line) : IsString shell.cmd line :=
  ⟨h.bytesAt, h.nonzero⟩

theorem inputIntact_of_invariant (h : InputInvariant trace s) :
    InputIntact trace s := by
  have hnext := And.intro (keyboardGetChar_spec h.ring).left
    (keyboardGetChar_zero_iff h.ring)
  cases h.line with
  | starting hstage _ hpos =>
      refine ⟨h.fifo, hnext, by lia, fun hne => absurd hstage hne, ?_⟩
      intro hrunning
      rw [hstage] at hrunning
      cases hrunning
  | reading hstage hholds =>
      refine ⟨h.fifo, hnext, ?_, fun _ => hholds.last_zero, ?_⟩
      · rw [hholds.pos_eq]
        exact hholds.length_le
      · intro hrunning
        rw [hstage] at hrunning
        cases hrunning
  | @running earlier hstage hchars hholds =>
      refine ⟨h.fifo, hnext, ?_, fun _ => hholds.last_zero, ?_⟩
      · rw [hholds.pos_eq]
        exact hholds.length_le
      · intro _
        exact ⟨earlier, hchars, hholds.isString, shellAction_eq hholds⟩

theorem shell_input_intact {buffer : Nat -> UInt8} {cmd : ByteMemory}
    (hrun : inputSystem.Runs (inputStart buffer cmd) trace s) :
    InputIntact trace s := by
  apply inputIntact_of_invariant
  refine runs_history_invariant
    (inputInvariant_start buffer cmd) ?_ hrun
  intro trace t event u ht hstep
  exact inputInvariant_step ht hstep

end Runs

def helpTyped : List InputEvent :=
  [InputEvent.prompt, InputEvent.key 0x23, InputEvent.key 0x2D,
    InputEvent.read 0x68, InputEvent.key 0x0E, InputEvent.read 0x78,
    InputEvent.read 8, InputEvent.read 0, InputEvent.key 0x12,
    InputEvent.key 0x26, InputEvent.key 0x19, InputEvent.key 0x1C,
    InputEvent.key 0x80, InputEvent.read 0x65, InputEvent.read 0x6C,
    InputEvent.read 0x70, InputEvent.read 10]

theorem shell_input_intact_help :
    exists s, inputSystem.Runs (inputStart (fun _ => 0) (fun _ => 0xCC))
        helpTyped s ∧
      InputIntact helpTyped s ∧
      shellAction s.shell = Action.run Command.help := by
  have hend : (execute inputStep helpTyped
      (inputStart (fun _ => 0) (fun _ => 0xCC))).map
        (fun s => shellAction s.shell) =
          some (Action.run Command.help) := by
    decide +kernel
  rcases Option.map_eq_some_iff.mp hend with ⟨s, hexecute, haction⟩
  have hrun := runs_of_execute (T := inputSystem)
    (fun _ _ _ hnext => hnext) hexecute
  exact ⟨s, hrun, shell_input_intact hrun, haction⟩

end Shell
end Barium
