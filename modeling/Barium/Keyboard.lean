import Barium.Foundation.RingBuffer
import Barium.Lib

/-!
# The keyboard

`keyboard.c`: the interrupt handler translates scancodes and puts the characters
in a ring of 128 cells, from which `keyboard_get_char` takes them.  Both work on
the ring under a lock and with interrupts disabled.

`kbd_head` is the index that is written next, `kbd_tail` the one that is read
next.
-/

namespace Barium
namespace Keyboard

open Foundation

def bufferSize : Nat := 128

/-- The characters of the scancodes; 0 is a key without one. -/
def scancodeTable : List UInt8 :=
  [0, 27, 0x31, 0x32, 0x33, 0x34, 0x35, 0x36, 0x37, 0x38, 0x39, 0x30, 0x2D,
    0x3D, 8,
    9, 0x71, 0x77, 0x65, 0x72, 0x74, 0x79, 0x75, 0x69, 0x6F, 0x70, 0x5B, 0x5D,
    10,
    0, 0x61, 0x73, 0x64, 0x66, 0x67, 0x68, 0x6A, 0x6B, 0x6C, 0x3B, 0x27, 0x60,
    0, 0x5C,
    0x7A, 0x78, 0x63, 0x76, 0x62, 0x6E, 0x6D, 0x2C, 0x2E, 0x2F, 0, 0x2A, 0,
    0x20]

structure KbdState where
  kbdBuffer : Nat -> UInt8
  kbdHead : Nat
  kbdTail : Nat

/-- The ring after `keyboard_init`. -/
def keyboardInit (buffer : Nat -> UInt8) : KbdState where
  kbdBuffer := buffer
  kbdHead := 0
  kbdTail := 0

def storeChar (s : KbdState) (c : UInt8) : KbdState :=
  let next := (s.kbdHead + 1) % 2 ^ 32 % bufferSize
  if next ≠ s.kbdTail then
    { s with
      kbdBuffer := Function.update s.kbdBuffer s.kbdHead c
      kbdHead := next }
  else s

/-- `keyboard_handler`, for the scancode that it reads from the port. -/
def keyboardHandler (s : KbdState) (scancode : UInt8) : KbdState :=
  if scancode.toNat < scancodeTable.length then
    let c := scancodeTable.getD scancode.toNat 0
    if c ≠ 0 then storeChar s c else s
  else s

def keyboardGetChar (s : KbdState) : UInt8 × KbdState :=
  if s.kbdHead = s.kbdTail then
    (0, s)
  else
    (s.kbdBuffer s.kbdTail,
      { s with kbdTail := (s.kbdTail + 1) % 2 ^ 32 % bufferSize })

/-!
# The ring as a queue
-/

def translate (scancode : UInt8) : Option UInt8 :=
  (scancodeTable[scancode.toNat]?).filter (fun c => c ≠ 0)

def pending (s : KbdState) : List UInt8 :=
  Ring.contents s.kbdBuffer bufferSize s.kbdTail s.kbdHead

structure RingValid (s : KbdState) : Prop where
  head_lt : s.kbdHead < bufferSize
  tail_lt : s.kbdTail < bufferSize
  nonzero : forall c, c ∈ pending s -> c ≠ 0

/-- A queue of at most 127 characters. -/
def enqueue (queue : List UInt8) (c : UInt8) : List UInt8 :=
  if queue.length < bufferSize - 1 then queue ++ [c] else queue

section Ring

variable {s : KbdState}

theorem next_index {k : Nat} (hk : k < bufferSize) :
    (k + 1) % 2 ^ 32 % bufferSize = (k + 1) % bufferSize := by
  unfold bufferSize at hk ⊢
  rw [Nat.mod_eq_of_lt (show k + 1 < 2 ^ 32 by lia)]

theorem pending_length (s : KbdState) :
    (pending s).length < bufferSize := by
  unfold pending Ring.contents
  rw [Ring.window_length]
  exact Nat.mod_lt _ (by decide)

theorem pending_storeChar (h : RingValid s) (c : UInt8) :
    pending (storeChar s c) = enqueue (pending s) c := by
  have hfull := Ring.count_full_iff h.tail_lt h.head_lt
  have hlength : (pending s).length =
      Ring.Count bufferSize s.kbdTail s.kbdHead := by
    unfold pending
    rw [Ring.contents_length]
  have hshort := pending_length s
  unfold storeChar enqueue
  rw [next_index h.head_lt]
  by_cases hsame : (s.kbdHead + 1) % bufferSize = s.kbdTail
  · have hcount := hfull.mpr hsame
    rw [if_neg (not_not.mpr hsame), if_neg (by lia)]
  · have hcount : ¬ Ring.Count bufferSize s.kbdTail s.kbdHead =
        bufferSize - 1 := fun hfill => hsame (hfull.mp hfill)
    rw [if_pos hsame, if_pos (by lia)]
    exact Ring.contents_push s.kbdBuffer c h.tail_lt h.head_lt hsame

theorem ringValid_storeChar (h : RingValid s) {c : UInt8} (hc : c ≠ 0) :
    RingValid (storeChar s c) := by
  constructor
  · unfold storeChar
    simp only
    split
    · exact Nat.mod_lt _ (by decide)
    · exact h.head_lt
  · unfold storeChar
    simp only
    split
    · exact h.tail_lt
    · exact h.tail_lt
  · rw [pending_storeChar h]
    unfold enqueue
    intro b hb
    split at hb
    · rcases List.mem_append.mp hb with hold | hnew
      · exact h.nonzero b hold
      · rw [List.mem_singleton.mp hnew]
        exact hc
    · exact h.nonzero b hb

theorem translate_nonzero {scancode c : UInt8}
    (h : translate scancode = some c) : c ≠ 0 := by
  have hfilter := (Option.filter_eq_some_iff.mp h).right
  simpa using hfilter

theorem keyboardHandler_eq (s : KbdState) (scancode : UInt8) :
    keyboardHandler s scancode =
      match translate scancode with
      | some c => storeChar s c
      | none => s := by
  unfold keyboardHandler translate
  rcases Nat.lt_or_ge scancode.toNat scancodeTable.length with hlt | hout
  · rw [if_pos hlt, List.getElem?_eq_getElem hlt,
      List.getD_eq_getElem _ _ hlt]
    by_cases hzero : scancodeTable[scancode.toNat] = 0
    · simp [hzero, Option.filter]
    · simp [hzero, Option.filter]
  · rw [if_neg (Nat.not_lt.mpr hout), List.getElem?_eq_none hout]
    rfl

theorem ringValid_handler (h : RingValid s) (scancode : UInt8) :
    RingValid (keyboardHandler s scancode) := by
  rw [keyboardHandler_eq]
  cases hc : translate scancode with
  | none => exact h
  | some c => exact ringValid_storeChar h (translate_nonzero hc)

/-- A read returns the first pending character and takes it away; it returns 0
exactly when there is none. -/
theorem keyboardGetChar_spec (h : RingValid s) :
    (keyboardGetChar s).1 = (pending s).headD 0 ∧
      pending (keyboardGetChar s).2 = (pending s).tail ∧
      RingValid (keyboardGetChar s).2 := by
  unfold keyboardGetChar
  by_cases hempty : s.kbdHead = s.kbdTail
  · have hnil : pending s = [] :=
      (Ring.contents_eq_nil_iff _ h.tail_lt h.head_lt).mpr hempty.symm
    rw [if_pos hempty, hnil]
    exact ⟨rfl, rfl, h⟩
  · have hpop := Ring.contents_pop s.kbdBuffer h.tail_lt h.head_lt
      (fun heq => hempty heq.symm)
    have hcons : pending s = s.kbdBuffer s.kbdTail ::
        pending { s with kbdTail := (s.kbdTail + 1) % bufferSize } := hpop
    rw [if_neg hempty, next_index h.tail_lt, hcons]
    refine ⟨rfl, rfl, h.head_lt, Nat.mod_lt _ (by decide), ?_⟩
    intro c hc
    apply h.nonzero c
    rw [hcons]
    exact List.mem_cons_of_mem _ hc

theorem keyboardGetChar_zero_iff (h : RingValid s) :
    (keyboardGetChar s).1 = 0 <-> pending s = [] := by
  rw [(keyboardGetChar_spec h).left]
  cases hp : pending s with
  | nil => exact iff_of_true rfl rfl
  | cons c rest =>
      have hne := h.nonzero c (by rw [hp]; exact List.mem_cons_self)
      exact iff_of_false hne (List.cons_ne_nil c rest)

theorem ringValid_init (buffer : Nat -> UInt8) :
    RingValid (keyboardInit buffer) ∧ pending (keyboardInit buffer) = [] := by
  have hlt : 0 < bufferSize := by decide
  have hnil : pending (keyboardInit buffer) = [] :=
    (Ring.contents_eq_nil_iff _ hlt hlt).mpr rfl
  refine ⟨⟨hlt, hlt, ?_⟩, hnil⟩
  intro c hc
  rw [hnil] at hc
  cases hc

end Ring

end Keyboard
end Barium
