import Mathlib.Logic.Function.Basic
import Barium.Foundation.Run
import Barium.Lib

/-!
# The console

`console.c`: characters of 8 by 8 pixels are drawn at a cursor that starts at
(10, 10), moves on by 9 pixels and wraps around at the right and at the bottom
of the screen.  All coordinates are 32-bit words.

The functions record the rows of the font they read, the pixels of glyphs they
set and the elements of the framebuffer they store to.
-/

namespace Barium
namespace Console

open Foundation
open TransitionSystem
open Lib

def charWidth : Nat := 8
def charHeight : Nat := 8
def charSpacing : Nat := 1
def textColor : Nat := 0xFFFFFF
def eraseColor : Nat := 0x1B1B1B
def fontRows : Nat := 128

/-- A screen with room for one character. -/
structure Screen where
  width : Nat
  height : Nat
  stride : Nat
  width_ge : 19 <= width
  height_ge : 19 <= height
  stride_ge : width <= stride
  size_lt : height * stride < 2 ^ 32

inductive Access where
  | font (row line : Nat)
  | glyph (x y : Nat)
  | store (index : Nat)
  deriving DecidableEq, Repr

structure ConsoleState where
  framebuffer : Nat -> Nat
  cursorX : Nat
  cursorY : Nat
  accesses : List Access

def word32 (n : Nat) : Nat :=
  n % 2 ^ 32

def record (s : ConsoleState) (a : Access) : ConsoleState :=
  { s with accesses := s.accesses ++ [a] }

def moveTo (s : ConsoleState) (x y : Nat) : ConsoleState :=
  { s with cursorX := x, cursorY := y }

/-!
# Drawing
-/

def consolePutPixelUnlocked (screen : Screen) (s : ConsoleState)
    (x y color : Nat) : ConsoleState :=
  if screen.width <= x ∨ screen.height <= y then
    s
  else
    let index := word32 (y * screen.stride + x)
    record
      { s with framebuffer := Function.update s.framebuffer index color }
      (Access.store index)

/-- `for (i = 0; i < n; i++)` -/
def loop (n : Nat) (body : Nat -> ConsoleState -> ConsoleState)
    (s : ConsoleState) : ConsoleState :=
  (List.range n).foldl (fun s i => body i s) s

def consoleRectUnlocked (screen : Screen) (s : ConsoleState)
    (x y w h color : Nat) : ConsoleState :=
  loop h (fun i => loop w (fun j s =>
    consolePutPixelUnlocked screen s (word32 (x + j)) (word32 (y + i))
      color)) s

/-- One pixel of a glyph.  `font` is the memory from `font8x8_basic` on, in rows
of 8 bytes; the table has 128 of them. -/
def glyphPixel (screen : Screen) (font : Nat -> Nat -> UInt8) (c : UInt8)
    (color i j : Nat) (s : ConsoleState) : ConsoleState :=
  let s := record s (Access.font c.toNat i)
  if (font c.toNat i).toNat.testBit j then
    let x := word32 (s.cursorX + j)
    let y := word32 (s.cursorY + i)
    consolePutPixelUnlocked screen (record s (Access.glyph x y)) x y color
  else s

/-- The two comparisons at the end of `console_putchar_unlocked`. -/
def wrapLine (screen : Screen) (s : ConsoleState) : ConsoleState :=
  if screen.width <= word32 (s.cursorX + charWidth) then
    moveTo s 10 (word32 (s.cursorY + charHeight + 4))
  else s

def wrapScreen (screen : Screen) (s : ConsoleState) : ConsoleState :=
  if screen.height <= word32 (s.cursorY + charHeight) then moveTo s 10 10
  else s

def putCharacter (screen : Screen) (font : Nat -> Nat -> UInt8)
    (s : ConsoleState) (c : UInt8) (color : Nat) : ConsoleState :=
  if c = 10 then
    moveTo s 10 (word32 (s.cursorY + charHeight + 4))
  else if c = 13 then
    moveTo s 10 s.cursorY
  else if c = 8 then
    if charWidth + charSpacing <= s.cursorX then
      let s := moveTo s (s.cursorX - (charWidth + charSpacing)) s.cursorY
      consoleRectUnlocked screen s s.cursorX s.cursorY charWidth charHeight
        eraseColor
    else s
  else
    let s := loop 8 (fun i => loop 8 (fun j =>
      glyphPixel screen font c color i j)) s
    moveTo s (word32 (s.cursorX + charWidth + charSpacing)) s.cursorY

def consolePutcharUnlocked (screen : Screen) (font : Nat -> Nat -> UInt8)
    (s : ConsoleState) (c : UInt8) (color : Nat) : ConsoleState :=
  wrapScreen screen (wrapLine screen (putCharacter screen font s c color))

/-!
# Calls

The calls take `console_lock` first, so that they run one after the other.
-/

def putBytes (screen : Screen) (font : Nat -> Nat -> UInt8)
    (bytes : List UInt8) (s : ConsoleState) : ConsoleState :=
  bytes.foldl (fun s c => consolePutcharUnlocked screen font s c textColor) s

/-- The digits of `val`, lowest first; a 64-bit number has at most 20. -/
def lowDigits : Nat -> Nat -> List UInt8
  | 0, _ => []
  | n + 1, val =>
      if 0 < val then
        UInt8.ofNat (val % 10 + 0x30) :: lowDigits n (val / 10)
      else []

def numBytes (val : Nat) : List UInt8 :=
  if val = 0 then [0x30] else (lowDigits 20 val).reverse

def consolePutc (screen : Screen) (font : Nat -> Nat -> UInt8) (c : UInt8)
    (s : ConsoleState) : ConsoleState :=
  consolePutcharUnlocked screen font s c textColor

def consolePrint (screen : Screen) (font : Nat -> Nat -> UInt8) (str : CString)
    (s : ConsoleState) : ConsoleState :=
  putBytes screen font str.bytes s

def consolePrintNum (screen : Screen) (font : Nat -> Nat -> UInt8) (val : Nat)
    (s : ConsoleState) : ConsoleState :=
  putBytes screen font (numBytes val) s

def consoleClear (screen : Screen) (color : Nat) (s : ConsoleState) :
    ConsoleState :=
  moveTo
    (loop screen.height (fun y => loop screen.width (fun x s =>
      consolePutPixelUnlocked screen s x y color)) s)
    10 10

inductive ConsoleCall where
  | putc (c : UInt8)
  | print (str : CString)
  | printNum (val : Nat)
  | clear (color : Nat)

/-- The characters that a call prints. -/
def ConsoleCall.bytes : ConsoleCall -> List UInt8
  | .putc c => [c]
  | .print str => str.bytes
  | .printNum val => numBytes val
  | .clear _ => []

def consoleCall (screen : Screen) (font : Nat -> Nat -> UInt8)
    (s : ConsoleState) : ConsoleCall -> ConsoleState
  | .putc c => consolePutc screen font c s
  | .print str => consolePrint screen font str s
  | .printNum val => consolePrintNum screen font val s
  | .clear color => consoleClear screen color s

def consoleStart (framebuffer : Nat -> Nat) : ConsoleState where
  framebuffer := framebuffer
  cursorX := 10
  cursorY := 10
  accesses := []

/-!
# Drawing stays on the screen
-/

structure CursorInside (screen : Screen) (s : ConsoleState) : Prop where
  x_lt : s.cursorX + 8 < screen.width
  y_lt : s.cursorY + 8 < screen.height

def Allowed (screen : Screen) (bytes : List UInt8) : Access -> Prop
  | .font row _ => exists b, b ∈ bytes ∧ row = b.toNat
  | .glyph x y => x < screen.width ∧ y < screen.height
  | .store index => index < screen.height * screen.stride

structure Draws (screen : Screen) (bytes : List UInt8)
    (s s' : ConsoleState) : Prop where
  x_eq : s'.cursorX = s.cursorX
  y_eq : s'.cursorY = s.cursorY
  drawn : exists new, s'.accesses = s.accesses ++ new ∧
    forall a, a ∈ new -> Allowed screen bytes a

section Drawing

variable {screen : Screen} {font : Nat -> Nat -> UInt8} {bytes : List UInt8}
  {s t u : ConsoleState}

theorem Draws.refl (s : ConsoleState) : Draws screen bytes s s := by
  refine ⟨rfl, rfl, [], (List.append_nil _).symm, ?_⟩
  intro a ha
  cases ha

theorem Draws.trans (hst : Draws screen bytes s t)
    (htu : Draws screen bytes t u) : Draws screen bytes s u := by
  rcases hst.drawn with ⟨left, hleft, hok⟩
  rcases htu.drawn with ⟨right, hright, hok'⟩
  refine ⟨htu.x_eq.trans hst.x_eq, htu.y_eq.trans hst.y_eq, left ++ right, ?_,
    ?_⟩
  · rw [hright, hleft, List.append_assoc]
  · intro a ha
    rcases List.mem_append.mp ha with ha | ha
    · exact hok a ha
    · exact hok' a ha

theorem draws_record {a : Access} (h : Allowed screen bytes a) :
    Draws screen bytes s (record s a) := by
  refine ⟨rfl, rfl, [a], rfl, ?_⟩
  intro b hb
  rw [List.mem_singleton.mp hb]
  exact h

theorem loop_succ (n : Nat) (body : Nat -> ConsoleState -> ConsoleState)
    (s : ConsoleState) : loop (n + 1) body s = body n (loop n body s) := by
  unfold loop
  rw [List.range_succ, List.foldl_append]
  rfl

theorem draws_loop {n : Nat} {body : Nat -> ConsoleState -> ConsoleState}
    (h : forall i t, i < n -> Draws screen bytes s t ->
      Draws screen bytes t (body i t)) :
    Draws screen bytes s (loop n body s) := by
  induction n with
  | zero => exact Draws.refl s
  | succ n ih =>
      have hbefore := ih (fun i t hi => h i t (Nat.lt_succ_of_lt hi))
      rw [loop_succ]
      exact hbefore.trans (h n _ (Nat.lt_succ_self n) hbefore)

theorem index_lt {x y : Nat} (hx : x < screen.width) (hy : y < screen.height) :
    word32 (y * screen.stride + x) < screen.height * screen.stride := by
  have hrow : (y + 1) * screen.stride <= screen.height * screen.stride :=
    Nat.mul_le_mul_right _ hy
  have hlt : y * screen.stride + x < screen.height * screen.stride := by
    have hstride := screen.stride_ge
    rw [Nat.succ_mul] at hrow
    lia
  exact Nat.lt_of_le_of_lt (Nat.mod_le _ _) hlt

theorem draws_putPixel (x y color : Nat) :
    Draws screen bytes s (consolePutPixelUnlocked screen s x y color) := by
  unfold consolePutPixelUnlocked
  split
  · exact Draws.refl s
  · rename_i hinside
    rw [not_or, Nat.not_le, Nat.not_le] at hinside
    refine ⟨rfl, rfl, [_], rfl, ?_⟩
    intro a ha
    rw [List.mem_singleton.mp ha]
    exact index_lt hinside.left hinside.right

theorem draws_rect (x y w h color : Nat) :
    Draws screen bytes s (consoleRectUnlocked screen s x y w h color) := by
  apply draws_loop
  intro i t _ _
  apply draws_loop
  intro j t' _ _
  exact draws_putPixel _ _ color

/-- Screens are smaller than the numbers that hold their coordinates. -/
theorem Screen.size_small (screen : Screen) :
    screen.width + 32 < 2 ^ 32 ∧ screen.height + 32 < 2 ^ 32 := by
  have hwidth := screen.width_ge
  have hheight := screen.height_ge
  have hstride := screen.stride_ge
  have hsize := screen.size_lt
  have hw : 19 * screen.stride <= screen.height * screen.stride :=
    Nat.mul_le_mul_right _ hheight
  have hh : screen.height * 19 <= screen.height * screen.stride :=
    Nat.mul_le_mul_left _ (by lia)
  constructor
  · lia
  · lia

theorem word32_of_lt {n : Nat} (h : n < 2 ^ 32) : word32 n = n :=
  Nat.mod_eq_of_lt h

theorem draws_glyphPixel (hcursor : CursorInside screen s) {c : UInt8}
    (hc : c ∈ bytes) (color : Nat) {i j : Nat} (hi : i < 8) (hj : j < 8) :
    Draws screen bytes s (glyphPixel screen font c color i j s) := by
  have hread : Draws screen bytes s (record s (Access.font c.toNat i)) :=
    draws_record ⟨c, hc, rfl⟩
  have hx := hcursor.x_lt
  have hy := hcursor.y_lt
  have hsmall := screen.size_small
  unfold glyphPixel
  simp only
  split
  · refine hread.trans ?_
    refine Draws.trans (draws_record ?_) (draws_putPixel _ _ color)
    show word32 (s.cursorX + j) < screen.width ∧
      word32 (s.cursorY + i) < screen.height
    rw [word32_of_lt (by lia), word32_of_lt (by lia)]
    lia
  · exact hread

theorem CursorInside.draws (h : CursorInside screen s)
    (hdraws : Draws screen bytes s t) : CursorInside screen t := by
  constructor
  · rw [hdraws.x_eq]
    exact h.x_lt
  · rw [hdraws.y_eq]
    exact h.y_lt

theorem draws_glyph (font : Nat -> Nat -> UInt8)
    (hcursor : CursorInside screen s) {c : UInt8}
    (hc : c ∈ bytes) (color : Nat) :
    Draws screen bytes s (loop 8 (fun i => loop 8 (fun j =>
      glyphPixel screen font c color i j)) s) := by
  apply draws_loop
  intro i t hi ht
  apply draws_loop
  intro j t' hj ht'
  exact draws_glyphPixel ((hcursor.draws ht).draws ht') hc color hi hj

theorem Draws.mem {a : Access} (h : Draws screen bytes s t)
    (ha : a ∈ s.accesses) : a ∈ t.accesses := by
  rcases h.drawn with ⟨new, hnew, _⟩
  rw [hnew]
  exact List.mem_append_left _ ha

theorem glyphPixel_reads (c : UInt8) (color i j : Nat) (s : ConsoleState) :
    Access.font c.toNat i ∈
      (glyphPixel screen font c color i j s).accesses := by
  have hread : Access.font c.toNat i ∈
      (record s (Access.font c.toNat i)).accesses :=
    List.mem_append_right _ (List.mem_singleton_self _)
  unfold glyphPixel
  simp only
  split
  · refine Draws.mem (draws_putPixel _ _ color : Draws screen [] _ _) ?_
    exact List.mem_append_left _ hread
  · exact hread

theorem glyph_reads (screen : Screen) (font : Nat -> Nat -> UInt8)
    (c : UInt8) (color : Nat) (s : ConsoleState) :
    Access.font c.toNat 7 ∈ (loop 8 (fun i => loop 8 (fun j =>
      glyphPixel screen font c color i j)) s).accesses := by
  rw [loop_succ, loop_succ]
  exact glyphPixel_reads c color 7 7 _

end Drawing

/-!
# Characters
-/

structure Prints (screen : Screen) (bytes : List UInt8)
    (s s' : ConsoleState) : Prop where
  cursor : CursorInside screen s'
  drawn : exists new, s'.accesses = s.accesses ++ new ∧
    forall a, a ∈ new -> Allowed screen bytes a
  reads : forall b, b ∈ bytes -> fontRows <= b.toNat ->
    Access.font b.toNat 7 ∈ s'.accesses

section Characters

variable {screen : Screen} {font : Nat -> Nat -> UInt8}
  {s t u : ConsoleState}

theorem Allowed.mono {bytes more : List UInt8} {a : Access}
    (h : Allowed screen bytes a) (hsub : forall b, b ∈ bytes -> b ∈ more) :
    Allowed screen more a := by
  cases a with
  | font row line =>
      rcases h with ⟨b, hb, hrow⟩
      exact ⟨b, hsub b hb, hrow⟩
  | glyph x y => exact h
  | store index => exact h

theorem Prints.refl (h : CursorInside screen s) : Prints screen [] s s := by
  refine ⟨h, ⟨[], (List.append_nil _).symm, ?_⟩, ?_⟩
  · intro a ha
    cases ha
  · intro b hb
    cases hb

theorem Prints.trans {left right : List UInt8} (hst : Prints screen left s t)
    (htu : Prints screen right t u) : Prints screen (left ++ right) s u := by
  rcases hst.drawn with ⟨new, hnew, hok⟩
  rcases htu.drawn with ⟨new', hnew', hok'⟩
  refine ⟨htu.cursor, ⟨new ++ new', ?_, ?_⟩, ?_⟩
  · rw [hnew', hnew, List.append_assoc]
  · intro a ha
    rcases List.mem_append.mp ha with ha | ha
    · exact (hok a ha).mono (fun b hb => List.mem_append_left _ hb)
    · exact (hok' a ha).mono (fun b hb => List.mem_append_right _ hb)
  · intro b hb hhigh
    rcases List.mem_append.mp hb with hb | hb
    · rw [hnew']
      exact List.mem_append_left _ (hst.reads b hb hhigh)
    · exact htu.reads b hb hhigh

structure CursorNear (screen : Screen) (s : ConsoleState) : Prop where
  x_lt : s.cursorX < screen.width + 9
  y_lt : s.cursorY < screen.height + 12

theorem wrap_inside (h : CursorNear screen s) :
    CursorInside screen (wrapScreen screen (wrapLine screen s)) := by
  have hx := h.x_lt
  have hy := h.y_lt
  have hwidth := screen.width_ge
  have hheight := screen.height_ge
  have hsmall := screen.size_small
  have hline : (wrapLine screen s).cursorX + 8 < screen.width ∧
      (wrapLine screen s).cursorY < screen.height + 24 := by
    unfold wrapLine charWidth charHeight
    rw [word32_of_lt (by lia)]
    split
    · show 10 + 8 < _ ∧ word32 (s.cursorY + 8 + 4) < _
      rw [word32_of_lt (by lia)]
      lia
    · lia
  unfold wrapScreen charHeight
  rw [word32_of_lt (by lia)]
  split
  · constructor
    · show 10 + 8 < screen.width
      lia
    · show 10 + 8 < screen.height
      lia
  · exact ⟨hline.left, by lia⟩

theorem wrap_accesses (screen : Screen) (s : ConsoleState) :
    (wrapScreen screen (wrapLine screen s)).accesses = s.accesses := by
  have hline : (wrapLine screen s).accesses = s.accesses := by
    unfold wrapLine
    split
    · rfl
    · rfl
  unfold wrapScreen
  split
  · exact hline
  · exact hline

theorem putCharacter_spec (font : Nat -> Nat -> UInt8)
    (h : CursorInside screen s) (c : UInt8) (color : Nat) :
    CursorNear screen (putCharacter screen font s c color) ∧
      (exists new, (putCharacter screen font s c color).accesses =
        s.accesses ++ new ∧ forall a, a ∈ new -> Allowed screen [c] a) ∧
      (fontRows <= c.toNat -> Access.font c.toNat 7 ∈
        (putCharacter screen font s c color).accesses) := by
  have hx := h.x_lt
  have hy := h.y_lt
  have hwidth := screen.width_ge
  have hsmall := screen.size_small
  have hnone : exists new, s.accesses = s.accesses ++ new ∧
      forall a, a ∈ new -> Allowed screen [c] a := by
    refine ⟨[], (List.append_nil _).symm, ?_⟩
    intro a ha
    cases ha
  have hcontrol : forall d : UInt8, d.toNat < fontRows -> c = d ->
      fontRows <= c.toNat -> False := by
    intro d hd heq hhigh
    rw [heq] at hhigh
    lia
  unfold putCharacter
  split
  · rename_i hline
    refine ⟨⟨?_, ?_⟩, hnone, fun hhigh =>
      (hcontrol 10 (by decide) hline hhigh).elim⟩
    · show 10 < screen.width + 9
      lia
    · show word32 (s.cursorY + charHeight + 4) < _
      unfold charHeight
      rw [word32_of_lt (by lia)]
      lia
  · split
    · rename_i hreturn
      refine ⟨⟨?_, ?_⟩, hnone, fun hhigh =>
        (hcontrol 13 (by decide) hreturn hhigh).elim⟩
      · show 10 < screen.width + 9
        lia
      · show s.cursorY < _
        lia
    · split
      · rename_i hback
        have hlow := hcontrol 8 (by decide) hback
        split
        · have hrect : Draws screen [c]
              (moveTo s (s.cursorX - (charWidth + charSpacing)) s.cursorY) _ :=
            draws_rect (s.cursorX - (charWidth + charSpacing)) s.cursorY
              charWidth charHeight eraseColor
          refine ⟨⟨?_, ?_⟩, hrect.drawn, fun hhigh => (hlow hhigh).elim⟩
          · refine lt_of_eq_of_lt hrect.x_eq ?_
            show s.cursorX - (charWidth + charSpacing) < _
            lia
          · refine lt_of_eq_of_lt hrect.y_eq ?_
            show s.cursorY < _
            lia
        · exact ⟨⟨by lia, by lia⟩, hnone, fun hhigh => (hlow hhigh).elim⟩
      · have hglyph := draws_glyph font h (List.mem_singleton_self c) color
        have hreads := glyph_reads screen font c color s
        simp only
        generalize loop 8 (fun i => loop 8 (fun j =>
          glyphPixel screen font c color i j)) s = t at hglyph hreads
        refine ⟨⟨?_, ?_⟩, hglyph.drawn, fun _ => hreads⟩
        · show word32 (t.cursorX + charWidth + charSpacing) < _
          unfold charWidth charSpacing
          rw [hglyph.x_eq, word32_of_lt (by lia)]
          lia
        · show t.cursorY < _
          rw [hglyph.y_eq]
          lia

theorem prints_putchar (font : Nat -> Nat -> UInt8)
    (h : CursorInside screen s) (c : UInt8) (color : Nat) :
    Prints screen [c] s (consolePutcharUnlocked screen font s c color) := by
  rcases putCharacter_spec font h c color with ⟨hnear, hdrawn, hreads⟩
  unfold consolePutcharUnlocked
  refine ⟨wrap_inside hnear, ?_, ?_⟩
  · rw [wrap_accesses]
    exact hdrawn
  · intro b hb hhigh
    rw [wrap_accesses, List.mem_singleton.mp hb]
    rw [List.mem_singleton.mp hb] at hhigh
    exact hreads hhigh

theorem prints_putBytes (h : CursorInside screen s) (bytes : List UInt8) :
    Prints screen bytes s (putBytes screen font bytes s) := by
  induction bytes generalizing s with
  | nil => exact Prints.refl h
  | cons c rest ih =>
      have hfirst := prints_putchar font h c textColor
      exact hfirst.trans (ih hfirst.cursor)

theorem prints_clear (color : Nat) (s : ConsoleState) :
    Prints screen [] s (consoleClear screen color s) := by
  have hpixels : Draws screen [] s
      (loop screen.height (fun y => loop screen.width (fun x s =>
        consolePutPixelUnlocked screen s x y color)) s) := by
    apply draws_loop
    intro y t _ _
    apply draws_loop
    intro x t' _ _
    exact draws_putPixel x y color
  have hwidth := screen.width_ge
  have hheight := screen.height_ge
  refine ⟨⟨?_, ?_⟩, hpixels.drawn, ?_⟩
  · show 10 + 8 < screen.width
    lia
  · show 10 + 8 < screen.height
    lia
  · intro b hb
    cases hb

theorem prints_call (h : CursorInside screen s) (call : ConsoleCall) :
    Prints screen call.bytes s (consoleCall screen font s call) := by
  cases call with
  | putc c => exact prints_putchar font h c textColor
  | print str => exact prints_putBytes h str.bytes
  | printNum val => exact prints_putBytes h (numBytes val)
  | clear color => exact prints_clear color s

end Characters

/-!
# Runs
-/

def consoleSystem (screen : Screen) (font : Nat -> Nat -> UInt8)
    (framebuffer : Nat -> Nat) : TransitionSystem ConsoleState ConsoleCall where
  Init := fun s => s = consoleStart framebuffer
  Step := fun s call s' => s' = consoleCall screen font s call

def InBounds (screen : Screen) : Access -> Prop
  | .font row _ => row < fontRows
  | .glyph x y => x < screen.width ∧ y < screen.height
  | .store index => index < screen.height * screen.stride

structure OutputSafe (screen : Screen) (s : ConsoleState) : Prop where
  cursor : CursorInside screen s
  accesses : forall a, a ∈ s.accesses -> InBounds screen a

def AsciiCalls (calls : List ConsoleCall) : Prop :=
  forall call, call ∈ calls -> forall b, b ∈ call.bytes -> b.toNat < fontRows

section Runs

variable {screen : Screen} {font : Nat -> Nat -> UInt8}
  {framebuffer : Nat -> Nat} {calls : List ConsoleCall} {s : ConsoleState}

theorem prints_run
    (hrun : (consoleSystem screen font framebuffer).Runs
      (consoleStart framebuffer) calls s) :
    Prints screen (calls.flatMap ConsoleCall.bytes)
      (consoleStart framebuffer) s := by
  refine runs_history_invariant
    (P := fun calls s => Prints screen (calls.flatMap ConsoleCall.bytes)
      (consoleStart framebuffer) s) ?_ ?_ hrun
  · apply Prints.refl
    have hwidth := screen.width_ge
    have hheight := screen.height_ge
    constructor
    · show 10 + 8 < screen.width
      lia
    · show 10 + 8 < screen.height
      lia
  · intro calls t call u ht hstep
    rw [show u = consoleCall screen font t call from hstep,
      List.flatMap_append]
    refine ht.trans ?_
    rw [List.flatMap_singleton]
    exact prints_call ht.cursor call

/-- Whatever is printed, the cursor leaves room for a character, no glyph is
clipped and no store misses the framebuffer. -/
theorem console_onScreen
    (hrun : (consoleSystem screen font framebuffer).Runs
      (consoleStart framebuffer) calls s) :
    CursorInside screen s ∧ forall a, a ∈ s.accesses ->
      Allowed screen (calls.flatMap ConsoleCall.bytes) a := by
  have hprints := prints_run hrun
  rcases hprints.drawn with ⟨new, hnew, hok⟩
  refine ⟨hprints.cursor, ?_⟩
  intro a ha
  rw [hnew] at ha
  exact hok a ha

theorem console_safe_iff
    (hrun : (consoleSystem screen font framebuffer).Runs
      (consoleStart framebuffer) calls s) :
    OutputSafe screen s <-> AsciiCalls calls := by
  have hprints := prints_run hrun
  rcases console_onScreen hrun with ⟨hcursor, hallowed⟩
  constructor
  · intro hsafe call hcall b hb
    by_contra hhigh
    have hread := hprints.reads b (List.mem_flatMap.mpr ⟨call, hcall, hb⟩)
      (Nat.le_of_not_lt hhigh)
    exact hhigh (hsafe.accesses _ hread)
  · intro hascii
    refine ⟨hcursor, ?_⟩
    intro a ha
    have hok := hallowed a ha
    cases a with
    | font row line =>
        rcases hok with ⟨b, hb, hrow⟩
        rcases List.mem_flatMap.mp hb with ⟨call, hcall, hin⟩
        show row < fontRows
        rw [hrow]
        exact hascii call hcall b hin
    | glyph x y => exact hok
    | store index => exact hok

end Runs

def smallScreen : Screen where
  width := 19
  height := 19
  stride := 19
  width_ge := by decide
  height_ge := by decide
  stride_ge := by decide
  size_lt := by decide

theorem runs_putc (c : UInt8) :
    (consoleSystem smallScreen (fun _ _ => 255) (fun _ => 0)).Runs
      (consoleStart (fun _ => 0)) [ConsoleCall.putc c]
      (consolePutc smallScreen (fun _ _ => 255) c
        (consoleStart (fun _ => 0))) :=
  runs_single (T := consoleSystem smallScreen
    (fun _ _ => 255) (fun _ => 0)) rfl

theorem console_safe_iff_letter :
    OutputSafe smallScreen (consolePutc smallScreen (fun _ _ => 255) 0x41
      (consoleStart (fun _ => 0))) := by
  apply (console_safe_iff (runs_putc 0x41)).mpr
  intro call hcall b hb
  rw [List.mem_singleton.mp hcall] at hb
  rw [List.mem_singleton.mp hb]
  decide

/-- The byte `0xE9` is drawn from row 233 of a table of 128 rows. -/
theorem console_reads_behind_font :
    Access.font 233 0 ∈ (consolePutc smallScreen (fun _ _ => 255) 0xE9
        (consoleStart (fun _ => 0))).accesses ∧
      ¬ OutputSafe smallScreen (consolePutc smallScreen (fun _ _ => 255) 0xE9
        (consoleStart (fun _ => 0))) := by
  have hread : Access.font 233 0 ∈ (consolePutc smallScreen (fun _ _ => 255)
      0xE9 (consoleStart (fun _ => 0))).accesses := by
    decide +kernel
  refine ⟨hread, ?_⟩
  intro hsafe
  exact absurd (hsafe.accesses _ hread) (by unfold InBounds; decide)

end Console
end Barium
