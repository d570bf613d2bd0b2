import Barium.Foundation.Bitmap
import Barium.Foundation.Word
import Barium.Lib

/-!
# The physical memory manager

`pmm.c`: a bitmap with one bit for each page, placed in RAM, and a next-fit
search for runs of clear bits.  The bits are the bits of RAM from the bitmap's
address on, so they go on past the bytes that `pmm_init` fills.

A scan of `pmm_alloc` moves its loop variable inside the inner loop, and with a
large count its bound wraps around, so the scans are given fuel; `none` is a
scan that has not ended.
-/

namespace Barium
namespace Pmm

open Foundation
open Lib

def pageSize : Nat := 4096
def lowMemory : Nat := 0x1000000
def usableType : Nat := 7
def scanFuel : Nat := 2 ^ 64

structure MemDesc where
  type : Nat
  physicalStart : Nat
  numberOfPages : Nat
  deriving DecidableEq, Repr

structure PmmState where
  ram : ByteMemory
  bitmap : Nat
  totalPages : Nat
  usablePages : Nat
  freePages : Nat
  lastSearchIndex : Nat
  highestPhysAddress : Nat

/-- The static variables before `pmm_init`. -/
def bootState (ram : ByteMemory) : PmmState where
  ram := ram
  bitmap := 0
  totalPages := 0
  usablePages := 0
  freePages := 0
  lastSearchIndex := 0
  highestPhysAddress := 0

def bitmapSet (s : PmmState) (page : Nat) : PmmState :=
  { s with ram := Bitmap.set s.ram s.bitmap page }

def bitmapClear (s : PmmState) (page : Nat) : PmmState :=
  { s with ram := Bitmap.clear s.ram s.bitmap page }

def bitmapTest (s : PmmState) (page : Nat) : Bool :=
  Bitmap.test s.ram s.bitmap page

/-!
# Initialisation
-/

def memoryEndStep (memoryEnd : Nat) (desc : MemDesc) : Nat :=
  if desc.type ≠ usableType then
    memoryEnd
  else if memoryEnd <
      Word.add desc.physicalStart (Word.mul desc.numberOfPages pageSize) then
    Word.add desc.physicalStart (Word.mul desc.numberOfPages pageSize)
  else
    memoryEnd

def memoryEnd (mmap : List MemDesc) : Nat :=
  mmap.foldl memoryEndStep 0

def findBitmap (bitmapSize : Nat) : List MemDesc -> Nat
  | [] => 0
  | desc :: rest =>
      if desc.type = usableType ∧
          bitmapSize <= Word.mul desc.numberOfPages pageSize then
        if lowMemory <= desc.physicalStart then
          desc.physicalStart
        else
          findBitmap bitmapSize rest
      else
        findBitmap bitmapSize rest

/-- Clear `n` bits from `first + j` on, counting every one as free. -/
def clearPages (s : PmmState) (first : Nat) : Nat -> Nat -> PmmState
  | 0, _ => s
  | n + 1, j =>
      let s := bitmapClear s (Word.add first j)
      clearPages { s with freePages := Word.add s.freePages 1 } first n (j + 1)

def clearUsable (s : PmmState) : List MemDesc -> PmmState
  | [] => s
  | desc :: rest =>
      if desc.type = usableType then
        let s := { s with
          usablePages := Word.add s.usablePages desc.numberOfPages }
        clearUsable
          (clearPages s (desc.physicalStart / pageSize) desc.numberOfPages 0)
          rest
      else
        clearUsable s rest

/-- Set `n` bits from `first + j` on, taking every one off the free pages. -/
def reservePages (s : PmmState) (first : Nat) : Nat -> Nat -> PmmState
  | 0, _ => s
  | n + 1, j =>
      let s := bitmapSet s (Word.add first j)
      reservePages { s with freePages := Word.sub s.freePages 1 } first n (j + 1)

/-- Set `n` bits from `i` on, taking those that were clear off the free
pages. -/
def reserveClear (s : PmmState) : Nat -> Nat -> PmmState
  | 0, _ => s
  | n + 1, i =>
      if bitmapTest s i then
        reserveClear s n (i + 1)
      else
        let s := bitmapSet s i
        reserveClear { s with freePages := Word.sub s.freePages 1 } n (i + 1)

def pmmInit (s : PmmState) (mmap : List MemDesc) : PmmState :=
  let highest := memoryEnd mmap
  let totalPages := highest / pageSize
  let bitmapSize := totalPages / 8
  let bitmap := findBitmap bitmapSize mmap
  let s := { s with
    highestPhysAddress := highest
    totalPages := totalPages
    bitmap := bitmap }
  if bitmap = 0 then
    s
  else
    let s := { s with
      ram := bMemset s.ram bitmap 0xFF bitmapSize
      freePages := 0
      usablePages := 0 }
    let s := clearUsable s mmap
    let bitmapPages := Word.add bitmapSize 4095 / pageSize
    let s := reservePages s (bitmap / pageSize) bitmapPages 0
    reserveClear s (lowMemory / pageSize) 0

/-!
# Allocation

The scans only read the bitmap.  They return the pages whose bits they tested
along with the start of the run they found.
-/

/-- Test `n` bits from `i + j` on; the offset of the first one that is set. -/
def testRun (s : PmmState) (i : Nat) : Nat -> Nat -> Option Nat × List Nat
  | 0, _ => (none, [])
  | n + 1, j =>
      if bitmapTest s (Word.add i j) then
        (some j, [Word.add i j])
      else
        let r := testRun s i n (j + 1)
        (r.1, Word.add i j :: r.2)

def scan (s : PmmState) (count limit : Nat) :
    Nat -> Nat -> Option (Option Nat × List Nat)
  | 0, _ => none
  | fuel + 1, i =>
      if i < limit then
        match testRun s i count 0 with
        | (none, tested) => some (some i, tested)
        | (some j, tested) =>
            (scan s count limit fuel (Word.add (Word.add i j) 1)).map
              (fun r => (r.1, tested ++ r.2))
      else
        some (none, [])

def setRun (s : PmmState) (i : Nat) : Nat -> Nat -> PmmState
  | 0, _ => s
  | n + 1, j => setRun (bitmapSet s (Word.add i j)) i n (j + 1)

def takeRun (s : PmmState) (i count : Nat) : PmmState :=
  let s := setRun s i count 0
  { s with
    freePages := Word.sub s.freePages count
    lastSearchIndex := Word.add i count }

structure AllocResult where
  ret : Nat
  state : PmmState
  tested : List Nat
  set : List Nat

def runPages (i count : Nat) : List Nat :=
  (List.range count).map (fun j => Word.add i j)

def allocFound (s : PmmState) (i count : Nat) (tested : List Nat) :
    AllocResult where
  ret := Word.mul i pageSize
  state := takeRun s i count
  tested := tested
  set := runPages i count

def pmmAlloc (s : PmmState) (count : Nat) : Option AllocResult := do
  let (found, tested) <-
    scan s count (Word.sub s.totalPages count) scanFuel s.lastSearchIndex
  match found with
  | some i => some (allocFound s i count tested)
  | none =>
      let (found', tested') <- scan s count s.lastSearchIndex scanFuel 0
      match found' with
      | some i => some (allocFound s i count (tested ++ tested'))
      | none =>
          some { ret := 0, state := s, tested := tested ++ tested', set := [] }

def pmmFree (s : PmmState) (ptr count : Nat) : PmmState :=
  clearPages s (ptr / pageSize) count 0

end Pmm
end Barium
