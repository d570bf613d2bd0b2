import Barium.Foundation.Word
import Barium.Foundation.WordMemory

/-!
# The kernel heap

`heap.c`: one pool of pages, divided into blocks whose headers live in the pool
itself.  `heap_block_t` is three words: the size, the pointer to the next block,
and a word that holds the free flag in its low and the magic number in its high
half.

The loops of `kmalloc` and `kfree` follow pointers in memory, so they are given
fuel; `none` is a loop that has not ended.  A loop over an acyclic list visits
fewer than `2 ^ 64` headers.
-/

namespace Barium
namespace Heap

open Foundation

def headerSize : Nat := 24
def heapMagic : Nat := 0xBA410101
def poolSize : Nat := 1024 * 4096
def loopFuel : Nat := 2 ^ 64

/-!
# Header fields
-/

def blockSize (mem : WordMemory) (block : Nat) : Nat :=
  mem.load block

def blockNext (mem : WordMemory) (block : Nat) : Nat :=
  mem.load (block + 8)

def blockFree (mem : WordMemory) (block : Nat) : Nat :=
  mem.load (block + 16) % 2 ^ 32

def blockMagic (mem : WordMemory) (block : Nat) : Nat :=
  mem.load (block + 16) / 2 ^ 32

def setSize (mem : WordMemory) (block v : Nat) : WordMemory :=
  mem.store block v

def setNext (mem : WordMemory) (block v : Nat) : WordMemory :=
  mem.store (block + 8) v

def setFree (mem : WordMemory) (block v : Nat) : WordMemory :=
  mem.store (block + 16) (v + blockMagic mem block * 2 ^ 32)

def setMagic (mem : WordMemory) (block v : Nat) : WordMemory :=
  mem.store (block + 16) (blockFree mem block + v * 2 ^ 32)

/-!
# The heap functions

`pool` is the block of pages that `pmm_alloc(1024)` returned, and `heap_start`
afterwards.
-/

def heapInit (mem : WordMemory) (pool : Nat) : WordMemory :=
  let mem := setSize mem pool (poolSize - headerSize)
  let mem := setNext mem pool 0
  let mem := setFree mem pool 1
  setMagic mem pool heapMagic

/-- `(size + 7) & ~7`. -/
def roundUp (size : Nat) : Nat :=
  Word.add size 7 &&& (2 ^ 64 - 8)

def splitBlock (mem : WordMemory) (current size : Nat) : WordMemory :=
  let newBlock := Word.add (Word.add current headerSize) size
  let mem := setSize mem newBlock
    (Word.sub (Word.sub (blockSize mem current) size) headerSize)
  let mem := setNext mem newBlock (blockNext mem current)
  let mem := setFree mem newBlock 1
  let mem := setMagic mem newBlock heapMagic
  let mem := setSize mem current size
  setNext mem current newBlock

def kmallocLoop (mem : WordMemory) (size : Nat) :
    Nat -> Nat -> Option (WordMemory × Nat)
  | 0, _ => none
  | fuel + 1, current =>
      if current = 0 then
        some (mem, 0)
      else if blockFree mem current ≠ 0 ∧ size <= blockSize mem current then
        let mem :=
          if Word.add (Word.add size headerSize) 16 < blockSize mem current then
            splitBlock mem current size
          else
            mem
        some (setFree mem current 0, Word.add current headerSize)
      else
        kmallocLoop mem size fuel (blockNext mem current)

def kmalloc (mem : WordMemory) (heapStart size : Nat) :
    Option (WordMemory × Nat) :=
  if size = 0 then
    some (mem, 0)
  else
    kmallocLoop mem (roundUp size) loopFuel heapStart

def kfreeLoop : Nat -> WordMemory -> Nat -> Option WordMemory
  | 0, _, _ => none
  | fuel + 1, mem, current =>
      if current = 0 then
        some mem
      else if blockFree mem current ≠ 0 ∧ blockNext mem current ≠ 0 ∧
          blockFree mem (blockNext mem current) ≠ 0 then
        let mem := setSize mem current
          (Word.add (blockSize mem current)
            (Word.add (blockSize mem (blockNext mem current)) headerSize))
        let mem := setNext mem current
          (blockNext mem (blockNext mem current))
        kfreeLoop fuel mem current
      else
        kfreeLoop fuel mem (blockNext mem current)

def kfree (mem : WordMemory) (heapStart ptr : Nat) : Option WordMemory :=
  if ptr = 0 then
    some mem
  else
    let block := Word.sub ptr headerSize
    if blockMagic mem block ≠ heapMagic then
      some mem
    else
      kfreeLoop loopFuel (setFree mem block 1) heapStart

/-!
# Rounding

A request is rounded up to a multiple of eight; a request within seven of the
largest word wraps around to zero.
-/

theorem roundUp_eq (size : Nat) :
    roundUp size = Word.add size 7 / 8 * 8 := by
  unfold roundUp
  exact Word.and_high_mask (Word.add_lt size 7) (by decide : 3 <= 64)

theorem roundUp_mod (size : Nat) : roundUp size % 8 = 0 := by
  rw [roundUp_eq]
  lia

example : roundUp (2 ^ 64 - 1) = 0 := by decide

end Heap
end Barium
