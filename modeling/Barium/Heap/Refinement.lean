import Barium.Foundation.BlockList
import Barium.Heap.Model

/-!
# The heap refines a block list

The headers in memory represent a list of blocks.  `kmalloc` on the headers is
first-fit allocation on the list, and `kfree` is release with merging.
-/

namespace Barium
namespace Heap

open Foundation
open BlockList

/-!
# Representation

`Layout` says that the headers of a list of blocks stand in memory, each
pointing to the next and the last one to null.
-/

def firstAddr : List Block -> Nat
  | [] => 0
  | b :: _ => b.addr

def flagWord (free : Bool) : Nat :=
  (if free then 1 else 0) + heapMagic * 2 ^ 32

structure Header (mem : WordMemory) (b : Block) (next : Nat) : Prop where
  size_eq : mem.load b.addr = b.size
  next_eq : mem.load (b.addr + 8) = next
  flag_eq : mem.load (b.addr + 16) = flagWord b.free

def Layout (mem : WordMemory) : List Block -> Prop
  | [] => True
  | b :: rest => b.addr ≠ 0 ∧ Header mem b (firstAddr rest) ∧ Layout mem rest

def HeaderWord (b : Block) (a : Nat) : Prop :=
  a = b.addr ∨ a = b.addr + 8 ∨ a = b.addr + 16

theorem flagWord_mod (free : Bool) :
    flagWord free % 2 ^ 32 = if free then 1 else 0 := by
  cases free <;> rfl

theorem flagWord_div (free : Bool) : flagWord free / 2 ^ 32 = heapMagic := by
  cases free <;> rfl

theorem Header.blockFree_ne_zero {mem : WordMemory} {b : Block} {next : Nat}
    (h : Header mem b next) : blockFree mem b.addr ≠ 0 <-> b.free = true := by
  unfold blockFree
  rw [h.flag_eq, flagWord_mod]
  cases b.free <;> simp

theorem Header.blockMagic_eq {mem : WordMemory} {b : Block} {next : Nat}
    (h : Header mem b next) : blockMagic mem b.addr = heapMagic := by
  unfold blockMagic
  rw [h.flag_eq, flagWord_div]

theorem header_congr {mem mem' : WordMemory} {b : Block} {next : Nat}
    (h : Header mem b next)
    (hsame : forall a, HeaderWord b a -> mem'.load a = mem.load a) :
    Header mem' b next := by
  refine ⟨?_, ?_, ?_⟩
  · rw [hsame _ (Or.inl rfl), h.size_eq]
  · rw [hsame _ (Or.inr (Or.inl rfl)), h.next_eq]
  · rw [hsame _ (Or.inr (Or.inr rfl)), h.flag_eq]

theorem layout_congr {mem mem' : WordMemory} {blocks : List Block}
    (h : Layout mem blocks)
    (hsame : forall b, b ∈ blocks -> forall a, HeaderWord b a ->
      mem'.load a = mem.load a) :
    Layout mem' blocks := by
  induction blocks with
  | nil => trivial
  | cons b rest ih =>
      rcases h with ⟨hne, hheader, htail⟩
      refine ⟨hne, header_congr hheader (hsame b List.mem_cons_self), ?_⟩
      exact ih htail (fun c hc => hsame c (List.mem_cons_of_mem b hc))

theorem layout_mem {mem : WordMemory} {blocks : List Block}
    (h : Layout mem blocks) {b : Block} (hb : b ∈ blocks) :
    b.addr ≠ 0 ∧ exists next, Header mem b next := by
  induction blocks with
  | nil => cases hb
  | cons c rest ih =>
      rcases h with ⟨hne, hheader, htail⟩
      cases hb with
      | head => exact ⟨hne, _, hheader⟩
      | tail _ hb => exact ih htail hb

/-!
Replacing the middle of a list by another list that starts at the same address
only needs the headers of the middle.
-/

theorem firstAddr_append (left : List Block) {right right' : List Block}
    (h : firstAddr right = firstAddr right') :
    firstAddr (left ++ right) = firstAddr (left ++ right') := by
  cases left with
  | nil => exact h
  | cons b rest => rfl

theorem layout_replace {mem mem' : WordMemory}
    {left right right' : List Block}
    (h : Layout mem (left ++ right))
    (hfirst : firstAddr right = firstAddr right')
    (hsame : forall b, b ∈ left -> forall a, HeaderWord b a ->
      mem'.load a = mem.load a)
    (hright : Layout mem' right') : Layout mem' (left ++ right') := by
  induction left with
  | nil => exact hright
  | cons b rest ih =>
      rcases h with ⟨hne, hheader, htail⟩
      refine ⟨hne, ?_, ih htail (fun c hc => hsame c (List.mem_cons_of_mem b hc))⟩
      show Header mem' b (firstAddr (rest ++ right'))
      rw [← firstAddr_append rest hfirst]
      exact header_congr hheader (hsame b List.mem_cons_self)

theorem layout_right {mem : WordMemory} {left right : List Block}
    (h : Layout mem (left ++ right)) : Layout mem right := by
  induction left with
  | nil => exact h
  | cons b rest ih => exact ih h.right.right

/-!
# Searching

The search of `kmalloc` does not write, and stops at the first block that fits.
-/

def allocateAt (mem : WordMemory) (current size : Nat) : WordMemory :=
  let mem :=
    if Word.add (Word.add size headerSize) 16 < blockSize mem current then
      splitBlock mem current size
    else
      mem
  setFree mem current 0

theorem kmallocLoop_search {mem : WordMemory} (size : Nat)
    {blocks : List Block} (h : Layout mem blocks) {fuel : Nat}
    (hfuel : blocks.length < fuel) :
    kmallocLoop mem size fuel (firstAddr blocks) =
      match firstFit size blocks with
      | none => some (mem, 0)
      | some (_, b, _) =>
          some (allocateAt mem b.addr size, Word.add b.addr headerSize) := by
  induction blocks generalizing fuel with
  | nil =>
      cases fuel with
      | zero => cases hfuel
      | succ fuel => rfl
  | cons b rest ih =>
      rcases h with ⟨hne, hheader, htail⟩
      cases fuel with
      | zero => cases hfuel
      | succ fuel =>
          have hfit : (blockFree mem b.addr ≠ 0 ∧ size <= blockSize mem b.addr) <->
              Fits size b := by
            rw [hheader.blockFree_ne_zero, blockSize, hheader.size_eq]
            exact Iff.rfl
          show kmallocLoop mem size (fuel + 1) b.addr = _
          rw [kmallocLoop, if_neg hne]
          by_cases hb : Fits size b
          · rw [if_pos (hfit.mpr hb)]
            simp only [firstFit, if_pos hb]
            rfl
          · rw [if_neg (fun hc => hb (hfit.mp hc)), blockNext, hheader.next_eq]
            simp only [List.length_cons] at hfuel
            rw [ih htail (by lia)]
            simp only [firstFit, if_neg hb]
            cases firstFit size rest with
            | none => rfl
            | some found => rfl

/-!
# Allocating

The memory after an allocation, word by word.
-/

theorem load_setFree (mem : WordMemory) (block v a : Nat) :
    (setFree mem block v).load a =
      if a = block + 16 then v + blockMagic mem block * 2 ^ 32
      else mem.load a :=
  mem.load_store _ _ a

theorem load_setMagic_setFree (mem : WordMemory) (block a : Nat) :
    (setMagic (setFree mem block 1) block heapMagic).load a =
      if a = block + 16 then flagWord true else mem.load a := by
  unfold setMagic
  rw [WordMemory.load_store, load_setFree]
  split
  · unfold blockFree
    rw [load_setFree, if_pos rfl, Nat.add_mul_mod_self_right]
    rfl
  · rfl

theorem splitBlock_load (mem : WordMemory) {current size newBlock : Nat}
    (hnew : Word.add (Word.add current headerSize) size = newBlock)
    (hapart : current + headerSize <= newBlock) (a : Nat) :
    (splitBlock mem current size).load a =
      if a = current + 8 then newBlock
      else if a = current then size
      else if a = newBlock + 16 then flagWord true
      else if a = newBlock + 8 then blockNext mem current
      else if a = newBlock then
        Word.sub (Word.sub (blockSize mem current) size) headerSize
      else mem.load a := by
  unfold headerSize at hapart
  unfold splitBlock
  simp only [hnew]
  rw [setNext, WordMemory.load_store, setSize, WordMemory.load_store,
    load_setMagic_setFree, setNext, WordMemory.load_store, setSize,
    WordMemory.load_store]
  unfold blockNext
  rw [WordMemory.load_store, if_neg (show current + 8 ≠ newBlock by lia)]

theorem allocateAt_of_split {mem : WordMemory} {b : Block} {next size : Nat}
    (hheader : Header mem b next) (hsize : b.size <= poolSize)
    (hsplit : size + headerSize + 16 < b.size) :
    allocateAt mem b.addr size =
      setFree (splitBlock mem b.addr size) b.addr 0 := by
  unfold poolSize at hsize
  unfold headerSize at hsplit
  unfold allocateAt blockSize headerSize
  rw [hheader.size_eq, Word.add_of_lt (x := size) (by lia),
    Word.add_of_lt (by lia), if_pos hsplit]

theorem allocateAt_of_whole {mem : WordMemory} {b : Block} {next size : Nat}
    (hheader : Header mem b next) (hsize : b.size <= poolSize)
    (hfits : size <= b.size)
    (hwhole : ¬ size + headerSize + 16 < b.size) :
    allocateAt mem b.addr size = setFree mem b.addr 0 := by
  unfold poolSize at hsize
  unfold headerSize at hwhole
  unfold allocateAt blockSize headerSize
  rw [hheader.size_eq, Word.add_of_lt (x := size) (by lia),
    Word.add_of_lt (by lia), if_neg hwhole]

/-- The two headers that a split leaves behind. -/
theorem splitBlock_headers {mem : WordMemory} {b : Block} {next size : Nat}
    (hheader : Header mem b next) (hend : b.finish headerSize <= 2 ^ 64)
    (hsize : b.size <= poolSize) (hsplit : size + headerSize + 16 < b.size) :
    let mem' := setFree (splitBlock mem b.addr size) b.addr 0
    let newBlock := b.addr + headerSize + size
    Header mem' { b with size := size, free := false } newBlock ∧
      Header mem'
        { addr := newBlock, size := b.size - size - headerSize, free := true }
        next ∧
      forall a, a < b.addr ∨ b.finish headerSize <= a ->
        mem'.load a = mem.load a := by
  intro mem' newBlock
  unfold Block.finish headerSize at hend
  unfold headerSize at hsplit
  have hnew : Word.add (Word.add b.addr headerSize) size = newBlock := by
    unfold headerSize
    rw [Word.add_of_lt (x := b.addr) (by lia), Word.add_of_lt (by lia)]
    rfl
  have hload : forall a, mem'.load a =
      if a = b.addr + 16 then flagWord false
      else if a = b.addr + 8 then newBlock
      else if a = b.addr then size
      else if a = newBlock + 16 then flagWord true
      else if a = newBlock + 8 then next
      else if a = newBlock then b.size - size - headerSize
      else mem.load a := by
    intro a
    have hapart : b.addr + headerSize <= newBlock := Nat.le_add_right _ _
    have hmagic : blockMagic (splitBlock mem b.addr size) b.addr =
        heapMagic := by
      unfold blockMagic
      rw [splitBlock_load mem hnew hapart]
      unfold newBlock headerSize
      repeat rw [if_neg (by lia)]
      exact hheader.blockMagic_eq
    have hrest : Word.sub (Word.sub (blockSize mem b.addr) size) headerSize =
        b.size - size - headerSize := by
      unfold blockSize headerSize
      unfold poolSize at hsize
      rw [hheader.size_eq, Word.sub_of_le (x := b.size) (by lia) (by lia),
        Word.sub_of_le (by lia) (by lia)]
    rw [load_setFree, splitBlock_load mem hnew hapart, hmagic, hrest,
      blockNext, hheader.next_eq]
    rfl
  unfold newBlock headerSize at hload ⊢
  unfold Block.finish
  refine ⟨⟨?_, ?_, ?_⟩, ⟨?_, ?_, ?_⟩, ?_⟩
  · rw [hload]
    simp
  · rw [hload]
    simp
  · rw [hload]
    simp
  · simp only
    rw [hload]
    repeat rw [if_neg (by lia)]
    rw [if_pos rfl]
  · simp only
    rw [hload]
    repeat rw [if_neg (by lia)]
    rw [if_pos rfl]
  · simp only
    rw [hload]
    repeat rw [if_neg (by lia)]
    rw [if_pos rfl]
  · intro a ha
    rw [hload]
    repeat rw [if_neg (by lia)]

theorem allocateAt_layout {mem : WordMemory} {before after : List Block}
    {b : Block} {size lo hi : Nat}
    (hlayout : Layout mem (before ++ b :: after))
    (htiles : Tiles headerSize lo (before ++ b :: after) hi)
    (hhi : hi <= 2 ^ 64) (hsize : b.size <= poolSize)
    (hfits : Fits size b) :
    Layout (allocateAt mem b.addr size)
      (before ++ carve headerSize 16 size b ++ after) := by
  rcases layout_right hlayout with ⟨hne, hheader, hafter⟩
  rcases tiles_append.mp htiles with ⟨mid, hbefore, hmid, htail⟩
  have hend : b.finish headerSize <= 2 ^ 64 := le_trans (tiles_le htail) hhi
  have hpayload : b.addr + 24 <= b.finish headerSize := Nat.le_add_right _ _
  have hleft : forall c, c ∈ before -> forall a, HeaderWord c a -> a < b.addr := by
    intro c hc a ha
    have hbound := (tiles_mem hbefore hc).right
    unfold Block.finish headerSize at hbound
    unfold HeaderWord at ha
    lia
  have hright : forall c, c ∈ after -> forall a, HeaderWord c a ->
      b.finish headerSize <= a := by
    intro c hc a ha
    have hbound := (tiles_mem htail hc).left
    unfold HeaderWord at ha
    lia
  rw [List.append_assoc]
  by_cases hsplit : size + headerSize + 16 < b.size
  · rcases splitBlock_headers hheader hend hsize hsplit with
      ⟨hfirst, hsecond, hsame⟩
    rw [allocateAt_of_split hheader hsize hsplit, carve, if_pos hsplit]
    refine layout_replace hlayout rfl ?_ ?_
    · intro c hc a ha
      exact hsame a (Or.inl (hleft c hc a ha))
    · refine ⟨hne, hfirst, by simp only; lia, hsecond, ?_⟩
      exact layout_congr hafter
        (fun c hc a ha => hsame a (Or.inr (hright c hc a ha)))
  · rw [allocateAt_of_whole hheader hsize hfits.right hsplit, carve,
      if_neg hsplit]
    have hsame : forall a, a ≠ b.addr + 16 ->
        (setFree mem b.addr 0).load a = mem.load a := by
      intro a ha
      rw [load_setFree, if_neg ha]
    refine layout_replace hlayout rfl ?_ ?_
    · intro c hc a ha
      exact hsame a (by have := hleft c hc a ha; lia)
    · refine ⟨hne, ⟨?_, ?_, ?_⟩, ?_⟩
      · rw [hsame _ (by simp), hheader.size_eq]
      · rw [hsame _ (by simp), hheader.next_eq]
        rfl
      · rw [load_setFree, if_pos rfl, hheader.blockMagic_eq]
        rfl
      · exact layout_congr hafter
          (fun c hc a ha => hsame a (by have := hright c hc a ha; lia))

/-!
# Merging

The loop of `kfree` writes only the size and next words of listed headers.
-/

def LinkWord (blocks : List Block) (a : Nat) : Prop :=
  exists b, b ∈ blocks ∧ (a = b.addr ∨ a = b.addr + 8)

theorem firstAddr_mergeFree (b : Block) (rest : List Block) :
    firstAddr (mergeFree headerSize (b :: rest)) = b.addr := by
  rcases mergeFree_head headerSize b rest with ⟨c, merged, heq, haddr, _⟩
  rw [heq]
  exact haddr

theorem linkWord_ne_header {lo hi : Nat} {b : Block} {rest : List Block}
    (htiles : Tiles headerSize lo (b :: rest) hi) {a : Nat}
    (ha : HeaderWord b a) : ¬ LinkWord rest a := by
  rintro ⟨c, hc, hac⟩
  have hbound := (tiles_mem htiles.right hc).left
  unfold Block.finish headerSize at hbound
  unfold HeaderWord at ha
  lia

theorem linkWord_cons {b : Block} {rest : List Block} {a : Nat} :
    LinkWord (b :: rest) a <->
      (a = b.addr ∨ a = b.addr + 8) ∨ LinkWord rest a := by
  unfold LinkWord
  constructor
  · rintro ⟨c, hc, ha⟩
    cases hc with
    | head => exact Or.inl ha
    | tail _ hc => exact Or.inr ⟨c, hc, ha⟩
  · rintro (ha | ⟨c, hc, ha⟩)
    · exact ⟨b, List.mem_cons_self, ha⟩
    · exact ⟨c, List.mem_cons_of_mem b hc, ha⟩

theorem layout_absorb {mem : WordMemory} {lo hi : Nat} {b c : Block}
    {tail : List Block} (hlayout : Layout mem (b :: c :: tail))
    (htiles : Tiles headerSize lo (b :: c :: tail) hi) :
    Layout ((mem.store b.addr (absorb headerSize b c).size).store (b.addr + 8)
      (firstAddr tail)) (absorb headerSize b c :: tail) := by
  rcases hlayout with ⟨hne, hheader, _, _, htail⟩
  rcases htiles with ⟨_, hc, htail'⟩
  unfold Block.finish headerSize at hc
  refine ⟨hne, ⟨?_, ?_, ?_⟩, ?_⟩
  · simp [WordMemory.load_store, absorb]
  · simp [absorb]
  · simp [WordMemory.load_store, absorb, hheader.flag_eq]
  · refine layout_congr htail ?_
    intro d hd a ha
    have hbound := (tiles_mem htail' hd).left
    unfold Block.finish headerSize at hbound
    unfold HeaderWord at ha
    rw [WordMemory.load_store, if_neg (by lia), WordMemory.load_store,
      if_neg (by lia)]

theorem tiles_absorb {lo hi : Nat} {b c : Block} {tail : List Block}
    (htiles : Tiles headerSize lo (b :: c :: tail) hi) :
    Tiles headerSize lo (absorb headerSize b c :: tail) hi := by
  rcases htiles with ⟨hb, hc, htail⟩
  refine ⟨hb, ?_⟩
  unfold Block.finish at hc htail ⊢
  unfold absorb
  rw [show b.addr + headerSize + (b.size + (c.size + headerSize)) =
    c.addr + headerSize + c.size by lia]
  exact htail

def absorbAt (mem : WordMemory) (b c : Block) (tail : List Block) : WordMemory :=
  (mem.store b.addr (absorb headerSize b c).size).store (b.addr + 8)
    (firstAddr tail)

theorem kfreeLoop_merge_step {fuel : Nat} {mem : WordMemory} {lo hi : Nat}
    {b c : Block} {tail : List Block}
    (hlayout : Layout mem (b :: c :: tail))
    (htiles : Tiles headerSize lo (b :: c :: tail) hi) (hhi : hi <= 2 ^ 64)
    (hboth : b.free = true ∧ c.free = true) :
    kfreeLoop (fuel + 1) mem b.addr =
      kfreeLoop fuel (absorbAt mem b c tail) b.addr := by
  rcases hlayout with ⟨hne, hheader, hcne, hcheader, _⟩
  have hnext : blockNext mem b.addr = c.addr := hheader.next_eq
  have hbc := htiles.right.left
  have hcend := tiles_le htiles.right.right
  unfold Block.finish headerSize at hbc hcend
  have hsize : Word.add (blockSize mem b.addr)
      (Word.add (blockSize mem c.addr) headerSize) =
      (absorb headerSize b c).size := by
    unfold blockSize headerSize
    rw [hheader.size_eq, hcheader.size_eq,
      Word.add_of_lt (x := c.size) (by lia), Word.add_of_lt (by lia)]
    rfl
  have hlink : forall v,
      blockNext (setSize mem b.addr v) b.addr = c.addr ∧
      blockNext (setSize mem b.addr v) c.addr = firstAddr tail := by
    intro v
    unfold blockNext setSize
    rw [mem.load_store_of_ne v (by lia), mem.load_store_of_ne v (by lia)]
    exact ⟨hnext, hcheader.next_eq⟩
  rw [kfreeLoop, if_neg hne, hnext,
    if_pos ⟨hheader.blockFree_ne_zero.mpr hboth.left, hcne,
      hcheader.blockFree_ne_zero.mpr hboth.right⟩]
  simp only [hsize, (hlink _).left, (hlink _).right]
  rfl

theorem kfreeLoop_skip_step {fuel : Nat} {mem : WordMemory} {b c : Block}
    {tail : List Block} (hlayout : Layout mem (b :: c :: tail))
    (hnot : ¬ (b.free = true ∧ c.free = true)) :
    kfreeLoop (fuel + 1) mem b.addr = kfreeLoop fuel mem c.addr := by
  rcases hlayout with ⟨hne, hheader, hcne, hcheader, _⟩
  have hnext : blockNext mem b.addr = c.addr := hheader.next_eq
  rw [kfreeLoop, if_neg hne, hnext, if_neg]
  rintro ⟨hb, _, hc⟩
  exact hnot ⟨hheader.blockFree_ne_zero.mp hb,
    hcheader.blockFree_ne_zero.mp hc⟩

theorem kfreeLoop_last {fuel : Nat} {mem : WordMemory} {b : Block}
    (hlayout : Layout mem [b]) :
    kfreeLoop (fuel + 2) mem b.addr = some mem := by
  rcases hlayout with ⟨hne, hheader, _⟩
  have hnext : blockNext mem b.addr = 0 := hheader.next_eq
  rw [kfreeLoop, if_neg hne, hnext, if_neg (by simp), kfreeLoop, if_pos rfl]

/-- What the loop leaves behind, for the part of the list it still walks. -/
structure Merged (mem mem' : WordMemory) (blocks : List Block) : Prop where
  layout : Layout mem' (mergeFree headerSize blocks)
  frame : forall a, ¬ LinkWord blocks a -> mem'.load a = mem.load a
  written : forall a, a ∈ mem'.written -> a ∈ mem.written ∨ LinkWord blocks a

theorem merged_absorb {mem mem' : WordMemory} {b c : Block}
    {tail : List Block} (hboth : b.free = true ∧ c.free = true)
    (h : Merged (absorbAt mem b c tail) mem' (absorb headerSize b c :: tail)) :
    Merged mem mem' (b :: c :: tail) := by
  rcases h with ⟨hlayout, hframe, hwritten⟩
  refine ⟨?_, ?_, ?_⟩
  · rw [mergeFree_absorb hboth.left hboth.right]
    exact hlayout
  · intro a ha
    rw [linkWord_cons, linkWord_cons] at ha
    have hb : a ≠ b.addr ∧ a ≠ b.addr + 8 := by tauto
    have htail : ¬ LinkWord (absorb headerSize b c :: tail) a := by
      rw [linkWord_cons]
      exact fun h => h.elim (fun h => h.elim hb.left hb.right) (by tauto)
    rw [hframe a htail, absorbAt, WordMemory.load_store_of_ne _ _ hb.right,
      WordMemory.load_store_of_ne _ _ hb.left]
  · intro a ha
    rw [linkWord_cons, linkWord_cons]
    rcases hwritten a ha with hold | hlink
    · simp only [absorbAt, WordMemory.written_store, List.mem_cons] at hold
      tauto
    · have hlink' := linkWord_cons.mp hlink
      simp only [absorb] at hlink'
      tauto

theorem merged_skip {mem mem' : WordMemory} {lo hi : Nat} {b c : Block}
    {tail : List Block} (hlayout : Layout mem (b :: c :: tail))
    (htiles : Tiles headerSize lo (b :: c :: tail) hi)
    (hnot : ¬ (b.free = true ∧ c.free = true))
    (h : Merged mem mem' (c :: tail)) :
    Merged mem mem' (b :: c :: tail) := by
  rcases h with ⟨hlayout', hframe, hwritten⟩
  refine ⟨?_, ?_, ?_⟩
  · rw [mergeFree_skip hnot]
    refine ⟨hlayout.left, ?_, hlayout'⟩
    rw [firstAddr_mergeFree]
    exact header_congr hlayout.right.left
      (fun a ha => hframe a (linkWord_ne_header htiles ha))
  · intro a ha
    exact hframe a (fun hlink => ha (linkWord_cons.mpr (Or.inr hlink)))
  · intro a ha
    exact (hwritten a ha).imp id (fun hlink => linkWord_cons.mpr (Or.inr hlink))

theorem kfreeLoop_merged {fuel : Nat} {mem : WordMemory} {lo hi : Nat}
    {b : Block} {rest : List Block}
    (hlayout : Layout mem (b :: rest))
    (htiles : Tiles headerSize lo (b :: rest) hi) (hhi : hi <= 2 ^ 64)
    (hfuel : rest.length + 1 < fuel) :
    exists mem', kfreeLoop fuel mem b.addr = some mem' ∧
      Merged mem mem' (b :: rest) := by
  induction rest generalizing fuel mem b lo with
  | nil =>
      obtain ⟨fuel, rfl⟩ : exists k, fuel = k + 2 := ⟨fuel - 2, by simp at hfuel; lia⟩
      exact ⟨mem, kfreeLoop_last hlayout, hlayout, fun _ _ => rfl,
        fun _ h => Or.inl h⟩
  | cons c tail ih =>
      obtain ⟨fuel, rfl⟩ : exists k, fuel = k + 1 := ⟨fuel - 1, by lia⟩
      simp only [List.length_cons] at hfuel
      by_cases hboth : b.free = true ∧ c.free = true
      · rcases ih (layout_absorb hlayout htiles) (tiles_absorb htiles)
          (show tail.length + 1 < fuel by lia) with ⟨mem', hrun, hmerged⟩
        refine ⟨mem', ?_, merged_absorb hboth hmerged⟩
        rw [kfreeLoop_merge_step hlayout htiles hhi hboth]
        exact hrun
      · rcases ih hlayout.right.right htiles.right
          (show tail.length + 1 < fuel by lia) with ⟨mem', hrun, hmerged⟩
        refine ⟨mem', ?_, merged_skip hlayout htiles hboth hmerged⟩
        rw [kfreeLoop_skip_step hlayout hboth]
        exact hrun

/-!
# The two operations

`Represents` is the abstraction relation between the pool and a block list.
Both operations are total on represented heaps, and their effect on the list is
the abstract operation.
-/

structure Represents (pool : Nat) (mem : WordMemory)
    (blocks : List Block) : Prop where
  layout : Layout mem blocks
  tiles : Tiles headerSize pool blocks (pool + poolSize)
  aligned : forall b, b ∈ blocks -> b.size % 8 = 0

def mallocBlocks (size : Nat) (blocks : List Block) : List Block × Nat :=
  match firstFit size blocks with
  | none => (blocks, 0)
  | some (before, b, after) =>
      (before ++ carve headerSize 16 size b ++ after, b.payload headerSize)

def freeBlocks (ptr : Nat) (blocks : List Block) : List Block :=
  mergeFree headerSize (markFree (ptr - headerSize) blocks)

section Operations

variable {pool : Nat} {mem : WordMemory} {blocks : List Block}

theorem Represents.ne_nil (h : Represents pool mem blocks) : blocks ≠ [] := by
  intro hnil
  have htiles := h.tiles
  rw [hnil] at htiles
  have : pool = pool + poolSize := htiles
  unfold poolSize at this
  lia

theorem Represents.firstAddr_eq (h : Represents pool mem blocks) :
    firstAddr blocks = pool := by
  cases blocks with
  | nil => exact absurd rfl h.ne_nil
  | cons b rest => exact h.tiles.left

theorem Represents.bounds (h : Represents pool mem blocks) {b : Block}
    (hb : b ∈ blocks) :
    pool <= b.addr ∧ b.addr + 24 + b.size <= pool + poolSize :=
  tiles_mem h.tiles hb

theorem tiles_length {header lo hi : Nat} {blocks : List Block}
    (hpos : 0 < header) (h : Tiles header lo blocks hi) :
    lo + blocks.length <= hi := by
  induction blocks generalizing lo with
  | nil => exact (show lo = hi from h).le
  | cons b rest ih =>
      have hrest := ih h.right
      have haddr := h.left
      unfold Block.finish at hrest
      rw [List.length_cons]
      lia

theorem Represents.length_lt (h : Represents pool mem blocks) :
    blocks.length + 1 < loopFuel := by
  have hlen := tiles_length (by decide) h.tiles
  unfold poolSize at hlen
  unfold loopFuel
  lia

theorem firstAddr_markFree (addr : Nat) (blocks : List Block) :
    firstAddr (markFree addr blocks) = firstAddr blocks := by
  cases blocks with
  | nil => rfl
  | cons b rest =>
      unfold markFree
      simp only [List.map_cons, firstAddr]
      split <;> rfl

theorem headers_apart {lo hi : Nat} (htiles : Tiles headerSize lo blocks hi)
    {b c : Block} (hb : b ∈ blocks) (hc : c ∈ blocks) :
    c.addr = b.addr ∨ c.addr + 24 <= b.addr ∨ b.addr + 24 <= c.addr := by
  by_cases heq : c = b
  · rw [heq]
    exact Or.inl rfl
  · have hapart := tiles_apart htiles hc hb heq
    unfold Block.finish headerSize at hapart
    lia

theorem setFree_layout {addr : Nat} (hmagic : blockMagic mem addr = heapMagic)
    (hlayout : Layout mem blocks)
    (hapart : forall c, c ∈ blocks ->
      c.addr = addr ∨ c.addr + 24 <= addr ∨ addr + 24 <= c.addr) :
    Layout (setFree mem addr 1) (markFree addr blocks) := by
  induction blocks with
  | nil => trivial
  | cons c rest ih =>
      rcases hlayout with ⟨hne, hheader, htail⟩
      have hrest := ih htail (fun d hd => hapart d (List.mem_cons_of_mem c hd))
      have hc := hapart c List.mem_cons_self
      unfold markFree at hrest ⊢
      rw [List.map_cons]
      refine ⟨by split <;> exact hne, ?_, hrest⟩
      show Header _ _ (firstAddr (markFree addr rest))
      rw [firstAddr_markFree]
      by_cases heq : c.addr = addr
      · rw [if_pos heq]
        refine ⟨?_, ?_, ?_⟩
        · rw [load_setFree, if_neg (by simp only; lia), hheader.size_eq]
        · rw [load_setFree, if_neg (by simp only; lia), hheader.next_eq]
        · rw [load_setFree, if_pos (by simp only; lia), hmagic]
          rfl
      · rw [if_neg heq]
        refine header_congr hheader ?_
        intro a ha
        unfold HeaderWord at ha
        rw [load_setFree, if_neg (by lia)]

theorem tiles_markFree {lo hi : Nat} (addr : Nat)
    (htiles : Tiles headerSize lo blocks hi) :
    Tiles headerSize lo (markFree addr blocks) hi := by
  induction blocks generalizing lo with
  | nil => exact htiles
  | cons c rest ih =>
      rcases htiles with ⟨haddr, htail⟩
      unfold markFree
      rw [List.map_cons]
      by_cases heq : c.addr = addr
      · rw [if_pos heq]
        exact ⟨haddr, ih htail⟩
      · rw [if_neg heq]
        exact ⟨haddr, ih htail⟩

/-!
## Alignment
-/

theorem aligned_carve {size : Nat} {b : Block} (hsize : size % 8 = 0)
    (hb : b.size % 8 = 0) :
    forall c, c ∈ carve headerSize 16 size b -> c.size % 8 = 0 := by
  intro c hc
  unfold carve headerSize at hc
  split at hc
  · rcases List.mem_pair.mp hc with hc | hc
    · rw [hc]
      exact hsize
    · rw [hc]
      simp only
      lia
  · rw [List.mem_singleton.mp hc]
    exact hb

theorem aligned_markFree (addr : Nat)
    (h : forall b, b ∈ blocks -> b.size % 8 = 0) :
    forall b, b ∈ markFree addr blocks -> b.size % 8 = 0 := by
  intro b hb
  unfold markFree at hb
  rcases List.mem_map.mp hb with ⟨c, hc, heq⟩
  rw [← heq]
  split <;> exact h c hc

theorem aligned_mergeFree (h : forall b, b ∈ blocks -> b.size % 8 = 0) :
    forall b, b ∈ mergeFree headerSize blocks -> b.size % 8 = 0 := by
  induction blocks with
  | nil => exact h
  | cons b rest ih =>
      have hb := h b List.mem_cons_self
      have hrest := ih (fun c hc => h c (List.mem_cons_of_mem b hc))
      rw [mergeFree_cons]
      cases hmerged : mergeFree headerSize rest with
      | nil =>
          intro c hc
          rw [List.mem_singleton.mp hc]
          exact hb
      | cons d merged =>
          rw [hmerged] at hrest
          have hd := hrest d List.mem_cons_self
          simp only
          split
          · intro c hc
            cases hc with
            | head =>
                unfold absorb headerSize
                simp only
                lia
            | tail _ hc => exact hrest c (List.mem_cons_of_mem d hc)
          · intro c hc
            cases hc with
            | head => exact hb
            | tail _ hc => exact hrest c hc

/-!
## Allocation
-/

theorem splitBlock_written {current size newBlock : Nat}
    (hnew : Word.add (Word.add current headerSize) size = newBlock) {a : Nat}
    (ha : a ∈ (splitBlock mem current size).written) :
    a ∈ mem.written ∨ (current <= a ∧ a <= current + 8) ∨
      (newBlock <= a ∧ a <= newBlock + 16) := by
  unfold splitBlock at ha
  simp only [hnew, setSize, setNext, setFree, setMagic,
    WordMemory.written_store, List.mem_cons] at ha
  rcases ha with ha | ha | ha | ha | ha | ha | ha
  · exact Or.inr (Or.inl (by lia))
  · exact Or.inr (Or.inl (by lia))
  · exact Or.inr (Or.inr (by lia))
  · exact Or.inr (Or.inr (by lia))
  · exact Or.inr (Or.inr (by lia))
  · exact Or.inr (Or.inr (by lia))
  · exact Or.inl ha

theorem allocateAt_written {b : Block} {next size : Nat}
    (hheader : Header mem b next) (hend : b.finish headerSize <= 2 ^ 64)
    (hsize : b.size <= poolSize) (hfits : Fits size b) {a : Nat}
    (ha : a ∈ (allocateAt mem b.addr size).written) :
    a ∈ mem.written ∨ (b.addr <= a ∧ a + 8 <= b.finish headerSize) := by
  unfold Block.finish headerSize at hend ⊢
  by_cases hsplit : size + headerSize + 16 < b.size
  · rw [allocateAt_of_split hheader hsize hsplit] at ha
    unfold headerSize at hsplit
    have hnew : Word.add (Word.add b.addr headerSize) size =
        b.addr + 24 + size := by
      unfold headerSize
      rw [Word.add_of_lt (x := b.addr) (by lia), Word.add_of_lt (by lia)]
    simp only [setFree, WordMemory.written_store, List.mem_cons] at ha
    rcases ha with ha | ha
    · exact Or.inr (by lia)
    · rcases splitBlock_written hnew ha with hold | hcurrent | hother
      · exact Or.inl hold
      · exact Or.inr (by lia)
      · exact Or.inr (by lia)
  · rw [allocateAt_of_whole hheader hsize hfits.right hsplit] at ha
    simp only [setFree, WordMemory.written_store, List.mem_cons] at ha
    rcases ha with ha | ha
    · exact Or.inr (by lia)
    · exact Or.inl ha

def InsideBlock (b : Block) (a : Nat) : Prop :=
  b.addr <= a ∧ a + 8 <= b.finish headerSize

theorem kmalloc_represents (hpool : pool + poolSize < 2 ^ 64)
    (h : Represents pool mem blocks) {size : Nat} (hsize : size ≠ 0) :
    exists mem',
      kmalloc mem pool size =
        some (mem', (mallocBlocks (roundUp size) blocks).2) ∧
      Represents pool mem' (mallocBlocks (roundUp size) blocks).1 ∧
      forall a, a ∈ mem'.written -> a ∈ mem.written ∨
        exists b, b ∈ blocks ∧ b.free = true ∧ InsideBlock b a := by
  have hsearch := kmallocLoop_search (roundUp size) h.layout
    (show blocks.length < loopFuel from Nat.lt_of_succ_lt h.length_lt)
  rw [h.firstAddr_eq] at hsearch
  unfold kmalloc mallocBlocks
  rw [if_neg hsize, hsearch]
  cases hfit : firstFit (roundUp size) blocks with
  | none => exact ⟨mem, rfl, h, fun a ha => Or.inl ha⟩
  | some found =>
      rcases found with ⟨before, b, after⟩
      rcases firstFit_some hfit with ⟨hsplit, hfits, _⟩
      have hb : b ∈ blocks := by
        rw [hsplit]
        simp
      have hbounds := h.bounds hb
      have hend : b.finish headerSize <= 2 ^ 64 :=
        le_trans hbounds.right hpool.le
      have hbsize : b.size <= poolSize := by lia
      have hlayout := h.layout
      have htiles := h.tiles
      rw [hsplit] at hlayout htiles
      have hheader := (layout_right hlayout).right.left
      refine ⟨allocateAt mem b.addr (roundUp size), ?_, ⟨?_, ?_, ?_⟩, ?_⟩
      · have hret : Word.add b.addr headerSize = b.payload headerSize :=
          Word.add_of_lt (by unfold headerSize; lia)
        simp only [hret]
      · exact allocateAt_layout hlayout htiles hpool.le hbsize hfits
      · exact tiles_carve htiles
      · intro c hc
        have haligned := h.aligned
        rw [hsplit] at haligned
        simp only [List.mem_append] at hc
        rcases hc with (hc | hc) | hc
        · exact haligned c (by simp [hc])
        · exact aligned_carve (roundUp_mod size) (h.aligned b hb) c hc
        · exact haligned c (by simp [hc])
      · intro a ha
        rcases allocateAt_written hheader hend hbsize hfits ha with hold | hin
        · exact Or.inl hold
        · exact Or.inr ⟨b, hb, hfits.left, hin⟩

/-!
## Release
-/

theorem kfree_represents (hpool : pool + poolSize < 2 ^ 64)
    (h : Represents pool mem blocks) {b : Block} (hb : b ∈ blocks) :
    exists mem',
      kfree mem pool (b.payload headerSize) = some mem' ∧
      Represents pool mem' (freeBlocks (b.payload headerSize) blocks) ∧
      forall a, a ∈ mem'.written -> a ∈ mem.written ∨
        exists c, c ∈ blocks ∧ HeaderWord c a := by
  rcases layout_mem h.layout hb with ⟨hne, next, hheader⟩
  have hbounds := h.bounds hb
  have hblock : Word.sub (b.payload headerSize) headerSize = b.addr := by
    unfold Block.payload headerSize
    rw [Word.sub_of_le (by lia) (by lia), Nat.add_sub_cancel]
  have hmark : markFree (b.payload headerSize - headerSize) blocks =
      markFree b.addr blocks := by
    unfold Block.payload
    rw [Nat.add_sub_cancel]
  have hlayout : Layout (setFree mem b.addr 1) (markFree b.addr blocks) :=
    setFree_layout hheader.blockMagic_eq h.layout
      (fun c hc => headers_apart h.tiles hb hc)
  have htiles := tiles_markFree b.addr h.tiles
  have hfirst : firstAddr (markFree b.addr blocks) = pool := by
    rw [firstAddr_markFree, h.firstAddr_eq]
  have hlength : (markFree b.addr blocks).length = blocks.length :=
    List.length_map _
  unfold kfree freeBlocks
  rw [if_neg (by unfold Block.payload headerSize; lia)]
  simp only [hblock]
  rw [if_neg (fun hc => hc hheader.blockMagic_eq), hmark]
  have haligned := aligned_mergeFree (aligned_markFree b.addr h.aligned)
  have hmarked : forall c, c ∈ markFree b.addr blocks ->
      exists d, d ∈ blocks ∧ d.addr = c.addr := by
    intro c hc
    rcases List.mem_map.mp hc with ⟨d, hd, heq⟩
    refine ⟨d, hd, ?_⟩
    rw [← heq]
    split <;> rfl
  have hfuel := h.length_lt
  generalize markFree b.addr blocks = marked at *
  cases marked with
  | nil => exact absurd (List.length_eq_zero_iff.mp hlength.symm) h.ne_nil
  | cons c rest =>
      have hc : c.addr = pool := hfirst
      rw [List.length_cons] at hlength
      have hwalk : rest.length + 1 < loopFuel := by lia
      rcases kfreeLoop_merged hlayout htiles hpool.le hwalk with
        ⟨mem', hrun, hmerged⟩
      rw [hc] at hrun
      refine ⟨mem', hrun, ⟨hmerged.layout, tiles_mergeFree htiles, haligned⟩, ?_⟩
      · intro a ha
        rcases hmerged.written a ha with hold | hlink
        · simp only [setFree, WordMemory.written_store, List.mem_cons] at hold
          rcases hold with hold | hold
          · exact Or.inr ⟨b, hb, Or.inr (Or.inr hold)⟩
          · exact Or.inl hold
        · rcases hlink with ⟨d, hd, hda⟩
          rcases hmarked d hd with ⟨e, he, heq⟩
          refine Or.inr ⟨e, he, ?_⟩
          unfold HeaderWord
          rw [heq]
          exact hda.elim Or.inl (fun hnext => Or.inr (Or.inl hnext))

end Operations

end Heap
end Barium
