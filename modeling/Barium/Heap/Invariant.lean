import Mathlib.Data.Finset.Basic
import Barium.Foundation.Run
import Barium.Heap.Refinement

/-!
# Heap runs

Runs of the heap from `heap_init`: allocations of any size, releases of live
pointers, and stores of the owners into the payloads they hold.  The invariant
ties the block list to the set of live pointers.
-/

namespace Barium
namespace Heap

open Foundation
open TransitionSystem
open BlockList

/-!
# The block list in memory

Following the next pointers from the pool start reads the list of blocks back.
-/

def walkBlocks (mem : WordMemory) : Nat -> Nat -> Option (List Block)
  | 0, _ => none
  | fuel + 1, current =>
      if current = 0 then
        some []
      else
        (walkBlocks mem fuel (blockNext mem current)).map (fun rest =>
          { addr := current, size := blockSize mem current,
            free := decide (blockFree mem current ≠ 0) } :: rest)

def blockList (mem : WordMemory) (heapStart : Nat) : Option (List Block) :=
  walkBlocks mem loopFuel heapStart

theorem walkBlocks_eq {mem : WordMemory} {blocks : List Block} {fuel : Nat}
    (h : Layout mem blocks) (hfuel : blocks.length < fuel) :
    walkBlocks mem fuel (firstAddr blocks) = some blocks := by
  induction blocks generalizing fuel with
  | nil =>
      cases fuel with
      | zero => cases hfuel
      | succ fuel => rfl
  | cons b rest ih =>
      rcases h with ⟨hne, hheader, htail⟩
      cases fuel with
      | zero => cases hfuel
      | succ fuel =>
          rw [List.length_cons] at hfuel
          have hfree : decide (blockFree mem b.addr ≠ 0) = b.free := by
            cases hb : b.free with
            | false =>
                have hiff := hheader.blockFree_ne_zero
                rw [hb] at hiff
                simpa using hiff
            | true => simpa using hheader.blockFree_ne_zero.mpr hb
          show walkBlocks mem (fuel + 1) b.addr = _
          rw [walkBlocks, if_neg hne, hfree, blockSize, hheader.size_eq,
            blockNext, hheader.next_eq, ih htail (by lia)]
          rfl

theorem Represents.blockList_eq {pool : Nat} {mem : WordMemory}
    {blocks : List Block} (h : Represents pool mem blocks) :
    blockList mem pool = some blocks := by
  have hwalk := walkBlocks_eq h.layout (Nat.lt_of_succ_lt h.length_lt)
  rw [h.firstAddr_eq] at hwalk
  exact hwalk

/-!
# Steps

`live` collects the pointers that `kmalloc` returned and `kfree` has not taken
back.  The log of stores is cleared before every call.
-/

structure HeapState where
  mem : WordMemory
  live : Finset Nat

inductive HeapEvent where
  | kmalloc (size ret : Nat)
  | kfree (ptr : Nat)
  | write (a v : Nat)

def payloadSize (mem : WordMemory) (ptr : Nat) : Nat :=
  blockSize mem (ptr - headerSize)

inductive HeapStep (pool : Nat) : HeapState -> HeapEvent -> HeapState -> Prop where
  | kmalloc {s : HeapState} {size ret : Nat} {mem : WordMemory} :
      size < 2 ^ 64 ->
      Heap.kmalloc s.mem.clearLog pool size = some (mem, ret) ->
      HeapStep pool s (HeapEvent.kmalloc size ret)
        { mem := mem
          live := if ret = 0 then s.live else insert ret s.live }
  | kfree {s : HeapState} {ptr : Nat} {mem : WordMemory} :
      ptr ∈ s.live ->
      Heap.kfree s.mem.clearLog pool ptr = some mem ->
      HeapStep pool s (HeapEvent.kfree ptr)
        { mem := mem, live := s.live.erase ptr }
  | write {s : HeapState} {ptr i v : Nat} :
      ptr ∈ s.live -> 8 * i + 8 <= payloadSize s.mem ptr ->
      HeapStep pool s (HeapEvent.write (ptr + 8 * i) v)
        { s with mem := s.mem.store (ptr + 8 * i) v }

def heapSystem (pool : Nat) : TransitionSystem HeapState HeapEvent where
  Init := fun s =>
    (exists mem, s.mem = heapInit mem pool) ∧ s.live = ∅
  Step := HeapStep pool

/-!
# The invariant
-/

structure HeapInvariant (pool : Nat) (s : HeapState)
    (blocks : List Block) : Prop where
  represents : Represents pool s.mem blocks
  live_iff : forall p, p ∈ s.live <->
    exists b, b ∈ blocks ∧ b.free = false ∧ p = b.payload headerSize
  noAdjacent : NoAdjacentFree blocks

theorem represents_congr {pool : Nat} {mem mem' : WordMemory}
    {blocks : List Block} (h : Represents pool mem blocks)
    (hsame : forall b, b ∈ blocks -> forall a, HeaderWord b a ->
      mem'.load a = mem.load a) :
    Represents pool mem' blocks :=
  ⟨layout_congr h.layout hsame, h.tiles, h.aligned⟩

theorem represents_clearLog {pool : Nat} {mem : WordMemory}
    {blocks : List Block} (h : Represents pool mem blocks) :
    Represents pool mem.clearLog blocks :=
  represents_congr h (fun _ _ _ _ => rfl)

def initialBlocks (pool : Nat) : List Block :=
  [{ addr := pool, size := poolSize - headerSize, free := true }]

theorem initialSize_mod : (poolSize - headerSize) % 8 = 0 := by
  decide

theorem heapInit_represents (mem : WordMemory) {pool : Nat}
    (hpool : pool ≠ 0) :
    Represents pool (heapInit mem pool) (initialBlocks pool) := by
  have hload : forall a, (heapInit mem pool).load a =
      if a = pool + 16 then flagWord true
      else if a = pool + 8 then 0
      else if a = pool then poolSize - headerSize
      else mem.load a := by
    intro a
    unfold heapInit
    simp only
    rw [load_setMagic_setFree, setNext, WordMemory.load_store, setSize,
      WordMemory.load_store]
  refine ⟨⟨hpool, ⟨?_, ?_, ?_⟩, trivial⟩, ⟨rfl, ?_⟩, ?_⟩
  · rw [hload]
    simp
  · rw [hload]
    simp [firstAddr]
  · rw [hload]
    simp
  · show pool + headerSize + (poolSize - headerSize) = pool + poolSize
    rw [Nat.add_assoc, Nat.add_sub_cancel' (by decide)]
  · intro b hb
    rw [List.mem_singleton.mp hb]
    exact initialSize_mod

theorem heapInvariant_init {pool : Nat} (hpool : pool ≠ 0) {s : HeapState}
    (hinit : (heapSystem pool).Init s) :
    HeapInvariant pool s (initialBlocks pool) := by
  rcases hinit with ⟨⟨mem, hmem⟩, hlive⟩
  refine ⟨?_, ?_, List.IsChain.singleton _⟩
  · rw [hmem]
    exact heapInit_represents mem hpool
  · intro p
    rw [hlive]
    constructor
    · intro hp
      cases hp
    · rintro ⟨b, hb, hfree, _⟩
      rw [List.mem_singleton.mp hb] at hfree
      cases hfree

/-!
## Live pointers
-/

section Steps

variable {pool : Nat} {s : HeapState} {blocks : List Block}

theorem HeapInvariant.clearLog (hinv : HeapInvariant pool s blocks) :
    Represents pool s.mem.clearLog blocks :=
  represents_clearLog hinv.represents

theorem HeapInvariant.payloadSize_eq (hinv : HeapInvariant pool s blocks)
    {b : Block} (hb : b ∈ blocks) :
    payloadSize s.mem (b.payload headerSize) = b.size := by
  rcases layout_mem hinv.represents.layout hb with ⟨_, next, hheader⟩
  unfold payloadSize Block.payload
  rw [Nat.add_sub_cancel]
  exact hheader.size_eq

theorem HeapInvariant.null_not_live (hinv : HeapInvariant pool s blocks) :
    0 ∉ s.live := by
  intro hlive
  rcases (hinv.live_iff 0).mp hlive with ⟨c, _, _, hpc⟩
  unfold Block.payload headerSize at hpc
  lia

theorem payload_inj {b c : Block}
    (h : b.payload headerSize = c.payload headerSize) : b.addr = c.addr := by
  unfold Block.payload at h
  lia

def OutsideLive (s : HeapState) (a : Nat) : Prop :=
  forall p, p ∈ s.live -> a + 8 <= p ∨ p + payloadSize s.mem p <= a

theorem outsideLive_of_free (hinv : HeapInvariant pool s blocks) {b : Block}
    (hb : b ∈ blocks) (hfree : b.free = true) {a : Nat}
    (ha : InsideBlock b a) : OutsideLive s a := by
  intro p hp
  rcases (hinv.live_iff p).mp hp with ⟨c, hc, hcfree, hpc⟩
  have hne : b ≠ c := by
    intro heq
    rw [heq, hcfree] at hfree
    cases hfree
  have hapart := tiles_apart hinv.represents.tiles hb hc hne
  rw [hpc, hinv.payloadSize_eq hc]
  unfold InsideBlock at ha
  unfold Block.payload
  unfold Block.finish at hapart ha
  lia

theorem outsideLive_of_header (hinv : HeapInvariant pool s blocks) {b : Block}
    (hb : b ∈ blocks) {a : Nat} (ha : HeaderWord b a) : OutsideLive s a := by
  intro p hp
  rcases (hinv.live_iff p).mp hp with ⟨c, hc, _, hpc⟩
  rw [hpc, hinv.payloadSize_eq hc]
  unfold HeaderWord at ha
  unfold Block.payload headerSize
  by_cases heq : b = c
  · rw [heq] at ha
    lia
  · have hapart := tiles_apart hinv.represents.tiles hb hc heq
    unfold Block.finish headerSize at hapart
    lia

/-!
## Allocation
-/

theorem heapInvariant_malloc (hinv : HeapInvariant pool s blocks)
    {size : Nat} {mem : WordMemory}
    (hrep : Represents pool mem (mallocBlocks size blocks).1) :
    HeapInvariant pool
      { mem := mem
        live := if (mallocBlocks size blocks).2 = 0 then s.live
          else insert (mallocBlocks size blocks).2 s.live }
      (mallocBlocks size blocks).1 := by
  unfold mallocBlocks at hrep ⊢
  cases hfit : firstFit size blocks with
  | none =>
      rw [hfit] at hrep
      exact ⟨hrep, hinv.live_iff, hinv.noAdjacent⟩
  | some found =>
      rcases found with ⟨before, b, after⟩
      rcases firstFit_some hfit with ⟨hsplit, hfits, _⟩
      rw [hfit] at hrep
      have hret : b.payload headerSize ≠ 0 := by
        unfold Block.payload headerSize
        lia
      have hnoAdjacent := hinv.noAdjacent
      rw [hsplit] at hnoAdjacent
      refine ⟨hrep, ?_, noAdjacent_carve hfits.left hnoAdjacent⟩
      intro p
      simp only [if_neg hret, Finset.mem_insert, hinv.live_iff]
      constructor
      · rintro (hp | ⟨c, hc, hcfree, hpc⟩)
        · exact ⟨_, List.mem_append_left _ (List.mem_append_right _
            (carve_mem headerSize 16 size b)), rfl, hp⟩
        · rw [hsplit] at hc
          simp only [List.mem_append, List.mem_cons] at hc
          rcases hc with hc | hc | hc
          · exact ⟨c, by simp [hc], hcfree, hpc⟩
          · rw [hc, hfits.left] at hcfree
            cases hcfree
          · exact ⟨c, by simp [hc], hcfree, hpc⟩
      · rintro ⟨c, hc, hcfree, hpc⟩
        simp only [List.mem_append] at hc
        rcases hc with (hc | hc) | hc
        · exact Or.inr ⟨c, by simp [hsplit, hc], hcfree, hpc⟩
        · rw [carve_not_free.mp ⟨hc, hcfree⟩] at hpc
          exact Or.inl hpc
        · exact Or.inr ⟨c, by simp [hsplit, hc], hcfree, hpc⟩

theorem mallocBlocks_fresh (hinv : HeapInvariant pool s blocks) (size : Nat) :
    (mallocBlocks size blocks).2 ∉ s.live := by
  intro hlive
  unfold mallocBlocks at hlive
  cases hfit : firstFit size blocks with
  | none =>
      rw [hfit] at hlive
      exact hinv.null_not_live hlive
  | some found =>
      rcases found with ⟨before, b, after⟩
      rcases firstFit_some hfit with ⟨hsplit, hfits, _⟩
      rw [hfit] at hlive
      rcases (hinv.live_iff _).mp hlive with ⟨c, hc, hcfree, hpc⟩
      have hb : b ∈ blocks := by
        rw [hsplit]
        simp
      have heq := tiles_addr_inj (by decide) hinv.represents.tiles hb hc
        (payload_inj hpc)
      rw [← heq, hfits.left] at hcfree
      cases hcfree

theorem kmalloc_invariant (hpool : pool + poolSize < 2 ^ 64)
    (hinv : HeapInvariant pool s blocks) (size : Nat) :
    exists mem ret blocks',
      kmalloc s.mem.clearLog pool size = some (mem, ret) ∧
      HeapInvariant pool
        { mem := mem, live := if ret = 0 then s.live else insert ret s.live }
        blocks' ∧
      ret ∉ s.live ∧ forall a, a ∈ mem.written -> OutsideLive s a := by
  by_cases hzero : size = 0
  · refine ⟨s.mem.clearLog, 0, blocks, ?_, ?_, ?_, ?_⟩
    · rw [kmalloc, if_pos hzero]
    · exact ⟨hinv.clearLog, hinv.live_iff, hinv.noAdjacent⟩
    · exact hinv.null_not_live
    · intro a ha
      cases ha
  · rcases kmalloc_represents hpool hinv.clearLog hzero with
      ⟨mem, hrun, hrep, hwritten⟩
    refine ⟨mem, _, _, hrun, heapInvariant_malloc hinv hrep,
      mallocBlocks_fresh hinv _, ?_⟩
    intro a ha
    rcases hwritten a ha with hold | ⟨b, hb, hfree, hin⟩
    · cases hold
    · exact outsideLive_of_free hinv hb hfree hin

/-!
## Release
-/

theorem heapInvariant_free (hinv : HeapInvariant pool s blocks) {b : Block}
    {mem : WordMemory}
    (hrep : Represents pool mem (freeBlocks (b.payload headerSize) blocks)) :
    HeapInvariant pool
      { mem := mem, live := s.live.erase (b.payload headerSize) }
      (freeBlocks (b.payload headerSize) blocks) := by
  refine ⟨hrep, ?_, mergeFree_noAdjacent headerSize _⟩
  intro p
  have hptr : b.payload headerSize - headerSize = b.addr :=
    Nat.add_sub_cancel _ _
  simp only [Finset.mem_erase, hinv.live_iff, freeBlocks, hptr]
  constructor
  · rintro ⟨hne, c, hc, hcfree, hpc⟩
    refine ⟨c, (mergeFree_not_free hcfree).mpr ?_, hcfree, hpc⟩
    refine (markFree_not_free.mpr ⟨hc, hcfree, ?_⟩).left
    intro haddr
    apply hne
    rw [hpc, Block.payload, haddr]
    rfl
  · rintro ⟨c, hc, hcfree, hpc⟩
    have hmarked := (mergeFree_not_free hcfree).mp hc
    rcases markFree_not_free.mp ⟨hmarked, hcfree⟩ with ⟨hold, _, haddr⟩
    refine ⟨?_, c, hold, hcfree, hpc⟩
    intro heq
    exact haddr (payload_inj (hpc.symm.trans heq))

theorem kfree_invariant (hpool : pool + poolSize < 2 ^ 64)
    (hinv : HeapInvariant pool s blocks) {ptr : Nat} (hptr : ptr ∈ s.live) :
    exists mem blocks',
      kfree s.mem.clearLog pool ptr = some mem ∧
      HeapInvariant pool { mem := mem, live := s.live.erase ptr } blocks' ∧
      forall a, a ∈ mem.written -> OutsideLive s a := by
  rcases (hinv.live_iff ptr).mp hptr with ⟨b, hb, _, hpb⟩
  rcases kfree_represents hpool hinv.clearLog hb with
    ⟨mem, hrun, hrep, hwritten⟩
  rw [hpb]
  refine ⟨mem, _, hrun, heapInvariant_free hinv hrep, ?_⟩
  intro a ha
  rcases hwritten a ha with hold | ⟨c, hc, hin⟩
  · cases hold
  · exact outsideLive_of_header hinv hc hin

/-!
## Runs
-/

theorem heapInvariant_write (hinv : HeapInvariant pool s blocks)
    {ptr a : Nat} (v : Nat) (hptr : ptr ∈ s.live) (hlow : ptr <= a)
    (hhigh : a + 8 <= ptr + payloadSize s.mem ptr) :
    HeapInvariant pool { s with mem := s.mem.store a v } blocks := by
  refine ⟨?_, hinv.live_iff, hinv.noAdjacent⟩
  refine represents_congr hinv.represents ?_
  intro b hb w hw
  have hout := outsideLive_of_header hinv hb hw ptr hptr
  exact WordMemory.load_store_of_ne _ v (by lia)

theorem heapInvariant_step (hpool : pool + poolSize < 2 ^ 64)
    {event : HeapEvent} {s' : HeapState}
    (hinv : exists blocks, HeapInvariant pool s blocks)
    (hstep : HeapStep pool s event s') :
    exists blocks, HeapInvariant pool s' blocks := by
  rcases hinv with ⟨blocks, hinv⟩
  cases hstep with
  | kmalloc _ hrun =>
      rcases kmalloc_invariant hpool hinv _ with
        ⟨mem', ret', blocks', hrun', hinv', _, _⟩
      rw [hrun] at hrun'
      cases hrun'
      exact ⟨blocks', hinv'⟩
  | kfree hptr hrun =>
      rcases kfree_invariant hpool hinv hptr with
        ⟨mem', blocks', hrun', hinv', _⟩
      rw [hrun] at hrun'
      cases hrun'
      exact ⟨blocks', hinv'⟩
  | write hptr hbound =>
      exact ⟨blocks, heapInvariant_write hinv _ hptr (by lia) (by lia)⟩

theorem heapInvariant_reachable (hne : pool ≠ 0)
    (hpool : pool + poolSize < 2 ^ 64)
    (hreach : (heapSystem pool).Reachable s) :
    exists blocks, HeapInvariant pool s blocks :=
  reachable_invariant
    (P := fun s => exists blocks, HeapInvariant pool s blocks)
    (fun _ hinit => ⟨_, heapInvariant_init hne hinit⟩)
    (fun _ _ _ hinv hstep => heapInvariant_step hpool hinv hstep) hreach

end Steps

/-!
# The tiling of the pool

What the block list read from memory looks like after every run, and which
words the next call writes.
-/

structure PoolTiling (pool : Nat) (mem : WordMemory)
    (blocks : List Block) : Prop where
  head_addr : blocks.head?.map Block.addr = some pool
  next_eq : forall b, b ∈ blocks -> blockNext mem b.addr =
    if b.finish headerSize = pool + poolSize then 0 else b.finish headerSize
  size_mod : forall b, b ∈ blocks -> b.size % 8 = 0
  magic_eq : forall b, b ∈ blocks -> blockMagic mem b.addr = heapMagic
  sum_eq : (blocks.map (fun b => headerSize + b.size)).sum = poolSize

structure LivePayloads (pool : Nat) (s : HeapState)
    (blocks : List Block) : Prop where
  listed : forall p, p ∈ s.live ->
    exists b, b ∈ blocks ∧ b.free = false ∧ p = b.payload headerSize
  inside : forall p, p ∈ s.live ->
    pool <= p ∧ p + payloadSize s.mem p <= pool + poolSize
  disjoint : forall p q, p ∈ s.live -> q ∈ s.live -> p ≠ q ->
    p + payloadSize s.mem p <= q ∨ q + payloadSize s.mem q <= p

structure SafeCalls (pool : Nat) (s : HeapState) : Prop where
  kmalloc_call : forall size, size < 2 ^ 64 -> exists mem ret,
    kmalloc s.mem.clearLog pool size = some (mem, ret) ∧ ret ∉ s.live ∧
      forall a, a ∈ mem.written -> OutsideLive s a
  kfree_call : forall p, p ∈ s.live -> exists mem,
    kfree s.mem.clearLog pool p = some mem ∧
      forall a, a ∈ mem.written -> OutsideLive s a

section Reachable

variable {pool : Nat} {s : HeapState} {blocks : List Block}

theorem next_of_layout {mem : WordMemory} {lo hi : Nat}
    (hlayout : Layout mem blocks) (htiles : Tiles headerSize lo blocks hi)
    {b : Block} (hb : b ∈ blocks) :
    blockNext mem b.addr =
      if b.finish headerSize = hi then 0 else b.finish headerSize := by
  induction blocks generalizing lo with
  | nil => cases hb
  | cons c rest ih =>
      rcases hlayout with ⟨_, hheader, hrest⟩
      rcases htiles with ⟨_, htail⟩
      cases hb with
      | tail _ hb => exact ih hrest htail hb
      | head =>
          rw [blockNext, hheader.next_eq]
          cases rest with
          | nil =>
              rw [if_pos (show b.finish headerSize = hi from htail)]
              rfl
          | cons d tail =>
              have hlt := tiles_length (by decide) htail
              rw [List.length_cons] at hlt
              rw [if_neg (by lia)]
              exact htail.left

theorem Represents.poolTiling {mem : WordMemory}
    (h : Represents pool mem blocks) : PoolTiling pool mem blocks := by
  refine ⟨?_, ?_, h.aligned, ?_, ?_⟩
  · cases blocks with
    | nil => exact absurd rfl h.ne_nil
    | cons b rest => exact congrArg some h.tiles.left
  · intro b hb
    exact next_of_layout h.layout h.tiles hb
  · intro b hb
    rcases layout_mem h.layout hb with ⟨_, next, hheader⟩
    exact hheader.blockMagic_eq
  · have hsum := tiles_sum h.tiles
    lia

theorem HeapInvariant.livePayloads (hinv : HeapInvariant pool s blocks) :
    LivePayloads pool s blocks := by
  refine ⟨fun p hp => (hinv.live_iff p).mp hp, ?_, ?_⟩
  · intro p hp
    rcases (hinv.live_iff p).mp hp with ⟨b, hb, _, hpb⟩
    have hbounds := hinv.represents.bounds hb
    rw [hpb, hinv.payloadSize_eq hb]
    unfold Block.payload headerSize
    lia
  · intro p q hp hq hne
    rcases (hinv.live_iff p).mp hp with ⟨b, hb, _, hpb⟩
    rcases (hinv.live_iff q).mp hq with ⟨c, hc, _, hqc⟩
    have hbc : b ≠ c := by
      intro heq
      exact hne (by rw [hpb, hqc, heq])
    have hapart := tiles_apart hinv.represents.tiles hb hc hbc
    rw [hpb, hqc, hinv.payloadSize_eq hb, hinv.payloadSize_eq hc]
    unfold Block.payload
    unfold Block.finish at hapart
    lia

theorem HeapInvariant.safeCalls (hpool : pool + poolSize < 2 ^ 64)
    (hinv : HeapInvariant pool s blocks) : SafeCalls pool s := by
  constructor
  · intro size _
    rcases kmalloc_invariant hpool hinv size with
      ⟨mem, ret, _, hrun, _, hfresh, hwritten⟩
    exact ⟨mem, ret, hrun, hfresh, hwritten⟩
  · intro p hp
    rcases kfree_invariant hpool hinv hp with ⟨mem, _, hrun, _, hwritten⟩
    exact ⟨mem, hrun, hwritten⟩

theorem heap_reachable_tiling (hne : pool ≠ 0)
    (hpool : pool + poolSize < 2 ^ 64)
    (hreach : (heapSystem pool).Reachable s) :
    exists blocks, blockList s.mem pool = some blocks ∧
      PoolTiling pool s.mem blocks ∧ LivePayloads pool s blocks ∧
      SafeCalls pool s := by
  rcases heapInvariant_reachable hne hpool hreach with ⟨blocks, hinv⟩
  exact ⟨blocks, hinv.represents.blockList_eq, hinv.represents.poolTiling,
    hinv.livePayloads, hinv.safeCalls hpool⟩

end Reachable

def freshHeap : HeapState where
  mem := heapInit { word := fun _ => 0, written := [] } 0x1000000
  live := ∅

def oneAllocation : HeapState where
  mem := allocateAt freshHeap.mem.clearLog 0x1000000 104
  live := {0x1000018}

theorem oneAllocation_reachable :
    (heapSystem 0x1000000).Reachable oneAllocation := by
  refine ⟨freshHeap, [HeapEvent.kmalloc 100 0x1000018], ⟨⟨_, rfl⟩, rfl⟩,
    runs_single ?_⟩
  exact HeapStep.kmalloc (by decide) rfl

theorem heap_reachable_tiling_oneAllocation :
    exists blocks, blockList oneAllocation.mem 0x1000000 = some blocks ∧
      PoolTiling 0x1000000 oneAllocation.mem blocks ∧
      LivePayloads 0x1000000 oneAllocation blocks ∧
      SafeCalls 0x1000000 oneAllocation :=
  heap_reachable_tiling (by decide) (by decide) oneAllocation_reachable

/-!
# Coalescing
-/

theorem heap_reachable_coalesced {pool : Nat} {s : HeapState} (hne : pool ≠ 0)
    (hpool : pool + poolSize < 2 ^ 64)
    (hreach : (heapSystem pool).Reachable s) :
    exists blocks, blockList s.mem pool = some blocks ∧
      NoAdjacentFree blocks ∧
      (s.live = ∅ -> blocks = initialBlocks pool) := by
  rcases heapInvariant_reachable hne hpool hreach with ⟨blocks, hinv⟩
  refine ⟨blocks, hinv.represents.blockList_eq, hinv.noAdjacent, ?_⟩
  intro hlive
  have hfree : forall b, b ∈ blocks -> b.free = true := by
    intro b hb
    cases hbfree : b.free with
    | true => rfl
    | false =>
        have hp := (hinv.live_iff _).mpr ⟨b, hb, hbfree, rfl⟩
        rw [hlive] at hp
        cases hp
  have hsingle := eq_singleton_of_all_free hinv.represents.tiles
    hinv.represents.ne_nil hinv.noAdjacent hfree
  rw [Nat.add_sub_cancel_left] at hsingle
  exact hsingle

def allReleased : HeapState where
  mem := setNext (setSize (setFree oneAllocation.mem.clearLog 0x1000000 1)
    0x1000000 0x3FFFE8) 0x1000000 0
  live := ∅

theorem heap_reachable_coalesced_allReleased :
    allReleased.live = ∅ ∧
      exists blocks, blockList allReleased.mem 0x1000000 = some blocks ∧
        NoAdjacentFree blocks ∧
        (allReleased.live = ∅ -> blocks = initialBlocks 0x1000000) := by
  refine ⟨rfl, heap_reachable_coalesced (by decide) (by decide) ?_⟩
  refine reachable_step (l := HeapEvent.kfree 0x1000018)
    oneAllocation_reachable ?_
  exact HeapStep.kfree (by decide) rfl

end Heap
end Barium
