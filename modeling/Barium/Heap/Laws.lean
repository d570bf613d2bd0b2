import Mathlib.Order.Bounds.Basic
import Barium.Heap.Invariant

/-!
# Laws of the heap

What single calls do to the block list of any reachable heap: `kmalloc` takes the
first block that fits, `kfree` takes a `kmalloc` back, and the order of releases
does not matter.
-/

namespace Barium
namespace Heap

open Foundation
open BlockList

/-!
# First fit
-/

def Candidate (blocks : List Block) (size : Nat) (b : Block) : Prop :=
  b ∈ blocks ∧ b.free = true ∧ size <= b.size

/-- The result of a call that asks for `size` bytes, which are rounded up to
`rounded`. -/
structure FirstFit (mem : WordMemory) (blocks : List Block)
    (size rounded : Nat) (mem' : WordMemory) (ret : Nat) : Prop where
  lowest : ret ≠ 0 -> exists b, Candidate blocks rounded b ∧
    ret = b.payload headerSize ∧
    forall c, Candidate blocks rounded c -> b.addr <= c.addr
  null_iff : ret = 0 <-> forall b, ¬ Candidate blocks rounded b
  room : ret ≠ 0 -> size <= payloadSize mem' ret
  unchanged : ret = 0 -> mem' = mem

theorem roundUp_isLeast {size r : Nat} (hsize : size + 7 < 2 ^ 64)
    (hr : IsLeast { n | 8 ∣ n ∧ size <= n } r) : roundUp size = r := by
  have hround : roundUp size = (size + 7) / 8 * 8 := by
    rw [roundUp_eq, Word.add_of_lt hsize]
  have hmem : 8 ∣ (size + 7) / 8 * 8 ∧ size <= (size + 7) / 8 * 8 := by
    constructor
    · exact Nat.dvd_mul_left 8 _
    · lia
  have hle : r <= (size + 7) / 8 * 8 := hr.right hmem
  rcases hr.left with ⟨⟨k, hk⟩, hsize⟩
  rw [hround]
  lia

section FirstFit

variable {pool : Nat} {mem : WordMemory} {blocks : List Block} {size : Nat}

theorem firstFit_lowest {lo hi : Nat} {before after : List Block} {b c : Block}
    (htiles : Tiles headerSize lo blocks hi)
    (hfit : firstFit size blocks = some (before, b, after))
    (hc : Candidate blocks size c) : b.addr <= c.addr := by
  rcases firstFit_some hfit with ⟨hsplit, _, hbefore⟩
  rcases hc with ⟨hmem, hfits⟩
  rw [hsplit] at hmem htiles
  rcases List.mem_append.mp hmem with hleft | hright
  · exact absurd hfits (hbefore c hleft)
  · cases hright with
    | head => exact Nat.le_refl _
    | tail _ hafter =>
        have hpairs := (List.pairwise_append.mp
          (tiles_pairwise htiles)).right.left
        have hle := List.rel_of_pairwise_cons hpairs hafter
        unfold Block.finish at hle
        lia

theorem firstFit_candidate {before after : List Block} {b : Block}
    (hfit : firstFit size blocks = some (before, b, after)) :
    Candidate blocks size b := by
  rcases firstFit_some hfit with ⟨hsplit, hfits, _⟩
  refine ⟨?_, hfits⟩
  rw [hsplit]
  exact List.mem_append_right _ List.mem_cons_self

theorem kmalloc_null (h : Represents pool mem blocks) (hsize : size ≠ 0)
    (hfit : firstFit (roundUp size) blocks = none) :
    kmalloc mem pool size = some (mem, 0) := by
  have hsearch := kmallocLoop_search (roundUp size) h.layout
    (show blocks.length < loopFuel from Nat.lt_of_succ_lt h.length_lt)
  rw [h.firstAddr_eq, hfit] at hsearch
  rw [kmalloc, if_neg hsize, hsearch]

theorem firstFit_null {rounded : Nat}
    (h : forall b, ¬ Candidate blocks rounded b) :
    FirstFit mem blocks size rounded mem 0 := by
  constructor
  · intro hne
    exact absurd rfl hne
  · exact ⟨fun _ => h, fun _ => rfl⟩
  · intro hne
    exact absurd rfl hne
  · intro _
    rfl

theorem payloadSize_of_represents {b : Block}
    (h : Represents pool mem blocks) (hb : b ∈ blocks) :
    payloadSize mem (b.payload headerSize) = b.size := by
  rcases layout_mem h.layout hb with ⟨_, _, hheader⟩
  unfold payloadSize Block.payload
  rw [Nat.add_sub_cancel]
  exact hheader.size_eq

theorem kmalloc_firstFit (hpool : pool + poolSize < 2 ^ 64)
    (h : Represents pool mem blocks) (hpos : size ≠ 0)
    (hle : size <= roundUp size) :
    exists mem' ret, kmalloc mem pool size = some (mem', ret) ∧
      FirstFit mem blocks size (roundUp size) mem' ret := by
  cases hfit : firstFit (roundUp size) blocks with
  | none =>
      have hnone : forall b, ¬ Candidate blocks (roundUp size) b :=
        fun b hb => firstFit_none hfit b hb.left hb.right
      exact ⟨mem, 0, kmalloc_null h hpos hfit, firstFit_null hnone⟩
  | some found =>
      rcases found with ⟨before, b, after⟩
      rcases kmalloc_represents hpool h hpos with ⟨mem', hrun, hrep, _⟩
      unfold mallocBlocks at hrun hrep
      rw [hfit] at hrun hrep
      dsimp only at hrun hrep
      have hcandidate := firstFit_candidate hfit
      have hret : b.payload headerSize ≠ 0 := by
        unfold Block.payload headerSize
        lia
      refine ⟨mem', _, hrun, ?_⟩
      constructor
      · intro _
        exists b
        exact ⟨hcandidate, rfl, fun c hc => firstFit_lowest h.tiles hfit hc⟩
      · constructor
        · intro hzero
          exact absurd hzero hret
        · intro hnone
          exact absurd hcandidate (hnone b)
      · intro _
        have hmem := carve_mem headerSize 16 (roundUp size) b
        have hpayload := payloadSize_of_represents hrep
          (List.mem_append_left after (List.mem_append_right before hmem))
        refine Nat.le_trans ?_ (Nat.le_of_eq hpayload.symm)
        dsimp only
        split
        case isTrue => exact hle
        case isFalse => exact Nat.le_trans hle hcandidate.right.right
      · intro hzero
        exact absurd hzero hret

theorem roundUp_wraps (hlow : 2 ^ 64 - 8 < size) (hword : size < 2 ^ 64) :
    roundUp size = 0 := by
  have hadd : Word.add size 7 = size + 7 - 2 ^ 64 := by
    unfold Word.add
    lia
  rw [roundUp_eq, hadd]
  lia

theorem kmalloc_wraps (hpool : pool + poolSize < 2 ^ 64)
    (h : Represents pool mem blocks) (hlow : 2 ^ 64 - 8 < size)
    (hword : size < 2 ^ 64) {b : Block} (hb : b ∈ blocks)
    (hfree : b.free = true) :
    exists mem' ret, kmalloc mem pool size = some (mem', ret) ∧ ret ≠ 0 := by
  have hpos : size ≠ 0 := by lia
  rcases kmalloc_represents hpool h hpos with ⟨mem', hrun, _⟩
  refine ⟨mem', _, hrun, ?_⟩
  rw [roundUp_wraps hlow hword]
  unfold mallocBlocks
  cases hfit : firstFit 0 blocks with
  | none => exact absurd ⟨hfree, Nat.zero_le _⟩ (firstFit_none hfit b hb)
  | some found =>
      rcases found with ⟨before, c, after⟩
      show c.addr + headerSize ≠ 0
      unfold headerSize
      lia

end FirstFit

theorem kmalloc_reachable_firstFit {pool : Nat} {s : HeapState} (hne : pool ≠ 0)
    (hpool : pool + poolSize < 2 ^ 64)
    (hreach : (heapSystem pool).Reachable s) {size r : Nat} (hpos : 0 < size)
    (hword : size < 2 ^ 64)
    (hr : IsLeast { n | 8 ∣ n ∧ size <= n } r) :
    exists blocks mem ret, blockList s.mem pool = some blocks ∧
      kmalloc s.mem pool size = some (mem, ret) ∧
      (FirstFit s.mem blocks size r mem ret <->
        size <= 2 ^ 64 - 8 ∨ forall b, b ∈ blocks -> b.free = false) := by
  rcases heapInvariant_reachable hne hpool hreach with ⟨blocks, hinv⟩
  have hrep := hinv.represents
  have hlist := hrep.blockList_eq
  by_cases hsmall : size <= 2 ^ 64 - 8
  · have hround : roundUp size = r := roundUp_isLeast (by lia) hr
    have hle : size <= roundUp size := by
      rw [hround]
      exact hr.left.right
    rcases kmalloc_firstFit hpool hrep (Nat.ne_of_gt hpos) hle with
      ⟨mem, ret, hrun, hfit⟩
    rw [hround] at hfit
    exact ⟨blocks, mem, ret, hlist, hrun, iff_of_true hfit (Or.inl hsmall)⟩
  · have hnone : forall b, ¬ Candidate blocks r b := by
      intro b hb
      have hlarge : 2 ^ 64 <= r := by
        rcases hr.left with ⟨⟨k, hk⟩, hle⟩
        lia
      have hbounds := hrep.bounds hb.left
      have hfits := hb.right.right
      lia
    by_cases hfree : exists b, b ∈ blocks ∧ b.free = true
    · rcases hfree with ⟨b, hb, hbfree⟩
      rcases kmalloc_wraps hpool hrep (by lia) hword hb hbfree with
        ⟨mem, ret, hrun, hret⟩
      refine ⟨blocks, mem, ret, hlist, hrun, iff_of_false ?_ ?_⟩
      · intro hfit
        exact hret (hfit.null_iff.mpr hnone)
      · rintro (hle | hused)
        · exact hsmall hle
        · rw [hused b hb] at hbfree
          cases hbfree
    · have hused : forall b, b ∈ blocks -> b.free = false := by
        intro b hb
        exact Bool.eq_false_of_not_eq_true (fun hb' => hfree ⟨b, hb, hb'⟩)
      have hfit : firstFit (roundUp size) blocks = none := by
        cases hfound : firstFit (roundUp size) blocks with
        | none => rfl
        | some found =>
            rcases found with ⟨before, b, after⟩
            rcases firstFit_candidate hfound with ⟨hb, hbfree, _⟩
            exact absurd ⟨b, hb, hbfree⟩ hfree
      have hrun := kmalloc_null hrep (Nat.ne_of_gt hpos) hfit
      refine ⟨blocks, s.mem, 0, hlist, hrun,
        iff_of_true (firstFit_null hnone) (Or.inr hused)⟩

theorem freshHeap_reachable : (heapSystem 0x1000000).Reachable freshHeap :=
  ⟨freshHeap, [], ⟨⟨_, rfl⟩, rfl⟩, TransitionSystem.Runs.nil _⟩

theorem kmalloc_reachable_firstFit_fresh :
    exists blocks mem ret, blockList freshHeap.mem 0x1000000 = some blocks ∧
      kmalloc freshHeap.mem 0x1000000 100 = some (mem, ret) ∧
      FirstFit freshHeap.mem blocks 100 104 mem ret := by
  have hleast : IsLeast { n | 8 ∣ n ∧ 100 <= n } 104 := by
    constructor
    · exact ⟨by decide, by decide⟩
    · intro n hn
      rcases hn with ⟨⟨k, hk⟩, hle⟩
      lia
  rcases kmalloc_reachable_firstFit (by decide) (by decide) freshHeap_reachable
    (by decide) (by decide) hleast with ⟨blocks, mem, ret, hlist, hrun, hfit⟩
  exact ⟨blocks, mem, ret, hlist, hrun, hfit.mpr (Or.inl (by decide))⟩

/-- The largest request is rounded to 0 bytes, and every free block has room for
those. -/
theorem kmalloc_largest :
    (heapSystem 0x1000000).Reachable freshHeap ∧
    IsLeast { n | 8 ∣ n ∧ 2 ^ 64 - 1 <= n } (2 ^ 64) ∧
    blockList freshHeap.mem 0x1000000 = some (initialBlocks 0x1000000) ∧
    (forall b, ¬ Candidate (initialBlocks 0x1000000) (2 ^ 64) b) ∧
    exists mem,
      kmalloc freshHeap.mem 0x1000000 (2 ^ 64 - 1) = some (mem, 0x1000018) ∧
      payloadSize mem 0x1000018 = 0 := by
  refine ⟨freshHeap_reachable, ?_, ?_, ?_, ?_⟩
  · constructor
    · exact ⟨by decide, by decide⟩
    · intro n hn
      rcases hn with ⟨⟨k, hk⟩, hle⟩
      lia
  · exact (heapInit_represents _ (by decide)).blockList_eq
  · intro b hb
    rcases hb with ⟨hmem, _, hle⟩
    rw [List.mem_singleton.mp hmem] at hle
    exact absurd hle (by decide)
  · exact ⟨allocateAt freshHeap.mem 0x1000000 0, rfl, rfl⟩

/-!
# Releasing a block at once
-/

section Undo

variable {pool : Nat} {mem : WordMemory} {blocks : List Block} {size : Nat}

/-- The remainder of a split is merged back, and nothing else is. -/
theorem freeBlocks_mallocBlocks {lo hi : Nat}
    (htiles : Tiles headerSize lo blocks hi)
    (hadj : NoAdjacentFree blocks)
    (hret : (mallocBlocks size blocks).2 ≠ 0) :
    freeBlocks (mallocBlocks size blocks).2 (mallocBlocks size blocks).1 =
      blocks := by
  unfold mallocBlocks at hret ⊢
  cases hfit : firstFit size blocks with
  | none =>
      rw [hfit] at hret
      exact absurd rfl hret
  | some found =>
      rcases found with ⟨before, b, after⟩
      rcases firstFit_some hfit with ⟨hsplit, hfits, _⟩
      dsimp only
      rw [hsplit] at htiles hadj
      have hpairs := List.pairwise_append.mp (tiles_pairwise htiles)
      have hbefore : forall c, c ∈ before -> c.addr ≠ b.addr := by
        intro c hc
        have hle := hpairs.right.right c hc b List.mem_cons_self
        unfold Block.finish headerSize at hle
        lia
      have hafter : forall c, c ∈ after -> c.addr ≠ b.addr := by
        intro c hc
        have hle := List.rel_of_pairwise_cons hpairs.right.left hc
        unfold Block.finish headerSize at hle
        lia
      have haddr : b.payload headerSize - headerSize = b.addr :=
        Nat.add_sub_cancel _ _
      unfold freeBlocks
      rw [haddr, List.append_assoc, markFree_append,
        markFree_of_not_mem hbefore,
        mergeFree_append_congr before
          (mergeFree_carve hfits.left after hafter (by decide)),
        mergeFree_eq_self hadj, hsplit]

theorem mallocBlocks_mem (hret : (mallocBlocks size blocks).2 ≠ 0) :
    exists b, b ∈ (mallocBlocks size blocks).1 ∧
      (mallocBlocks size blocks).2 = b.payload headerSize := by
  unfold mallocBlocks at hret ⊢
  cases hfit : firstFit size blocks with
  | none =>
      rw [hfit] at hret
      exact absurd rfl hret
  | some found =>
      rcases found with ⟨before, b, after⟩
      exact ⟨_, List.mem_append_left after (List.mem_append_right before
        (carve_mem headerSize 16 size b)), rfl⟩

end Undo

theorem kfree_kmalloc {pool : Nat} {s : HeapState} (hne : pool ≠ 0)
    (hpool : pool + poolSize < 2 ^ 64)
    (hreach : (heapSystem pool).Reachable s) {size p : Nat} {mem : WordMemory}
    (hrun : kmalloc s.mem pool size = some (mem, p)) (hp : p ≠ 0) :
    exists blocks mem', kfree mem pool p = some mem' ∧
      blockList mem' pool = some blocks ∧
      blockList s.mem pool = some blocks := by
  rcases heapInvariant_reachable hne hpool hreach with ⟨blocks, hinv⟩
  have hpos : size ≠ 0 := by
    intro hzero
    rw [kmalloc, if_pos hzero] at hrun
    cases hrun
    exact hp rfl
  rcases kmalloc_represents hpool hinv.represents hpos with
    ⟨mem₁, hrun₁, hrep, _⟩
  rw [hrun₁] at hrun
  cases hrun
  rcases mallocBlocks_mem hp with ⟨b, hb, hpb⟩
  rcases kfree_represents hpool hrep hb with ⟨mem', hfree, hrep', _⟩
  rw [← hpb] at hfree hrep'
  rw [freeBlocks_mallocBlocks hinv.represents.tiles hinv.noAdjacent hp]
    at hrep'
  exact ⟨blocks, mem', hfree, hrep'.blockList_eq,
    hinv.represents.blockList_eq⟩

theorem kfree_kmalloc_fresh :
    exists blocks mem',
      kfree (allocateAt freshHeap.mem 0x1000000 104) 0x1000000 0x1000018 =
        some mem' ∧
      blockList mem' 0x1000000 = some blocks ∧
      blockList freshHeap.mem 0x1000000 = some blocks := by
  have hrun : kmalloc freshHeap.mem 0x1000000 100 =
      some (allocateAt freshHeap.mem 0x1000000 104, 0x1000018) := rfl
  exact kfree_kmalloc (by decide) (by decide) freshHeap_reachable hrun
    (by decide)

/-!
# The order of releases
-/

def kfreeAll (pool : Nat) : List Nat -> WordMemory -> Option WordMemory
  | [], mem => some mem
  | p :: rest, mem => (kfree mem pool p).bind (kfreeAll pool rest)

/-- The block list after any releases is determined by the blocks that are
released. -/
theorem kfreeAll_represents {pool : Nat} {s : HeapState} {blocks : List Block}
    (hpool : pool + poolSize < 2 ^ 64) (hinv : HeapInvariant pool s blocks)
    {ptrs : List Nat} (hnodup : ptrs.Nodup)
    (hlive : forall p, p ∈ ptrs -> p ∈ s.live) :
    exists mem, kfreeAll pool ptrs s.mem = some mem ∧
      Represents pool mem (mergeFree headerSize
        (markAll (ptrs.map (fun p => p - headerSize)) blocks)) := by
  induction ptrs generalizing s blocks with
  | nil =>
      refine ⟨s.mem, rfl, ?_⟩
      show Represents pool s.mem (mergeFree headerSize blocks)
      rw [mergeFree_eq_self hinv.noAdjacent]
      exact hinv.represents
  | cons p rest ih =>
      rw [List.nodup_cons] at hnodup
      rcases (hinv.live_iff p).mp (hlive p List.mem_cons_self) with
        ⟨b, hb, _, hpb⟩
      rcases kfree_represents hpool hinv.represents hb with
        ⟨mem, hrun, hrep, _⟩
      have hinv' := heapInvariant_free hinv hrep
      rw [← hpb] at hrun hinv'
      have hrest : forall q, q ∈ rest -> q ∈ s.live.erase p := by
        intro q hq
        apply Finset.mem_erase.mpr
        constructor
        · intro heq
          rw [heq] at hq
          exact hnodup.left hq
        · exact hlive q (List.mem_cons_of_mem p hq)
      rcases ih hinv' hnodup.right hrest with ⟨mem', hrun', hrep'⟩
      refine ⟨mem', ?_, ?_⟩
      · rw [kfreeAll, hrun]
        exact hrun'
      · unfold freeBlocks at hrep'
        rw [mergeFree_markAll] at hrep'
        exact hrep'

theorem kfreeAll_perm {pool : Nat} {s : HeapState} (hne : pool ≠ 0)
    (hpool : pool + poolSize < 2 ^ 64)
    (hreach : (heapSystem pool).Reachable s) {ptrs ptrs' : List Nat}
    (hnodup : ptrs.Nodup) (hlive : forall p, p ∈ ptrs -> p ∈ s.live)
    (hperm : ptrs.Perm ptrs') :
    exists blocks mem mem', kfreeAll pool ptrs s.mem = some mem ∧
      kfreeAll pool ptrs' s.mem = some mem' ∧
      blockList mem pool = some blocks ∧
      blockList mem' pool = some blocks := by
  rcases heapInvariant_reachable hne hpool hreach with ⟨blocks, hinv⟩
  rcases kfreeAll_represents hpool hinv hnodup hlive with ⟨mem, hrun, hrep⟩
  have hlive' : forall p, p ∈ ptrs' -> p ∈ s.live :=
    fun p hp => hlive p (hperm.mem_iff.mpr hp)
  rcases kfreeAll_represents hpool hinv (hperm.nodup hnodup) hlive' with
    ⟨mem', hrun', hrep'⟩
  rw [← markAll_perm (hperm.map (fun p => p - headerSize))] at hrep'
  exact ⟨_, mem, mem', hrun, hrun', hrep.blockList_eq, hrep'.blockList_eq⟩

def twoAllocations : HeapState where
  mem := allocateAt oneAllocation.mem.clearLog 0x1000080 200
  live := {0x1000098, 0x1000018}

theorem twoAllocations_reachable :
    (heapSystem 0x1000000).Reachable twoAllocations := by
  apply TransitionSystem.reachable_step (l := HeapEvent.kmalloc 200 0x1000098)
    oneAllocation_reachable
  exact HeapStep.kmalloc (by decide) rfl

theorem kfreeAll_perm_two :
    exists blocks mem mem',
      kfreeAll 0x1000000 [0x1000018, 0x1000098] twoAllocations.mem =
        some mem ∧
      kfreeAll 0x1000000 [0x1000098, 0x1000018] twoAllocations.mem =
        some mem' ∧
      blockList mem 0x1000000 = some blocks ∧
      blockList mem' 0x1000000 = some blocks :=
  kfreeAll_perm (by decide) (by decide) twoAllocations_reachable (by decide)
    (by decide) (List.Perm.swap _ _ [])

end Heap
end Barium
