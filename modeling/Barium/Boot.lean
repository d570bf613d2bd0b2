import Barium.Alpc.SectionTables
import Barium.Pmm.Reservation
import Barium.Vmm.TableCount

/-!
# Memory at boot

`kmain` calls `pmm_init`, `vmm_init` and `heap_init` one after the other.  The
page tables and the pool of the heap come from the same bitmap, and everything
is used through the identity mapping that `vmm_init` builds meanwhile.
-/

namespace Barium
namespace Boot

open Foundation
open Foundation.RunSearch
open Pmm
open Vmm
open Alpc

def heapPages : Nat := 1024

structure BootMemory where
  pml4 : Nat
  vmm : VmmState PmmState
  pool : Nat

/-- `vmm_init` and `heap_init`. -/
def initMemory (pmm : PmmState) (mem : Nat -> Nat) (info : BootInfo) :
    Option BootMemory := do
  let (pml4, vmm) <- vmmInit pmmFrame { mem := mem, frames := pmm } info
  let r <- pmmAlloc vmm.frames heapPages
  some
    { pml4 := pml4
      vmm := { vmm with frames := r.state }
      pool := r.ret }

def bootMemory (ram : ByteMemory) (mem : Nat -> Nat) (info : BootInfo) :
    Option BootMemory :=
  initMemory (pmmInit (bootState ram) info.memoryMap) mem info

/-!
# Frames from the bottom of the memory

The search goes up from where it stopped last, so that the first frames come
from below every long run of free pages.
-/

section Search

variable {pmm : PmmState} {count k : Nat}

theorem pmmAlloc_first (hgood : PmmGood pmm) (hpos : 0 < count)
    (hlast : pmm.lastSearchIndex <= k)
    (hfree : FreeRun (bitmapTest pmm) k count)
    (hend : k + count < pmm.totalPages) :
    exists i tested, pmmAlloc pmm count = some (allocFound pmm i count tested) ∧
      pmm.lastSearchIndex <= i ∧ i <= k ∧
      FreeRun (bitmapTest pmm) i count ∧
      forall q, pmm.lastSearchIndex <= q -> q < i ->
        ¬ FreeRun (bitmapTest pmm) q count := by
  have htotal := hgood.total_lt
  rcases pmmAlloc_outcome (s := pmm) (by lia) (by lia) (by lia) hpos with
    ⟨r, hrun, houtcome⟩
  cases houtcome with
  | @first i tested hspec =>
      rcases hspec.first with ⟨hlow, hhigh, hrunfree, _, hnone⟩
      refine ⟨i, tested, hrun, hlow, ?_, hrunfree, hnone⟩
      by_contra hgt
      exact hnone k hlast (by lia) hfree
  | second hspec _ =>
      exact absurd hfree (hspec.first k hlast (by lia))
  | fail hspec _ _ =>
      exact absurd hfree (hspec.first k hlast (by lia))

theorem takeRun_bits (i : Nat) (hend : i + count <= 2 ^ 64) (p : Nat) :
    bitmapTest (takeRun pmm i count) p = true <->
      (i <= p ∧ p < i + count) ∨ bitmapTest pmm p = true := by
  rcases takeRun_spec (s := pmm) hend with ⟨ram, htake, hbits⟩
  rw [htake]
  exact hbits p

theorem takeRun_other {i : Nat} (hend : i + count <= 2 ^ 64) {p : Nat}
    (hout : ¬ (i <= p ∧ p < i + count)) :
    bitmapTest (takeRun pmm i count) p = bitmapTest pmm p := by
  rw [Bool.eq_iff_iff, takeRun_bits i hend p]
  constructor
  · rintro (hin | hset)
    · exact absurd hin hout
    · exact hset
  · exact Or.inr

end Search

def freePagesIn (pmm : PmmState) (low high : Nat) : Finset Nat :=
  (Finset.Ico low high).filter (fun p => bitmapTest pmm p = false)

/-- There are `k` free pages between the last search and `top`, and the pages
from `top` on are as they were. -/
structure FramesBelow (start : PmmState) (top k : Nat) (pmm : PmmState) :
    Prop where
  good : PmmGood pmm
  words : PmmWords pmm
  zero : bitmapTest pmm 0 = true
  last_le : pmm.lastSearchIndex <= top
  top_lt : top < pmm.totalPages
  room : k <= (freePagesIn pmm pmm.lastSearchIndex top).card
  above : forall p, top <= p -> bitmapTest pmm p = bitmapTest start p
  grows : PmmGrows start pmm

section Frames

variable {start pmm : PmmState} {top k : Nat}

theorem FramesBelow.mono (h : FramesBelow start top k pmm) {n : Nat}
    (hle : n <= k) : FramesBelow start top n pmm :=
  ⟨h.good, h.words, h.zero, h.last_le, h.top_lt, hle.trans h.room, h.above,
    h.grows⟩

structure TakesFrame (pmm : PmmState) (top i : Nat) : Prop where
  low : pmm.lastSearchIndex <= i
  high : i < top
  free : bitmapTest pmm i = false
  busy : forall q, pmm.lastSearchIndex <= q -> q < i ->
    bitmapTest pmm q = true

theorem FramesBelow.takes (h : FramesBelow start top (k + 1) pmm) :
    exists i tested, pmmAlloc pmm 1 = some (allocFound pmm i 1 tested) ∧
      TakesFrame pmm top i := by
  have hroom := h.room
  have htop := h.top_lt
  have hcard : 0 < (freePagesIn pmm pmm.lastSearchIndex top).card := by lia
  rcases Finset.card_pos.mp hcard with ⟨p, hp⟩
  rcases Finset.mem_filter.mp hp with ⟨hin, hfree⟩
  rcases Finset.mem_Ico.mp hin with ⟨hlow, hhigh⟩
  have hsingle : forall q, FreeRun (bitmapTest pmm) q 1 <->
      bitmapTest pmm q = false := by
    intro q
    constructor
    · intro hrun
      exact hrun 0 (by decide)
    · intro hq j hj
      have hzero : j = 0 := by lia
      rw [hzero]
      exact hq
  rcases pmmAlloc_first h.good (by decide) hlow ((hsingle p).mpr hfree)
    (by lia) with ⟨i, tested, hrun, hle, hip, hi, hfirst⟩
  refine ⟨i, tested, hrun, hle, by lia, (hsingle i).mp hi, ?_⟩
  intro q hq hqi
  have hnot := hfirst q hq hqi
  rw [hsingle] at hnot
  exact Bool.eq_true_of_not_eq_false hnot

theorem FramesBelow.taken (h : FramesBelow start top (k + 1) pmm) {i : Nat}
    (hi : TakesFrame pmm top i) :
    FramesBelow start top k (takeRun pmm i 1) := by
  have htop := h.top_lt
  have htotal := h.good.total_lt
  have hhigh := hi.high
  have hend : i + 1 <= 2 ^ 64 := by lia
  rcases takeRun_spec (s := pmm) hend with ⟨ram, htake, hbits⟩
  have hlast : (takeRun pmm i 1).lastSearchIndex = i + 1 := by
    rw [htake]
    exact Word.add_of_lt (by lia)
  have hsame : (takeRun pmm i 1).totalPages = pmm.totalPages := by
    rw [htake]
  refine ⟨h.good.taken (by lia), ?_, ?_, ?_, ?_, ?_, ?_,
    h.grows.trans (takeRun_grows pmm i 1)⟩
  · refine ⟨by lia, ?_⟩
    rw [htake]
    exact Word.sub_lt _ _
  · rw [takeRun_bits i hend]
    exact Or.inr h.zero
  · rw [hlast]
    exact hhigh
  · rw [hsame]
    exact htop
  · -- the page that was taken is the first free one
    have hsub : freePagesIn pmm pmm.lastSearchIndex top ⊆
        insert i (freePagesIn (takeRun pmm i 1) (i + 1) top) := by
      intro p hp
      rcases Finset.mem_filter.mp hp with ⟨hin, hfree⟩
      rcases Finset.mem_Ico.mp hin with ⟨hlow, hpt⟩
      rw [Finset.mem_insert]
      by_cases heq : p = i
      · exact Or.inl heq
      · have hgt : i < p := by
          by_contra hle
          have hbusy := hi.busy p hlow (by lia)
          rw [hfree] at hbusy
          cases hbusy
        refine Or.inr (Finset.mem_filter.mpr
          ⟨Finset.mem_Ico.mpr ⟨hgt, hpt⟩, ?_⟩)
        rw [takeRun_other hend (by lia)]
        exact hfree
    have hcard := Finset.card_le_card hsub
    have hinsert := Finset.card_insert_le i
      (freePagesIn (takeRun pmm i 1) (i + 1) top)
    have hroom := h.room
    rw [hlast]
    lia
  · intro p hp
    rw [takeRun_other hend (by lia)]
    exact h.above p hp

theorem framesBelow_supply (start : PmmState) (top : Nat) :
    Supply pmmFrame frameMarked (FramesBelow start top) := by
  constructor
  · intro k pmm h
    exact h.mono (Nat.le_succ k)
  · intro k pmm h
    rcases h.takes with ⟨i, tested, hrun, _⟩
    exact ⟨_, _, Option.map_eq_some_iff.mpr ⟨_, hrun, rfl⟩⟩
  · intro k pmm f pmm' h halloc
    rcases h.takes with ⟨i, tested, hrun, hi⟩
    have htop := h.top_lt
    have htotal := h.good.total_lt
    have hhigh := hi.high
    have hne : i ≠ 0 := by
      intro heq
      have hfree := hi.free
      rw [heq, h.zero] at hfree
      cases hfree
    have hret : f = i * 4096 := by
      unfold pmmFrame at halloc
      rw [hrun] at halloc
      cases halloc
      exact Word.mul_of_lt (by unfold pageSize; lia)
    have hpage : f / 4096 = i := by lia
    refine ⟨by lia, ⟨by lia, by lia⟩, ?_⟩
    unfold frameMarked
    rw [hpage, hi.free]
    decide
  · intro k pmm f pmm' h halloc
    rcases h.takes with ⟨i, tested, hrun, hi⟩
    have hhigh := hi.high
    unfold pmmFrame at halloc
    rw [hrun] at halloc
    cases halloc
    refine ⟨?_, ?_, h.taken hi⟩
    · have htop := h.top_lt
      have htotal := h.good.total_lt
      have hpage : (allocFound pmm i 1 tested).ret / 4096 = i := by
        show Word.mul i 4096 / 4096 = i
        rw [Word.mul_of_lt (by lia)]
        lia
      unfold frameMarked
      rw [hpage]
      exact (takeRun_bits i (by lia) i).mpr (Or.inl ⟨by lia, by lia⟩)
    · intro g hg
      exact (pmmAlloc_grows hrun).set _ hg

end Frames

/-!
# The layout
-/

def FreeAtBoot (info : BootInfo) (p : Nat) : Prop :=
  InUsable info.memoryMap p ∧ lowMemory / pageSize <= p ∧
    ¬ HoldsBitmap (bitmapPlace info.memoryMap) (mapPages info.memoryMap) p

def HoldsPage (b : BootMemory) (p : Nat) : Prop :=
  p ∈ pageRange b.pool heapPages ∨
    exists t, IsTable b.pml4 b.vmm.mem t ∧ t / 4096 = p

structure BootLayout (info : BootInfo) (b : BootMemory) : Prop where
  free : forall p, HoldsPage b p -> FreeAtBoot info p
  used : forall p, HoldsPage b p -> bitmapTest b.vmm.frames p = true
  kept : forall p, p < b.vmm.frames.totalPages -> ¬ FreeAtBoot info p ->
    bitmapTest b.vmm.frames p = true
  apart : forall t, IsTable b.pml4 b.vmm.mem t ->
    t / 4096 ∉ pageRange b.pool heapPages
  identity : forall virt, virt % 4096 = 0 -> virt < 2 ^ 48 ->
    IdentityPage info b.vmm.mem b.pml4 virt
  reached : forall p, HoldsPage b p ∨
      (bitmapPlace info.memoryMap / pageSize <= p ∧
        p < bitmapPlace info.memoryMap / pageSize +
          bitmapPages info.memoryMap) ->
    translation b.vmm.mem b.pml4 (p * 4096) = some (p * 4096) ∧
      effectivePermissions b.vmm.mem b.pml4 (p * 4096) =
        pageWritable ||| pageUser
  tables : VmmInvariant b.pml4 (initCalls info) b.vmm
  good : PmmGood b.vmm.frames
  words : PmmWords b.vmm.frames

/-- The memory map is as firmware gives it, the bitmap has a place and is right
up to its last bits, there are frames for the tables below `top` and pages for
the heap above it. -/
structure BootRoom (ram : ByteMemory) (info : BootInfo)
    (paths : Finset (List Index)) (top : Nat) : Prop where
  valid : ValidBoot info
  map : WellFormedMap info.memoryMap
  place : bitmapPlace info.memoryMap ≠ 0
  tail : TailSafe ram info.memoryMap
  short : forall path, path ∈ paths -> path.length <= 3
  covers : forall c, c ∈ initCalls info -> forall path,
    path ∈ tablePaths c.virt -> path ∈ paths
  frames : paths.card + 1 <=
    (freePagesIn (pmmInit (bootState ram) info.memoryMap) 0 top).card
  pool : FreeRun (bitmapTest (pmmInit (bootState ram) info.memoryMap)) top
    heapPages
  top_lt : top + heapPages < mapPages info.memoryMap

section Layout

variable {ram : ByteMemory} {info : BootInfo} {paths : Finset (List Index)}
  {top : Nat}

theorem BootRoom.framesBelow (h : BootRoom ram info paths top) :
    FramesBelow (pmmInit (bootState ram) info.memoryMap) top
      (paths.card + 1) (pmmInit (bootState ram) info.memoryMap) := by
  have hready := pmmInit_ready ram info.memoryMap h.place
  have htotal := (pmmInit_spec (bootState ram) info.memoryMap
    h.place).left.total_eq
  have hlast := hready.last_eq
  have htop := h.top_lt
  unfold heapPages at htop
  refine ⟨⟨by lia, hready.total_lt, by lia⟩, ⟨by lia, hready.free_lt⟩,
    hready.zero_set, by lia, by lia, ?_, fun p _ => rfl, PmmGrows.refl _⟩
  rw [hlast]
  exact h.frames

theorem BootRoom.freeAtBoot (h : BootRoom ram info paths top) {p : Nat}
    (hlt : p < mapPages info.memoryMap)
    (hfree : bitmapTest (pmmInit (bootState ram) info.memoryMap) p = false) :
    FreeAtBoot info p :=
  (bits_of_tailSafe h.map h.place h.tail hlt).mp hfree

structure InitRun (start : PmmState) (info : BootInfo)
    (paths : Finset (List Index)) (top : Nat) (mem : Nat -> Nat) (root : Nat)
    (frames : PmmState) (s' : VmmState PmmState) : Prop where
  ne_zero : root ≠ 0
  alloc : pmmFrame start = some (root, frames)
  init : vmmInit pmmFrame { mem := mem, frames := start } info =
    some (root, s')
  empty : EmptyRoot (zeroFrame mem root) root
  runs : (vmmSystem pmmFrame root).Runs
    { mem := zeroFrame mem root, frames := frames } (initCalls info) s'
  good : PmmGood frames
  count : CountedState frameMarked (FramesBelow start top) root paths s'

theorem FramesBelow.initRun {start : PmmState}
    (hstart : FramesBelow start top (paths.card + 1) start)
    (hvalid : ValidBoot info)
    (hshort : forall path, path ∈ paths -> path.length <= 3)
    (hcovers : forall c, c ∈ initCalls info -> forall path,
      path ∈ tablePaths c.virt -> path ∈ paths) (mem : Nat -> Nat) :
    exists root frames s',
      InitRun start info paths top mem root frames s' := by
  have hsupply := framesBelow_supply start top
  rcases hsupply.returns _ _ hstart with ⟨root, frames, halloc⟩
  rcases hsupply.fresh _ _ _ _ hstart halloc with ⟨hne, hframe, _⟩
  rcases hsupply.mark _ _ _ _ hstart halloc with ⟨hmarked, _, hleft⟩
  have hempty : EmptyRoot (zeroFrame mem root) root :=
    ⟨hframe, fun i => zeroFrame_self⟩
  have hcount : CountedState frameMarked (FramesBelow start top) root paths
      { mem := zeroFrame mem root, frames := frames } := by
    refine ⟨hshort, ?_, hleft.mono (absentTables_card_le _ _ _)⟩
    intro path t _ ht
    rw [(emptyRoot_tableAt hempty ht).right]
    exact hmarked
  rcases hcount.mapCalls hsupply (pageTables_empty hempty) hcovers with
    ⟨hsupplied, hrest⟩
  rcases mapCalls_runs (fun c hc => initCalls_valid hvalid hc) hsupplied with
    ⟨s', hs', hruns⟩
  refine ⟨root, frames, s', hne, halloc, ?_, hempty, hruns, hleft.good,
    hrest s' hs'⟩
  rw [vmmInit_calls pmmFrame (s := { mem := mem, frames := start }) hvalid
    halloc, hs']
  rfl

def frameGone (pmm : PmmState) (f : Nat) : Prop :=
  frameMarked pmm f ∨ pmm.totalPages <= f / 4096

theorem pmmFrame_gone : Marks pmmFrame PmmGood frameGone := by
  constructor
  · intro a f a' hgood halloc hne
    have htaken := pmmFrame_taken hgood halloc hne
    refine ⟨htaken.good, ?_, Or.inl htaken.taken⟩
    rintro (hmarked | habove)
    · unfold frameMarked at hmarked
      rw [htaken.free] at hmarked
      cases hmarked
    · exact absurd htaken.lt (Nat.not_lt.mpr habove)
  · intro a f a' g halloc hg
    have hgrows := pmmFrame_grows halloc
    unfold frameGone at hg ⊢
    rw [hgrows.total_eq]
    exact hg.imp_left (hgrows.set _)

theorem InitRun.table_free {start : PmmState} {mem : Nat -> Nat} {root : Nat}
    {frames : PmmState} {s' : VmmState PmmState}
    (h : InitRun start info paths top mem root frames s')
    (hgood : PmmGood start) {t : Nat}
    (ht : IsTable root s'.mem t) :
    t / 4096 < start.totalPages ∧ bitmapTest start (t / 4096) = false := by
  have hgone : forall f, ¬ frameGone start f ->
      f / 4096 < start.totalPages ∧ bitmapTest start (f / 4096) = false := by
    intro f hf
    unfold frameGone frameMarked at hf
    rw [not_or, Bool.not_eq_true, Nat.not_le] at hf
    exact ⟨hf.right, hf.left⟩
  have hbegin : VmmInvariant root []
      { mem := zeroFrame mem root, frames := frames } :=
    vmm_runs_invariant h.empty
      (@TransitionSystem.Runs.nil _ _ (vmmSystem pmmFrame root) _)
  have hfoot : MapFootprint PmmGood frameGone root
      { mem := zeroFrame mem root, frames := frames } s' :=
    vmmRuns_footprint pmmFrame_gone hbegin h.good h.runs
  by_cases hold : IsTable root (zeroFrame mem root) t
  · rcases hold with ⟨path, _, hpath⟩
    rw [(emptyRoot_tableAt h.empty hpath).right]
    have htaken := pmmFrame_taken hgood h.alloc h.ne_zero
    exact ⟨htaken.lt, htaken.free⟩
  · refine hgone t ?_
    intro hbefore
    exact (hfoot.new t ht hold).right
      (pmmFrame_gone.keep _ _ _ _ h.alloc hbefore)

theorem identityPage_reached {b : BootMemory} (hvalid : ValidBoot info)
    (hidentity : forall virt, virt % 4096 = 0 -> virt < 2 ^ 48 ->
      IdentityPage info b.vmm.mem b.pml4 virt) {p : Nat}
    (hp : InUsable info.memoryMap p) (hlow : lowMemory / pageSize <= p) :
    translation b.vmm.mem b.pml4 (p * 4096) = some (p * 4096) ∧
      effectivePermissions b.vmm.mem b.pml4 (p * 4096) =
        pageWritable ||| pageUser := by
  rcases hp with ⟨desc, hdesc, _, hstart, hend⟩
  have hbelow := hvalid.below desc hdesc
  have hin : InDescriptor desc (p * 4096) := by
    unfold descEnd at hend
    unfold pageSize at hstart hend
    exact ⟨hstart, by lia⟩
  have hne : p * 4096 ≠ 0 := by
    unfold lowMemory pageSize at hlow
    lia
  have hlt : p * 4096 < 2 ^ 48 := by
    have hright := hin.right
    lia
  have hmapped : Mapped info (p * 4096) := Or.inl ⟨hne, desc, hdesc, hin⟩
  have hpage := hidentity (p * 4096) (by lia) hlt
  exact ⟨hpage.itself hmapped, hpage.permissions hmapped⟩

structure PoolRun (pmm : PmmState) (i : Nat) (r : AllocResult) : Prop where
  alloc : pmmAlloc pmm heapPages = some r
  state : r.state = takeRun pmm i heapPages
  end_le : i + heapPages <= pmm.totalPages
  range : pageRange r.ret heapPages = Finset.Ico i (i + heapPages)
  free : FreeRun (bitmapTest pmm) i heapPages

theorem FramesBelow.pool {start pmm : PmmState} {k : Nat}
    (h : FramesBelow start top k pmm)
    (hrun : FreeRun (bitmapTest start) top heapPages)
    (htop : top + heapPages < start.totalPages) :
    exists i r, PoolRun pmm i r := by
  have htotal := h.good.total_lt
  have hsame := h.grows.total_eq
  have hfree : FreeRun (bitmapTest pmm) top heapPages := by
    intro j hj
    rw [h.above (top + j) (Nat.le_add_right top j)]
    exact hrun j hj
  rcases pmmAlloc_first h.good (by decide) h.last_le hfree (by lia) with
    ⟨i, tested, halloc, _, hle, hi, _⟩
  have hret : (allocFound pmm i heapPages tested).ret / pageSize = i := by
    rw [ret_page, Nat.mod_eq_of_lt (by lia)]
  refine ⟨i, _, halloc, rfl, by lia, ?_, hi⟩
  unfold pageRange
  rw [hret]

section Pool

variable {start : PmmState} {mem : Nat -> Nat} {root i : Nat}
  {frames : PmmState} {s' : VmmState PmmState} {r : AllocResult}

def bootResult (root : Nat) (s' : VmmState PmmState) (r : AllocResult) :
    BootMemory where
  pml4 := root
  vmm := { s' with frames := r.state }
  pool := r.ret

theorem PoolRun.page (hpool : PoolRun s'.frames i r) {p : Nat}
    (hp : p ∈ pageRange r.ret heapPages) :
    p < s'.frames.totalPages ∧ bitmapTest s'.frames p = false := by
  have hend := hpool.end_le
  rw [hpool.range, Finset.mem_Ico] at hp
  exact ⟨by lia, freeRun_mem hpool.free hp.left hp.right⟩

theorem PoolRun.bits (hpool : PoolRun s'.frames i r)
    (hgood : PmmGood s'.frames) (p : Nat) :
    bitmapTest r.state p = true <->
      p ∈ pageRange r.ret heapPages ∨ bitmapTest s'.frames p = true := by
  have hlt := hgood.total_lt
  have hend := hpool.end_le
  rw [hpool.state, takeRun_bits i (by lia), hpool.range, Finset.mem_Ico]

theorem InitRun.page_free (h : InitRun start info paths top mem root frames s')
    (hgood : PmmGood start) (hpool : PoolRun s'.frames i r) {p : Nat}
    (hp : HoldsPage (bootResult root s' r) p) :
    p < start.totalPages ∧ bitmapTest start p = false := by
  have hgrows := h.count.left.grows
  rcases hp with hp | ⟨t, ht, heq⟩
  · rcases hpool.page hp with ⟨hlt, hclear⟩
    rw [hgrows.total_eq] at hlt
    refine ⟨hlt, Bool.eq_false_of_not_eq_true ?_⟩
    intro hset
    rw [hgrows.set p hset] at hclear
    cases hclear
  · rw [← heq]
    exact h.table_free hgood ht

theorem InitRun.layout (h : InitRun start info paths top mem root frames s')
    (hvalid : ValidBoot info) (hfacts : BitmapFacts info.memoryMap)
    (hgood : PmmGood start)
    (hboot : forall p, p < start.totalPages -> bitmapTest start p = false ->
      FreeAtBoot info p)
    (hpool : PoolRun s'.frames i r) :
    BootLayout info (bootResult root s' r) := by
  have hleft := h.count.left
  have hinv := vmm_runs_invariant h.empty h.runs
  have hidentity : forall virt, virt % 4096 = 0 -> virt < 2 ^ 48 ->
      IdentityPage info s'.mem root virt :=
    fun virt halign hvirt => identityPage_initCalls hvalid hinv halign hvirt
  have htable : forall t, IsTable root s'.mem t ->
      bitmapTest s'.frames (t / 4096) = true := by
    rintro t ⟨path, hpath, ht⟩
    exact h.count.marked path t hpath ht
  have hfree : forall p, HoldsPage (bootResult root s' r) p ->
      FreeAtBoot info p := by
    intro p hp
    rcases h.page_free hgood hpool hp with ⟨hlt, hclear⟩
    exact hboot p hlt hclear
  refine ⟨hfree, ?_, ?_, ?_, hidentity, ?_, ⟨hinv.tables, hinv.calls⟩, ?_, ?_⟩
  · intro p hp
    refine (hpool.bits hleft.good p).mpr ?_
    rcases hp with hp | ⟨t, ht, heq⟩
    · exact Or.inl hp
    · rw [← heq]
      exact Or.inr (htable t ht)
  · intro p hp hkept
    have hlt : p < start.totalPages := by
      have htotal : r.state.totalPages = s'.frames.totalPages :=
        (pmmAlloc_grows hpool.alloc).total_eq
      rw [← hleft.grows.total_eq, ← htotal]
      exact hp
    refine (hpool.bits hleft.good p).mpr (Or.inr (hleft.grows.set p ?_))
    refine Bool.eq_true_of_not_eq_false ?_
    intro hclear
    exact hkept (hboot p hlt hclear)
  · intro t ht hp
    have hclear := (hpool.page hp).right
    rw [htable t ht] at hclear
    cases hclear
  · rintro p (hp | hp)
    · rcases hfree p hp with ⟨husable, hlow, _⟩
      exact identityPage_reached hvalid hidentity husable hlow
    · exact identityPage_reached hvalid hidentity
        (hfacts.usable p hp.left hp.right) (hfacts.low_le.trans hp.left)
  · show PmmGood r.state
    rw [hpool.state]
    exact hleft.good.taken hpool.end_le
  · exact hleft.words.alloc hpool.alloc

end Pool

end Layout

theorem initMemory_eq {pmm : PmmState} {mem : Nat -> Nat} {info : BootInfo}
    {pml4 : Nat} {vmm : VmmState PmmState} {r : AllocResult}
    (hinit : vmmInit pmmFrame { mem := mem, frames := pmm } info =
      some (pml4, vmm))
    (halloc : pmmAlloc vmm.frames heapPages = some r) :
    initMemory pmm mem info = some (bootResult pml4 vmm r) := by
  unfold initMemory bootResult
  rw [hinit, Option.bind_eq_bind, Option.bind_some]
  dsimp only
  rw [halloc, Option.bind_eq_bind, Option.bind_some]

theorem BootRoom.layout {ram : ByteMemory} {info : BootInfo}
    {paths : Finset (List Index)} {top : Nat}
    (h : BootRoom ram info paths top) (mem : Nat -> Nat) :
    exists root s' i r,
      bootMemory ram mem info = some (bootResult root s' r) ∧
      PmmGood s'.frames ∧ PoolRun s'.frames i r ∧
      BootLayout info (bootResult root s' r) := by
  have hstart := h.framesBelow
  have htotal := (pmmInit_spec (bootState ram) info.memoryMap
    h.place).left.total_eq
  have hpool := h.pool
  have htop := h.top_lt
  have hboot : forall p, p < mapPages info.memoryMap ->
      bitmapTest (pmmInit (bootState ram) info.memoryMap) p = false ->
      FreeAtBoot info p := fun p hlt hfree => h.freeAtBoot hlt hfree
  unfold bootMemory
  generalize pmmInit (bootState ram) info.memoryMap = start
    at hstart htotal hpool hboot ⊢
  rw [← htotal] at htop hboot
  rcases hstart.initRun h.valid h.short h.covers mem with
    ⟨root, frames, s', hinit⟩
  have hleft := hinit.count.left
  rcases hleft.pool hpool htop with ⟨i, r, hr⟩
  exact ⟨root, s', i, r, initMemory_eq hinit.init hr.alloc, hleft.good, hr,
    hinit.layout h.valid (bitmapFacts h.map h.place) hstart.good hboot hr⟩

/-- The tables and the pool of the heap take pages that `pmm_init` has left
free, each its own; they are marked as used and reached at their own addresses,
like the bitmap. -/
theorem bootMemory_layout {ram : ByteMemory} {info : BootInfo}
    {paths : Finset (List Index)} {top : Nat}
    (h : BootRoom ram info paths top) (mem : Nat -> Nat) :
    exists b, bootMemory ram mem info = some b ∧ BootLayout info b := by
  rcases h.layout mem with ⟨root, s', i, r, hboot, _, _, hlayout⟩
  exact ⟨_, hboot, hlayout⟩

/-- The tables that boot leaves are such that sections can be mapped by id. -/
theorem BootLayout.soundTables {info : BootInfo} {b : BootMemory}
    (h : BootLayout info b) :
    SoundTables PmmReady frameMarked b.pml4 b.vmm := by
  refine ⟨⟨h.good, h.kept 0 h.good.total_pos ?_⟩, ⟨_, h.tables.tables⟩, ?_⟩
  · intro hfree
    exact absurd hfree.right.left (by decide)
  · intro path t hlength ht
    exact h.used _ (Or.inr ⟨t, ⟨path, hlength, ht⟩, rfl⟩)

def plainBoot : BootInfo where
  memoryMap := [{ type := 7, physicalStart := 0x1000000, numberOfPages := 1048 }]
  framebufferBase := 0
  framebufferSize := 0

def plainPaths : Finset (List Index) :=
  {[0], [0, 0], [0, 0, 8], [0, 0, 9], [0, 0, 10]}

theorem plainBoot_paths : forall k, k < 1048 ->
    forall path, path ∈ tablePaths (0x1000000 + 4096 * k) ->
      path ∈ plainPaths := by
  intro k hk
  have htable : k / 512 = 0 ∨ k / 512 = 1 ∨ k / 512 = 2 := by lia
  rcases htable with h | h | h
  · rw [tablePaths_congr (w := 0x1000000) (by lia)]
    decide
  · rw [tablePaths_congr (w := 0x1200000) (by lia)]
    decide
  · rw [tablePaths_congr (w := 0x1400000) (by lia)]
    decide

theorem plainBoot_valid : ValidBoot plainBoot :=
  ⟨by decide, by decide, List.pairwise_singleton _ _, by decide, by decide⟩

theorem plainBoot_map : WellFormedMap plainBoot.memoryMap :=
  ⟨by decide, by decide, List.pairwise_singleton _ _⟩

theorem plainBoot_free (ram : ByteMemory) {p : Nat} (hlow : 4097 <= p)
    (hhigh : p < 5144) :
    bitmapTest (pmmInit (bootState ram) plainBoot.memoryMap) p = false := by
  have hplace : bitmapPlace plainBoot.memoryMap = 0x1000000 := by decide
  have hpages : bitmapPages plainBoot.memoryMap = 1 := by decide
  rw [pmmInit_clear_iff plainBoot_map (by rw [hplace]; decide), hplace, hpages]
  refine ⟨?_, ?_, Or.inl ?_⟩
  · unfold lowMemory pageSize
    lia
  · unfold pageSize
    lia
  · refine ⟨_, List.mem_singleton.mpr rfl, rfl, ?_, ?_⟩
    · show 0x1000000 <= p * 4096
      lia
    · show p * 4096 < 0x1000000 + 1048 * 4096
      lia

theorem plainBoot_call {c : MapCall} (hc : c ∈ initCalls plainBoot) :
    exists k, k < 1048 ∧ c.virt = 0x1000000 + 4096 * k := by
  rcases List.mem_append.mp hc with hdesc | hfb
  · rcases List.mem_flatMap.mp hdesc with ⟨desc, hmem, hcall⟩
    rw [List.mem_singleton.mp hmem] at hcall
    rcases (mem_descCalls (by decide)).mp hcall with
      ⟨_, halign, ⟨hlow, hhigh⟩, _⟩
    have hstart : 0x1000000 <= c.virt := hlow
    have hend : c.virt < 0x1000000 + 4096 * 1048 := hhigh
    exact ⟨(c.virt - 0x1000000) / 4096, by lia, by lia⟩
  · have hin := ((mem_framebufferCalls plainBoot_valid).mp hfb).right.right
    exact absurd hin.right (Nat.not_lt.mpr hin.left)

theorem plainBoot_room :
    BootRoom (fun _ => 0) plainBoot plainPaths 4105 := by
  refine ⟨plainBoot_valid, plainBoot_map, by decide, ?_, by decide, ?_, ?_, ?_,
    by decide⟩
  · refine ⟨?_, fun hodd => hodd.left (by decide)⟩
    intro p hlow hhigh
    have hsize : 8 * bitmapSize plainBoot.memoryMap =
        mapPages plainBoot.memoryMap := by decide
    lia
  · intro c hc
    rcases plainBoot_call hc with ⟨k, hk, hvirt⟩
    rw [hvirt]
    exact plainBoot_paths k hk
  · have hsub : Finset.Ico 4097 4105 ⊆
        freePagesIn (pmmInit (bootState (fun _ => 0)) plainBoot.memoryMap) 0
          4105 := by
      intro p hp
      rw [Finset.mem_Ico] at hp
      exact Finset.mem_filter.mpr ⟨Finset.mem_Ico.mpr ⟨by lia, by lia⟩,
        plainBoot_free _ (by lia) (by lia)⟩
    have hcard := Finset.card_le_card hsub
    rw [Nat.card_Ico] at hcard
    have hpaths : plainPaths.card = 5 := by decide
    lia
  · intro j hj
    unfold heapPages at hj
    exact plainBoot_free _ (by lia) (by lia)

theorem bootMemory_layout_plainBoot :
    exists b, bootMemory (fun _ => 0) (fun _ => 0) plainBoot = some b ∧
      BootLayout plainBoot b :=
  bootMemory_layout plainBoot_room _

end Boot
end Barium
