import Mathlib.Data.List.Pairwise
import Barium.Pmm.Model
import Barium.Vmm.Runs

/-!
# The kernel's address space

`vmm_init` maps the pages of every descriptor of the memory map, then the
pages of the framebuffer, to themselves.  The memory map is the list of the
descriptors that the loader left; page 0 of a descriptor is skipped.
-/

namespace Barium
namespace Vmm

open Foundation
open TransitionSystem
open Pmm

def pagePwt : Nat := 8
def pagePcd : Nat := 16
def initFuel : Nat := 2 ^ 64

/-- What `vmm_init` reads of `barium_boot_info_t`; the size of the framebuffer
is a 32-bit word. -/
structure BootInfo where
  memoryMap : List MemDesc
  framebufferBase : Nat
  framebufferSize : Nat
  deriving DecidableEq, Repr

/-- Memory that the loader, the boot services or nobody uses. -/
def CachedType (type : Nat) : Prop :=
  type = 7 ∨ type = 1 ∨ type = 2 ∨ type = 3 ∨ type = 4

instance (type : Nat) : Decidable (CachedType type) := by
  unfold CachedType
  infer_instance

def descFlags (desc : MemDesc) : Nat :=
  if CachedType desc.type then
    pagePresent ||| (pageWritable ||| pageUser)
  else
    pagePresent ||| (pageWritable ||| pagePcd ||| pagePwt ||| pageUser)

def framebufferFlags : Nat :=
  pagePresent ||| pageWritable ||| pagePcd ||| pagePwt ||| pageUser

/-!
# The loops

They are given fuel; `none` is a loop that has not ended, or an allocation that
has not returned.
-/

def mapDescriptor (alloc : FrameAllocator alpha) (pml4 start size flags : Nat) :
    Nat -> VmmState alpha -> Nat -> Option (VmmState alpha)
  | 0, _, _ => none
  | fuel + 1, s, j =>
      if j < size then
        if Word.add start j = 0 then
          mapDescriptor alloc pml4 start size flags fuel s (Word.add j 4096)
        else do
          let s <- vmmMap alloc s pml4 (Word.add start j) (Word.add start j)
            flags
          mapDescriptor alloc pml4 start size flags fuel s (Word.add j 4096)
      else
        some s

def mapDescriptors (alloc : FrameAllocator alpha) (pml4 : Nat) :
    List MemDesc -> VmmState alpha -> Option (VmmState alpha)
  | [], s => some s
  | desc :: rest, s => do
      let s <- mapDescriptor alloc pml4 desc.physicalStart
        (Word.mul desc.numberOfPages 4096) (descFlags desc) initFuel s 0
      mapDescriptors alloc pml4 rest s

def mapFramebuffer (alloc : FrameAllocator alpha) (pml4 base size : Nat) :
    Nat -> VmmState alpha -> Nat -> Option (VmmState alpha)
  | 0, _, _ => none
  | fuel + 1, s, i =>
      if i < size then do
        let s <- vmmMap alloc s pml4 (Word.add base i) (Word.add base i)
          framebufferFlags
        mapFramebuffer alloc pml4 base size fuel s (Word.add i 4096)
      else
        some s

/-- `kernel_pml4` and the tables under it. -/
def vmmInit (alloc : FrameAllocator alpha) (s : VmmState alpha)
    (info : BootInfo) : Option (Nat × VmmState alpha) := do
  let (pml4, frames) <- alloc s.frames
  let s : VmmState alpha :=
    { mem := zeroFrame s.mem pml4, frames := frames }
  let s <- mapDescriptors alloc pml4 info.memoryMap s
  let s <- mapFramebuffer alloc pml4 info.framebufferBase
    info.framebufferSize initFuel s 0
  some (pml4, s)

/-!
# The walk of the processor
-/

/-- The last-level entry of an address, when the entries of all four levels are
present. -/
def leafEntry (mem : Nat -> Nat) (pml4 virt : Nat) : Option Nat :=
  (pageFormat.tableAt mem pml4 (innerPath virt)).bind (fun pt =>
    if mem (entryAddr pt (ptIdx virt)) &&& pagePresent = 0 then none
    else some (mem (entryAddr pt (ptIdx virt))))

def translation (mem : Nat -> Nat) (pml4 virt : Nat) : Option Nat :=
  (leafEntry mem pml4 virt).map (fun e => e &&& frameMask)

theorem vmmGetPhys_translation (mem : Nat -> Nat) (pml4 virt : Nat) :
    vmmGetPhys mem pml4 virt = (translation mem pml4 virt).getD 0 := by
  unfold vmmGetPhys translation leafEntry innerPath pageFormat
  simp only [TableFormat.tableAt]
  split
  · rfl
  · rw [Option.bind_some]
    split
    · rfl
    · rw [Option.bind_some]
      split
      · rfl
      · rw [Option.bind_some, Option.bind_some]
        split
        · rfl
        · rfl

theorem leafEntry_spec {mem : Nat -> Nat} {root : Nat}
    {leaf : List Index -> Nat} (h : PageTables mem root leaf) (virt : Nat) :
    leafEntry mem root virt =
      if leaf (indexPath virt) &&& pagePresent = 0 then none
      else some (leaf (indexPath virt)) := by
  unfold leafEntry
  cases ht : pageFormat.tableAt mem root (innerPath virt) with
  | none =>
      have hzero : leaf (indexPath virt) = 0 :=
        h.leaf_none (innerPath virt) (lastIndex virt) rfl ht
      rw [hzero]
      rfl
  | some pt =>
      have hentry : mem (entryAddr pt (ptIdx virt)) = leaf (indexPath virt) :=
        h.leaf_eq (innerPath virt) pt (lastIndex virt) rfl ht
      rw [Option.bind_some, hentry]

/-!
# The calls that the loops make
-/

def identityCall (flags virt : Nat) : MapCall where
  virt := virt
  phys := virt
  flags := flags

def pageCalls (start flags : Nat) : Nat -> Nat -> List MapCall
  | 0, _ => []
  | n + 1, k =>
      identityCall flags (start + 4096 * k) :: pageCalls start flags n (k + 1)

def descCalls (desc : MemDesc) : List MapCall :=
  (pageCalls desc.physicalStart (descFlags desc) desc.numberOfPages 0).filter
    (fun c => c.virt ≠ 0)

def framebufferCalls (info : BootInfo) : List MapCall :=
  pageCalls info.framebufferBase framebufferFlags
    ((info.framebufferSize + 4095) / 4096) 0

def initCalls (info : BootInfo) : List MapCall :=
  info.memoryMap.flatMap descCalls ++ framebufferCalls info

def mapCalls (alloc : FrameAllocator alpha) (pml4 : Nat) :
    List MapCall -> VmmState alpha -> Option (VmmState alpha)
  | [], s => some s
  | c :: rest, s => do
      let s <- vmmMap alloc s pml4 c.virt c.phys c.flags
      mapCalls alloc pml4 rest s

theorem mapCalls_append (alloc : FrameAllocator alpha) (pml4 : Nat)
    (left right : List MapCall) (s : VmmState alpha) :
    mapCalls alloc pml4 (left ++ right) s =
      (mapCalls alloc pml4 left s).bind (mapCalls alloc pml4 right) := by
  induction left generalizing s with
  | nil => rfl
  | cons c rest ih =>
      show (vmmMap alloc s pml4 c.virt c.phys c.flags).bind
          (mapCalls alloc pml4 (rest ++ right)) =
        ((vmmMap alloc s pml4 c.virt c.phys c.flags).bind
          (mapCalls alloc pml4 rest)).bind (mapCalls alloc pml4 right)
      rw [Option.bind_assoc]
      congr
      funext t
      exact ih t

/-- The loop over a descriptor makes the calls for its pages, with page 0 left
out. -/
theorem mapDescriptor_calls (alloc : FrameAllocator alpha)
    (pml4 start flags : Nat) {n k fuel : Nat} (s : VmmState alpha)
    (hend : start + 4096 * (k + n) <= 2 ^ 48) (hfuel : n < fuel) :
    mapDescriptor alloc pml4 start (4096 * (k + n)) flags fuel s (4096 * k) =
      mapCalls alloc pml4
        ((pageCalls start flags n k).filter (fun c => c.virt ≠ 0)) s := by
  induction n generalizing k fuel s with
  | zero =>
      cases fuel with
      | zero => exact absurd hfuel (Nat.lt_irrefl 0)
      | succ fuel => exact if_neg (Nat.lt_irrefl _)
  | succ n ih =>
      cases fuel with
      | zero => exact absurd hfuel (Nat.not_lt_zero _)
      | succ fuel =>
          have hnext : Word.add (4096 * k) 4096 = 4096 * (k + 1) := by
            rw [Word.add_of_lt (by lia)]
            lia
          have hrest : forall t : VmmState alpha,
              mapDescriptor alloc pml4 start (4096 * (k + (n + 1))) flags fuel
                  t (4096 * (k + 1)) =
                mapCalls alloc pml4 ((pageCalls start flags n (k + 1)).filter
                  (fun c => c.virt ≠ 0)) t := by
            intro t
            rw [show k + (n + 1) = k + 1 + n by lia]
            exact ih t (by lia) (by lia)
          unfold mapDescriptor
          rw [if_pos (by lia), Word.add_of_lt (by lia), hnext]
          by_cases hzero : start + 4096 * k = 0
          · rw [if_pos hzero, hrest s]
            simp [pageCalls, identityCall, hzero]
          · rw [if_neg hzero]
            simp only [hrest]
            have hkeep : (pageCalls start flags (n + 1) k).filter
                (fun c => c.virt ≠ 0) =
              identityCall flags (start + 4096 * k) ::
                (pageCalls start flags n (k + 1)).filter
                  (fun c => c.virt ≠ 0) :=
              List.filter_cons_of_pos (decide_eq_true hzero)
            rw [hkeep]
            rfl

theorem mapFramebuffer_calls (alloc : FrameAllocator alpha)
    (pml4 base size : Nat) {n k fuel : Nat} (s : VmmState alpha)
    (hend : base + 4096 * (k + n) <= 2 ^ 48) (hfuel : n < fuel)
    (hsize : size <= 4096 * (k + n))
    (hpages : 0 < n -> 4096 * (k + n) < size + 4096) :
    mapFramebuffer alloc pml4 base size fuel s (4096 * k) =
      mapCalls alloc pml4 (pageCalls base framebufferFlags n k) s := by
  induction n generalizing k fuel s with
  | zero =>
      cases fuel with
      | zero => exact absurd hfuel (Nat.lt_irrefl 0)
      | succ fuel => exact if_neg (by lia)
  | succ n ih =>
      cases fuel with
      | zero => exact absurd hfuel (Nat.not_lt_zero _)
      | succ fuel =>
          have hnext : Word.add (4096 * k) 4096 = 4096 * (k + 1) := by
            rw [Word.add_of_lt (by lia)]
            lia
          have hrest : forall t : VmmState alpha,
              mapFramebuffer alloc pml4 base size fuel t (4096 * (k + 1)) =
                mapCalls alloc pml4
                  (pageCalls base framebufferFlags n (k + 1)) t := by
            intro t
            exact ih t (by lia) (by lia) (by lia) (by lia)
          unfold mapFramebuffer
          rw [if_pos (by lia), Word.add_of_lt (by lia), hnext]
          simp only [hrest]
          rfl

/-!
# What the loader promises
-/

def InDescriptor (desc : MemDesc) (virt : Nat) : Prop :=
  desc.physicalStart <= virt ∧
    virt < desc.physicalStart + 4096 * desc.numberOfPages

def InFramebuffer (info : BootInfo) (virt : Nat) : Prop :=
  info.framebufferBase <= virt ∧
    virt < info.framebufferBase + info.framebufferSize

/-- All ranges are page-aligned and below `2 ^ 48`, and the descriptors do not
overlap.  The framebuffer may overlap them. -/
structure ValidBoot (info : BootInfo) : Prop where
  aligned : forall desc, desc ∈ info.memoryMap ->
    desc.physicalStart % 4096 = 0
  below : forall desc, desc ∈ info.memoryMap ->
    desc.physicalStart + 4096 * desc.numberOfPages <= 2 ^ 48
  apart : info.memoryMap.Pairwise (fun desc other =>
    forall virt, ¬ (InDescriptor desc virt ∧ InDescriptor other virt))
  framebuffer_aligned : info.framebufferBase % 4096 = 0
  framebuffer_below :
    info.framebufferBase + info.framebufferSize <= 2 ^ 48

theorem mapDescriptors_calls (alloc : FrameAllocator alpha) (pml4 : Nat)
    {mmap : List MemDesc} (s : VmmState alpha)
    (hbelow : forall desc, desc ∈ mmap ->
      desc.physicalStart + 4096 * desc.numberOfPages <= 2 ^ 48) :
    mapDescriptors alloc pml4 mmap s =
      mapCalls alloc pml4 (mmap.flatMap descCalls) s := by
  induction mmap generalizing s with
  | nil => rfl
  | cons desc rest ih =>
      have hdesc := hbelow desc (List.mem_cons_self)
      have hsize : Word.mul desc.numberOfPages 4096 =
          4096 * (0 + desc.numberOfPages) := by
        rw [Word.mul_of_lt (by lia)]
        lia
      have hfuel : desc.numberOfPages < initFuel := by
        unfold initFuel
        lia
      have hloop := mapDescriptor_calls alloc pml4 desc.physicalStart
        (descFlags desc) (k := 0) s
        (by rw [Nat.zero_add]; exact hdesc) hfuel
      have hrest := fun t => ih t (fun d hd =>
        hbelow d (List.mem_cons_of_mem desc hd))
      rw [List.flatMap_cons, mapCalls_append]
      unfold mapDescriptors
      rw [hsize, hloop]
      simp only [hrest]
      rfl

/-!
# Allocations

`pmm_alloc(1)` returns a fresh frame at every allocation that the calls make.
-/

def SuppliedCalls (alloc : FrameAllocator alpha) (root : Nat) :
    List MapCall -> VmmState alpha -> Prop
  | [], _ => True
  | c :: rest, s =>
      SuppliedMap alloc root s c.virt ∧
        forall s', vmmMap alloc s root c.virt c.phys c.flags = some s' ->
          SuppliedCalls alloc root rest s'

def SuppliedInit (alloc : FrameAllocator alpha) (s : VmmState alpha)
    (info : BootInfo) : Prop :=
  exists root frames, alloc s.frames = some (root, frames) ∧
    ValidFrame root ∧
    SuppliedCalls alloc root (initCalls info)
      { mem := zeroFrame s.mem root, frames := frames }

section Allocations

variable {alloc : FrameAllocator alpha} {root : Nat} {s : VmmState alpha}

theorem mapCalls_runs {calls : List MapCall}
    (hvalid : forall c, c ∈ calls -> ValidCall c)
    (hsupplied : SuppliedCalls alloc root calls s) :
    exists s', mapCalls alloc root calls s = some s' ∧
      (vmmSystem alloc root).Runs s calls s' := by
  induction calls generalizing s with
  | nil => exact ⟨s, rfl, TransitionSystem.Runs.nil s⟩
  | cons c rest ih =>
      rcases hsupplied with ⟨hmap, hrest⟩
      rcases hmap.returns c.phys c.flags with ⟨t, ht⟩
      rcases ih (fun d hd => hvalid d (List.mem_cons_of_mem c hd))
        (hrest t ht) with ⟨s', hs', hruns⟩
      have hstep : VmmStep alloc root s c t :=
        VmmStep.map (hvalid c List.mem_cons_self) hmap.freshMap ht
      exists s'
      constructor
      · unfold mapCalls
        rw [ht]
        exact hs'
      · exact runs_append
          (runs_single (T := vmmSystem alloc root) hstep)
          hruns

end Allocations

/-!
# The last call for a page
-/

theorem mem_pageCalls {start flags n k : Nat} {c : MapCall} :
    c ∈ pageCalls start flags n k <->
      exists i, k <= i ∧ i < k + n ∧
        c = identityCall flags (start + 4096 * i) := by
  induction n generalizing k with
  | zero =>
      constructor
      · intro hc
        cases hc
      · rintro ⟨i, hle, hlt, _⟩
        lia
  | succ n ih =>
      unfold pageCalls
      rw [List.mem_cons, ih]
      constructor
      · rintro (heq | ⟨i, hle, hlt, heq⟩)
        · exact ⟨k, Nat.le_refl k, by lia, heq⟩
        · exact ⟨i, by lia, by lia, heq⟩
      · rintro ⟨i, hle, hlt, heq⟩
        rcases Nat.eq_or_lt_of_le hle with hk | hk
        · left
          rw [heq, hk]
        · exact Or.inr ⟨i, by lia, by lia, heq⟩

theorem mem_pageCalls_aligned {start flags n : Nat} {c : MapCall}
    (haligned : start % 4096 = 0) :
    c ∈ pageCalls start flags n 0 <->
      c = identityCall flags c.virt ∧ c.virt % 4096 = 0 ∧
        start <= c.virt ∧ c.virt < start + 4096 * n := by
  rw [mem_pageCalls]
  constructor
  · rintro ⟨i, _, hi, heq⟩
    have hvirt : c.virt = start + 4096 * i := congrArg MapCall.virt heq
    rw [hvirt]
    exact ⟨heq, by lia, by lia, by lia⟩
  · rintro ⟨heq, halign, hle, hlt⟩
    exists (c.virt - start) / 4096
    refine ⟨by lia, by lia, ?_⟩
    rw [show start + 4096 * ((c.virt - start) / 4096) = c.virt by lia]
    exact heq

theorem pageNumber_inj {v w : Nat} (hv : v % 4096 = 0) (hw : w % 4096 = 0)
    (hvlt : v < 2 ^ 48) (hwlt : w < 2 ^ 48) (h : pageNumber v = pageNumber w) :
    v = w := by
  unfold pageNumber at h
  lia

theorem lastCall_append_right {left right : List MapCall} {virt : Nat}
    {c : MapCall} (h : lastCall right virt = some c) :
    lastCall (left ++ right) virt = some c := by
  unfold lastCall at h ⊢
  rw [List.reverse_append, List.find?_append, h]
  rfl

section Calls

variable {info : BootInfo} {virt : Nat}

theorem mem_descCalls {desc : MemDesc} {c : MapCall}
    (haligned : desc.physicalStart % 4096 = 0) :
    c ∈ descCalls desc <->
      c = identityCall (descFlags desc) c.virt ∧ c.virt % 4096 = 0 ∧
        InDescriptor desc c.virt ∧ c.virt ≠ 0 := by
  unfold descCalls InDescriptor
  rw [List.mem_filter, mem_pageCalls_aligned haligned, decide_eq_true_iff]
  tauto

theorem mem_framebufferCalls {c : MapCall} (hboot : ValidBoot info) :
    c ∈ framebufferCalls info <->
      c = identityCall framebufferFlags c.virt ∧ c.virt % 4096 = 0 ∧
        InFramebuffer info c.virt := by
  have haligned := hboot.framebuffer_aligned
  unfold framebufferCalls InFramebuffer
  rw [mem_pageCalls_aligned haligned]
  constructor
  · rintro ⟨heq, halign, hle, hlt⟩
    exact ⟨heq, halign, hle, by lia⟩
  · rintro ⟨heq, halign, hle, hlt⟩
    exact ⟨heq, halign, hle, by lia⟩

theorem initCalls_page {c : MapCall} (hboot : ValidBoot info)
    (hc : c ∈ initCalls info) :
    c.phys = c.virt ∧ c.virt % 4096 = 0 ∧ c.virt < 2 ^ 48 := by
  rcases List.mem_append.mp hc with hc | hc
  · rcases List.mem_flatMap.mp hc with ⟨desc, hdesc, hc⟩
    rcases (mem_descCalls (hboot.aligned desc hdesc)).mp hc with
      ⟨heq, halign, hin, _⟩
    have hbelow := hboot.below desc hdesc
    unfold InDescriptor at hin
    exact ⟨congrArg MapCall.phys heq, halign, by lia⟩
  · rcases (mem_framebufferCalls hboot).mp hc with ⟨heq, halign, hin⟩
    have hbelow := hboot.framebuffer_below
    unfold InFramebuffer at hin
    exact ⟨congrArg MapCall.phys heq, halign, by lia⟩

theorem lastCall_framebuffer (hboot : ValidBoot info)
    (halign : virt % 4096 = 0) (hvirt : virt < 2 ^ 48)
    (hin : InFramebuffer info virt) :
    lastCall (initCalls info) virt =
      some (identityCall framebufferFlags virt) := by
  apply lastCall_append_right
  apply lastCall_unique
  · exact (mem_framebufferCalls hboot).mpr ⟨rfl, halign, hin⟩
  · rfl
  · intro d hd hpage
    have hpages := initCalls_page hboot (List.mem_append_right _ hd)
    have hsame := pageNumber_inj hpages.right.left halign hpages.right.right
      hvirt hpage
    rw [((mem_framebufferCalls hboot).mp hd).left, hsame]

theorem lastCall_notFramebuffer (hboot : ValidBoot info)
    (halign : virt % 4096 = 0) (hvirt : virt < 2 ^ 48)
    (hout : ¬ InFramebuffer info virt) :
    lastCall (initCalls info) virt =
      lastCall (info.memoryMap.flatMap descCalls) virt := by
  apply lastCall_append
  intro c hc hpage
  have hpages := initCalls_page hboot (List.mem_append_right _ hc)
  have hsame := pageNumber_inj hpages.right.left halign hpages.right.right
    hvirt hpage
  apply hout
  rw [← hsame]
  exact ((mem_framebufferCalls hboot).mp hc).right.right

theorem ValidBoot.descriptor_unique (hboot : ValidBoot info)
    {desc other : MemDesc} (hdesc : desc ∈ info.memoryMap)
    (hother : other ∈ info.memoryMap) (hin : InDescriptor desc virt)
    (hin' : InDescriptor other virt) : desc = other := by
  by_cases hsame : desc = other
  · exact hsame
  · have hsymm : Std.Symm (fun left right : MemDesc => forall v,
        ¬ (InDescriptor left v ∧ InDescriptor right v)) := by
      constructor
      intro left right h v hv
      exact h v ⟨hv.right, hv.left⟩
    have hapart := hboot.apart.forall hdesc hother hsame
    exact absurd ⟨hin, hin'⟩ (hapart virt)

theorem lastCall_descriptor (hboot : ValidBoot info) {desc : MemDesc}
    (halign : virt % 4096 = 0) (hvirt : virt < 2 ^ 48)
    (hdesc : desc ∈ info.memoryMap) (hin : InDescriptor desc virt)
    (hne : virt ≠ 0) :
    lastCall (info.memoryMap.flatMap descCalls) virt =
      some (identityCall (descFlags desc) virt) := by
  apply lastCall_unique
  · apply List.mem_flatMap.mpr
    exists desc
    constructor
    · exact hdesc
    · exact (mem_descCalls (hboot.aligned desc hdesc)).mpr
        ⟨rfl, halign, hin, hne⟩
  · rfl
  · intro d hd hpage
    have hpages := initCalls_page hboot (List.mem_append_left _ hd)
    have hsame := pageNumber_inj hpages.right.left halign hpages.right.right
      hvirt hpage
    rcases List.mem_flatMap.mp hd with ⟨other, hother, hd⟩
    rcases (mem_descCalls (hboot.aligned other hother)).mp hd with
      ⟨heq, _, hin', _⟩
    rw [hsame] at heq hin'
    rw [heq, hboot.descriptor_unique hdesc hother hin hin']

theorem lastCall_unmapped (hboot : ValidBoot info)
    (halign : virt % 4096 = 0) (hvirt : virt < 2 ^ 48)
    (hout : ¬ (virt ≠ 0 ∧
      exists desc, desc ∈ info.memoryMap ∧ InDescriptor desc virt)) :
    lastCall (info.memoryMap.flatMap descCalls) virt = none := by
  cases hlast : lastCall (info.memoryMap.flatMap descCalls) virt with
  | none => rfl
  | some c =>
      have hc := lastCall_mem hlast
      have hpages := initCalls_page hboot (List.mem_append_left _ hc)
      have hsame := pageNumber_inj hpages.right.left halign hpages.right.right
        hvirt (lastCall_page hlast)
      rcases List.mem_flatMap.mp hc with ⟨desc, hdesc, hc⟩
      rcases (mem_descCalls (hboot.aligned desc hdesc)).mp hc with
        ⟨_, _, hin, hne⟩
      rw [hsame] at hin hne
      exact absurd ⟨hne, desc, hdesc, hin⟩ hout

end Calls

/-!
# The identity map
-/

def Mapped (info : BootInfo) (virt : Nat) : Prop :=
  (virt ≠ 0 ∧ exists desc, desc ∈ info.memoryMap ∧ InDescriptor desc virt) ∨
    InFramebuffer info virt

def Uncached (info : BootInfo) (virt : Nat) : Prop :=
  InFramebuffer info virt ∨
    exists desc, desc ∈ info.memoryMap ∧ InDescriptor desc virt ∧
      ¬ CachedType desc.type

structure IdentityPage (info : BootInfo) (mem : Nat -> Nat)
    (root virt : Nat) : Prop where
  mapped : (translation mem root virt).isSome = true <-> Mapped info virt
  itself : Mapped info virt -> translation mem root virt = some virt
  permissions : Mapped info virt ->
    effectivePermissions mem root virt = pageWritable ||| pageUser
  uncached : Mapped info virt -> Uncached info virt ->
    exists e, leafEntry mem root virt = some e ∧ e &&& pagePcd ≠ 0 ∧
      e &&& pagePwt ≠ 0
  cached : Mapped info virt -> ¬ Uncached info virt ->
    exists e, leafEntry mem root virt = some e ∧ e &&& pagePcd = 0 ∧
      e &&& pagePwt = 0

section Identity

variable {info : BootInfo} {root virt flags : Nat} {trace : List MapCall}
  {s : VmmState alpha}

theorem leafEntry_lastCall (hinv : VmmInvariant root trace s) {c : MapCall}
    (hlast : lastCall trace virt = some c) :
    leafEntry s.mem root virt = some (callEntry c) := by
  have hfacts := callEntry_facts (hinv.calls c (lastCall_mem hlast))
  rw [leafEntry_spec hinv.tables, traceEntries_lastCall, hlast]
  exact if_neg hfacts.right.left

theorem leafEntry_none (hinv : VmmInvariant root trace s)
    (hlast : lastCall trace virt = none) :
    leafEntry s.mem root virt = none := by
  rw [leafEntry_spec hinv.tables, traceEntries_lastCall, hlast]
  rfl

theorem translation_identity (hinv : VmmInvariant root trace s)
    (halign : virt % 4096 = 0)
    (hlast : lastCall trace virt = some (identityCall flags virt)) :
    translation s.mem root virt = some virt := by
  have hvalid := hinv.calls _ (lastCall_mem hlast)
  have hphys : virt < 2 ^ 64 := hvalid.phys_lt
  have hmask : virt &&& frameMask = virt := by
    unfold frameMask
    rw [Word.and_high_mask hphys (by decide)]
    lia
  unfold translation
  rw [leafEntry_lastCall hinv hlast, Option.map_some,
    (callEntry_facts hvalid).left]
  exact congrArg some hmask

theorem callEntry_bits {c : MapCall} (h : ValidCall c) {mask : Nat}
    (hmask : mask < 2 ^ 12) : callEntry c &&& mask = c.flags &&& mask := by
  unfold callEntry
  rw [leaf_entry h.phys_lt h.flags_lt,
    flags_of_entry (validFrame_mask h.phys_lt) h.flags_lt hmask]

theorem descFlags_cases (desc : MemDesc) :
    CachedType desc.type ∧ descFlags desc = 7 ∨
      ¬ CachedType desc.type ∧ descFlags desc = 31 := by
  unfold descFlags
  by_cases hcached : CachedType desc.type
  · rw [if_pos hcached]
    exact Or.inl ⟨hcached, rfl⟩
  · rw [if_neg hcached]
    exact Or.inr ⟨hcached, rfl⟩

/-- A page whose last call has flags 31 is uncached, one whose last call has
flags 7 is cached. -/
theorem identityPage_of_lastCall (hinv : VmmInvariant root trace s)
    (halign : virt % 4096 = 0)
    (hlast : lastCall trace virt = some (identityCall flags virt))
    (hmapped : Mapped info virt)
    (hflags : flags = 31 ∧ Uncached info virt ∨
      flags = 7 ∧ ¬ Uncached info virt) :
    IdentityPage info s.mem root virt := by
  have hvalid := hinv.calls _ (lastCall_mem hlast)
  have hentry := leafEntry_lastCall hinv hlast
  have htranslation := translation_identity hinv halign hlast
  have hpermissions : effectivePermissions s.mem root virt =
      flags &&& (pageWritable ||| pageUser) :=
    (vmmInvariant_refines hinv).permissions virt _ hvalid.virt_lt hlast
  have hbits : forall mask, mask < 2 ^ 12 ->
      callEntry (identityCall flags virt) &&& mask = flags &&& mask := by
    intro mask hmask
    exact callEntry_bits hvalid hmask
  constructor
  · rw [htranslation]
    exact ⟨fun _ => hmapped, fun _ => rfl⟩
  · intro _
    exact htranslation
  · intro _
    rw [hpermissions]
    rcases hflags with ⟨hflags, _⟩ | ⟨hflags, _⟩
    · rw [hflags]
      rfl
    · rw [hflags]
      rfl
  · intro _ huncached
    rcases hflags with ⟨hflags, _⟩ | ⟨_, hcached⟩
    · refine ⟨_, hentry, ?_⟩
      rw [hbits pagePcd (by decide), hbits pagePwt (by decide), hflags]
      decide
    · exact absurd huncached hcached
  · intro _ hcached
    rcases hflags with ⟨_, huncached⟩ | ⟨hflags, _⟩
    · exact absurd huncached hcached
    · refine ⟨_, hentry, ?_⟩
      rw [hbits pagePcd (by decide), hbits pagePwt (by decide), hflags]
      decide

theorem identityPage_unmapped (hinv : VmmInvariant root trace s)
    (hlast : lastCall trace virt = none) (hunmapped : ¬ Mapped info virt) :
    IdentityPage info s.mem root virt := by
  have hnone : translation s.mem root virt = none := by
    unfold translation
    rw [leafEntry_none hinv hlast]
    rfl
  constructor
  · rw [hnone]
    constructor
    · intro h
      cases h
    · intro h
      exact absurd h hunmapped
  · intro h
    exact absurd h hunmapped
  · intro h
    exact absurd h hunmapped
  · intro h
    exact absurd h hunmapped
  · intro h
    exact absurd h hunmapped

/-- The entries of the calls of `vmm_init` are the identity map. -/
theorem identityPage_initCalls (hboot : ValidBoot info)
    (hinv : VmmInvariant root (initCalls info) s)
    (halign : virt % 4096 = 0) (hvirt : virt < 2 ^ 48) :
    IdentityPage info s.mem root virt := by
  by_cases hcase : InFramebuffer info virt
  · have hlast := lastCall_framebuffer hboot halign hvirt hcase
    apply identityPage_of_lastCall hinv halign hlast (Or.inr hcase)
    exact Or.inl ⟨rfl, Or.inl hcase⟩
  · have hleft := lastCall_notFramebuffer hboot halign hvirt hcase
    by_cases hsame : virt ≠ 0 ∧ exists desc, desc ∈ info.memoryMap ∧
        InDescriptor desc virt
    · rcases hsame with ⟨hne, desc, hdesc, hin⟩
      have hlast := hleft.trans
        (lastCall_descriptor hboot halign hvirt hdesc hin hne)
      apply identityPage_of_lastCall hinv halign hlast
        (Or.inl ⟨hne, desc, hdesc, hin⟩)
      rcases descFlags_cases desc with
        ⟨hcached, hflags⟩ | ⟨huncached, hflags⟩
      · right
        constructor
        · exact hflags
        · rintro (hfb | ⟨other, hother, hin', htype⟩)
          · exact hcase hfb
          · rw [← hboot.descriptor_unique hdesc hother hin hin'] at htype
            exact htype hcached
      · left
        exact ⟨hflags, Or.inr ⟨desc, hdesc, hin, huncached⟩⟩
    · have hlast := hleft.trans
        (lastCall_unmapped hboot halign hvirt hsame)
      apply identityPage_unmapped hinv hlast
      rintro (hdescriptor | hin)
      · exact hsame hdescriptor
      · exact hcase hin

end Identity

theorem initCalls_valid {info : BootInfo} (hboot : ValidBoot info)
    {c : MapCall} (hc : c ∈ initCalls info) : ValidCall c := by
  have hpage := initCalls_page hboot hc
  have hflags : c.flags = 7 ∨ c.flags = 31 := by
    rcases List.mem_append.mp hc with hc | hc
    · rcases List.mem_flatMap.mp hc with ⟨desc, hdesc, hc⟩
      have heq := ((mem_descCalls (hboot.aligned desc hdesc)).mp hc).left
      have hflags : c.flags = descFlags desc := congrArg MapCall.flags heq
      rw [hflags]
      exact (descFlags_cases desc).imp And.right And.right
    · have heq := ((mem_framebufferCalls hboot).mp hc).left
      exact Or.inr (congrArg MapCall.flags heq)
  constructor
  · lia
  · lia
  · lia
  · rcases hflags with hflags | hflags
    · rw [hflags]
      decide
    · rw [hflags]
      decide

theorem vmmInit_calls (alloc : FrameAllocator alpha) {s : VmmState alpha}
    {info : BootInfo} (hboot : ValidBoot info) {root : Nat} {frames : alpha}
    (halloc : alloc s.frames = some (root, frames)) :
    vmmInit alloc s info =
      (mapCalls alloc root (initCalls info)
        { mem := zeroFrame s.mem root, frames := frames }).map
          (fun s' => (root, s')) := by
  have hbelow := hboot.framebuffer_below
  have haligned := hboot.framebuffer_aligned
  have hfuel : (info.framebufferSize + 4095) / 4096 < initFuel := by
    unfold initFuel
    lia
  have hframebuffer : forall t : VmmState alpha,
      mapFramebuffer alloc root info.framebufferBase info.framebufferSize
          initFuel t 0 =
        mapCalls alloc root (framebufferCalls info) t := by
    intro t
    exact mapFramebuffer_calls alloc root info.framebufferBase
      info.framebufferSize (k := 0) t (by lia) hfuel (by lia) (by lia)
  have hdescriptors := mapDescriptors_calls alloc root
    { mem := zeroFrame s.mem root, frames := frames } hboot.below
  unfold vmmInit initCalls
  rw [halloc, mapCalls_append]
  simp only [Option.bind_eq_bind, Option.bind_some]
  rw [hdescriptors, Option.map_bind]
  congr
  funext t
  rw [Function.comp_apply, hframebuffer t]
  cases mapCalls alloc root (framebufferCalls info) t with
  | none => rfl
  | some t' => rfl

theorem Supply.suppliedCalls {alloc : FrameAllocator alpha}
    {marked : alpha -> Nat -> Prop} {left : Nat -> alpha -> Prop}
    (hsupply : Supply alloc marked left) {root : Nat} {s : VmmState alpha}
    {leaf : List Index -> Nat} {calls : List MapCall}
    (h : PageTables s.mem root leaf) (hmarked : TablesMarked marked root s)
    (hleft : left (3 * calls.length) s.frames) :
    SuppliedCalls alloc root calls s := by
  induction calls generalizing s leaf with
  | nil => trivial
  | cons c rest ih =>
      rcases hsupply.vmmMap (k := 3 * rest.length) h hmarked hleft c.virt
        c.phys c.flags with ⟨t, ht, hmarked', hleft'⟩
      have hmap := hsupply.suppliedMap h hmarked hleft c.virt
      constructor
      · exact hmap
      · intro t' ht'
        rw [ht] at ht'
        cases ht'
        exact ih (vmmMap_spec h hmap.freshMap.atLookups ht) hmarked' hleft'

theorem vmmInit_identity {alloc : FrameAllocator alpha} {s : VmmState alpha}
    {info : BootInfo} (hboot : ValidBoot info)
    (hsupplied : SuppliedInit alloc s info) :
    exists root s', vmmInit alloc s info = some (root, s') ∧
      forall virt, virt % 4096 = 0 -> virt < 2 ^ 48 ->
        IdentityPage info s'.mem root virt := by
  rcases hsupplied with ⟨root, frames, halloc, hroot, hcalls⟩
  rcases mapCalls_runs (fun c hc => initCalls_valid hboot hc) hcalls with
    ⟨s', hs', hruns⟩
  have hempty : EmptyRoot (zeroFrame s.mem root) root := by
    constructor
    · exact hroot
    · intro i
      exact zeroFrame_self
  have hinv := vmm_runs_invariant hempty hruns
  exists root, s'
  constructor
  · rw [vmmInit_calls alloc hboot halloc, hs']
    rfl
  · intro virt halign hvirt
    exact identityPage_initCalls hboot hinv halign hvirt

/-- Two pages at 0 and a framebuffer of one page and a half, which lies behind
device memory. -/
def smallBoot : BootInfo where
  memoryMap := [⟨7, 0, 2⟩, ⟨11, 0x80000000, 1⟩]
  framebufferBase := 0x80001000
  framebufferSize := 6000

theorem smallBoot_valid : ValidBoot smallBoot := by
  constructor
  · decide
  · decide
  · apply List.Pairwise.cons
    · intro other hother virt hin
      rw [List.mem_singleton.mp hother] at hin
      unfold InDescriptor at hin
      lia
    · exact List.pairwise_singleton _ _
  · decide
  · decide

theorem vmmInit_identity_smallBoot :
    exists root s', vmmInit countingAlloc blankState smallBoot =
        some (root, s') ∧
      forall virt, virt % 4096 = 0 -> virt < 2 ^ 48 ->
        IdentityPage smallBoot s'.mem root virt := by
  have hroot : EmptyRoot (zeroFrame blankState.mem 0x2000) 0x2000 := by
    constructor
    · exact ⟨by decide, by decide⟩
    · intro i
      exact zeroFrame_self
  have hmarked : TablesMarked (fun next f => f < next) 0x2000
      { mem := zeroFrame blankState.mem 0x2000, frames := 0x3000 } := by
    intro path t _ ht
    rw [(emptyRoot_tableAt hroot ht).right]
    decide
  have hcalls : SuppliedCalls countingAlloc 0x2000 (initCalls smallBoot)
      { mem := zeroFrame blankState.mem 0x2000, frames := 0x3000 } :=
    countingAlloc_supply.suppliedCalls (pageTables_empty hroot) hmarked
      ⟨by decide, by decide, by decide⟩
  exact vmmInit_identity smallBoot_valid
    ⟨0x2000, 0x3000, rfl, ⟨by decide, by decide⟩, hcalls⟩

end Vmm
end Barium
