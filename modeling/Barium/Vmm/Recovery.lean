import Barium.Vmm.Tlb

/-!
# Recovery from page faults

While `vmm_test_active` is set, `interrupt_handler` answers a page fault by
mapping the page anew: writable, for the kernel, and to the frame that
`vmm_get_phys` returns.  Calls of `vmm_map` and recoveries together change the
page map as one entry at a time.
-/

namespace Barium
namespace Vmm

open Foundation
open Function
open TransitionSystem

/-- The branch of `interrupt_handler` for vector 14. -/
def recoverFault (alloc : FrameAllocator alpha) (s : VmmState alpha)
    (pml4 faultAddr : Nat) : Option (VmmState alpha) :=
  vmmMap alloc s pml4 (faultAddr &&& frameMask)
    (vmmGetPhys s.mem pml4 faultAddr) (pagePresent ||| pageWritable)

inductive FaultEvent where
  | map (c : MapCall)
  | fault (faultAddr : Nat)

inductive FaultStep (alloc : FrameAllocator alpha) (root : Nat) :
    VmmState alpha -> FaultEvent -> VmmState alpha -> Prop where
  | map {s s' : VmmState alpha} {c : MapCall} :
      VmmStep alloc root s c s' -> FaultStep alloc root s (FaultEvent.map c) s'
  | fault {s s' : VmmState alpha} {faultAddr : Nat} :
      faultAddr < 2 ^ 64 ->
      FreshMap alloc root s (faultAddr &&& frameMask) ->
      recoverFault alloc s root faultAddr = some s' ->
      FaultStep alloc root s (FaultEvent.fault faultAddr) s'

def faultSystem (alloc : FrameAllocator alpha) (root : Nat) :
    TransitionSystem (VmmState alpha) FaultEvent where
  Init := fun s => EmptyRoot s.mem root
  Step := FaultStep alloc root

/-!
# The page map
-/

/-- A map from page numbers to frames and permissions after an event.  A
recovery keeps the frame of a page; a page without one gets frame 0. -/
def pageAfter (pages : Nat -> Option (Nat × Nat)) :
    FaultEvent -> Nat -> Option (Nat × Nat)
  | .map c =>
      update pages (pageNumber c.virt) (some (callPage c))
  | .fault faultAddr =>
      update pages (pageNumber faultAddr)
        (some (((pages (pageNumber faultAddr)).map Prod.fst).getD 0,
          pageWritable))

def pagesOf (trace : List FaultEvent) : Nat -> Option (Nat × Nat) :=
  trace.foldl pageAfter (fun _ => none)

section Recovery

variable {alloc : FrameAllocator alpha} {root : Nat} {calls : List MapCall}
  {s s' : VmmState alpha} {faultAddr : Nat}

def recoveryCall (s : VmmState alpha) (root faultAddr : Nat) : MapCall where
  virt := faultAddr &&& frameMask
  phys := vmmGetPhys s.mem root faultAddr
  flags := pagePresent ||| pageWritable

theorem pageNumber_frame (h : faultAddr < 2 ^ 64) :
    pageNumber (faultAddr &&& frameMask) = pageNumber faultAddr := by
  have hmask : faultAddr &&& frameMask = faultAddr / 2 ^ 12 * 2 ^ 12 :=
    Word.and_high_mask h (by decide)
  rw [hmask]
  unfold pageNumber
  lia

theorem getPhys_lastCall (hinv : VmmInvariant root calls s)
    (h : faultAddr < 2 ^ 64) :
    vmmGetPhys s.mem root faultAddr =
      (((lastCall calls faultAddr).map callPage).map Prod.fst).getD 0 := by
  rw [(vmmInvariant_refines hinv).translate faultAddr h]
  cases lastCall calls faultAddr with
  | none => rfl
  | some c => rfl

theorem getPhys_frame (hinv : VmmInvariant root calls s)
    (h : faultAddr < 2 ^ 64) :
    vmmGetPhys s.mem root faultAddr &&& frameMask =
      vmmGetPhys s.mem root faultAddr := by
  rw [getPhys_lastCall hinv h]
  cases lastCall calls faultAddr with
  | none => rfl
  | some c =>
      change c.phys &&& frameMask &&& frameMask = c.phys &&& frameMask
      rw [Nat.and_assoc, Nat.and_self]

theorem getPhys_lt (hinv : VmmInvariant root calls s)
    (h : faultAddr < 2 ^ 64) : vmmGetPhys s.mem root faultAddr < 2 ^ 64 := by
  rw [← getPhys_frame hinv h]
  exact Nat.lt_of_le_of_lt Nat.and_le_right (by decide)

theorem recoverFault_step (hinv : VmmInvariant root calls s)
    (h : faultAddr < 2 ^ 64)
    (hfresh : FreshMap alloc root s (faultAddr &&& frameMask))
    (hmap : recoverFault alloc s root faultAddr = some s') :
    VmmStep alloc root s (recoveryCall s root faultAddr) s' := by
  have hvalid : ValidCall (recoveryCall s root faultAddr) := by
    constructor
    · exact Nat.lt_of_le_of_lt Nat.and_le_left h
    · exact getPhys_lt hinv h
    · change pagePresent ||| pageWritable < 2 ^ 12
      decide
    · change (pagePresent ||| pageWritable) &&& pagePresent ≠ 0
      decide
  exact VmmStep.map hvalid hfresh hmap

structure PagesHold (root : Nat) (trace : List FaultEvent)
    (s : VmmState alpha) (calls : List MapCall) : Prop where
  vmm : VmmInvariant root calls s
  pages : forall virt,
    (lastCall calls virt).map callPage = pagesOf trace (pageNumber virt)

theorem pagesOf_snoc (trace : List FaultEvent) (event : FaultEvent) :
    pagesOf (trace ++ [event]) = pageAfter (pagesOf trace) event := by
  simp [pagesOf]

theorem PagesHold.call {trace : List FaultEvent} {event : FaultEvent}
    {c : MapCall} (h : PagesHold root trace s calls)
    (hstep : VmmStep alloc root s c s')
    (hevent : pageAfter (pagesOf trace) event =
      update (pagesOf trace) (pageNumber c.virt)
        (some (callPage c))) :
    PagesHold root (trace ++ [event]) s' (calls ++ [c]) := by
  constructor
  · exact vmmInvariant_step h.vmm hstep
  · intro virt
    rw [lastCall_snoc, pagesOf_snoc, hevent]
    by_cases hpage : pageNumber c.virt = pageNumber virt
    · rw [if_pos hpage, hpage, update_self]
      rfl
    · rw [if_neg hpage, update_of_ne (Ne.symm hpage)]
      exact h.pages virt

theorem pagesHold_step {trace : List FaultEvent} {event : FaultEvent}
    (h : PagesHold root trace s calls)
    (hstep : FaultStep alloc root s event s') :
    exists calls', PagesHold root (trace ++ [event]) s' calls' := by
  cases hstep with
  | map hmap => exact ⟨_, h.call hmap rfl⟩
  | fault haddr hfresh hmap =>
      rename_i faultAddr
      have hflags : (pagePresent ||| pageWritable) &&&
          (pageWritable ||| pageUser) = pageWritable := by decide
      have hpage : callPage (recoveryCall s root faultAddr) =
          (((pagesOf trace (pageNumber faultAddr)).map Prod.fst).getD 0,
            pageWritable) := by
        rw [← h.pages, ← getPhys_lastCall h.vmm haddr]
        unfold callPage recoveryCall
        rw [getPhys_frame h.vmm haddr, hflags]
      refine ⟨_, h.call (recoverFault_step h.vmm haddr hfresh hmap) ?_⟩
      rw [hpage]
      change _ = update _ (pageNumber (faultAddr &&& frameMask)) _
      rw [pageNumber_frame haddr]
      rfl

end Recovery

/-- The processor's walk finds what the calls and the recoveries have left. -/
theorem vmm_recovery_pages {alloc : FrameAllocator alpha} {root : Nat}
    {s s' : VmmState alpha} {trace : List FaultEvent}
    (hempty : EmptyRoot s.mem root)
    (hrun : (faultSystem alloc root).Runs s trace s') (virt : Nat) :
    hardwareWalk s'.mem root virt = pagesOf trace (pageNumber virt) := by
  have hall : exists calls, PagesHold root trace s' calls := by
    apply runs_history_invariant
      (P := fun trace t => exists calls, PagesHold root trace t calls) _ _ hrun
    · exact ⟨[], vmm_runs_invariant hempty (Runs.nil (T := vmmSystem alloc root)
        s), fun _ => rfl⟩
    · intro before t event u ht hstep
      rcases ht with ⟨calls, hpages⟩
      exact pagesHold_step hpages hstep
  obtain ⟨calls, hpages⟩ := hall
  rw [hardwareWalk_lastCall hpages.vmm virt, hpages.pages virt]

/-- A page of a program that is written to while the test runs is the kernel's
afterwards. -/
theorem vmm_recovery_pages_sectionCall :
    exists s', (faultSystem countingAlloc 0x1000).Runs blankState
        [FaultEvent.map sectionCall, FaultEvent.fault sectionCall.virt] s' ∧
      hardwareWalk s'.mem 0x1000 sectionCall.virt =
        some ((callPage sectionCall).1, pageWritable) := by
  have hroot : EmptyRoot blankState.mem 0x1000 :=
    ⟨⟨by decide, by decide⟩, fun i => rfl⟩
  obtain ⟨vmm, hstep, _, hmore⟩ := sectionCall_mapped
  obtain ⟨hfresh, vmm', hvmm'⟩ := hmore (sectionCall.virt &&& frameMask)
    (vmmGetPhys vmm.mem 0x1000 sectionCall.virt) (pagePresent ||| pageWritable)
  have hfault : FaultStep countingAlloc 0x1000 vmm
      (FaultEvent.fault sectionCall.virt) vmm' :=
    FaultStep.fault (by decide) hfresh hvmm'
  have hrun := ((Runs.nil (T := faultSystem countingAlloc 0x1000)
    blankState).snoc (FaultStep.map hstep)).snoc hfault
  exact ⟨vmm', hrun, vmm_recovery_pages hroot hrun sectionCall.virt⟩

end Vmm
end Barium
