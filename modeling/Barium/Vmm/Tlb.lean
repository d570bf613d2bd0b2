import Barium.Foundation.CachedMap
import Barium.Vmm.Runs

/-!
# Translation lookaside buffers

Each CPU keeps translations that it has walked for.  `vmm_map` stores an entry
and then runs `invlpg`, which drops the page on its own CPU only; the others are
not told.  The calls follow one another here, walks and evictions come between
them in any order.  The inner entries that processors keep besides are left out:
once present, they never change.
-/

namespace Barium
namespace Vmm

open Foundation
open Function
open TransitionSystem

/-!
# Walks
-/

/-- The page that a walk of the processor ends at, with its permissions.  The
walk goes on at present entries only. -/
def hardwareWalk (mem : Nat -> Nat) (root virt : Nat) : Option (Nat × Nat) :=
  (pageFormat.tableAt mem root (innerPath virt)).bind (fun pt =>
    if mem (entryAddr pt (ptIdx virt)) &&& pagePresent = 0 then none
    else some (mem (entryAddr pt (ptIdx virt)) &&& frameMask,
      effectivePermissions mem root virt))

/-- The page that a call maps. -/
def callPage (c : MapCall) : Nat × Nat :=
  (c.phys &&& frameMask, c.flags &&& (pageWritable ||| pageUser))

theorem hardwareWalk_spec {mem : Nat -> Nat} {root : Nat}
    {leaf : List Index -> Nat} (h : PageTables mem root leaf) (virt : Nat) :
    hardwareWalk mem root virt =
      if leaf (indexPath virt) &&& pagePresent = 0 then none
      else some (leaf (indexPath virt) &&& frameMask,
        leaf (indexPath virt) &&& (pageWritable ||| pageUser)) := by
  unfold hardwareWalk
  cases ht : pageFormat.tableAt mem root (innerPath virt) with
  | none =>
      have hleaf : leaf (indexPath virt) = 0 :=
        h.leaf_none (innerPath virt) (lastIndex virt) rfl ht
      rw [hleaf]
      rfl
  | some pt =>
      have hleaf : mem (entryAddr pt (ptIdx virt)) = leaf (indexPath virt) :=
        h.leaf_eq (innerPath virt) pt (lastIndex virt) rfl ht
      rw [Option.bind_some, hleaf]
      split
      case isTrue => rfl
      case isFalse hpresent =>
          rw [effectivePermissions_spec h virt]
          intro hzero
          rw [hzero] at hpresent
          exact hpresent rfl

theorem hardwareWalk_lastCall {root : Nat} {trace : List MapCall}
    {s : VmmState alpha} (hinv : VmmInvariant root trace s) (virt : Nat) :
    hardwareWalk s.mem root virt = (lastCall trace virt).map callPage := by
  rw [hardwareWalk_spec hinv.tables, traceEntries_lastCall]
  cases hlast : lastCall trace virt with
  | none => rfl
  | some c =>
      have hfacts := callEntry_facts (hinv.calls c (lastCall_mem hlast))
      show (if callEntry c &&& pagePresent = 0 then none
        else some (callEntry c &&& frameMask,
          callEntry c &&& (pageWritable ||| pageUser))) = some (callPage c)
      rw [if_neg hfacts.right.left, hfacts.left, hfacts.right.right]
      rfl

/-!
# CPUs
-/

/-- The tables, the TLB of each CPU by page numbers, and the `invlpg` that a
CPU still has to run. -/
structure TlbState (alpha : Type) where
  vmm : VmmState alpha
  tlb : Nat -> Nat -> Option (Nat × Nat)
  pending : Nat -> Option Nat

inductive TlbEvent where
  | map (c : Nat) (call : MapCall)
  | invlpg (c virt : Nat)
  | fill (c virt : Nat)
  | evict (c page : Nat)

def TlbState.setTlb (s : TlbState alpha) (c page : Nat)
    (e : Option (Nat × Nat)) : TlbState alpha :=
  { s with tlb := update s.tlb c (update (s.tlb c) page e) }

inductive TlbStep (alloc : FrameAllocator alpha) (root : Nat) :
    TlbState alpha -> TlbEvent -> TlbState alpha -> Prop where
  -- `vmm_map` up to `pt[pt_idx] = ...`
  | map {s : TlbState alpha} {vmm : VmmState alpha} {c : Nat}
      {call : MapCall} :
      s.pending c = none -> VmmStep alloc root s.vmm call vmm ->
      TlbStep alloc root s (TlbEvent.map c call)
        { s with
          vmm := vmm
          pending := update s.pending c (some call.virt) }
  | invlpg {s : TlbState alpha} {c virt : Nat} :
      s.pending c = some virt ->
      TlbStep alloc root s (TlbEvent.invlpg c virt)
        { s.setTlb c (pageNumber virt) none with
          pending := update s.pending c none }
  -- the processor may walk for any address at any time
  | fill {s : TlbState alpha} {c virt : Nat} :
      TlbStep alloc root s (TlbEvent.fill c virt)
        (s.setTlb c (pageNumber virt) (hardwareWalk s.vmm.mem root virt))
  | evict {s : TlbState alpha} {c page : Nat} :
      TlbStep alloc root s (TlbEvent.evict c page) (s.setTlb c page none)

/-- Empty tables; loading `cr3` has emptied the TLBs. -/
def tlbSystem (alloc : FrameAllocator alpha) (root : Nat) :
    TransitionSystem (TlbState alpha) TlbEvent where
  Init := fun s => EmptyRoot s.vmm.mem root ∧
    (forall c page, s.tlb c page = none) ∧ forall c, s.pending c = none
  Step := TlbStep alloc root

/-- The translation that an access of CPU `c` gets. -/
def translate (root : Nat) (s : TlbState alpha) (c virt : Nat) :
    Option (Nat × Nat) :=
  match s.tlb c (pageNumber virt) with
  | some e => some e
  | none => hardwareWalk s.vmm.mem root virt

/-!
# Tables with TLBs are a cached map
-/

def TlbEvent.calls : TlbEvent -> List MapCall
  | .map _ call => [call]
  | _ => []

def TlbEvent.cache : TlbEvent -> CacheEvent Nat Nat (Nat × Nat)
  | .map _ call =>
      CacheEvent.store (pageNumber call.virt) (callPage call)
  | .invlpg c virt => CacheEvent.drop c (pageNumber virt)
  | .fill c virt => CacheEvent.fill c (pageNumber virt)
  | .evict c page => CacheEvent.drop c page

structure TlbInvariant (root : Nat) (trace : List TlbEvent)
    (s : TlbState alpha) : Prop where
  vmm : VmmInvariant root (trace.flatMap TlbEvent.calls) s.vmm
  copies : s.tlb =
    ((trace.map TlbEvent.cache).foldl CachedMap.apply CachedMap.start).copies
  source : forall virt, hardwareWalk s.vmm.mem root virt =
    ((trace.map TlbEvent.cache).foldl CachedMap.apply
      CachedMap.start).source (pageNumber virt)

theorem lastCall_snoc (trace : List MapCall) (c : MapCall) (virt : Nat) :
    lastCall (trace ++ [c]) virt =
      if pageNumber c.virt = pageNumber virt then some c
      else lastCall trace virt := by
  unfold lastCall
  rw [List.reverse_append, List.reverse_singleton, List.singleton_append,
    List.find?_cons]
  by_cases h : pageNumber c.virt = pageNumber virt
  · simp [h]
  · simp [h]

theorem TlbInvariant.snoc {root : Nat} {trace : List TlbEvent}
    {s s' : TlbState alpha} {event : TlbEvent} (h : TlbInvariant root trace s)
    (hvmm : s'.vmm = s.vmm) (hcalls : event.calls = [])
    (hsource : forall m : CachedMap Nat Nat (Nat × Nat),
      (m.apply event.cache).source = m.source)
    (hcopies : s'.tlb = (((trace.map TlbEvent.cache).foldl CachedMap.apply
      CachedMap.start).apply event.cache).copies) :
    TlbInvariant root (trace ++ [event]) s' := by
  refine ⟨?_, ?_, ?_⟩
  · rw [List.flatMap_append, List.flatMap_singleton, hcalls, List.append_nil,
      hvmm]
    exact h.vmm
  · rw [List.map_append, List.foldl_append]
    exact hcopies
  · intro virt
    rw [List.map_append, List.foldl_append, List.map_singleton,
      List.foldl_cons, List.foldl_nil, hsource, hvmm]
    exact h.source virt

theorem tlbInvariant_map {alloc : FrameAllocator alpha} {root : Nat}
    {trace : List TlbEvent} {s s' : TlbState alpha} {c : Nat} {call : MapCall}
    (h : TlbInvariant root trace s)
    (hmap : VmmStep alloc root s.vmm call s'.vmm) (htlb : s'.tlb = s.tlb) :
    TlbInvariant root (trace ++ [TlbEvent.map c call]) s' := by
  have hvmm : VmmInvariant root
      (trace.flatMap TlbEvent.calls ++ [call]) s'.vmm :=
    vmmInvariant_step h.vmm hmap
  refine ⟨?_, ?_, ?_⟩
  · rw [List.flatMap_append]
    exact hvmm
  · rw [List.map_append, List.foldl_append, htlb]
    exact h.copies
  · intro virt
    rw [hardwareWalk_lastCall hvmm, lastCall_snoc, List.map_append,
      List.foldl_append, List.map_singleton, List.foldl_cons, List.foldl_nil,
      TlbEvent.cache, CachedMap.apply]
    dsimp only
    rw [update_apply, ← h.source virt, hardwareWalk_lastCall h.vmm]
    by_cases hpage : pageNumber call.virt = pageNumber virt
    · rw [if_pos hpage, if_pos hpage.symm]
      rfl
    · rw [if_neg hpage, if_neg (Ne.symm hpage)]

theorem tlbInvariant_step {alloc : FrameAllocator alpha} {root : Nat}
    {trace : List TlbEvent} {s s' : TlbState alpha} {event : TlbEvent}
    (h : TlbInvariant root trace s)
    (hstep : TlbStep alloc root s event s') :
    TlbInvariant root (trace ++ [event]) s' := by
  cases hstep with
  | map hidle hmap => exact tlbInvariant_map h hmap rfl
  | invlpg hpending =>
      refine h.snoc rfl rfl (fun m => rfl) ?_
      unfold TlbState.setTlb
      dsimp only
      rw [h.copies]
      rfl
  | fill =>
      refine h.snoc rfl rfl (fun m => rfl) ?_
      unfold TlbState.setTlb
      dsimp only
      rw [h.source, h.copies]
      rfl
  | evict =>
      refine h.snoc rfl rfl (fun m => rfl) ?_
      unfold TlbState.setTlb
      dsimp only
      rw [h.copies]
      rfl

theorem tlbInvariant_runs {alloc : FrameAllocator alpha} {root : Nat}
    {trace : List TlbEvent} {s s' : TlbState alpha}
    (hinit : (tlbSystem alloc root).Init s)
    (hrun : (tlbSystem alloc root).Runs s trace s') :
    TlbInvariant root trace s' := by
  rcases hinit with ⟨hempty, htlb, _⟩
  have hvmm : VmmInvariant root [] s.vmm :=
    vmm_runs_invariant hempty (@Runs.nil _ _ (vmmSystem alloc root) s.vmm)
  refine runs_history_invariant ?_ ?_ hrun
  · refine ⟨hvmm, ?_, ?_⟩
    · funext c page
      exact htlb c page
    · intro virt
      rw [hardwareWalk_lastCall hvmm]
      rfl
  · intro earlier u event u' hinv hstep
    exact tlbInvariant_step hinv hstep

theorem translate_lookup {root : Nat} {trace : List TlbEvent}
    {s : TlbState alpha} (h : TlbInvariant root trace s) (c virt : Nat) :
    translate root s c virt =
      ((trace.map TlbEvent.cache).foldl CachedMap.apply
        CachedMap.start).lookup c (pageNumber virt) := by
  unfold translate CachedMap.lookup
  rw [← h.copies, h.source virt]
  cases s.tlb c (pageNumber virt) with
  | none => rfl
  | some e => rfl

/-!
# What a CPU sees
-/

/-- The call maps the page of `virt`. -/
def TlbEvent.Maps (virt : Nat) (call : MapCall) (event : TlbEvent) : Prop :=
  (exists c, event = TlbEvent.map c call) ∧
    pageNumber call.virt = pageNumber virt

theorem cache_eq_store {event : TlbEvent} {virt : Nat} {e : Nat × Nat}
    (h : event.cache = CacheEvent.store (pageNumber virt) e) :
    exists call, event.Maps virt call ∧ callPage call = e := by
  cases event with
  | map c call =>
      have hparts := CacheEvent.store.inj h
      exact ⟨call, ⟨⟨c, rfl⟩, hparts.left⟩, hparts.right⟩
  | invlpg c w => cases h
  | fill c w => cases h
  | evict c page => cases h

theorem TlbEvent.Maps.cache {event : TlbEvent} {virt : Nat} {call : MapCall}
    (h : event.Maps virt call) :
    event.cache = CacheEvent.store (pageNumber virt) (callPage call) := by
  rcases h with ⟨⟨c, rfl⟩, hpage⟩
  rw [TlbEvent.cache, hpage]

/-- A call for the page, and CPU `c` has not run `invlpg` for the page since a
later one. -/
def RecentCall (c virt : Nat) (trace : List TlbEvent) (call : MapCall) :
    Prop :=
  exists before event after, trace = before ++ event :: after ∧
    event.Maps virt call ∧
    forall middle later rest call', after = middle ++ later :: rest ->
      later.Maps virt call' ->
      forall w, pageNumber w = pageNumber virt -> TlbEvent.invlpg c w ∉ rest

theorem recentCall_of_recent {c virt : Nat} {trace : List TlbEvent}
    {e : Nat × Nat}
    (h : CachedMap.Recent c (pageNumber virt) (trace.map TlbEvent.cache) e) :
    exists call, RecentCall c virt trace call ∧ callPage call = e := by
  rcases h with ⟨before, after, htrace, hlate⟩
  rcases List.map_eq_append_iff.mp htrace with
    ⟨before', rest, hsplit, _, hrest⟩
  rcases List.map_eq_cons_iff.mp hrest with
    ⟨event, after', hcons, hevent, hafter⟩
  rcases cache_eq_store hevent with ⟨call, hmaps, hpage⟩
  refine ⟨call, ⟨before', event, after', ?_, hmaps, ?_⟩, hpage⟩
  · rw [hsplit, hcons]
  · intro middle later rest' call' hparts hlater w hw hmem
    refine hlate (middle.map TlbEvent.cache) (rest'.map TlbEvent.cache)
      (callPage call') ?_ ?_
    · rw [← hafter, hparts, List.map_append, List.map_cons, hlater.cache]
    · rw [← hw]
      exact List.mem_map_of_mem hmem

theorem invlpg_step {alloc : FrameAllocator alpha} {root c virt : Nat}
    {earlier : List TlbEvent} {s s' : TlbState alpha} {event : TlbEvent}
    (hstep : TlbStep alloc root s event s')
    (hpending : s.pending c = some virt) :
    s'.pending c = some virt ∨ TlbEvent.invlpg c virt ∈ earlier ++ [event] := by
  cases hstep with
  | @map vmm c' call hfree hmap =>
      have hne : c ≠ c' := by
        intro heq
        rw [heq, hfree] at hpending
        cases hpending
      left
      rw [← hpending]
      exact update_of_ne hne _ _
  | @invlpg c' w hw =>
      by_cases heq : c = c'
      · right
        rw [heq, hw] at hpending
        rw [heq, Option.some.inj hpending]
        exact List.mem_append_right _ List.mem_cons_self
      · left
        rw [← hpending]
        exact update_of_ne heq _ _
  | fill => exact Or.inl hpending
  | evict => exact Or.inl hpending

theorem pending_step {alloc : FrameAllocator alpha} {root c : Nat}
    {earlier : List TlbEvent} {s s' : TlbState alpha} {event : TlbEvent}
    (h : forall before call after,
      earlier = before ++ TlbEvent.map c call :: after ->
      s.pending c = some call.virt ∨ TlbEvent.invlpg c call.virt ∈ after)
    (hstep : TlbStep alloc root s event s') {before after : List TlbEvent}
    {call : MapCall}
    (hsplit : earlier ++ [event] = before ++ TlbEvent.map c call :: after) :
    s'.pending c = some call.virt ∨ TlbEvent.invlpg c call.virt ∈ after := by
  rcases List.eq_nil_or_concat after with hnil | ⟨after', last, hafter⟩
  · rw [hnil] at hsplit
    have hevent : event = TlbEvent.map c call :=
      (List.cons.inj (List.append_inj' hsplit rfl).right).left
    rw [hevent] at hstep
    cases hstep with
    | map hfree hmap => exact Or.inl (update_self c _ _)
  · rw [List.concat_eq_append] at hafter
    rw [hafter, ← List.cons_append, ← List.append_assoc] at hsplit
    have hparts := List.append_inj' hsplit rfl
    have hlast : event = last := (List.cons.inj hparts.right).left
    rw [hafter, ← hlast]
    rcases h before call after' hparts.left with hwait | hdone
    · exact invlpg_step hstep hwait
    · exact Or.inr (List.mem_append_left _ hdone)

/-- A CPU goes on after `vmm_map` only when it has run its `invlpg`. -/
theorem invlpg_of_map {alloc : FrameAllocator alpha} {root c : Nat}
    {trace before after : List TlbEvent} {s s' : TlbState alpha}
    {call : MapCall} (hrun : (tlbSystem alloc root).Runs s trace s')
    (hidle : s'.pending c = none)
    (htrace : trace = before ++ TlbEvent.map c call :: after) :
    TlbEvent.invlpg c call.virt ∈ after := by
  have hcases : forall before call after,
      trace = before ++ TlbEvent.map c call :: after ->
      s'.pending c = some call.virt ∨ TlbEvent.invlpg c call.virt ∈ after := by
    refine runs_history_invariant
      (P := fun events t => forall before call after,
        events = before ++ TlbEvent.map c call :: after ->
        t.pending c = some call.virt ∨ TlbEvent.invlpg c call.virt ∈ after)
      ?_ ?_ hrun
    · intro before call after hsplit
      simp at hsplit
    · intro earlier t event t' hbefore hstep before call after hsplit
      exact pending_step hbefore hstep hsplit
  rcases hcases before call after htrace with hwait | hdone
  · rw [hidle] at hwait
    cases hwait
  · exact hdone

theorem RecentCall.map_mem {c virt : Nat} {trace : List TlbEvent}
    {call : MapCall} (h : RecentCall c virt trace call) :
    exists event, event ∈ trace ∧ event.Maps virt call := by
  rcases h with ⟨before, event, after, htrace, hmaps, _⟩
  refine ⟨event, ?_, hmaps⟩
  rw [htrace]
  exact List.mem_append_right _ List.mem_cons_self

/-- The last call for a page is the only recent one for a CPU that has run
`invlpg` after it. -/
theorem RecentCall.eq_last {c virt : Nat} {before after : List TlbEvent}
    {event : TlbEvent} {call call' : MapCall}
    (h : RecentCall c virt (before ++ event :: after) call')
    (hmaps : event.Maps virt call)
    (hlast : forall e d, e ∈ after -> ¬ e.Maps virt d)
    {w : Nat} (hw : pageNumber w = pageNumber virt)
    (hdrop : TlbEvent.invlpg c w ∈ after) : call' = call := by
  rcases h with ⟨before', event', after', htrace, hmaps', hlate⟩
  rcases List.append_eq_append_iff.mp htrace with
    ⟨middle, hbefore, hafter⟩ | ⟨middle, hbefore, hafter⟩
  · -- the recent call stands at the last one or behind it
    cases middle with
    | nil =>
        have hevent : event = event' := (List.cons.inj hafter).left
        rcases hmaps with ⟨⟨d, hd⟩, _⟩
        rcases hmaps' with ⟨⟨d', hd'⟩, _⟩
        rw [hd, hd'] at hevent
        exact (TlbEvent.map.inj hevent).right.symm
    | cons first rest =>
        have hparts : after = rest ++ event' :: after' :=
          (List.cons.inj hafter).right
        refine absurd hmaps' (hlast event' call' ?_)
        rw [hparts]
        exact List.mem_append_right _ List.mem_cons_self
  · cases middle with
    | nil =>
        have hevent : event' = event := (List.cons.inj hafter).left
        rcases hmaps with ⟨⟨d, hd⟩, _⟩
        rcases hmaps' with ⟨⟨d', hd'⟩, _⟩
        rw [hd, hd'] at hevent
        exact (TlbEvent.map.inj hevent).right
    | cons first rest =>
        have hparts : after' = rest ++ event :: after :=
          (List.cons.inj hafter).right
        exact absurd hdrop (hlate rest event after call hparts hmaps w hw)

/-- A CPU finds the page of a call that was the last one when it last ran
`invlpg` for the page, or of a later one.  Once it has left `vmm_map` itself it
finds the page of its own call if no other one has followed. -/
theorem vmm_tlb_coherent {alloc : FrameAllocator alpha} {root : Nat}
    {trace : List TlbEvent} {s s' : TlbState alpha}
    (hinit : (tlbSystem alloc root).Init s)
    (hrun : (tlbSystem alloc root).Runs s trace s') (c virt : Nat) :
    (translate root s' c virt = none <->
      forall event call, event ∈ trace -> ¬ event.Maps virt call) ∧
    (forall e, translate root s' c virt = some e ->
      exists call, RecentCall c virt trace call ∧ callPage call = e) ∧
    (forall before call after,
      trace = before ++ TlbEvent.map c call :: after ->
      pageNumber call.virt = pageNumber virt ->
      (forall event d, event ∈ after -> ¬ event.Maps virt d) ->
      s'.pending c = none ->
      translate root s' c virt = some (callPage call)) := by
  have hinv := tlbInvariant_runs hinit hrun
  rcases CachedMap.lookup_recent c (pageNumber virt)
    (trace.map TlbEvent.cache) with ⟨hsome, hnone⟩
  rw [← translate_lookup hinv] at hsome hnone
  have hrecent : forall e, translate root s' c virt = some e ->
      exists call, RecentCall c virt trace call ∧ callPage call = e :=
    fun e he => recentCall_of_recent (hsome e he)
  have habsent : translate root s' c virt = none ->
      forall event call, event ∈ trace -> ¬ event.Maps virt call := by
    intro htranslate event call hmem hmaps
    refine hnone htranslate (callPage call) ?_
    rw [← hmaps.cache]
    exact List.mem_map_of_mem hmem
  refine ⟨⟨habsent, ?_⟩, hrecent, ?_⟩
  · intro hcalls
    cases htranslate : translate root s' c virt with
    | none => rfl
    | some e =>
        rcases hrecent e htranslate with ⟨call, hcall, _⟩
        rcases hcall.map_mem with ⟨event, hmem, hmaps⟩
        exact absurd hmaps (hcalls event call hmem)
  · intro before call after htrace hpage hlast hidle
    have hmaps : (TlbEvent.map c call).Maps virt call := ⟨⟨c, rfl⟩, hpage⟩
    have hdrop : TlbEvent.invlpg c call.virt ∈ after :=
      invlpg_of_map hrun hidle htrace
    cases htranslate : translate root s' c virt with
    | none =>
        refine absurd hmaps (habsent htranslate _ call ?_)
        rw [htrace]
        exact List.mem_append_right _ List.mem_cons_self
    | some e =>
        rcases hrecent e htranslate with ⟨call', hcall, hentry⟩
        rw [htrace] at hcall
        rw [← hentry, hcall.eq_last hmaps hlast hpage hdrop]

/-!
# A stale page
-/

def blankTlbs : TlbState Nat where
  vmm := blankState
  tlb := fun _ _ => none
  pending := fun _ => none

/-- The page of `sectionCall`, moved. -/
def movedCall : MapCall where
  virt := 0x8000000000
  phys := 0x9000
  flags := 3

theorem sectionCall_mapped :
    exists vmm, VmmStep countingAlloc 0x1000 blankState sectionCall vmm ∧
      VmmInvariant 0x1000 [sectionCall] vmm ∧
      forall virt phys flags, FreshMap countingAlloc 0x1000 vmm virt ∧
        exists vmm', vmmMap countingAlloc vmm 0x1000 virt phys flags =
          some vmm' := by
  have hroot : EmptyRoot blankState.mem 0x1000 :=
    ⟨⟨by decide, by decide⟩, fun i => rfl⟩
  have hmarked : TablesMarked (fun next f => f < next) 0x1000 blankState := by
    intro path t _ ht
    rw [(emptyRoot_tableAt hroot ht).right]
    decide
  have htables := pageTables_empty hroot
  rcases countingAlloc_supply.vmmMap (k := 3) htables hmarked
    ⟨by decide, by decide, by decide⟩ sectionCall.virt sectionCall.phys
    sectionCall.flags with ⟨vmm, hvmm, hmarked', hleft'⟩
  have hstep : VmmStep countingAlloc 0x1000 blankState sectionCall vmm :=
    VmmStep.map ⟨by decide, by decide, by decide, by decide⟩
      (countingAlloc_supply.freshMap htables hmarked
        ⟨by decide, by decide, by decide⟩ _) hvmm
  have hinv : VmmInvariant 0x1000 [sectionCall] vmm :=
    vmm_runs_invariant hroot (runs_single hstep)
  refine ⟨vmm, hstep, hinv, ?_⟩
  intro virt phys flags
  constructor
  · exact countingAlloc_supply.freshMap hinv.tables hmarked' hleft' virt
  · rcases countingAlloc_supply.vmmMap (k := 0) hinv.tables hmarked' hleft'
      virt phys flags with ⟨vmm', hvmm', _, _⟩
    exact ⟨vmm', hvmm'⟩

/-- CPU 1 has walked before CPU 0 maps the page anew. -/
theorem vmm_tlb_coherent_movedCall :
    exists s', (tlbSystem countingAlloc 0x1000).Runs blankTlbs
        [TlbEvent.map 0 sectionCall, TlbEvent.invlpg 0 sectionCall.virt,
          TlbEvent.fill 1 sectionCall.virt, TlbEvent.map 0 movedCall,
          TlbEvent.invlpg 0 movedCall.virt] s' ∧
      translate 0x1000 s' 0 movedCall.virt = some (callPage movedCall) ∧
      translate 0x1000 s' 1 movedCall.virt = some (callPage sectionCall) := by
  have hroot : EmptyRoot blankState.mem 0x1000 :=
    ⟨⟨by decide, by decide⟩, fun i => rfl⟩
  obtain ⟨vmm, hstep, hinv, hmore⟩ := sectionCall_mapped
  obtain ⟨hfresh, vmm', hvmm'⟩ :=
    hmore movedCall.virt movedCall.phys movedCall.flags
  have hstep' : VmmStep countingAlloc 0x1000 vmm movedCall vmm' :=
    VmmStep.map ⟨by decide, by decide, by decide, by decide⟩ hfresh hvmm'
  have hrun := Runs.snoc (Runs.snoc (Runs.snoc (Runs.snoc (Runs.snoc
    (@Runs.nil _ _ (tlbSystem countingAlloc 0x1000) blankTlbs)
    (TlbStep.map (c := 0) rfl hstep)) (TlbStep.invlpg (c := 0) rfl))
    (@TlbStep.fill _ _ _ _ 1 sectionCall.virt))
    (TlbStep.map (c := 0) rfl hstep')) (TlbStep.invlpg (c := 0) rfl)
  refine ⟨_, hrun, ?_, ?_⟩
  · refine (vmm_tlb_coherent ⟨hroot, fun _ _ => rfl, fun _ => rfl⟩ hrun 0
      movedCall.virt).right.right
      [TlbEvent.map 0 sectionCall, TlbEvent.invlpg 0 sectionCall.virt,
        TlbEvent.fill 1 sectionCall.virt] movedCall
      [TlbEvent.invlpg 0 movedCall.virt] rfl rfl ?_ rfl
    intro event d hmem hmaps
    rw [List.mem_singleton.mp hmem] at hmaps
    rcases hmaps with ⟨⟨c, hc⟩, _⟩
    cases hc
  · have hwalk : hardwareWalk vmm.mem 0x1000 sectionCall.virt =
        some (callPage sectionCall) :=
      hardwareWalk_lastCall hinv sectionCall.virt
    have hcopy : forall s : TlbState Nat,
        s.tlb 1 (pageNumber movedCall.virt) =
          hardwareWalk vmm.mem 0x1000 sectionCall.virt ->
        translate 0x1000 s 1 movedCall.virt = some (callPage sectionCall) := by
      intro s hs
      unfold translate
      rw [hs, hwalk]
    exact hcopy _ rfl

end Vmm
end Barium
