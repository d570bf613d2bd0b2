import Mathlib.Data.List.Basic
import Barium.Vmm.Refinement

/-!
# Runs of mappings

After any sequence of `vmm_map` calls the page tables translate every address
as the last call for its page says.
-/

namespace Barium
namespace Vmm

open Foundation
open TransitionSystem

structure MapCall where
  virt : Nat
  phys : Nat
  flags : Nat
  deriving DecidableEq, Repr

/-- The arguments are 64-bit words, and the flags are flags of a present
page. -/
structure ValidCall (c : MapCall) : Prop where
  virt_lt : c.virt < 2 ^ 64
  phys_lt : c.phys < 2 ^ 64
  flags_lt : c.flags < 2 ^ 12
  present : c.flags &&& pagePresent ≠ 0

/-- The last call for the page of an address. -/
def lastCall (trace : List MapCall) (virt : Nat) : Option MapCall :=
  trace.reverse.find? (fun c => pageNumber c.virt = pageNumber virt)

/-!
# The steps
-/

inductive VmmStep (alloc : FrameAllocator alpha) (root : Nat) :
    VmmState alpha -> MapCall -> VmmState alpha -> Prop where
  | map {s s' : VmmState alpha} {c : MapCall} :
      ValidCall c -> FreshMap alloc root s c.virt ->
      vmmMap alloc s root c.virt c.phys c.flags = some s' ->
      VmmStep alloc root s c s'

def vmmSystem (alloc : FrameAllocator alpha) (root : Nat) :
    TransitionSystem (VmmState alpha) MapCall where
  Init := fun s => EmptyRoot s.mem root
  Step := VmmStep alloc root

/-!
# The map that a run builds
-/

def callEntry (c : MapCall) : Nat :=
  (c.phys &&& frameMask) ||| c.flags

def traceEntries (trace : List MapCall) (path : List Index) : Nat :=
  ((trace.reverse.find? (fun c => indexPath c.virt = path)).map
    callEntry).getD 0

theorem traceEntries_snoc (trace : List MapCall) (c : MapCall) :
    traceEntries (trace ++ [c]) =
      Function.update (traceEntries trace) (indexPath c.virt)
        (callEntry c) := by
  funext path
  unfold traceEntries
  rw [List.reverse_append, List.reverse_singleton, List.singleton_append,
    List.find?_cons]
  by_cases hsame : path = indexPath c.virt
  · rw [hsame, Function.update_self]
    simp
  · rw [Function.update_of_ne hsame]
    have hne' : ¬ indexPath c.virt = path := fun h => hsame h.symm
    simp [hne']

theorem traceEntries_lastCall (trace : List MapCall) (virt : Nat) :
    traceEntries trace (indexPath virt) =
      ((lastCall trace virt).map callEntry).getD 0 := by
  unfold traceEntries lastCall
  simp only [indexPath_eq_iff]

theorem lastCall_mem {trace : List MapCall} {virt : Nat} {c : MapCall}
    (h : lastCall trace virt = some c) : c ∈ trace := by
  have hmem := List.mem_of_find?_eq_some h
  exact List.mem_reverse.mp hmem

theorem lastCall_page {trace : List MapCall} {virt : Nat} {c : MapCall}
    (h : lastCall trace virt = some c) :
    pageNumber c.virt = pageNumber virt := by
  have hfound := List.find?_some h
  exact of_decide_eq_true hfound

theorem lastCall_unique {trace : List MapCall} {virt : Nat} {c : MapCall}
    (hmem : c ∈ trace) (hpage : pageNumber c.virt = pageNumber virt)
    (honly : forall d, d ∈ trace -> pageNumber d.virt = pageNumber virt ->
      d = c) :
    lastCall trace virt = some c := by
  cases hlast : lastCall trace virt with
  | some d => rw [honly d (lastCall_mem hlast) (lastCall_page hlast)]
  | none =>
      have hnone := List.find?_eq_none.mp hlast c (List.mem_reverse.mpr hmem)
      exact absurd (decide_eq_true hpage) hnone

theorem lastCall_append {left right : List MapCall} {virt : Nat}
    (hother : forall c, c ∈ right -> pageNumber c.virt ≠ pageNumber virt) :
    lastCall (left ++ right) virt = lastCall left virt := by
  have hnone : right.reverse.find?
      (fun c => pageNumber c.virt = pageNumber virt) = none := by
    rw [List.find?_eq_none]
    intro c hc
    have hne := hother c (List.mem_reverse.mp hc)
    simp [hne]
  unfold lastCall
  rw [List.reverse_append, List.find?_append, hnone]
  rfl

/-- What a run keeps: the tables hold the entries of its calls. -/
structure VmmInvariant (root : Nat) (trace : List MapCall)
    (s : VmmState alpha) : Prop where
  tables : PageTables s.mem root (traceEntries trace)
  calls : forall c, c ∈ trace -> ValidCall c

theorem vmmInvariant_step {alloc : FrameAllocator alpha} {root : Nat}
    {trace : List MapCall} {s s' : VmmState alpha} {c : MapCall}
    (hinv : VmmInvariant root trace s) (hstep : VmmStep alloc root s c s') :
    VmmInvariant root (trace ++ [c]) s' := by
  cases hstep with
  | map hvalid hfresh hrun =>
      constructor
      · rw [traceEntries_snoc]
        exact vmmMap_spec hinv.tables hfresh.atLookups hrun
      · intro d hd
        rcases List.mem_append.mp hd with hd | hd
        · exact hinv.calls d hd
        · rw [List.mem_singleton.mp hd]
          exact hvalid

/-- Further calls of `vmm_map` extend the history of the tables. -/
theorem vmmInvariant_runs {alloc : FrameAllocator alpha} {root : Nat}
    {trace calls : List MapCall} {t t' : VmmState alpha}
    (hinv : VmmInvariant root trace t)
    (hrun : (vmmSystem alloc root).Runs t calls t') :
    VmmInvariant root (trace ++ calls) t' := by
  apply runs_history_invariant
    (P := fun calls t => VmmInvariant root (trace ++ calls) t) _ _ hrun
  · simpa using hinv
  · intro calls t c u hinv hstep
    rw [← List.append_assoc]
    exact vmmInvariant_step hinv hstep

theorem vmm_runs_invariant {alloc : FrameAllocator alpha} {root : Nat}
    {t t' : VmmState alpha} {trace : List MapCall}
    (hempty : EmptyRoot t.mem root)
    (hrun : (vmmSystem alloc root).Runs t trace t') :
    VmmInvariant root trace t' := by
  have hstart : VmmInvariant root [] t := by
    constructor
    · exact pageTables_empty hempty
    · intro c hc
      cases hc
  exact vmmInvariant_runs hstart hrun

/-!
# Refinement
-/

/-- No two entries of the inner levels lead to the same table. -/
def NoSharing (mem : Nat -> Nat) (root : Nat) : Prop :=
  forall (path path' : List Index) t t' (i i' : Index),
    path.length < 3 -> path'.length < 3 ->
    pageFormat.tableAt mem root path = some t ->
    pageFormat.tableAt mem root path' = some t' ->
    mem (entryAddr t i.val) &&& pagePresent ≠ 0 ->
    mem (entryAddr t' i'.val) &&& pagePresent ≠ 0 ->
    mem (entryAddr t i.val) &&& frameMask =
      mem (entryAddr t' i'.val) &&& frameMask ->
    t = t' ∧ i = i'

structure RefinesMap (mem : Nat -> Nat) (root : Nat)
    (trace : List MapCall) : Prop where
  translate : forall virt, virt < 2 ^ 64 ->
    vmmGetPhys mem root virt =
      match lastCall trace virt with
      | some c => c.phys &&& frameMask
      | none => 0
  permissions : forall virt c, virt < 2 ^ 64 ->
    lastCall trace virt = some c ->
    effectivePermissions mem root virt =
      c.flags &&& (pageWritable ||| pageUser)
  no_sharing : NoSharing mem root

theorem callEntry_facts {c : MapCall} (h : ValidCall c) :
    callEntry c &&& frameMask = c.phys &&& frameMask ∧
      callEntry c &&& pagePresent ≠ 0 ∧
      callEntry c &&& (pageWritable ||| pageUser) =
        c.flags &&& (pageWritable ||| pageUser) := by
  have hframe := validFrame_mask h.phys_lt
  have hflags := h.flags_lt
  unfold callEntry
  rw [leaf_entry h.phys_lt h.flags_lt, frame_of_entry hframe hflags,
    flags_of_entry hframe hflags (by decide),
    flags_of_entry hframe hflags (by decide)]
  exact ⟨rfl, h.present, rfl⟩

theorem PageTables.no_sharing {mem : Nat -> Nat} {root : Nat}
    {leaf : List Index -> Nat} (h : PageTables mem root leaf) :
    NoSharing mem root := by
  intro path path' t t' i i' hpath hpath' ht ht' hp hp' hsame
  have hchild : pageFormat.tableAt mem root (path ++ [i]) =
      some (mem (entryAddr t i.val) &&& frameMask) := by
    rw [TableFormat.tableAt_snoc ht i]
    exact if_neg hp
  have hchild' : pageFormat.tableAt mem root (path' ++ [i']) =
      some (mem (entryAddr t i.val) &&& frameMask) := by
    rw [TableFormat.tableAt_snoc ht' i', hsame]
    exact if_neg hp'
  have hpaths := h.tree.unique (path ++ [i]) (path' ++ [i']) _
    (by simp; lia) (by simp; lia) hchild hchild'
  rcases List.append_inj' hpaths rfl with ⟨hinner, hlast⟩
  constructor
  · rw [hinner, ht'] at ht
    exact (Option.some.inj ht).symm
  · exact (List.cons.inj hlast).left

theorem vmmInvariant_refines {root : Nat} {trace : List MapCall}
    {s : VmmState alpha} (hinv : VmmInvariant root trace s) :
    RefinesMap s.mem root trace := by
  constructor
  · intro virt _
    rw [vmmGetPhys_spec hinv.tables, traceEntries_lastCall]
    cases hlast : lastCall trace virt with
    | none => rfl
    | some c =>
        have hfacts := callEntry_facts (hinv.calls c (lastCall_mem hlast))
        show (if callEntry c &&& pagePresent = 0 then 0
          else callEntry c &&& frameMask) = c.phys &&& frameMask
        rw [if_neg hfacts.right.left, hfacts.left]
  · intro virt c _ hlast
    have hfacts := callEntry_facts (hinv.calls c (lastCall_mem hlast))
    have hleaf : traceEntries trace (indexPath virt) = callEntry c := by
      rw [traceEntries_lastCall, hlast]
      rfl
    rw [effectivePermissions_spec hinv.tables, hleaf]
    · exact hfacts.right.right
    · rw [hleaf]
      intro hzero
      rw [hzero] at hfacts
      exact hfacts.right.left rfl
  · exact hinv.tables.no_sharing

/-!
# Allocations

`pmm_alloc(1)` returns a fresh frame at every allocation that a call makes.
-/

def Supplied (alloc : FrameAllocator alpha) (root : Nat)
    (s : VmmState alpha) (table idx : Nat) : Prop :=
  s.mem (entryAddr table idx) &&& pagePresent = 0 ->
    exists frame frames, alloc s.frames = some (frame, frames) ∧
      FreshFrame s.mem root frame

def SuppliedMap (alloc : FrameAllocator alpha) (root : Nat)
    (s : VmmState alpha) (virt : Nat) : Prop :=
  AtLookups alloc root virt (Supplied alloc root) s

section Allocations

variable {alloc : FrameAllocator alpha} {root : Nat} {s : VmmState alpha}

theorem Supplied.freshAlloc {t idx : Nat} (h : Supplied alloc root s t idx) :
    FreshAlloc alloc root s t idx := by
  intro habsent frame frames halloc
  rcases h habsent with ⟨frame', frames', halloc', hfresh⟩
  rw [halloc] at halloc'
  cases halloc'
  exact hfresh

theorem Supplied.returns {t idx : Nat} (h : Supplied alloc root s t idx) :
    exists s' u, ensureTable alloc s t idx = some (s', u) := by
  unfold ensureTable
  by_cases habsent : s.mem (entryAddr t idx) &&& pagePresent = 0
  · rcases h habsent with ⟨frame, frames, halloc, _⟩
    rw [if_pos habsent, halloc]
    exact ⟨_, _, rfl⟩
  · rw [if_neg habsent]
    exact ⟨_, _, rfl⟩

theorem SuppliedMap.freshMap {virt : Nat}
    (h : SuppliedMap alloc root s virt) : FreshMap alloc root s virt :=
  AtLookups.imp h (fun _ _ _ hsupplied => hsupplied.freshAlloc)

theorem SuppliedMap.returns {virt : Nat} (h : SuppliedMap alloc root s virt)
    (phys flags : Nat) :
    exists s', vmmMap alloc s root virt phys flags = some s' := by
  exact AtLookups.returns
    (AtLookups.imp h (fun _ _ _ hsupplied => hsupplied.returns)) phys flags

end Allocations

/-!
# Allocators that mark their frames

An allocator that marks the frames it hands out, and hands out no marked frame,
never returns a table in use.
-/

/-- `left k` says that the allocator has `k` more frames. -/
structure Supply (alloc : FrameAllocator alpha) (marked : alpha -> Nat -> Prop)
    (left : Nat -> alpha -> Prop) : Prop where
  less : forall k a, left (k + 1) a -> left k a
  returns : forall k a, left (k + 1) a -> exists f a', alloc a = some (f, a')
  fresh : forall k a f a', left (k + 1) a -> alloc a = some (f, a') ->
    f ≠ 0 ∧ ValidFrame f ∧ ¬ marked a f
  mark : forall k a f a', left (k + 1) a -> alloc a = some (f, a') ->
    marked a' f ∧ (forall g, marked a g -> marked a' g) ∧ left k a'

def TablesMarked (marked : alpha -> Nat -> Prop) (root : Nat)
    (s : VmmState alpha) : Prop :=
  forall (path : List Index) t, path.length <= 3 ->
    pageFormat.tableAt s.mem root path = some t -> marked s.frames t

section Marked

variable {alloc : FrameAllocator alpha} {marked : alpha -> Nat -> Prop}
  {left : Nat -> alpha -> Prop} {root k : Nat} {s s' : VmmState alpha}
  {leaf : List Index -> Nat}

theorem Supply.supplied (hsupply : Supply alloc marked left)
    (hmarked : TablesMarked marked root s) (hleft : left (k + 1) s.frames)
    (t idx : Nat) : Supplied alloc root s t idx := by
  intro _
  rcases hsupply.returns k _ hleft with ⟨frame, frames, halloc⟩
  rcases hsupply.fresh k _ _ _ hleft halloc with ⟨hne, hvalid, hunmarked⟩
  refine ⟨frame, frames, halloc, ⟨hvalid, ?_⟩, hne⟩
  intro path hlength ht
  exact hunmarked (hmarked path frame hlength ht)

theorem Supply.ensureTable (hsupply : Supply alloc marked left)
    (h : PageTables s.mem root leaf) (hmarked : TablesMarked marked root s)
    (hleft : left (k + 1) s.frames) (path : List Index) (i : Index) {t u : Nat}
    (hpath : path.length < 3)
    (ht : pageFormat.tableAt s.mem root path = some t)
    (hrun : Vmm.ensureTable alloc s t i.val = some (s', u)) :
    TablesMarked marked root s' ∧ left k s'.frames := by
  have hfresh := (hsupply.supplied hmarked hleft t i.val).freshAlloc
  unfold Vmm.ensureTable at hrun
  by_cases habsent : s.mem (entryAddr t i.val) &&& pagePresent = 0
  · rw [if_pos habsent] at hrun
    rcases Option.bind_eq_some_iff.mp hrun with ⟨⟨frame, frames⟩, halloc, hs⟩
    cases hs
    have hzero : s.mem (pageFormat.slot t i) = 0 :=
      innerEntry_absent (h.inner path t i hpath ht) habsent
    have hcase := (linkTable_tableAt h hpath ht hzero
      (hfresh habsent frame frames halloc).toUnusedFrame).right
    rcases hsupply.mark k _ _ _ hleft halloc with ⟨hnew, hkeep, hrest⟩
    constructor
    · intro other v hlength hv
      by_cases hsame : other = path ++ [i]
      · have hsome := ((hcase other hlength).left hsame).symm.trans hv
        cases hsome
        exact hnew
      · have hold := ((hcase other hlength).right hsame).symm.trans hv
        exact hkeep v (hmarked other v hlength hold)
    · exact hrest
  · rw [if_neg habsent] at hrun
    cases hrun
    exact ⟨hmarked, hsupply.less k _ hleft⟩

theorem Supply.lookupKeeps (hsupply : Supply alloc marked left) (k : Nat)
    (virt : Nat) :
    LookupKeeps alloc root virt (Supplied alloc root)
      (fun path v => PageTables v.mem root leaf ∧ TablesMarked marked root v ∧
        left (k + (3 - path.length)) v.frames) := by
  rintro path i t v v' u hpath _ ht ⟨htables, hmarked, hleft⟩ hsupplied hrun
  have hlength : k + (3 - path.length) =
      k + (3 - (path ++ [i]).length) + 1 := by
    simp
    lia
  rw [hlength] at hleft
  rcases ensureTable_spec path i htables hpath ht
    hsupplied.freshAlloc.unusedAlloc hrun with ⟨htables', hu⟩
  exact ⟨⟨htables', hsupply.ensureTable htables hmarked hleft path i hpath ht
    hrun⟩, hu⟩

theorem Supply.suppliedMap (hsupply : Supply alloc marked left)
    (h : PageTables s.mem root leaf) (hmarked : TablesMarked marked root s)
    (hleft : left (k + 3) s.frames) (virt : Nat) :
    SuppliedMap alloc root s virt := by
  refine (hsupply.lookupKeeps k virt).atLookups ?_ ⟨h, hmarked, hleft⟩
  rintro path i t v hpath _ _ ⟨_, hmarked, hleft⟩
  have hlength : k + (3 - path.length) = k + (2 - path.length) + 1 := by lia
  rw [hlength] at hleft
  exact hsupply.supplied hmarked hleft t i.val

theorem Supply.freshMap (hsupply : Supply alloc marked left)
    (h : PageTables s.mem root leaf) (hmarked : TablesMarked marked root s)
    (hleft : left 3 s.frames) (virt : Nat) :
    FreshMap alloc root s virt :=
  (hsupply.suppliedMap (k := 0) h hmarked hleft virt).freshMap

theorem Supply.vmmMap (hsupply : Supply alloc marked left)
    (h : PageTables s.mem root leaf) (hmarked : TablesMarked marked root s)
    (hleft : left (k + 3) s.frames) (virt phys flags : Nat) :
    exists s', Vmm.vmmMap alloc s root virt phys flags = some s' ∧
      TablesMarked marked root s' ∧ left k s'.frames := by
  have hsupplied := hsupply.suppliedMap h hmarked hleft virt
  rcases hsupplied.returns phys flags with ⟨s', hs'⟩
  rcases (hsupply.lookupKeeps k virt).vmmMap hsupplied ⟨h, hmarked, hleft⟩ hs'
    with ⟨v, pt, ⟨htables, hmarked', hleft'⟩, hpt, heq⟩
  refine ⟨s', hs', ?_⟩
  rw [heq]
  refine ⟨?_, hleft'⟩
  intro path t hlength ht
  exact hmarked' path t hlength
    ((htables.tableAt_store rfl hpt _ path hlength).symm.trans ht)

end Marked

def countingAlloc : FrameAllocator Nat :=
  fun next => some (next, next + 4096)

theorem countingAlloc_supply : Supply countingAlloc
    (fun next f => f < next)
    (fun k next => next % 2 ^ 12 = 0 ∧ 0 < next ∧
      next + 4096 * k <= 2 ^ 64) := by
  constructor
  · intro k next hleft
    lia
  · intro k next _
    exact ⟨next, next + 4096, rfl⟩
  · intro k next f next' hleft halloc
    cases halloc
    unfold ValidFrame
    lia
  · intro k next f next' hleft halloc
    cases halloc
    lia

/-!
# The theorem about runs
-/

theorem vmm_runs_refine_map {alloc : FrameAllocator alpha} {root : Nat}
    {s s' : VmmState alpha} {trace : List MapCall}
    (hinit : (vmmSystem alloc root).Init s)
    (hrun : (vmmSystem alloc root).Runs s trace s') :
    RefinesMap s'.mem root trace := by
  have hinv := vmm_runs_invariant hinit hrun
  exact vmmInvariant_refines hinv

def blankState : VmmState Nat where
  mem := fun _ => 0
  frames := 0x2000

/-- The first page behind the identity mapping, in empty tables at `0x1000`. -/
def sectionCall : MapCall where
  virt := 0x8000000000
  phys := 0x5000
  flags := 7

theorem vmm_runs_refine_map_sectionCall :
    exists s', (vmmSystem countingAlloc 0x1000).Runs blankState [sectionCall]
        s' ∧ RefinesMap s'.mem 0x1000 [sectionCall] := by
  have hroot : EmptyRoot blankState.mem 0x1000 := by
    constructor
    · exact ⟨by decide, by decide⟩
    · intro i
      rfl
  have hmarked : TablesMarked (fun next f => f < next) 0x1000 blankState := by
    intro path t _ ht
    rw [(emptyRoot_tableAt hroot ht).right]
    decide
  have hstep : VmmStep countingAlloc 0x1000 blankState sectionCall _ :=
    VmmStep.map ⟨by decide, by decide, by decide, by decide⟩
      (countingAlloc_supply.freshMap (pageTables_empty hroot) hmarked
        ⟨by decide, by decide, by decide⟩ _) rfl
  have hrun := runs_single
    (T := vmmSystem countingAlloc 0x1000) hstep
  exact ⟨_, hrun, vmm_runs_refine_map hroot hrun⟩

end Vmm
end Barium
