import Barium.Vmm.Init

/-!
# Mapping without frames

`vmm_map` does not look at what `pmm_alloc(1)` returns.  When no frame is left
it clears page 0 and takes it as a table.  The first time this happens page 0 is
a table like any other; the second time it is in use already.
-/

namespace Barium
namespace Vmm

open Foundation

/-!
# Counting the failures
-/

/-- The allocator, together with the number of times it has returned 0. -/
def countFailures (alloc : FrameAllocator alpha) :
    FrameAllocator (alpha × Nat) :=
  fun a => do
    let (frame, frames) <- alloc a.1
    some (frame, (frames, if frame = 0 then a.2 + 1 else a.2))

def VmmState.failures (s : VmmState (alpha × Nat)) : Nat :=
  s.frames.2

/-- What `pmm_alloc(1)` promises for entry `idx` of `table`: it fails, or it
returns a fresh frame. -/
def FailsOrFresh (alloc : FrameAllocator (alpha × Nat)) (root : Nat)
    (s : VmmState (alpha × Nat)) (table idx : Nat) : Prop :=
  s.mem (entryAddr table idx) &&& pagePresent = 0 ->
    forall frame frames, alloc s.frames = some (frame, frames) ->
      frame = 0 ∨ FreshFrame s.mem root frame

inductive ExhaustedStep (alloc : FrameAllocator alpha) (root : Nat) :
    VmmState (alpha × Nat) -> MapCall -> VmmState (alpha × Nat) -> Prop where
  | map {s s' : VmmState (alpha × Nat)} {c : MapCall} :
      AtLookups (countFailures alloc) root c.virt
        (FailsOrFresh (countFailures alloc) root) s ->
      vmmMap (countFailures alloc) s root c.virt c.phys c.flags = some s' ->
      ExhaustedStep alloc root s c s'

/-- Calls of `vmm_map` on an empty PML4, whose own frame came from
`pmm_alloc(1)` too. -/
def exhaustedSystem (alloc : FrameAllocator alpha) (root : Nat) :
    TransitionSystem (VmmState (alpha × Nat)) MapCall where
  Init := fun s =>
    EmptyRoot s.mem root ∧ s.failures = if root = 0 then 1 else 0
  Step := ExhaustedStep alloc root

/-- A call for `virt` that takes memory from `mem` to `mem'` does no harm to
other pages. -/
structure Harmless (root virt : Nat) (mem mem' : Nat -> Nat) : Prop where
  others : forall w, pageNumber w ≠ pageNumber virt ->
    translation mem' root w = translation mem root w
  no_sharing : NoSharing mem' root

/-!
# One failure
-/

section Lookup

variable {alloc : FrameAllocator alpha} {root t u : Nat}
  {leaf : List Index -> Nat} {s s' : VmmState (alpha × Nat)}

theorem ensureTable_counted {i : Index}
    (hrun : ensureTable (countFailures alloc) s t i.val = some (s', u)) :
    s' = s ∨ s.mem (entryAddr t i.val) &&& pagePresent = 0 ∧
      exists frame, countFailures alloc s.frames = some (frame, s'.frames) ∧
        s'.mem = linkTable s.mem t i frame ∧
        s'.failures = if frame = 0 then s.failures + 1 else s.failures := by
  unfold ensureTable at hrun
  by_cases habsent : s.mem (entryAddr t i.val) &&& pagePresent = 0
  · rw [if_pos habsent] at hrun
    rcases Option.bind_eq_some_iff.mp hrun with ⟨⟨frame, frames⟩, halloc, hs⟩
    cases hs
    right
    refine ⟨habsent, frame, halloc, rfl, ?_⟩
    rcases Option.bind_eq_some_iff.mp halloc with ⟨r, _, hcount⟩
    cases hcount
    rfl
  · rw [if_neg habsent] at hrun
    cases hrun
    exact Or.inl rfl

theorem ensureTable_failures {i : Index}
    (hrun : ensureTable (countFailures alloc) s t i.val = some (s', u)) :
    s.failures <= s'.failures := by
  rcases ensureTable_counted hrun with heq | ⟨_, frame, _, _, hcount⟩
  · rw [heq]
  · rw [hcount]
    split
    · exact Nat.le_succ _
    · exact Nat.le_refl _

/-- The tables hold `leaf`, and before the first failure none of them is at
0. -/
structure CountedTables (root : Nat) (leaf : List Index -> Nat)
    (s : VmmState (alpha × Nat)) : Prop where
  tables : PageTables s.mem root leaf
  zero : s.failures = 0 -> UnusedFrame s.mem root 0

/-- At most one allocation has failed when the lookup is over, so one that fails
now is the first. -/
theorem CountedTables.unusedAlloc {i : Index} (h : CountedTables root leaf s)
    (hpromise : FailsOrFresh (countFailures alloc) root s t i.val)
    (hrun : ensureTable (countFailures alloc) s t i.val = some (s', u))
    (hfailures : s'.failures <= 1) :
    UnusedAlloc (countFailures alloc) root s t i.val := by
  intro habsent frame frames halloc
  rcases hpromise habsent frame frames halloc with hfail | hfresh
  · rw [ensureTable, if_pos habsent, halloc, Option.bind_eq_bind,
      Option.bind_some] at hrun
    cases hrun
    rcases Option.bind_eq_some_iff.mp halloc with ⟨r, _, hcount⟩
    cases hcount
    have hcounted : (if r.1 = 0 then s.failures + 1 else s.failures) <= 1 :=
      hfailures
    rw [if_pos hfail] at hcounted
    rw [hfail]
    exact h.zero (Nat.le_zero.mp (Nat.le_of_succ_le_succ hcounted))
  · exact hfresh.toUnusedFrame

theorem CountedTables.ensureTable (path : List Index) (i : Index)
    (h : CountedTables root leaf s) (hpath : path.length < 3)
    (ht : pageFormat.tableAt s.mem root path = some t)
    (hpromise : FailsOrFresh (countFailures alloc) root s t i.val)
    (hrun : Vmm.ensureTable (countFailures alloc) s t i.val = some (s', u))
    (hfailures : s'.failures <= 1) :
    CountedTables root leaf s' ∧
      pageFormat.tableAt s'.mem root (path ++ [i]) = some u := by
  have hunused := h.unusedAlloc hpromise hrun hfailures
  rcases ensureTable_spec path i h.tables hpath ht hunused hrun with
    ⟨htables, hat⟩
  refine ⟨⟨htables, ?_⟩, hat⟩
  intro hnone
  have hzero := h.zero (Nat.le_zero.mp (hnone ▸ ensureTable_failures hrun))
  rcases ensureTable_counted hrun with heq | ⟨habsent, frame, halloc, hmem,
    hcount⟩
  · rw [heq]
    exact hzero
  · refine ⟨hzero.valid, ?_⟩
    intro other hlength hother
    have hempty : s.mem (pageFormat.slot t i) = 0 :=
      innerEntry_absent (h.tables.inner path t i hpath ht) habsent
    have hcase := (linkTable_tableAt h.tables hpath ht hempty
      (hunused habsent frame _ halloc)).right other hlength
    rw [hmem] at hother
    by_cases hsame : other = path ++ [i]
    · -- the table at 0 would be a counted failure
      rw [hcase.left hsame] at hother
      rw [if_pos (Option.some.inj hother), hnone] at hcount
      cases hcount
    · rw [hcase.right hsame] at hother
      exact hzero.unused other hlength hother

theorem CountedTables.vmmMap {virt phys flags : Nat}
    (h : CountedTables root leaf s)
    (hpromise : AtLookups (countFailures alloc) root virt
      (FailsOrFresh (countFailures alloc) root) s)
    (hrun : Vmm.vmmMap (countFailures alloc) s root virt phys flags = some s')
    (hfailures : s'.failures <= 1) :
    CountedTables root (Function.update leaf (indexPath virt)
      ((phys &&& frameMask) ||| flags)) s' := by
  rcases vmmMap_lookups hrun with ⟨s1, pdpt, s2, pd, s3, pt, h1, h2, h3, rfl⟩
  rcases hpromise with ⟨hpromise1, hpromise⟩
  rcases hpromise s1 pdpt h1 with ⟨hpromise2, hpromise⟩
  have hpromise3 := hpromise s2 pd h2
  -- the failures before the last lookup are among those after it
  have hfailures2 : s2.failures <= 1 := Nat.le_trans
    (ensureTable_failures (i := ⟨pdIdx virt, and_511_lt _⟩) h3) hfailures
  have hfailures1 : s1.failures <= 1 := Nat.le_trans
    (ensureTable_failures (i := ⟨pdptIdx virt, and_511_lt _⟩) h2) hfailures2
  rcases h.ensureTable [] ⟨pml4Idx virt, and_511_lt _⟩ (by simp) rfl
    hpromise1 h1 hfailures1 with ⟨hlevel1, hpdpt⟩
  rcases hlevel1.ensureTable _ ⟨pdptIdx virt, and_511_lt _⟩ (by simp) hpdpt
    hpromise2 h2 hfailures2 with ⟨hlevel2, hpd⟩
  rcases hlevel2.ensureTable _ ⟨pdIdx virt, and_511_lt _⟩ (by simp) hpd
    hpromise3 h3 hfailures with ⟨hlevel3, hpt⟩
  have hsame := hlevel3.tables.tableAt_store (i := lastIndex virt) rfl hpt
    ((phys &&& frameMask) ||| flags)
  constructor
  · exact pageTables_store (i := lastIndex virt) hlevel3.tables rfl hpt _
  · intro hnone
    have hzero := hlevel3.zero hnone
    refine ⟨hzero.valid, ?_⟩
    intro other hlength hother
    exact hzero.unused other hlength ((hsame other hlength).symm.trans hother)

end Lookup

/-!
# Runs with at most one failure
-/

section Runs

variable {alloc : FrameAllocator alpha} {root : Nat}
  {s s' t : VmmState (alpha × Nat)} {trace : List MapCall} {c : MapCall}

theorem vmmMap_failures {virt phys flags : Nat}
    (hrun : vmmMap (countFailures alloc) s root virt phys flags = some s') :
    s.failures <= s'.failures := by
  rcases vmmMap_lookups hrun with ⟨s1, pdpt, s2, pd, s3, pt, h1, h2, h3, rfl⟩
  calc s.failures <= s1.failures :=
        ensureTable_failures (i := ⟨pml4Idx virt, and_511_lt _⟩) h1
    _ <= s2.failures :=
        ensureTable_failures (i := ⟨pdptIdx virt, and_511_lt _⟩) h2
    _ <= s3.failures :=
        ensureTable_failures (i := ⟨pdIdx virt, and_511_lt _⟩) h3

theorem countedTables_init (h : (exhaustedSystem alloc root).Init s) :
    CountedTables root (fun _ => 0) s := by
  rcases h with ⟨hempty, hcount⟩
  constructor
  · exact pageTables_empty hempty
  · intro hnone
    refine ⟨⟨rfl, by decide⟩, ?_⟩
    intro path _ ht
    rw [hnone, if_pos (emptyRoot_tableAt hempty ht).right.symm] at hcount
    cases hcount

theorem countedTables_runs (hinit : (exhaustedSystem alloc root).Init t)
    (hrun : (exhaustedSystem alloc root).Runs t trace s) :
    s.failures <= 1 -> exists leaf, CountedTables root leaf s := by
  induction hrun with
  | nil =>
      intro _
      exact ⟨_, countedTables_init hinit⟩
  | snoc _ hstep ih =>
      intro hfailures
      cases hstep with
      | map hpromise hmap =>
          rcases ih (Nat.le_trans (vmmMap_failures hmap) hfailures) with
            ⟨leaf, htables⟩
          exact ⟨_, htables.vmmMap hpromise hmap hfailures⟩

theorem vmmMap_exhausted_harmless
    (hinit : (exhaustedSystem alloc root).Init t)
    (hrun : (exhaustedSystem alloc root).Runs t trace s)
    (hstep : (exhaustedSystem alloc root).Step s c s')
    (hfailures : s'.failures <= 1) :
    Harmless root c.virt s.mem s'.mem := by
  cases hstep with
  | map hpromise hmap =>
      rcases countedTables_runs hinit hrun
        (Nat.le_trans (vmmMap_failures hmap) hfailures) with ⟨leaf, htables⟩
      have htables' := htables.vmmMap hpromise hmap hfailures
      constructor
      · intro w hw
        have hpath : indexPath w ≠ indexPath c.virt := by
          intro heq
          exact hw ((indexPath_eq_iff w c.virt).mp heq)
        unfold translation
        rw [leafEntry_spec htables.tables, leafEntry_spec htables'.tables,
          Function.update_of_ne hpath]
      · exact htables'.tables.no_sharing

end Runs

/-!
# An allocator that runs out

The frames below `limit` are handed out in ascending order.
-/

def limitedAlloc (limit : Nat) : FrameAllocator Nat :=
  fun next =>
    if next < limit then some (next, next + 4096) else some (0, next)

structure Stocked (root : Nat) (s : VmmState (Nat × Nat)) : Prop where
  aligned : s.frames.1 % 2 ^ 12 = 0
  root_lt : root < s.frames.1
  entries : EntriesBelow s.frames.1 s.mem

section Limited

variable {limit root : Nat} {s s' : VmmState (Nat × Nat)}

theorem countFailures_limitedAlloc {a a' : Nat × Nat} {frame : Nat}
    (h : countFailures (limitedAlloc limit) a = some (frame, a')) :
    frame = 0 ∧ a'.1 = a.1 ∨
      frame = a.1 ∧ a.1 < limit ∧ a'.1 = a.1 + 4096 := by
  rcases Option.bind_eq_some_iff.mp h with ⟨r, hr, hcount⟩
  cases hcount
  unfold limitedAlloc at hr
  split at hr
  · rename_i hlt
    cases hr
    exact Or.inr ⟨rfl, hlt, rfl⟩
  · cases hr
    exact Or.inl ⟨rfl, rfl⟩

theorem Stocked.failsOrFresh (h : Stocked root s) (hlimit : limit <= 2 ^ 64)
    (table idx : Nat) :
    FailsOrFresh (countFailures (limitedAlloc limit)) root s table idx := by
  intro _ frame frames halloc
  rcases countFailures_limitedAlloc halloc with ⟨hfail, _⟩ | ⟨hframe, hlt, _⟩
  · exact Or.inl hfail
  · right
    rw [hframe]
    refine ⟨⟨⟨h.aligned, Nat.lt_of_lt_of_le hlt hlimit⟩, ?_⟩,
      Nat.ne_of_gt (Nat.zero_lt_of_lt h.root_lt)⟩
    intro path _ ht
    exact Nat.lt_irrefl _ (h.entries.tableAt_lt h.root_lt ht)

theorem Stocked.ensureTable (h : Stocked root s) (hlimit : limit <= 2 ^ 64)
    {t u : Nat} (i : Index)
    (hrun : Vmm.ensureTable (countFailures (limitedAlloc limit)) s t i.val =
      some (s', u)) :
    Stocked root s' := by
  rcases ensureTable_counted hrun with heq | ⟨habsent, frame, halloc, hmem, _⟩
  · rw [heq]
    exact h
  · have haligned := h.aligned
    have hroot := h.root_lt
    have hnext : s.frames.1 <= s'.frames.1 ∧ frame < s'.frames.1 ∧
        s'.frames.1 % 2 ^ 12 = 0 ∧ ValidFrame frame := by
      unfold ValidFrame
      rcases countFailures_limitedAlloc halloc with
        ⟨hframe, hnext⟩ | ⟨hframe, hlt, hnext⟩
      · rw [hframe, hnext]
        lia
      · rw [hframe, hnext]
        lia
    rcases hnext with ⟨hle, hframe, haligned', hvalid⟩
    constructor
    · exact haligned'
    · exact Nat.lt_of_lt_of_le hroot hle
    · rw [hmem]
      apply ((h.entries.mono hle).zeroFrame frame).update
      rw [table_entry hvalid, inner_frame hvalid]
      exact hframe

theorem Stocked.atLookups (h : Stocked root s) (hlimit : limit <= 2 ^ 64)
    (virt : Nat) :
    AtLookups (countFailures (limitedAlloc limit)) root virt
      (FailsOrFresh (countFailures (limitedAlloc limit)) root) s := by
  constructor
  · exact h.failsOrFresh hlimit _ _
  · intro s1 pdpt h1
    have hstocked1 := h.ensureTable hlimit ⟨pml4Idx virt, and_511_lt _⟩ h1
    constructor
    · exact hstocked1.failsOrFresh hlimit _ _
    · intro s2 pd h2
      have hstocked2 := hstocked1.ensureTable hlimit
        ⟨pdptIdx virt, and_511_lt _⟩ h2
      exact hstocked2.failsOrFresh hlimit _ _

theorem limitedAlloc_zero_atLookups (virt : Nat) :
    AtLookups (countFailures (limitedAlloc 0)) root virt
      (FailsOrFresh (countFailures (limitedAlloc 0)) root) s := by
  have hfails : forall s t idx,
      FailsOrFresh (countFailures (limitedAlloc 0)) root s t idx := by
    intro s t idx _ frame frames halloc
    rcases countFailures_limitedAlloc halloc with ⟨hfail, _⟩ | ⟨_, hlt, _⟩
    · exact Or.inl hfail
    · exact absurd hlt (Nat.not_lt_zero _)
  exact ⟨hfails _ _ _, fun s1 pdpt _ =>
    ⟨hfails s1 pdpt _, fun s2 pd _ => hfails s2 pd _⟩⟩

end Limited

def emptyTables : VmmState (Nat × Nat) where
  mem := fun _ => 0
  frames := (0x8000, 0)

theorem emptyTables_init {limit : Nat} :
    (exhaustedSystem (limitedAlloc limit) 0x1000).Init emptyTables := by
  refine ⟨⟨⟨by decide, by decide⟩, ?_⟩, rfl⟩
  intro i
  rfl

theorem emptyTables_stocked : Stocked 0x1000 emptyTables := by
  refine ⟨by decide, by decide, ?_⟩
  intro a
  show 0 &&& frameMask < 0x8000
  rw [Nat.zero_and]
  decide

def mapLimited (limit : Nat) (s : VmmState (Nat × Nat)) (c : MapCall) :
    Option (VmmState (Nat × Nat)) :=
  vmmMap (countFailures (limitedAlloc limit)) s 0x1000 c.virt c.phys c.flags

/-- Two frames are left, and the third allocation of the call fails. -/
theorem vmmMap_exhausted_harmless_third :
    exists s', (exhaustedSystem (limitedAlloc 0xA000) 0x1000).Step emptyTables
        sectionCall s' ∧ s'.failures = 1 ∧
      Harmless 0x1000 sectionCall.virt emptyTables.mem s'.mem := by
  have hcount : (mapLimited 0xA000 emptyTables sectionCall).map
      VmmState.failures = some 1 := by decide +kernel
  rcases Option.map_eq_some_iff.mp hcount with ⟨s', hmap, hone⟩
  have hstep : ExhaustedStep (limitedAlloc 0xA000) 0x1000 emptyTables
      sectionCall s' :=
    ExhaustedStep.map (emptyTables_stocked.atLookups (by decide) _) hmap
  refine ⟨s', hstep, hone, ?_⟩
  exact vmmMap_exhausted_harmless emptyTables_init
    (TransitionSystem.Runs.nil _) hstep (Nat.le_of_eq hone)

/-- Two pages of memory as `vmm_init` maps them, while the firmware's tables are
in use and page 0 can be written. -/
def lowPage : MapCall :=
  identityCall 7 0x2000

def highPage : MapCall :=
  identityCall 7 0x600000

/-- No frame is left.  The second call clears page 0, the only table of the
first, and the PML4 and this table both lead to it. -/
theorem vmmMap_exhausted_shared :
    (exhaustedSystem (limitedAlloc 0) 0x1000).Init emptyTables ∧
    exists s s', (exhaustedSystem (limitedAlloc 0) 0x1000).Runs emptyTables
        [lowPage] s ∧
      (exhaustedSystem (limitedAlloc 0) 0x1000).Step s highPage s' ∧
      pageNumber lowPage.virt ≠ pageNumber highPage.virt ∧
      translation s.mem 0x1000 lowPage.virt = some 0x2000 ∧
      translation s'.mem 0x1000 lowPage.virt = none ∧
      ¬ NoSharing s'.mem 0x1000 := by
  have hresult : (mapLimited 0 emptyTables lowPage).bind (fun s =>
      (mapLimited 0 s highPage).map (fun s' =>
        (translation s.mem 0x1000 lowPage.virt,
          translation s'.mem 0x1000 lowPage.virt,
          s'.mem 0x1000, s'.mem 24))) =
      some (some 0x2000, none, 7, 7) := by decide +kernel
  rcases Option.bind_eq_some_iff.mp hresult with ⟨s, hfirst, hresult⟩
  rcases Option.map_eq_some_iff.mp hresult with ⟨s', hsecond, hfacts⟩
  rcases Prod.mk.inj hfacts with ⟨hbefore, hfacts⟩
  rcases Prod.mk.inj hfacts with ⟨hafter, hfacts⟩
  rcases Prod.mk.inj hfacts with ⟨hroot, hentry⟩
  have hstep : ExhaustedStep (limitedAlloc 0) 0x1000 emptyTables lowPage s :=
    ExhaustedStep.map (limitedAlloc_zero_atLookups _) hfirst
  have hstep' : ExhaustedStep (limitedAlloc 0) 0x1000 s highPage s' :=
    ExhaustedStep.map (limitedAlloc_zero_atLookups _) hsecond
  refine ⟨emptyTables_init, s, s', TransitionSystem.runs_single
    (T := exhaustedSystem (limitedAlloc 0) 0x1000) hstep, hstep', by decide,
    hbefore, hafter, ?_⟩
  intro hapart
  have hpresent : (7 : Nat) &&& pagePresent ≠ 0 := by decide
  have htable : pageFormat.tableAt s'.mem 0x1000 [0] = some 0 := by
    rw [TableFormat.tableAt_cons, show s'.mem (pageFormat.slot 0x1000 0) = 7
      from hroot, show pageFormat.child 7 = some 0 by decide]
    rfl
  have hsame := hapart [] [0] 0x1000 0 0 3 (by decide) (by decide) rfl htable
    (hroot.symm ▸ hpresent) (hentry.symm ▸ hpresent)
    (congrArg (fun e => e &&& frameMask) (hroot.trans hentry.symm))
  exact absurd hsame.left (by decide)

end Vmm
end Barium
