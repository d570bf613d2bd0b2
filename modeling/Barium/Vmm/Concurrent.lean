import Mathlib.Data.Fintype.Basic
import Barium.Foundation.Interleaving
import Barium.Vmm.Init

/-!
# Concurrent mappings

`vmm_map` takes no lock.  Each of its three inner levels tests an entry, and
when it is absent allocates and clears a frame and stores it into the entry;
then the entry is read again.  Calls on different CPUs interleave between these
steps.
-/

namespace Barium
namespace Vmm

open Foundation
open Function
open TransitionSystem

/-!
# The steps of one call
-/

/-- What a call does next.  It works on entry `level` of its index path, in
`table`; `install` has a frame that is not stored yet. -/
inductive MapStage where
  | test (level table : Nat)
  | alloc (level table : Nat)
  | install (level table frame : Nat)
  | follow (level table : Nat)
  | leaf (table : Nat)
  | finished
  deriving DecidableEq, Repr

/-- The last table is not searched for a further one. -/
def enterTable (level table : Nat) : MapStage :=
  if level < 3 then MapStage.test level table else MapStage.leaf table

/-- One step; `frame` is what `pmm_alloc(1)` returns if the step is an
allocation. -/
def mapStep (c : MapCall) (frame : Nat) (mem : Nat -> Nat) :
    MapStage -> Option ((Nat -> Nat) × MapStage)
  | .test level table =>
      if mem (entryAddr table (levelIndex c.virt level).val) &&&
          pagePresent = 0 then
        some (mem, MapStage.alloc level table)
      else
        some (mem, MapStage.follow level table)
  | .alloc level table =>
      some (zeroFrame mem frame, MapStage.install level table frame)
  | .install level table frame =>
      some (update mem
          (entryAddr table (levelIndex c.virt level).val)
          (frame ||| pagePresent ||| pageWritable ||| pageUser),
        MapStage.follow level table)
  | .follow level table =>
      some (mem, enterTable (level + 1)
        (mem (entryAddr table (levelIndex c.virt level).val) &&& frameMask))
  | .leaf table =>
      some (update mem (entryAddr table (ptIdx c.virt))
        (callEntry c), MapStage.finished)
  | .finished => none

/-- A call that runs alone, with frames from an allocator. -/
def runCall (alloc : FrameAllocator alpha) (c : MapCall) :
    Nat -> VmmState alpha -> MapStage -> Option (VmmState alpha)
  | _, s, .finished => some s
  | 0, _, _ => none
  | fuel + 1, s, .alloc level table => do
      let (frame, frames) <- alloc s.frames
      let (mem, stage) <- mapStep c frame s.mem (MapStage.alloc level table)
      runCall alloc c fuel { mem := mem, frames := frames } stage
  | fuel + 1, s, stage => do
      let (mem, stage) <- mapStep c 0 s.mem stage
      runCall alloc c fuel { s with mem := mem } stage

section Alone

variable {alloc : FrameAllocator alpha} {c : MapCall} {s s' t : VmmState alpha}
  {level table u fuel : Nat}

theorem runCall_ensureTable
    (hrun : ensureTable alloc s table (levelIndex c.virt level).val =
      some (s', u))
    (hrest : forall fuel', fuel <= fuel' ->
      runCall alloc c fuel' s' (enterTable (level + 1) u) = some t) :
    forall fuel', fuel + 4 <= fuel' ->
      runCall alloc c fuel' s (MapStage.test level table) = some t := by
  intro fuel' hfuel
  rcases Nat.exists_eq_add_of_le hfuel with ⟨k, hk⟩
  unfold ensureTable at hrun
  by_cases habsent : s.mem (entryAddr table (levelIndex c.virt level).val) &&&
      pagePresent = 0
  · rw [if_pos habsent] at hrun
    rcases Option.bind_eq_some_iff.mp hrun with ⟨⟨frame, frames⟩, halloc, hs⟩
    cases hs
    rw [hk, show fuel + 4 + k = fuel + k + 4 by lia]
    simp only [runCall, mapStep, if_pos habsent, Option.bind_eq_bind,
      Option.bind_some, halloc]
    exact hrest (fuel + k) (by lia)
  · rw [if_neg habsent] at hrun
    cases hrun
    rw [hk, show fuel + 4 + k = fuel + k + 2 + 2 by lia]
    simp only [runCall, mapStep, if_neg habsent, Option.bind_eq_bind,
      Option.bind_some]
    exact hrest (fuel + k + 2) (by lia)

/-- A call that runs alone is `vmm_map`. -/
theorem runCall_vmmMap {root : Nat}
    (hrun : vmmMap alloc s root c.virt c.phys c.flags = some t) :
    runCall alloc c 13 s (MapStage.test 0 root) = some t := by
  rcases vmmMap_lookups hrun with ⟨s1, pdpt, s2, pd, s3, pt, h1, h2, h3, hlast⟩
  have hleaf : forall fuel, 1 <= fuel ->
      runCall alloc c fuel s3 (enterTable 3 pt) = some t := by
    intro fuel hfuel
    cases fuel with
    | zero => exact absurd hfuel (by decide)
    | succ fuel =>
        rw [hlast]
        simp [enterTable, runCall, mapStep, callEntry, pageFormat, lastIndex]
  have hthird : forall fuel, 5 <= fuel ->
      runCall alloc c fuel s2 (MapStage.test 2 pd) = some t :=
    runCall_ensureTable h3 hleaf
  have hsecond : forall fuel, 9 <= fuel ->
      runCall alloc c fuel s1 (MapStage.test 1 pdpt) = some t :=
    runCall_ensureTable h2 hthird
  exact runCall_ensureTable h1 hsecond 13 (Nat.le_refl _)

end Alone

/-!
# Interleavings
-/

def MapStage.Names : MapStage -> Nat -> Prop
  | .test _ table, f => f = table
  | .alloc _ table, f => f = table
  | .install _ table frame, f => f = table ∨ f = frame
  | .follow _ table, f => f = table
  | .leaf table, f => f = table
  | .finished, _ => False

/-- Calls that run at the same time; `caller` tells the CPUs apart. -/
abbrev MapRace (caller : Type) := Config (Nat -> Nat) MapStage caller

/-- A frame that is neither a table in use nor in the hands of a call. -/
structure FreshRace (root : Nat) (r : MapRace caller) (frame : Nat) :
    Prop where
  tree : FreshFrame r.shared root frame
  unnamed : forall x, ¬ (r.place x).Names frame

section Race

variable {caller : Type} [DecidableEq caller]

inductive RaceStep (root : Nat) (calls : caller -> MapCall) :
    MapRace caller -> caller -> MapRace caller -> Prop where
  | step {r : MapRace caller} {x : caller} {frame : Nat} {mem : Nat -> Nat}
      {stage : MapStage} :
      (forall level table, r.place x = MapStage.alloc level table ->
        FreshRace root r frame) ->
      mapStep (calls x) frame r.shared (r.place x) = some (mem, stage) ->
      RaceStep root calls r x (r.move x mem stage)

/-- The call has found entry `i` of `t` absent and has not stored to it yet. -/
def MapStage.Claims (virt : Nat) : MapStage -> Nat -> Index -> Prop
  | .alloc level table, t, i => table = t ∧ levelIndex virt level = i
  | .install level table _, t, i =>
      table = t ∧ levelIndex virt level = i
  | _, _, _ => False

/-- A call stores a table only into an entry that no other call is about to
fill. -/
def StoresAlone (calls : caller -> MapCall) (r : MapRace caller)
    (x : caller) : Prop :=
  forall level table frame, r.place x = MapStage.install level table frame ->
    forall y, y ≠ x -> ¬ (r.place y).Claims (calls y).virt table
      (levelIndex (calls x).virt level)

structure RaceStart (root : Nat) (calls : caller -> MapCall)
    (leaf : List Index -> Nat) (r : MapRace caller) : Prop where
  tables : PageTables r.shared root leaf
  start : forall x, r.place x = MapStage.test 0 root
  valid : forall x, ValidCall (calls x)
  pages : forall x y, x ≠ y ->
    pageNumber (calls x).virt ≠ pageNumber (calls y).virt

def raceSystem (root : Nat) (calls : caller -> MapCall)
    (leaf : List Index -> Nat) : TransitionSystem (MapRace caller) caller where
  Init := RaceStart root calls leaf
  Step := RaceStep root calls

def aloneSystem (root : Nat) (calls : caller -> MapCall)
    (leaf : List Index -> Nat) : TransitionSystem (MapRace caller) caller where
  Init := RaceStart root calls leaf
  Step := fun r x r' => RaceStep root calls r x r' ∧ StoresAlone calls r x

end Race

/-!
# What a call relies on
-/

section Stages

variable {mem mem' : Nat -> Nat} {root : Nat} {leaf : List Index -> Nat}

def AtLevel (mem : Nat -> Nat) (root virt level table : Nat) : Prop :=
  level < 3 ∧
    pageFormat.tableAt mem root ((innerPath virt).take level) = some table

def PendingFrame (mem : Nat -> Nat) (root f : Nat) : Prop :=
  FreshFrame mem root f ∧ zeroFrame mem f = mem

def levelEntry (mem : Nat -> Nat) (virt level table : Nat) : Nat :=
  mem (pageFormat.slot table (levelIndex virt level))

def StageOk (root : Nat) (c : MapCall) (mem : Nat -> Nat) :
    MapStage -> Prop
  | .test level table => AtLevel mem root c.virt level table
  | .alloc level table =>
      AtLevel mem root c.virt level table ∧
        levelEntry mem c.virt level table = 0
  | .install level table frame =>
      AtLevel mem root c.virt level table ∧
        levelEntry mem c.virt level table = 0 ∧ PendingFrame mem root frame
  | .follow level table =>
      AtLevel mem root c.virt level table ∧
        levelEntry mem c.virt level table &&& pagePresent ≠ 0
  | .leaf table =>
      pageFormat.tableAt mem root (innerPath c.virt) = some table
  | .finished =>
      exists table,
        pageFormat.tableAt mem root (innerPath c.virt) = some table ∧
        mem (pageFormat.slot table (lastIndex c.virt)) = callEntry c

def MapStage.pending : MapStage -> Option Nat
  | .install _ _ frame => some frame
  | _ => none

/-- The entry whose content the call counts on. -/
def Watches (root : Nat) (c : MapCall) (mem : Nat -> Nat) :
    MapStage -> Nat -> Index -> Prop
  | .alloc level table, t, i =>
      table = t ∧ levelIndex c.virt level = i
  | .install level table _, t, i =>
      table = t ∧ levelIndex c.virt level = i
  | .follow level table, t, i =>
      table = t ∧ levelIndex c.virt level = i
  | .finished, t, i =>
      pageFormat.tableAt mem root (innerPath c.virt) = some t ∧
        lastIndex c.virt = i
  | _, _, _ => False

theorem innerPath_length (virt : Nat) : (innerPath virt).length = 3 := rfl

theorem take_innerPath_length {level : Nat} (virt : Nat) (h : level <= 3) :
    ((innerPath virt).take level).length = level := by
  rw [List.length_take, innerPath_length]
  lia

theorem take_innerPath_succ {level : Nat} (virt : Nat) (h : level < 3) :
    (innerPath virt).take (level + 1) =
      (innerPath virt).take level ++ [levelIndex virt level] := by
  match level, h with
  | 0, _ => rfl
  | 1, _ => rfl
  | 2, _ => rfl

theorem AtLevel.length {virt level table : Nat}
    (h : AtLevel mem root virt level table) :
    ((innerPath virt).take level).length < 3 := by
  rw [take_innerPath_length virt (Nat.le_of_lt h.left)]
  exact h.left

/-- Another call's step leaves a call alone when the tables stay where they
are, the entry that the call counts on is kept, and its frame stays its own. -/
theorem StageOk.stable {c : MapCall} {stage : MapStage}
    (h : StageOk root c mem stage)
    (hkeep : forall path t, path.length <= 3 ->
      pageFormat.tableAt mem root path = some t ->
      pageFormat.tableAt mem' root path = some t)
    (hentry : forall path t i, path.length <= 3 ->
      pageFormat.tableAt mem root path = some t ->
      Watches root c mem stage t i ->
      mem' (pageFormat.slot t i) = mem (pageFormat.slot t i))
    (hpending : forall f, stage.pending = some f -> PendingFrame mem' root f) :
    StageOk root c mem' stage := by
  have hlevel : forall level table, AtLevel mem root c.virt level table ->
      AtLevel mem' root c.virt level table := by
    intro level table hat
    exact ⟨hat.left, hkeep _ _ (Nat.le_of_lt hat.length) hat.right⟩
  cases stage with
  | test level table => exact hlevel level table h
  | alloc level table =>
      constructor
      · exact hlevel level table h.left
      · exact (hentry _ table _ (Nat.le_of_lt h.left.length) h.left.right
          ⟨rfl, rfl⟩).trans h.right
  | install level table frame =>
      refine ⟨hlevel level table h.left, ?_, hpending frame rfl⟩
      exact (hentry _ table _ (Nat.le_of_lt h.left.length) h.left.right
        ⟨rfl, rfl⟩).trans h.right.left
  | follow level table =>
      have hsame := hentry _ table _ (Nat.le_of_lt h.left.length) h.left.right
        ⟨rfl, rfl⟩
      constructor
      · exact hlevel level table h.left
      · unfold levelEntry
        rw [hsame]
        exact h.right
  | leaf table => exact hkeep _ table (Nat.le_refl 3) h
  | finished =>
      rcases h with ⟨table, ht, hcontent⟩
      exists table
      constructor
      · exact hkeep _ table (Nat.le_refl 3) ht
      · exact (hentry (innerPath c.virt) table _ (Nat.le_refl 3) ht
          ⟨ht, rfl⟩).trans hcontent

/-- A call counts on an entry of an inner table, which it is about to fill or
has found present, or on its own entry of the last level. -/
theorem StageOk.watches {c : MapCall} {stage : MapStage} {t : Nat} {i : Index}
    (h : StageOk root c mem stage) (hwatch : Watches root c mem stage t i) :
    ((stage.Claims c.virt t i ∨ mem (pageFormat.slot t i) ≠ 0) ∧
        exists path, path.length < 3 ∧
          pageFormat.tableAt mem root path = some t) ∨
      (pageFormat.tableAt mem root (innerPath c.virt) = some t ∧
        lastIndex c.virt = i) := by
  cases stage with
  | test _ _ => cases hwatch
  | alloc level table =>
      rcases hwatch with ⟨rfl, rfl⟩
      exact Or.inl ⟨Or.inl ⟨rfl, rfl⟩, _, h.left.length, h.left.right⟩
  | install level table frame =>
      rcases hwatch with ⟨rfl, rfl⟩
      exact Or.inl ⟨Or.inl ⟨rfl, rfl⟩, _, h.left.length, h.left.right⟩
  | follow level table =>
      rcases hwatch with ⟨rfl, rfl⟩
      refine Or.inl ⟨Or.inr ?_, _, h.left.length, h.left.right⟩
      intro hzero
      apply h.right
      unfold levelEntry
      rw [hzero]
      rfl
  | leaf _ => cases hwatch
  | finished => exact Or.inr hwatch

theorem pending_of_stageOk {c : MapCall} {stage : MapStage} {f : Nat}
    (h : StageOk root c mem stage) (hf : stage.pending = some f) :
    PendingFrame mem root f := by
  cases stage with
  | install level table frame =>
      cases hf
      exact h.right.right
  | test _ _ => cases hf
  | alloc _ _ => cases hf
  | follow _ _ => cases hf
  | leaf _ => cases hf
  | finished => cases hf

end Stages

/-!
# The invariant
-/

/-- The tables are well formed, and pages of no call keep their entries. -/
def TablesKept (root : Nat) (calls : caller -> MapCall)
    (leaf : List Index -> Nat) (mem : Nat -> Nat) : Prop :=
  exists leaf', PageTables mem root leaf' ∧
    forall path, (forall x, path ≠ indexPath (calls x).virt) ->
      leaf' path = leaf path

def StagesApart (p q : MapStage) : Prop :=
  forall f, p.pending = some f -> q.pending ≠ some f

abbrev RaceInvariant (root : Nat) (calls : caller -> MapCall)
    (leaf : List Index -> Nat) : MapRace caller -> Prop :=
  Config.Holds (TablesKept root calls leaf) (fun x => StageOk root (calls x))
    StagesApart

theorem stagesApart_symm (p q : MapStage) (h : StagesApart p q) :
    StagesApart q p := by
  intro f hq hp
  exact h f hp hq

theorem stagesApart_none {p : MapStage} (q : MapStage)
    (h : p.pending = none) : StagesApart p q := by
  intro f hf
  rw [h] at hf
  cases hf

section Outcome

variable {root : Nat} {calls : caller -> MapCall} {leaf : List Index -> Nat}
  {r : MapRace caller} {x : caller}

theorem raceInvariant_start (hstart : RaceStart root calls leaf r) :
    RaceInvariant root calls leaf r := by
  constructor
  · exact ⟨leaf, hstart.tables, fun _ _ => rfl⟩
  · intro x
    rw [hstart.start x]
    exact ⟨by decide, rfl⟩
  · intro x y _
    rw [hstart.start x]
    exact stagesApart_none _ rfl

/-- When all calls have finished, each page has the frame that its call asked
for, and all other pages are translated as before. -/
structure MappingsKept (root : Nat) (calls : caller -> MapCall)
    (r r' : MapRace caller) : Prop where
  mapped : forall x, translation r'.shared root (calls x).virt =
    some ((calls x).phys &&& frameMask)
  kept : forall virt,
    (forall x, pageNumber virt ≠ pageNumber (calls x).virt) ->
    translation r'.shared root virt = translation r.shared root virt

theorem raceInvariant_mapped (hinv : RaceInvariant root calls leaf r)
    (hvalid : ValidCall (calls x)) (hdone : r.place x = MapStage.finished) :
    translation r.shared root (calls x).virt =
      some ((calls x).phys &&& frameMask) := by
  have hown := hinv.own x
  rw [hdone] at hown
  rcases hown with ⟨table, ht, hentry⟩
  have hcontent : r.shared (entryAddr table (ptIdx (calls x).virt)) =
      callEntry (calls x) := hentry
  rcases callEntry_facts hvalid with ⟨hframe, hpresent, _⟩
  unfold translation leafEntry
  rw [ht, Option.bind_some, hcontent, if_neg hpresent, Option.map_some, hframe]

end Outcome

section Invariant

variable {caller : Type} [DecidableEq caller] {root : Nat}
  {calls : caller -> MapCall} {leaf : List Index -> Nat} {r : MapRace caller}
  {x : caller} {level table frame : Nat}

theorem raceInvariant_read {stage : MapStage}
    (hinv : RaceInvariant root calls leaf r)
    (hown : StageOk root (calls x) r.shared stage)
    (hpending : stage.pending = none) :
    RaceInvariant root calls leaf (r.move x r.shared stage) :=
  hinv.move stagesApart_symm hinv.shared hown (fun y _ => hinv.own y)
    (fun _ _ => stagesApart_none _ hpending)

theorem raceInvariant_test (hinv : RaceInvariant root calls leaf r)
    (hplace : r.place x = MapStage.test level table) {mem : Nat -> Nat}
    {stage : MapStage}
    (hstep : mapStep (calls x) frame r.shared (MapStage.test level table) =
      some (mem, stage)) :
    RaceInvariant root calls leaf (r.move x mem stage) := by
  have hat : AtLevel r.shared root (calls x).virt level table := by
    have hown := hinv.own x
    rw [hplace] at hown
    exact hown
  rcases hinv.shared with ⟨leaf', htables, _⟩
  rw [mapStep] at hstep
  by_cases habsent : r.shared (entryAddr table
      (levelIndex (calls x).virt level).val) &&& pagePresent = 0
  · rw [if_pos habsent] at hstep
    cases hstep
    apply raceInvariant_read hinv _ rfl
    constructor
    · exact hat
    · exact innerEntry_absent (htables.inner _ table _ hat.length hat.right)
        habsent
  · rw [if_neg habsent] at hstep
    cases hstep
    exact raceInvariant_read hinv ⟨hat, habsent⟩ rfl

theorem raceInvariant_follow (hinv : RaceInvariant root calls leaf r)
    (hplace : r.place x = MapStage.follow level table) :
    RaceInvariant root calls leaf (r.move x r.shared
      (enterTable (level + 1) (levelEntry r.shared (calls x).virt level table
        &&& frameMask))) := by
  have hown := hinv.own x
  rw [hplace] at hown
  rcases hown with ⟨hat, hpresent⟩
  have hchild : pageFormat.tableAt r.shared root
      ((innerPath (calls x).virt).take (level + 1)) =
        some (levelEntry r.shared (calls x).virt level table &&& frameMask) := by
    rw [take_innerPath_succ _ hat.left, TableFormat.tableAt_snoc hat.right]
    exact if_neg hpresent
  unfold enterTable
  by_cases hmore : level + 1 < 3
  · rw [if_pos hmore]
    exact raceInvariant_read hinv ⟨hmore, hchild⟩ rfl
  · have hlevel : level + 1 = 3 := by
      have hlt := hat.left
      lia
    rw [if_neg hmore]
    rw [hlevel] at hchild
    exact raceInvariant_read hinv hchild rfl

/-!
# An allocation

The new frame is in no table, so clearing it changes no entry.
-/

theorem zeroFrame_agree {mem : Nat -> Nat} {leaf' : List Index -> Nat}
    (htables : PageTables mem root leaf') (hfresh : FreshFrame mem root frame)
    (path : List Index) (t : Nat) (i : Index) (hlength : path.length <= 3)
    (ht : pageFormat.tableAt mem root path = some t) :
    zeroFrame mem frame (pageFormat.slot t i) = mem (pageFormat.slot t i) := by
  apply zeroFrame_other (htables.tree.valid path t hlength ht) hfresh.valid
  intro heq
  exact hfresh.unused path hlength (heq ▸ ht)

theorem zeroFrame_tableAt {mem : Nat -> Nat} {leaf' : List Index -> Nat}
    (htables : PageTables mem root leaf') (hfresh : FreshFrame mem root frame)
    (path : List Index) (hlength : path.length <= 3) :
    pageFormat.tableAt (zeroFrame mem frame) root path =
      pageFormat.tableAt mem root path :=
  TableFormat.tableAt_agree (zeroFrame_agree htables hfresh) path
    (Nat.le_succ_of_le hlength)

theorem pageTables_zeroFrame {mem : Nat -> Nat} {leaf' : List Index -> Nat}
    (htables : PageTables mem root leaf')
    (hfresh : FreshFrame mem root frame) :
    PageTables (zeroFrame mem frame) root leaf' := by
  have hsame := zeroFrame_tableAt htables hfresh
  have hagree := zeroFrame_agree htables hfresh
  constructor
  · exact htables.tree.of_tableAt hsame
  · intro path t i hlength ht
    rw [hsame path (by lia)] at ht
    rw [hagree path t i (by lia) ht]
    exact htables.inner path t i hlength ht
  · intro path t i hlength ht
    rw [hsame path (by lia)] at ht
    rw [hagree path t i (by lia) ht]
    exact htables.leaf_eq path t i hlength ht
  · intro path i hlength ht
    rw [hsame path (by lia)] at ht
    exact htables.leaf_none path i hlength ht

theorem zeroFrame_idem (mem : Nat -> Nat) (f : Nat) :
    zeroFrame (zeroFrame mem f) f = zeroFrame mem f := by
  funext a
  unfold zeroFrame
  split
  · rfl
  · rfl

theorem zeroFrame_comm (mem : Nat -> Nat) (f g : Nat) :
    zeroFrame (zeroFrame mem f) g = zeroFrame (zeroFrame mem g) f := by
  funext a
  unfold zeroFrame
  split
  · split
    · rfl
    · rfl
  · rfl

theorem raceInvariant_alloc (hinv : RaceInvariant root calls leaf r)
    (hplace : r.place x = MapStage.alloc level table)
    (hfresh : FreshRace root r frame) :
    RaceInvariant root calls leaf (r.move x (zeroFrame r.shared frame)
      (MapStage.install level table frame)) := by
  rcases hinv.shared with ⟨leaf', htables, hkept⟩
  have hsame := zeroFrame_tableAt htables hfresh.tree
  have hagree := zeroFrame_agree htables hfresh.tree
  have hstill : forall f, FreshFrame r.shared root f ->
      FreshFrame (zeroFrame r.shared frame) root f := by
    intro f hf
    refine ⟨⟨hf.valid, ?_⟩, hf.ne_zero⟩
    intro path hlength
    rw [hsame path hlength]
    exact hf.unused path hlength
  have hown := hinv.own x
  rw [hplace] at hown
  rcases hown with ⟨hat, hzero⟩
  apply hinv.move stagesApart_symm
  · exact ⟨leaf', pageTables_zeroFrame htables hfresh.tree, hkept⟩
  · refine ⟨⟨hat.left, ?_⟩, ?_, hstill frame hfresh.tree, zeroFrame_idem _ _⟩
    · rw [hsame _ (Nat.le_of_lt hat.length)]
      exact hat.right
    · exact (hagree _ table _ (Nat.le_of_lt hat.length) hat.right).trans hzero
  · intro y _
    apply (hinv.own y).stable
    · intro path t hlength ht
      rw [hsame path hlength]
      exact ht
    · intro path t i hlength ht _
      exact hagree path t i hlength ht
    · intro f hf
      rcases pending_of_stageOk (hinv.own y) hf with ⟨hfree, hclear⟩
      constructor
      · exact hstill f hfree
      · rw [zeroFrame_comm, hclear]
  · intro y hne f hf hother
    cases hf
    apply hfresh.unnamed y
    cases hstage : r.place y with
    | install l t g =>
        rw [hstage] at hother
        cases hother
        exact Or.inr rfl
    | test _ _ => rw [hstage] at hother; cases hother
    | alloc _ _ => rw [hstage] at hother; cases hother
    | follow _ _ => rw [hstage] at hother; cases hother
    | leaf _ => rw [hstage] at hother; cases hother
    | finished => rw [hstage] at hother; cases hother

/-!
# A store of a table
-/

theorem zeroFrame_update {mem : Nat -> Nat} {f t e : Nat} {i : Index}
    (ht : ValidFrame t) (hf : ValidFrame f) (hne : t ≠ f) :
    zeroFrame (update mem (pageFormat.slot t i) e) f =
      update (zeroFrame mem f) (pageFormat.slot t i) e := by
  funext a
  by_cases hsame : a = pageFormat.slot t i
  · rw [hsame, zeroFrame_other ht hf hne, update_self,
      update_self]
  · rw [update_of_ne hsame]
    unfold zeroFrame
    rw [update_of_ne hsame]

theorem clear_update {mem : Nat -> Nat} {leaf' : List Index -> Nat}
    (htables : PageTables mem root leaf') {path : List Index} {t f e : Nat}
    {i : Index} (hlength : path.length <= 3)
    (ht : pageFormat.tableAt mem root path = some t)
    (hpending : PendingFrame mem root f) :
    zeroFrame (update mem (pageFormat.slot t i) e) f =
      update mem (pageFormat.slot t i) e := by
  rcases hpending with ⟨hfresh, hclear⟩
  have hne : t ≠ f := by
    intro heq
    exact hfresh.unused path hlength (heq ▸ ht)
  rw [zeroFrame_update (htables.tree.valid path t hlength ht) hfresh.valid hne,
    hclear]

theorem raceInvariant_install (hinv : RaceInvariant root calls leaf r)
    (hplace : r.place x = MapStage.install level table frame)
    (halone : StoresAlone calls r x) :
    RaceInvariant root calls leaf (r.move x
      (update r.shared
        (entryAddr table (levelIndex (calls x).virt level).val)
        (frame ||| pagePresent ||| pageWritable ||| pageUser))
      (MapStage.follow level table)) := by
  rcases hinv.shared with ⟨leaf', htables, hkept⟩
  have hown := hinv.own x
  rw [hplace] at hown
  rcases hown with ⟨hat, hzero, hpending⟩
  have hpath := hat.length
  have hvalid := htables.tree.valid _ table (Nat.le_of_lt hpath) hat.right
  -- the frame is clear already, so the store links it
  have hlink : linkTable r.shared table (levelIndex (calls x).virt level)
      frame = update r.shared
        (entryAddr table (levelIndex (calls x).virt level).val)
        (frame ||| pagePresent ||| pageWritable ||| pageUser) := by
    unfold linkTable
    rw [hpending.right]
  have hunused := hpending.left.toUnusedFrame
  have hlinked := pageTables_link htables hpath hat.right hzero hunused
  have hcase := (linkTable_tableAt htables hpath hat.right hzero
    hunused).right
  have hagree := linkTable_agree (i := levelIndex (calls x).virt level) htables
    hunused hvalid
  have hnone : pageFormat.tableAt r.shared root
      ((innerPath (calls x).virt).take level ++
        [levelIndex (calls x).virt level]) = none := by
    rw [TableFormat.tableAt_snoc hat.right,
      show r.shared (pageFormat.slot table _) = 0 from hzero, child_zero]
  have hkeep : forall path t, path.length <= 3 ->
      pageFormat.tableAt r.shared root path = some t ->
      pageFormat.tableAt (linkTable r.shared table
        (levelIndex (calls x).virt level) frame) root path = some t := by
    intro path t hlength ht
    rw [(hcase path hlength).right]
    · exact ht
    · intro heq
      rw [heq, hnone] at ht
      cases ht
  rw [← hlink]
  apply hinv.move stagesApart_symm
  · exact ⟨leaf', hlinked.left, hkept⟩
  · constructor
    · exact ⟨hat.left, hkeep _ table (Nat.le_of_lt hpath) hat.right⟩
    · unfold levelEntry
      rw [linkTable_slot hpending.left.valid]
      exact inner_present hpending.left.valid
  · intro y hne
    apply (hinv.own y).stable hkeep
    · intro path t i hlength ht hwatch
      apply hagree path t i hlength ht
      rintro ⟨htable, hindex⟩
      rw [htable, hindex] at hwatch
      rcases (hinv.own y).watches hwatch with ⟨hclaim | hfull, _⟩ | ⟨hlast, _⟩
      · exact halone level table frame hplace y hne hclaim
      · exact hfull hzero
      · have hsame := htables.tree.unique _ (innerPath (calls y).virt) table
          (Nat.le_of_lt hpath) (Nat.le_refl 3) hat.right hlast
        rw [hsame] at hpath
        exact Nat.lt_irrefl 3 hpath
    · intro f hf
      have hother := pending_of_stageOk (hinv.own y) hf
      constructor
      · refine ⟨⟨hother.left.valid, ?_⟩, hother.left.ne_zero⟩
        intro path hlength ht
        by_cases hhere : path = (innerPath (calls x).virt).take level ++
            [levelIndex (calls x).virt level]
        · rw [(hcase path hlength).left hhere] at ht
          cases ht
          apply hinv.apart x y (fun h => hne h.symm) frame
          · rw [hplace]
            rfl
          · exact hf
        · rw [(hcase path hlength).right hhere] at ht
          exact hother.left.unused path hlength ht
      · rw [hlink]
        exact clear_update htables (Nat.le_of_lt hpath) hat.right hother
  · intro y _
    exact stagesApart_none _ rfl

/-!
# The store of the last level
-/

theorem raceInvariant_leaf (hinv : RaceInvariant root calls leaf r)
    (hpages : forall x y, x ≠ y ->
      pageNumber (calls x).virt ≠ pageNumber (calls y).virt)
    (hplace : r.place x = MapStage.leaf table) :
    RaceInvariant root calls leaf (r.move x
      (update r.shared (entryAddr table (ptIdx (calls x).virt))
        (callEntry (calls x))) MapStage.finished) := by
  rcases hinv.shared with ⟨leaf', htables, hkept⟩
  have ht : pageFormat.tableAt r.shared root (innerPath (calls x).virt) =
      some table := by
    have hown := hinv.own x
    rw [hplace] at hown
    exact hown
  have hlength := innerPath_length (calls x).virt
  have hvalid := htables.tree.valid _ table (Nat.le_of_eq hlength) ht
  have hagree := htables.tree.agreeExcept_update
    (i := lastIndex (calls x).virt) slots_distinct hvalid (callEntry (calls x))
  have hsame := htables.tree.tableAt_bottom hlength ht hagree
  have hkeep : forall path t, path.length <= 3 ->
      pageFormat.tableAt r.shared root path = some t ->
      pageFormat.tableAt (update r.shared
        (pageFormat.slot table (lastIndex (calls x).virt))
        (callEntry (calls x))) root path = some t := by
    intro path t hle hpath
    rw [hsame path hle]
    exact hpath
  apply hinv.move stagesApart_symm
  · refine ⟨_, pageTables_store (i := lastIndex (calls x).virt) htables hlength
      ht (callEntry (calls x)), ?_⟩
    intro path hnot
    exact (update_of_ne (hnot x) _ _).trans (hkept path hnot)
  · exists table
    exact ⟨hkeep _ table (Nat.le_of_eq hlength) ht, update_self _ _ _⟩
  · intro y hne
    apply (hinv.own y).stable hkeep
    · intro path t i hle hpath hwatch
      apply hagree path t i hle hpath
      rintro ⟨htable, hindex⟩
      rw [htable, hindex] at hwatch
      rcases (hinv.own y).watches hwatch with
        ⟨_, other, hshort, hother⟩ | ⟨hlast, hi⟩
      · have heq := htables.tree.unique other _ table (Nat.le_of_lt hshort)
          (Nat.le_of_eq hlength) hother ht
        rw [heq] at hshort
        exact Nat.lt_irrefl 3 hshort
      · have hinner := htables.tree.unique (innerPath (calls y).virt) _ table
          (Nat.le_refl 3)
          (Nat.le_of_eq hlength) hlast ht
        apply hpages y x hne
        rw [← indexPath_eq_iff]
        unfold indexPath
        rw [hinner, hi]
    · intro f hf
      have hother := pending_of_stageOk (hinv.own y) hf
      constructor
      · refine ⟨⟨hother.left.valid, ?_⟩, hother.left.ne_zero⟩
        intro path hle
        rw [hsame path hle]
        exact hother.left.unused path hle
      · exact clear_update (i := lastIndex (calls x).virt) htables
          (Nat.le_of_eq hlength) ht hother
  · intro y _
    exact stagesApart_none _ rfl

/-!
# The theorem about interleavings
-/

theorem raceInvariant_step {r' : MapRace caller}
    (hpages : forall x y, x ≠ y ->
      pageNumber (calls x).virt ≠ pageNumber (calls y).virt)
    (hinv : RaceInvariant root calls leaf r)
    (hstep : RaceStep root calls r x r') (halone : StoresAlone calls r x) :
    RaceInvariant root calls leaf r' := by
  cases hstep with
  | step hfresh hmap =>
      cases hplace : r.place x with
      | test level table =>
          rw [hplace] at hmap
          exact raceInvariant_test hinv hplace hmap
      | alloc level table =>
          rw [hplace] at hmap
          cases hmap
          exact raceInvariant_alloc hinv hplace (hfresh level table hplace)
      | install level table frame =>
          rw [hplace] at hmap
          cases hmap
          exact raceInvariant_install hinv hplace halone
      | follow level table =>
          rw [hplace] at hmap
          cases hmap
          exact raceInvariant_follow hinv hplace
      | leaf table =>
          rw [hplace] at hmap
          cases hmap
          exact raceInvariant_leaf hinv hpages hplace
      | finished =>
          rw [hplace] at hmap
          cases hmap

theorem vmmMap_concurrent {r' : MapRace caller} {trace : List caller}
    (hstart : (aloneSystem root calls leaf).Init r)
    (hrun : (aloneSystem root calls leaf).Runs r trace r')
    (hdone : forall x, r'.place x = MapStage.finished) :
    MappingsKept root calls r r' := by
  have hinv : RaceInvariant root calls leaf r' := by
    apply runs_invariant (raceInvariant_start hstart) _ hrun
    intro t x u ht hstep
    exact raceInvariant_step hstart.pages ht hstep.left hstep.right
  constructor
  · intro x
    exact raceInvariant_mapped hinv (hstart.valid x) (hdone x)
  · intro virt hother
    rcases hinv.shared with ⟨leaf', htables, hkept⟩
    have hleaf : leaf' (indexPath virt) = leaf (indexPath virt) := by
      apply hkept
      intro x heq
      exact hother x ((indexPath_eq_iff _ _).mp heq)
    unfold translation
    rw [leafEntry_spec htables, leafEntry_spec hstart.tables, hleaf]

end Invariant

/-!
# Computed interleavings

Frames that are handed out in ascending order are fresh.
-/

section Computed

variable {caller : Type} [DecidableEq caller]

/-- One step of a call; `next` is the next frame of the allocator.  `none` is a
call that has finished, or a step that `ok` forbids. -/
def raceNext (calls : caller -> MapCall) (ok : MapRace caller -> caller -> Bool)
    (next : Nat) (r : MapRace caller) (x : caller) :
    Option (Nat × MapRace caller) :=
  if ok r x = true then do
    let (mem, stage) <- mapStep (calls x) next r.shared (r.place x)
    match r.place x with
    | .alloc _ _ => some (next + 4096, r.move x mem stage)
    | _ => some (next, r.move x mem stage)
  else
    none

def raceRun (calls : caller -> MapCall) (ok : MapRace caller -> caller -> Bool) :
    List caller -> Nat -> MapRace caller -> Option (Nat × MapRace caller)
  | [], next, r => some (next, r)
  | x :: rest, next, r => do
      let (next, r) <- raceNext calls ok next r x
      raceRun calls ok rest next r

structure Below (root next : Nat) (r : MapRace caller) : Prop where
  root_lt : root < next
  aligned : next % 2 ^ 12 = 0
  entries : forall a, r.shared a &&& frameMask < next
  names : forall x f, (r.place x).Names f -> f < next
  pending : forall x f, (r.place x).pending = some f -> ValidFrame f

section Steps

variable {root next : Nat} {r : MapRace caller} {x : caller}

omit [DecidableEq caller] in
theorem Below.fresh (h : Below root next r) (hlt : next < 2 ^ 64) :
    FreshRace root r next := by
  have hroot := h.root_lt
  constructor
  · refine ⟨⟨⟨h.aligned, hlt⟩, ?_⟩, by lia⟩
    intro path _ ht
    exact Nat.lt_irrefl _ (EntriesBelow.tableAt_lt h.entries hroot ht)
  · intro y hnames
    exact Nat.lt_irrefl _ (h.names y next hnames)

theorem Below.move {next' : Nat} {mem : Nat -> Nat} {stage : MapStage}
    (h : Below root next r) (hle : next <= next')
    (haligned : next' % 2 ^ 12 = 0)
    (hentries : forall a, mem a &&& frameMask < next')
    (hnames : forall f, stage.Names f -> f < next')
    (hpending : forall f, stage.pending = some f -> ValidFrame f) :
    Below root next' (r.move x mem stage) := by
  constructor
  · exact Nat.lt_of_lt_of_le h.root_lt hle
  · exact haligned
  · exact hentries
  · intro y f hf
    by_cases hsame : y = x
    · rw [hsame, Config.move_self] at hf
      exact hnames f hf
    · rw [Config.move_other r mem stage hsame] at hf
      exact Nat.lt_of_lt_of_le (h.names y f hf) hle
  · intro y f hf
    by_cases hyx : y = x
    · rw [hyx, Config.move_self] at hf
      exact hpending f hf
    · rw [Config.move_other r mem stage hyx] at hf
      exact h.pending y f hf

theorem enterTable_names {level table f : Nat}
    (hf : (enterTable level table).Names f) : f = table := by
  unfold enterTable at hf
  split at hf
  · exact hf
  · exact hf

theorem enterTable_pending (level table : Nat) :
    (enterTable level table).pending = none := by
  unfold enterTable
  split
  · rfl
  · rfl

theorem raceNext_step {calls : caller -> MapCall}
    {ok : MapRace caller -> caller -> Bool} {next' : Nat}
    {r' : MapRace caller} (h : Below root next r) (hlt : next < 2 ^ 64)
    (hcalls : forall x, callEntry (calls x) &&& frameMask < next)
    (hnext : raceNext calls ok next r x = some (next', r')) :
    ok r x = true ∧ RaceStep root calls r x r' ∧ Below root next' r' ∧
      next <= next' ∧ next' <= next + 4096 := by
  unfold raceNext at hnext
  cases hok : ok r x with
  | false =>
      rw [hok, if_neg Bool.false_ne_true] at hnext
      cases hnext
  | true =>
      rw [hok, if_pos rfl] at hnext
      rcases Option.bind_eq_some_iff.mp hnext with ⟨⟨mem, stage⟩, hmap, hmatch⟩
      have hstep : RaceStep root calls r x (r.move x mem stage) :=
        RaceStep.step (fun _ _ _ => h.fresh hlt) hmap
      refine ⟨rfl, ?_⟩
      have hnames := h.names x
      have hpending := h.pending x
      have haligned := h.aligned
      cases hplace : r.place x with
      | test level table =>
          rw [hplace] at hmap hmatch hnames
          cases hmatch
          refine ⟨hstep, ?_, Nat.le_refl _, by lia⟩
          rw [mapStep] at hmap
          split at hmap
          · cases hmap
            exact h.move (Nat.le_refl _) haligned h.entries hnames
              (fun f hf => by cases hf)
          · cases hmap
            exact h.move (Nat.le_refl _) haligned h.entries hnames
              (fun f hf => by cases hf)
      | alloc level table =>
          rw [hplace] at hmap hmatch hnames
          cases hmatch
          refine ⟨hstep, ?_, by lia, Nat.le_refl _⟩
          cases hmap
          apply h.move (by lia) (by lia)
          · exact (EntriesBelow.mono h.entries (by lia)).zeroFrame _
          · rintro f (hf | hf)
            · have hlt' := hnames f hf
              lia
            · lia
          · intro f hf
            cases hf
            exact ⟨haligned, hlt⟩
      | install level table frame =>
          rw [hplace] at hmap hmatch hnames hpending
          cases hmatch
          refine ⟨hstep, ?_, Nat.le_refl _, by lia⟩
          cases hmap
          have hvalid := hpending frame rfl
          apply h.move (Nat.le_refl _) haligned
          · apply EntriesBelow.update h.entries
            rw [table_entry hvalid, inner_frame hvalid]
            exact hnames frame (Or.inr rfl)
          · intro f hf
            exact hnames f (Or.inl hf)
          · intro f hf
            cases hf
      | follow level table =>
          rw [hplace] at hmap hmatch hnames
          cases hmatch
          refine ⟨hstep, ?_, Nat.le_refl _, by lia⟩
          cases hmap
          apply h.move (Nat.le_refl _) haligned h.entries
          · intro f hf
            rw [enterTable_names hf]
            exact h.entries _
          · intro f hf
            rw [enterTable_pending] at hf
            cases hf
      | leaf table =>
          rw [hplace] at hmap hmatch
          cases hmatch
          refine ⟨hstep, ?_, Nat.le_refl _, by lia⟩
          cases hmap
          apply h.move (Nat.le_refl _) haligned
          · exact EntriesBelow.update h.entries (hcalls x) _
          · intro f hf
            cases hf
          · intro f hf
            cases hf
      | finished =>
          rw [hplace] at hmap
          cases hmap

theorem raceRun_runs {calls : caller -> MapCall}
    {ok : MapRace caller -> caller -> Bool}
    {T : TransitionSystem (MapRace caller) caller}
    (hsteps : forall r x r', RaceStep root calls r x r' -> ok r x = true ->
      T.Step r x r')
    {schedule : List caller} {next' : Nat} {r' : MapRace caller}
    (h : Below root next r) (hlt : next + 4096 * schedule.length < 2 ^ 64)
    (hcalls : forall x, callEntry (calls x) &&& frameMask < next)
    (hrun : raceRun calls ok schedule next r = some (next', r')) :
    T.Runs r schedule r' := by
  induction schedule generalizing next r with
  | nil =>
      cases hrun
      exact Runs.nil _
  | cons x rest ih =>
      rw [List.length_cons] at hlt
      rcases Option.bind_eq_some_iff.mp hrun with ⟨⟨n, t⟩, hnext, hrest⟩
      rcases raceNext_step h (by lia) hcalls hnext with
        ⟨hok, hstep, hbelow, hge, hle⟩
      have htail := ih hbelow (by lia)
        (fun y => Nat.lt_of_lt_of_le (hcalls y) hge) hrest
      exact runs_append (runs_single (hsteps r x t hstep hok)) htail

end Steps

end Computed

instance (virt : Nat) (stage : MapStage) (t : Nat) (i : Index) :
    Decidable (stage.Claims virt t i) := by
  cases stage <;> unfold MapStage.Claims <;> infer_instance

def storesAlone (calls : Bool -> MapCall) (r : MapRace Bool) (x : Bool) :
    Bool :=
  match r.place x with
  | .install level table _ =>
      decide (¬ (r.place !x).Claims (calls !x).virt table
        (levelIndex (calls x).virt level))
  | _ => true

theorem storesAlone_spec {calls : Bool -> MapCall} {r : MapRace Bool}
    {x : Bool} (h : storesAlone calls r x = true) : StoresAlone calls r x := by
  intro level table frame hplace y hne
  unfold storesAlone at h
  rw [hplace] at h
  have hy : y = !x := Bool.eq_not_of_ne hne
  rw [hy]
  exact of_decide_eq_true h

def raceCalls : Bool -> MapCall
  | false => { virt := 0x8000000000, phys := 0x100000, flags := 7 }
  | true => { virt := 0x8000001000, phys := 0x101000, flags := 7 }

def raceBlank : MapRace Bool where
  shared := fun _ => 0
  place := fun _ => MapStage.test 0 0x1000

theorem raceBlank_start :
    RaceStart 0x1000 raceCalls (fun _ => 0) raceBlank := by
  constructor
  · apply pageTables_empty
    constructor
    · exact ⟨by decide, by decide⟩
    · intro i
      rfl
  · intro x
    rfl
  · intro x
    cases x with
    | false => exact ⟨by decide, by decide, by decide, by decide⟩
    | true => exact ⟨by decide, by decide, by decide, by decide⟩
  · decide

theorem raceBlank_below : Below 0x1000 0x200000 raceBlank := by
  constructor
  · decide
  · decide
  · intro a
    show 0 &&& frameMask < 0x200000
    decide
  · intro x f hf
    rw [show f = 0x1000 from hf]
    decide
  · intro x f hf
    cases hf

def orderedSchedule : List Bool :=
  List.replicate 13 false ++ List.replicate 7 true

def orderedRace : Option (Nat × MapRace Bool) :=
  raceRun raceCalls (storesAlone raceCalls) orderedSchedule 0x200000 raceBlank

theorem raceCalls_below (x : Bool) :
    callEntry (raceCalls x) &&& frameMask < 0x200000 := by
  cases x with
  | false => decide
  | true => decide

theorem vmmMap_concurrent_orderedRace :
    exists r', (aloneSystem 0x1000 raceCalls (fun _ => 0)).Runs raceBlank
        orderedSchedule r' ∧
      (forall x, r'.place x = MapStage.finished) ∧
      MappingsKept 0x1000 raceCalls raceBlank r' := by
  have hcomputed : orderedRace = some (orderedRace.get (by decide)) :=
    (Option.some_get _).symm
  have hrun := raceRun_runs
    (T := aloneSystem 0x1000 raceCalls (fun _ => 0))
    (fun _ _ _ hstep hok => ⟨hstep, storesAlone_spec hok⟩)
    raceBlank_below (by decide) raceCalls_below hcomputed
  have hdone : forall x, (orderedRace.get (by decide)).2.place x =
      MapStage.finished := by decide
  exact ⟨_, hrun, hdone, vmmMap_concurrent raceBlank_start hrun hdone⟩

/-- The second call has found the entry of the PML4 absent and has a frame for
it; the first call runs to its end before that frame is stored. -/
def lostSchedule : List Bool :=
  [true, true] ++ List.replicate 13 false ++ List.replicate 11 true

def lostRace : Option (Nat × MapRace Bool) :=
  raceRun raceCalls (fun _ _ => true) lostSchedule 0x200000 raceBlank

theorem vmmMap_concurrent_lost :
    exists r', (raceSystem 0x1000 raceCalls (fun _ => 0)).Init raceBlank ∧
      (raceSystem 0x1000 raceCalls (fun _ => 0)).Runs raceBlank lostSchedule
        r' ∧
      (forall x, r'.place x = MapStage.finished) ∧
      translation r'.shared 0x1000 (raceCalls false).virt = none := by
  have hcomputed : lostRace = some (lostRace.get (by decide)) :=
    (Option.some_get _).symm
  have hrun := raceRun_runs (T := raceSystem 0x1000 raceCalls (fun _ => 0))
    (fun _ _ _ hstep _ => hstep) raceBlank_below (by decide) raceCalls_below
    hcomputed
  exact ⟨_, raceBlank_start, hrun, by decide, by decide⟩

end Vmm
end Barium
