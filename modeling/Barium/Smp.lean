import Barium.Foundation.Run
import Barium.Foundation.Interleaving
import Barium.Foundation.Word

/-!
# Starting the application processors

`smp_init` starts the other processors one after the other.  Their stacks are
handed over through one mailbox at `0x7000`: the trampoline loads `rsp` from it
and sets its status word, which the bootstrap processor waits for, and
`smp_ap_entry` sets the status word a second time.
-/

namespace Barium
namespace Smp

open Foundation
open TransitionSystem

/-- The loop of `smp_init`, with the APIC ids of the entries that are left. -/
inductive BspStage where
  | next (rest : List Nat)
  | clear (id : Nat) (rest : List Nat)
  | start (id : Nat) (rest : List Nat)
  | wait (id : Nat) (rest : List Nat)
  deriving DecidableEq, Repr

/-- An application processor, with its `rsp` once that is loaded. -/
inductive ApStage where
  | off
  | started
  | loaded (rsp : Nat)
  | signalled (rsp : Nat)
  | up (rsp : Nat)
  deriving DecidableEq, Repr

def ApStage.rsp : ApStage -> Option Nat
  | .off => none
  | .started => none
  | .loaded v => some v
  | .signalled v => some v
  | .up v => some v

/-- The two words of the mailbox that change, and the bootstrap processor. -/
structure Mailbox where
  stackTop : Nat
  status : Nat
  bsp : BspStage
  deriving DecidableEq, Repr

abbrev SmpState := Config Mailbox ApStage Nat

/-- The id of the bootstrap processor, and the block that `kmalloc(8192)`
returns for each of the others. -/
structure SmpBoot where
  bspId : Nat
  blocks : Nat -> Nat

def SmpBoot.stackTop (boot : SmpBoot) (id : Nat) : Nat :=
  Word.add (boot.blocks id) 8192

/-!
# The steps
-/

inductive SmpEvent where
  | skip
  | prepare
  | clear
  | start
  | leave
  | load (id : Nat)
  | signal (id : Nat)
  | entry (id : Nat)
  deriving DecidableEq, Repr

def withBsp (s : SmpState) (bsp : BspStage) : SmpState :=
  { s with shared := { s.shared with bsp := bsp } }

/-- An application processor stores 1 to the status word. -/
def setStatus (s : SmpState) (id : Nat) (stage : ApStage) : SmpState :=
  s.move id { s.shared with status := 1 } stage

/-- One step of the bootstrap processor, or of the application processor `id`.
The wait ends only when the status word is set. -/
def smpStep (boot : SmpBoot) (s : SmpState) : SmpEvent -> Option SmpState
  | .skip =>
      match s.shared.bsp with
      | .next (id :: rest) =>
          if id = boot.bspId then some (withBsp s (BspStage.next rest))
          else none
      | _ => none
  | .prepare =>
      match s.shared.bsp with
      | .next (id :: rest) =>
          if id = boot.bspId then none
          else
            some { s with
              shared := { s.shared with
                stackTop := boot.stackTop id
                bsp := BspStage.clear id rest } }
      | _ => none
  | .clear =>
      match s.shared.bsp with
      | .clear id rest =>
          some { s with
            shared := { s.shared with
              status := 0
              bsp := BspStage.start id rest } }
      | _ => none
  | .start =>
      match s.shared.bsp with
      | .start id rest =>
          some (s.move id { s.shared with bsp := BspStage.wait id rest }
            ApStage.started)
      | _ => none
  | .leave =>
      match s.shared.bsp with
      | .wait _ rest =>
          if s.shared.status = 0 then none
          else some (withBsp s (BspStage.next rest))
      | _ => none
  | .load id =>
      match s.place id with
      | .started =>
          some (s.move id s.shared (ApStage.loaded s.shared.stackTop))
      | _ => none
  | .signal id =>
      match s.place id with
      | .loaded v => some (setStatus s id (ApStage.signalled v))
      | _ => none
  | .entry id =>
      match s.place id with
      | .signalled v => some (setStatus s id (ApStage.up v))
      | _ => none

/-- The processor whose turn it is, from the clearing of the status word on. -/
def BspStage.turn : BspStage -> Option Nat
  | .start id _ => some id
  | .wait id _ => some id
  | _ => none

def SmpEvent.Stores : SmpEvent -> Prop
  | .signal _ => True
  | .entry _ => True
  | _ => False

/-- The status word is not set before the processor whose turn it is has loaded
its stack. -/
def TurnKept (s : SmpState) (event : SmpEvent) : Prop :=
  event.Stores -> forall id, s.shared.bsp.turn = some id ->
    (s.place id).rsp ≠ none

structure SmpStart (boot : SmpBoot) (ids : List Nat) (s : SmpState) :
    Prop where
  bsp : s.shared.bsp = BspStage.next ids
  off : forall id, s.place id = ApStage.off
  ids_nodup : ids.Nodup
  blocks_lt : forall id, id ∈ ids -> boot.blocks id < 2 ^ 64
  blocks_inj : forall id other, id ∈ ids -> other ∈ ids ->
    boot.blocks id = boot.blocks other -> id = other

def smpSystem (boot : SmpBoot) (ids : List Nat) :
    TransitionSystem SmpState SmpEvent where
  Init := SmpStart boot ids
  Step := fun s event s' => smpStep boot s event = some s'

def turnSystem (boot : SmpBoot) (ids : List Nat) :
    TransitionSystem SmpState SmpEvent where
  Init := SmpStart boot ids
  Step := fun s event s' =>
    smpStep boot s event = some s' ∧ TurnKept s event

/-!
# The invariant
-/

def BspStage.left : BspStage -> List Nat
  | .next rest => rest
  | .clear id rest => id :: rest
  | .start id rest => id :: rest
  | .wait _ rest => rest

structure MailboxOk (boot : SmpBoot) (ids : List Nat) (m : Mailbox) :
    Prop where
  left_nodup : m.bsp.left.Nodup
  left_mem : forall id, id ∈ m.bsp.left -> id ∈ ids
  cleared : forall id rest, m.bsp = BspStage.clear id rest ->
    m.stackTop = boot.stackTop id
  starting : forall id rest, m.bsp = BspStage.start id rest ->
    m.stackTop = boot.stackTop id ∧ m.status = 0
  waiting : forall id rest, m.bsp = BspStage.wait id rest ->
    m.stackTop = boot.stackTop id ∧ id ∉ rest

structure ApOk (boot : SmpBoot) (ids : List Nat) (id : Nat) (m : Mailbox)
    (stage : ApStage) : Prop where
  left : id ∈ m.bsp.left -> stage = ApStage.off
  mem : stage ≠ ApStage.off -> id ∈ ids
  started : stage = ApStage.started ->
    (exists rest, m.bsp = BspStage.wait id rest) ∧ m.status = 0
  loaded : forall v, stage.rsp = some v -> v = boot.stackTop id

abbrev SmpInvariant (boot : SmpBoot) (ids : List Nat) : SmpState -> Prop :=
  Config.Holds (MailboxOk boot ids) (ApOk boot ids) (fun _ _ => True)

section Steps

variable {boot : SmpBoot} {ids : List Nat} {s : SmpState} {id : Nat}

/-- Outside of a wait no processor is between its start and its load. -/
theorem not_started (hinv : SmpInvariant boot ids s)
    (hbsp : forall rest, s.shared.bsp ≠ BspStage.wait id rest) :
    s.place id ≠ ApStage.started := by
  intro hstarted
  rcases ((hinv.own id).started hstarted).left with ⟨rest, hwait⟩
  exact hbsp rest hwait

theorem smpInvariant_bsp {m : Mailbox} (hinv : SmpInvariant boot ids s)
    (hmailbox : MailboxOk boot ids m)
    (hleft : forall id, id ∈ m.bsp.left -> id ∈ s.shared.bsp.left)
    (hnone : forall id, s.place id ≠ ApStage.started) :
    SmpInvariant boot ids { s with shared := m } := by
  constructor
  · exact hmailbox
  · intro id
    have hown := hinv.own id
    constructor
    · intro hid
      exact hown.left (hleft id hid)
    · exact hown.mem
    · intro hstarted
      exact absurd hstarted (hnone id)
    · exact hown.loaded
  · intro _ _ _
    trivial

theorem smpInvariant_store {stage : ApStage} {v : Nat}
    (hinv : SmpInvariant boot ids s) (hrsp : (s.place id).rsp = some v)
    (hstage : stage.rsp = some v)
    (hturn : forall id, s.shared.bsp.turn = some id ->
      (s.place id).rsp ≠ none) :
    SmpInvariant boot ids (setStatus s id stage) := by
  have hown := hinv.own id
  have hon : s.place id ≠ ApStage.off := by
    intro hoff
    rw [hoff] at hrsp
    cases hrsp
  apply hinv.move (fun _ _ _ => trivial)
  · have hmailbox := hinv.shared
    constructor
    · exact hmailbox.left_nodup
    · exact hmailbox.left_mem
    · exact hmailbox.cleared
    · intro other rest hstart
      -- the processor that is to be started would have loaded its stack
      have hbsp : s.shared.bsp = BspStage.start other rest := hstart
      have hoff : s.place other = ApStage.off := by
        apply (hinv.own other).left
        rw [hbsp]
        exact List.mem_cons_self
      apply absurd _ (hturn other (by rw [hbsp]; rfl))
      rw [hoff]
      rfl
    · exact hmailbox.waiting
  · constructor
    · intro hleft
      exact absurd (hown.left hleft) hon
    · intro _
      exact hown.mem hon
    · intro hstarted
      rw [hstarted] at hstage
      cases hstage
    · intro w hw
      rw [hstage] at hw
      cases hw
      exact hown.loaded v hrsp
  · intro other _
    have hother := hinv.own other
    constructor
    · exact hother.left
    · exact hother.mem
    · intro hstarted
      rcases (hother.started hstarted).left with ⟨rest, hwait⟩
      apply absurd _ (hturn other (by rw [hwait]; rfl))
      rw [hstarted]
      rfl
    · exact hother.loaded
  · intro _ _
    trivial

theorem smpInvariant_next {rest : List Nat} {m : Mailbox}
    (hinv : SmpInvariant boot ids s) (hm : m.bsp = BspStage.next rest)
    (hleft : forall id, id ∈ rest -> id ∈ s.shared.bsp.left)
    (hnodup : rest.Nodup)
    (hnone : forall id, s.place id ≠ ApStage.started) :
    SmpInvariant boot ids { s with shared := m } := by
  have hsame : m.bsp.left = rest := by
    rw [hm]
    rfl
  apply smpInvariant_bsp hinv _ _ hnone
  · constructor
    · rw [hsame]
      exact hnodup
    · intro id hid
      rw [hsame] at hid
      exact hinv.shared.left_mem id (hleft id hid)
    · intro other tail heq
      rw [hm] at heq
      cases heq
    · intro other tail heq
      rw [hm] at heq
      cases heq
    · intro other tail heq
      rw [hm] at heq
      cases heq
  · intro id hid
    rw [hsame] at hid
    exact hleft id hid

theorem smpInvariant_skip {rest : List Nat} (hinv : SmpInvariant boot ids s)
    (hbsp : s.shared.bsp = BspStage.next (id :: rest)) :
    SmpInvariant boot ids (withBsp s (BspStage.next rest)) := by
  have hleft : s.shared.bsp.left = id :: rest := by
    rw [hbsp]
    rfl
  have hnodup := hinv.shared.left_nodup
  rw [hleft] at hnodup
  apply smpInvariant_next hinv rfl
  · intro other hother
    rw [hleft]
    exact List.mem_cons_of_mem id hother
  · exact (List.nodup_cons.mp hnodup).right
  · intro other
    apply not_started hinv
    intro tail heq
    rw [hbsp] at heq
    cases heq

/-- The step that leaves a wait: the status word is set, so the processor has
loaded its stack. -/
theorem smpInvariant_leave {rest : List Nat} (hinv : SmpInvariant boot ids s)
    (hbsp : s.shared.bsp = BspStage.wait id rest)
    (hstatus : s.shared.status ≠ 0) :
    SmpInvariant boot ids (withBsp s (BspStage.next rest)) := by
  have hleft : s.shared.bsp.left = rest := by
    rw [hbsp]
    rfl
  have hnodup := hinv.shared.left_nodup
  rw [hleft] at hnodup
  apply smpInvariant_next hinv rfl
  · intro other hother
    rw [hleft]
    exact hother
  · exact hnodup
  · intro other hstarted
    exact hstatus ((hinv.own other).started hstarted).right

theorem smpInvariant_between {m : Mailbox} (hinv : SmpInvariant boot ids s)
    (hleft : m.bsp.left = s.shared.bsp.left)
    (hbefore : forall id rest, s.shared.bsp ≠ BspStage.wait id rest)
    (hafter : forall id rest, m.bsp ≠ BspStage.wait id rest)
    (hcleared : forall id rest, m.bsp = BspStage.clear id rest ->
      m.stackTop = boot.stackTop id)
    (hstarting : forall id rest, m.bsp = BspStage.start id rest ->
      m.stackTop = boot.stackTop id ∧ m.status = 0) :
    SmpInvariant boot ids { s with shared := m } := by
  apply smpInvariant_bsp hinv
  · constructor
    · rw [hleft]
      exact hinv.shared.left_nodup
    · rw [hleft]
      exact hinv.shared.left_mem
    · exact hcleared
    · exact hstarting
    · intro id rest heq
      exact absurd heq (hafter id rest)
  · intro id hid
    rw [hleft] at hid
    exact hid
  · intro id
    exact not_started hinv (hbefore id)

theorem smpInvariant_prepare {rest : List Nat}
    (hinv : SmpInvariant boot ids s)
    (hbsp : s.shared.bsp = BspStage.next (id :: rest)) :
    SmpInvariant boot ids { s with
      shared := { s.shared with
        stackTop := boot.stackTop id
        bsp := BspStage.clear id rest } } := by
  apply smpInvariant_between hinv
  · rw [hbsp]
    rfl
  · intro other tail heq
    rw [hbsp] at heq
    cases heq
  · intro other tail heq
    cases heq
  · intro other tail heq
    cases heq
    rfl
  · intro other tail heq
    cases heq

theorem smpInvariant_clear {rest : List Nat}
    (hinv : SmpInvariant boot ids s)
    (hbsp : s.shared.bsp = BspStage.clear id rest) :
    SmpInvariant boot ids { s with
      shared := { s.shared with
        status := 0
        bsp := BspStage.start id rest } } := by
  apply smpInvariant_between hinv
  · rw [hbsp]
    rfl
  · intro other tail heq
    rw [hbsp] at heq
    cases heq
  · intro other tail heq
    cases heq
  · intro other tail heq
    cases heq
  · intro other tail heq
    cases heq
    exact ⟨hinv.shared.cleared id rest hbsp, rfl⟩

theorem smpInvariant_begin {rest : List Nat} (hinv : SmpInvariant boot ids s)
    (hbsp : s.shared.bsp = BspStage.start id rest) :
    SmpInvariant boot ids
      (s.move id { s.shared with bsp := BspStage.wait id rest }
        ApStage.started) := by
  have hmailbox := hinv.shared
  have hleft : s.shared.bsp.left = id :: rest := by
    rw [hbsp]
    rfl
  have hnodup := hmailbox.left_nodup
  rw [hleft] at hnodup
  rcases List.nodup_cons.mp hnodup with ⟨hnot, hrest⟩
  rcases hmailbox.starting id rest hbsp with ⟨htop, hstatus⟩
  have hin : id ∈ s.shared.bsp.left := by
    rw [hleft]
    exact List.mem_cons_self
  apply hinv.move (fun _ _ _ => trivial)
  · constructor
    · exact hrest
    · intro other (hother : other ∈ rest)
      apply hmailbox.left_mem
      rw [hleft]
      exact List.mem_cons_of_mem id hother
    · intro other tail heq
      cases heq
    · intro other tail heq
      cases heq
    · intro other tail heq
      cases heq
      exact ⟨htop, hnot⟩
  · constructor
    · intro hmem
      exact absurd hmem hnot
    · intro _
      exact hmailbox.left_mem id hin
    · intro _
      exact ⟨⟨rest, rfl⟩, hstatus⟩
    · intro v hv
      cases hv
  · intro other _
    have hown := hinv.own other
    constructor
    · intro (hother : other ∈ rest)
      apply hown.left
      rw [hleft]
      exact List.mem_cons_of_mem id hother
    · exact hown.mem
    · intro hstarted
      exfalso
      apply not_started hinv _ hstarted
      intro tail heq
      rw [hbsp] at heq
      cases heq
    · exact hown.loaded
  · intro _ _
    trivial

theorem smpInvariant_load (hinv : SmpInvariant boot ids s)
    (hplace : s.place id = ApStage.started) :
    SmpInvariant boot ids
      (s.move id s.shared (ApStage.loaded s.shared.stackTop)) := by
  have hown := hinv.own id
  rcases (hown.started hplace).left with ⟨rest, hwait⟩
  rcases hinv.shared.waiting id rest hwait with ⟨htop, hnot⟩
  apply hinv.move (fun _ _ _ => trivial) hinv.shared
  · constructor
    · intro hmem
      have hoff := hown.left hmem
      rw [hplace] at hoff
      cases hoff
    · intro _
      apply hown.mem
      rw [hplace]
      intro hoff
      cases hoff
    · intro hstarted
      cases hstarted
    · intro v hv
      cases hv
      exact htop
  · intro other _
    exact hinv.own other
  · intro _ _
    trivial

end Steps

/-!
# The theorem about interleavings
-/

theorem smpInvariant_step {boot : SmpBoot} {ids : List Nat} {s s' : SmpState}
    {event : SmpEvent} (hinv : SmpInvariant boot ids s)
    (hstep : smpStep boot s event = some s') (hturn : TurnKept s event) :
    SmpInvariant boot ids s' := by
  cases event with
  | skip =>
      rw [smpStep] at hstep
      split at hstep
      · rename_i id rest hbsp
        split at hstep
        · cases hstep
          exact smpInvariant_skip hinv hbsp
        · cases hstep
      · cases hstep
  | prepare =>
      rw [smpStep] at hstep
      split at hstep
      · rename_i id rest hbsp
        split at hstep
        · cases hstep
        · rw [← Option.some.inj hstep]
          exact smpInvariant_prepare hinv hbsp
      · cases hstep
  | clear =>
      rw [smpStep] at hstep
      split at hstep
      · rename_i id rest hbsp
        cases hstep
        exact smpInvariant_clear hinv hbsp
      · cases hstep
  | start =>
      rw [smpStep] at hstep
      split at hstep
      · rename_i id rest hbsp
        cases hstep
        exact smpInvariant_begin hinv hbsp
      · cases hstep
  | leave =>
      rw [smpStep] at hstep
      split at hstep
      · rename_i id rest hbsp
        split at hstep
        · cases hstep
        · rename_i hstatus
          cases hstep
          exact smpInvariant_leave hinv hbsp hstatus
      · cases hstep
  | load id =>
      rw [smpStep] at hstep
      split at hstep
      · rename_i hplace
        cases hstep
        exact smpInvariant_load hinv hplace
      · cases hstep
  | signal id =>
      rw [smpStep] at hstep
      split at hstep
      · rename_i v hplace
        cases hstep
        exact smpInvariant_store hinv (by rw [hplace]; rfl) rfl
          (hturn trivial)
      · cases hstep
  | entry id =>
      rw [smpStep] at hstep
      split at hstep
      · rename_i v hplace
        cases hstep
        exact smpInvariant_store hinv (by rw [hplace]; rfl) rfl
          (hturn trivial)
      · cases hstep

theorem smpInvariant_init {boot : SmpBoot} {ids : List Nat} {s : SmpState}
    (hstart : SmpStart boot ids s) : SmpInvariant boot ids s := by
  have hleft : s.shared.bsp.left = ids := by
    rw [hstart.bsp]
    rfl
  constructor
  · constructor
    · rw [hleft]
      exact hstart.ids_nodup
    · intro id hid
      rw [hleft] at hid
      exact hid
    · intro id rest heq
      rw [hstart.bsp] at heq
      cases heq
    · intro id rest heq
      rw [hstart.bsp] at heq
      cases heq
    · intro id rest heq
      rw [hstart.bsp] at heq
      cases heq
  · intro id
    have hoff := hstart.off id
    constructor
    · intro _
      exact hoff
    · intro hon
      exact absurd hoff hon
    · intro hstarted
      rw [hoff] at hstarted
      cases hstarted
    · intro v hv
      rw [hoff] at hv
      cases hv
  · intro _ _ _
    trivial

theorem stackTop_inj {boot : SmpBoot} {ids : List Nat} {s : SmpState}
    (hstart : SmpStart boot ids s) {id other : Nat} (hid : id ∈ ids)
    (hother : other ∈ ids) (h : boot.stackTop id = boot.stackTop other) :
    id = other := by
  apply hstart.blocks_inj id other hid hother
  have hlt := hstart.blocks_lt id hid
  have hlt' := hstart.blocks_lt other hother
  unfold SmpBoot.stackTop Word.add at h
  lia

def OwnStacks (s : SmpState) : Prop :=
  forall id other v, id ≠ other -> (s.place id).rsp = some v ->
    (s.place other).rsp ≠ some v

theorem smpInit_stacks {boot : SmpBoot} {ids : List Nat} {s s' : SmpState}
    {trace : List SmpEvent} (hstart : (turnSystem boot ids).Init s)
    (hrun : (turnSystem boot ids).Runs s trace s') : OwnStacks s' := by
  have hinv : SmpInvariant boot ids s' := by
    apply runs_invariant (smpInvariant_init hstart) _ hrun
    intro t event u ht hstep
    exact smpInvariant_step ht hstep.left hstep.right
  have hmem : forall id v, (s'.place id).rsp = some v -> id ∈ ids := by
    intro id v hv
    apply (hinv.own id).mem
    intro hoff
    rw [hoff] at hv
    cases hv
  intro id other v hne hid hother
  apply hne
  apply stackTop_inj hstart (hmem id v hid) (hmem other v hother)
  rw [← (hinv.own id).loaded v hid, ← (hinv.own other).loaded v hother]

def quadBoot : SmpBoot where
  bspId := 0
  blocks := fun id => 0x100000 + 0x2000 * id

def quadStart : SmpState where
  shared := { stackTop := 0, status := 0, bsp := BspStage.next [0, 1, 2, 3] }
  place := fun _ => ApStage.off

theorem quadStart_init : SmpStart quadBoot [0, 1, 2, 3] quadStart := by
  constructor
  · rfl
  · intro id
    rfl
  · decide
  · decide
  · intro id other _ _ (heq : 0x100000 + 0x2000 * id = 0x100000 + 0x2000 * other)
    lia

instance (event : SmpEvent) : Decidable event.Stores := by
  cases event <;> unfold SmpEvent.Stores <;> infer_instance

def turnStep (boot : SmpBoot) (s : SmpState) (event : SmpEvent) :
    Option SmpState :=
  match s.shared.bsp.turn with
  | some id =>
      if event.Stores ∧ (s.place id).rsp = none then none
      else smpStep boot s event
  | none => smpStep boot s event

theorem turnStep_spec {boot : SmpBoot} {s s' : SmpState} {event : SmpEvent}
    (h : turnStep boot s event = some s') :
    smpStep boot s event = some s' ∧ TurnKept s event := by
  unfold turnStep at h
  split at h
  · rename_i id hturn
    split at h
    · cases h
    · rename_i hkept
      constructor
      · exact h
      · intro hstores other hother hrsp
        rw [hturn] at hother
        cases hother
        exact hkept ⟨hstores, hrsp⟩
  · rename_i hturn
    constructor
    · exact h
    · intro _ other hother
      rw [hturn] at hother
      cases hother

def bootEvents (id : Nat) : List SmpEvent :=
  [SmpEvent.prepare, SmpEvent.clear, SmpEvent.start, SmpEvent.load id,
    SmpEvent.signal id]

def orderedBoot : List SmpEvent :=
  [SmpEvent.skip] ++ bootEvents 1 ++ [SmpEvent.entry 1, SmpEvent.leave] ++
    bootEvents 2 ++ [SmpEvent.entry 2, SmpEvent.leave] ++ bootEvents 3 ++
    [SmpEvent.entry 3, SmpEvent.leave]

theorem smpInit_stacks_orderedBoot :
    exists s', (turnSystem quadBoot [0, 1, 2, 3]).Runs quadStart orderedBoot
        s' ∧
      s'.place 3 = ApStage.up 0x108000 ∧ OwnStacks s' := by
  have hrun := runs_of_execute (T := turnSystem quadBoot [0, 1, 2, 3])
    (fun _ _ _ hstep => turnStep_spec hstep)
    (Option.some_get (x := execute (turnStep quadBoot) orderedBoot quadStart)
      (by decide)).symm
  exact ⟨_, hrun, by decide, smpInit_stacks quadStart_init hrun⟩

/-- Processor 1 enters `smp_ap_entry` while processor 2 is being started. -/
def lateBoot : List SmpEvent :=
  [SmpEvent.skip] ++ bootEvents 1 ++
    [SmpEvent.leave, SmpEvent.prepare, SmpEvent.clear, SmpEvent.start,
      SmpEvent.entry 1, SmpEvent.leave, SmpEvent.prepare, SmpEvent.clear,
      SmpEvent.start, SmpEvent.load 2, SmpEvent.load 3]

theorem smpInit_stacks_shared :
    exists s', (smpSystem quadBoot [0, 1, 2, 3]).Init quadStart ∧
      (smpSystem quadBoot [0, 1, 2, 3]).Runs quadStart lateBoot s' ∧
      (s'.place 2).rsp = some 0x108000 ∧ (s'.place 3).rsp = some 0x108000 := by
  have hrun := runs_of_execute (T := smpSystem quadBoot [0, 1, 2, 3])
    (fun _ _ _ hstep => hstep)
    (Option.some_get (x := execute (smpStep quadBoot) lateBoot quadStart)
      (by decide)).symm
  exact ⟨_, quadStart_init, hrun, by decide, by decide⟩

end Smp
end Barium
