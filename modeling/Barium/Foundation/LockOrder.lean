import Mathlib.Data.Set.Basic
import Barium.Foundation.Run
import Barium.Foundation.Interleaving

/-!
# Spinlocks, interrupts and lock order

What code does with locks and with the interrupt flag, for processors that
share spinlocks.  Interrupts run on top of the code they interrupt, and a
processor may switch from one thread to another inside an interrupt.  Code that
takes locks only with interrupts off, and in the order of their ranks, cannot
deadlock.
-/

namespace Barium
namespace Foundation

/-- Code as far as locks and the interrupt flag are concerned.  `save` disables
interrupts and remembers the flag, `restore` sets it to what was remembered
last; `choose` is a branch or a loop whose outcome depends on data; `trap` is a
software interrupt, and `switch` a point where the processor may leave the
thread. -/
inductive LockCode (ref : Type) where
  | done
  | save (rest : LockCode ref)
  | restore (rest : LockCode ref)
  | acquire (lock : ref) (rest : LockCode ref)
  | release (lock : ref) (rest : LockCode ref)
  | choose (branch : Nat -> LockCode ref)
  | flag (enabled : Bool) (rest : LockCode ref)
  | trap (rest : LockCode ref)
  | switch (rest : LockCode ref)

namespace LockCode

section

variable {ref : Type}

def branch (yes no : LockCode ref) : LockCode ref :=
  choose (fun i => if i = 0 then yes else no)

def times (body : LockCode ref -> LockCode ref) :
    Nat -> LockCode ref -> LockCode ref
  | 0, rest => rest
  | n + 1, rest => body (times body n rest)

def loop (body : LockCode ref -> LockCode ref) (rest : LockCode ref) :
    LockCode ref :=
  choose (fun n => times body n rest)

/-!
# Code that keeps the order

`Ordered rank code n held` says it of code that begins inside of `n` saves with
the locks `held`, the last one first.
-/

def Ordered (rank : ref -> Nat) : LockCode ref -> Nat -> List ref -> Prop
  | done, n, held => n = 0 ∧ held = []
  | save rest, n, held => Ordered rank rest (n + 1) held
  | restore rest, n, held =>
      exists m, n = m + 1 ∧ (m = 0 -> held = []) ∧ Ordered rank rest m held
  | acquire lock rest, n, held =>
      0 < n ∧ (forall other, other ∈ held -> rank other < rank lock) ∧
        Ordered rank rest n (lock :: held)
  | release lock rest, n, held =>
      exists tail, held = lock :: tail ∧ Ordered rank rest n tail
  | choose branch, n, held => forall i, Ordered rank (branch i) n held
  | flag _ rest, n, held => n = 0 ∧ Ordered rank rest n held
  | trap rest, n, held => n = 0 ∧ Ordered rank rest n held
  | switch rest, n, held => n = 1 ∧ held = [] ∧ Ordered rank rest n held

variable {rank : ref -> Nat} {n : Nat} {held : List ref}

theorem Ordered.branch {yes no : LockCode ref} (hyes : yes.Ordered rank n held)
    (hno : no.Ordered rank n held) :
    (LockCode.branch yes no).Ordered rank n held := by
  intro i
  show (if i = 0 then yes else no).Ordered rank n held
  split
  · exact hyes
  · exact hno

theorem Ordered.loop {body : LockCode ref -> LockCode ref}
    {rest : LockCode ref}
    (hbody : forall rest, rest.Ordered rank n held ->
      (body rest).Ordered rank n held)
    (hrest : rest.Ordered rank n held) :
    (LockCode.loop body rest).Ordered rank n held := by
  intro k
  show (times body k rest).Ordered rank n held
  induction k with
  | zero => exact hrest
  | succ k ih => exact hbody _ ih

theorem Ordered.first {lock : ref} {rest : LockCode ref} (hn : 0 < n)
    (hrest : rest.Ordered rank n [lock]) :
    (acquire lock rest).Ordered rank n [] := by
  refine ⟨hn, ?_, hrest⟩
  intro other hother
  cases hother

theorem Ordered.unlock {lock : ref} {rest : LockCode ref}
    (hheld : n = 0 -> held = []) (hrest : rest.Ordered rank n held) :
    (release lock (restore rest)).Ordered rank (n + 1) (lock :: held) :=
  ⟨held, rfl, n, rfl, hheld, hrest⟩

end

end LockCode

/-!
# Processors
-/

/-- A thread that does not run: the code that is left, and the flags that it
has saved. -/
structure LockContext (ref : Type) where
  code : LockCode ref
  saved : List Bool

structure Activity (ref : Type) extends LockContext ref where
  enabled : Bool

structure LockShared (cpu lock ref : Type) where
  owner : lock -> Option cpu
  pool : List (LockContext ref)

abbrev LockState (cpu lock ref : Type) :=
  Config (LockShared cpu lock ref) (Activity ref) cpu

/-- What the processors run.  A lock may be named by the processor that uses
it, so names are resolved on a processor; `handler` puts the code of an
interrupt in front of the code that follows. -/
structure LockKernel (cpu lock ref irq : Type) where
  resolve : cpu -> ref -> lock
  handler : irq -> LockCode ref -> LockCode ref
  soft : irq
  Thread : LockCode ref -> Prop

section Owners

variable {cpu lock ref : Type} [DecidableEq lock]

def LockShared.setOwner (m : LockShared cpu lock ref) (l : lock)
    (owner : Option cpu) : LockShared cpu lock ref :=
  { m with owner := Function.update m.owner l owner }

theorem LockShared.setOwner_self (m : LockShared cpu lock ref) (l : lock)
    (o : Option cpu) : (m.setOwner l o).owner l = o := by
  unfold setOwner
  exact Function.update_self _ _ _

theorem LockShared.setOwner_other (m : LockShared cpu lock ref)
    {l other : lock} (o : Option cpu) (h : other ≠ l) :
    (m.setOwner l o).owner other = m.owner other := by
  unfold setOwner
  exact Function.update_of_ne h _ _

end Owners

section Machine

variable {cpu lock ref irq : Type} [DecidableEq cpu] [DecidableEq lock]

def Activity.enter (a : Activity ref) (code : LockCode ref) : Activity ref where
  code := code
  saved := a.enabled :: a.saved
  enabled := false

inductive LockStep (K : LockKernel cpu lock ref irq) :
    LockState cpu lock ref -> cpu -> LockState cpu lock ref -> Prop where
  | save {s : LockState cpu lock ref} {c : cpu} {rest : LockCode ref} :
      (s.place c).code = LockCode.save rest ->
      LockStep K s c (s.move c s.shared ((s.place c).enter rest))
  | restore {s : LockState cpu lock ref} {c : cpu} {rest : LockCode ref}
      {b : Bool} {saved : List Bool} :
      (s.place c).code = LockCode.restore rest ->
      (s.place c).saved = b :: saved ->
      LockStep K s c (s.move c s.shared
        { code := rest, saved := saved, enabled := b })
  | acquire {s : LockState cpu lock ref} {c : cpu} {r : ref}
      {rest : LockCode ref} :
      (s.place c).code = LockCode.acquire r rest ->
      s.shared.owner (K.resolve c r) = none ->
      LockStep K s c (s.move c (s.shared.setOwner (K.resolve c r) (some c))
        { s.place c with code := rest })
  | release {s : LockState cpu lock ref} {c : cpu} {r : ref}
      {rest : LockCode ref} :
      (s.place c).code = LockCode.release r rest ->
      LockStep K s c (s.move c (s.shared.setOwner (K.resolve c r) none)
        { s.place c with code := rest })
  | choose {s : LockState cpu lock ref} {c : cpu}
      {branch : Nat -> LockCode ref} (i : Nat) :
      (s.place c).code = LockCode.choose branch ->
      LockStep K s c (s.move c s.shared { s.place c with code := branch i })
  | flag {s : LockState cpu lock ref} {c : cpu} {rest : LockCode ref}
      {b : Bool} :
      (s.place c).code = LockCode.flag b rest ->
      LockStep K s c (s.move c s.shared
        { s.place c with code := rest, enabled := b })
  | trap {s : LockState cpu lock ref} {c : cpu} {rest : LockCode ref} :
      (s.place c).code = LockCode.trap rest ->
      LockStep K s c (s.move c s.shared
        ((s.place c).enter (K.handler K.soft (LockCode.restore rest))))
  | interrupt {s : LockState cpu lock ref} {c : cpu} (i : irq) :
      (s.place c).enabled = true ->
      LockStep K s c (s.move c s.shared
        ((s.place c).enter
          (K.handler i (LockCode.restore (s.place c).code))))
  | stay {s : LockState cpu lock ref} {c : cpu} {rest : LockCode ref} :
      (s.place c).code = LockCode.switch rest ->
      LockStep K s c (s.move c s.shared { s.place c with code := rest })
  | switch {s : LockState cpu lock ref} {c : cpu} {rest : LockCode ref}
      {left right : List (LockContext ref)} {next : LockContext ref} :
      (s.place c).code = LockCode.switch rest ->
      s.shared.pool = left ++ next :: right ->
      LockStep K s c (s.move c
        { s.shared with
          pool := left ++ { code := rest, saved := (s.place c).saved } :: right }
        { toLockContext := next, enabled := (s.place c).enabled })
  -- a new thread begins with the return from an interrupt
  | create {s : LockState cpu lock ref} {c : cpu} {code : LockCode ref} :
      K.Thread code ->
      LockStep K s c (s.move c
        { s.shared with
          pool := { code := LockCode.restore code, saved := [true] } ::
            s.shared.pool }
        (s.place c))

/-- A step that is computed: `some i` is an interrupt, and `choice` settles a
branch of the code.  The processor stays with its thread. -/
def lockNext (K : LockKernel cpu lock ref irq) (s : LockState cpu lock ref)
    (c : cpu) (interrupt : Option irq) (choice : Nat) :
    Option (LockState cpu lock ref) :=
  match interrupt with
  | some i =>
      if (s.place c).enabled = true then
        some (s.move c s.shared ((s.place c).enter
          (K.handler i (LockCode.restore (s.place c).code))))
      else
        none
  | none =>
      match (s.place c).code with
      | .done => none
      | .save rest =>
          some (s.move c s.shared ((s.place c).enter rest))
      | .restore rest =>
          match (s.place c).saved with
          | [] => none
          | b :: saved =>
              some (s.move c s.shared
                { code := rest, saved := saved, enabled := b })
      | .acquire r rest =>
          if (s.shared.owner (K.resolve c r)).isNone = true then
            some (s.move c (s.shared.setOwner (K.resolve c r) (some c))
              { s.place c with code := rest })
          else
            none
      | .release r rest =>
          some (s.move c (s.shared.setOwner (K.resolve c r) none)
            { s.place c with code := rest })
      | .choose branch =>
          some (s.move c s.shared { s.place c with code := branch choice })
      | .flag b rest =>
          some (s.move c s.shared
            { s.place c with code := rest, enabled := b })
      | .trap rest =>
          some (s.move c s.shared ((s.place c).enter
            (K.handler K.soft (LockCode.restore rest))))
      | .switch rest =>
          some (s.move c s.shared { s.place c with code := rest })

theorem lockNext_step {K : LockKernel cpu lock ref irq}
    {s s' : LockState cpu lock ref} {c : cpu} {interrupt : Option irq}
    {choice : Nat} (h : lockNext K s c interrupt choice = some s') :
    LockStep K s c s' := by
  unfold lockNext at h
  cases interrupt with
  | some i =>
      simp only at h
      split at h
      · rename_i henabled
        cases h
        exact LockStep.interrupt i henabled
      · cases h
  | none =>
      simp only at h
      split at h
      · cases h
      · rename_i rest hcode
        cases h
        exact LockStep.save hcode
      · rename_i rest hcode
        split at h
        · cases h
        · rename_i b saved hsaved
          cases h
          exact LockStep.restore hcode hsaved
      · rename_i r rest hcode
        split at h
        · rename_i hfree
          cases h
          exact LockStep.acquire hcode (Option.isNone_iff_eq_none.mp hfree)
        · cases h
      · rename_i r rest hcode
        cases h
        exact LockStep.release hcode
      · rename_i branch hcode
        cases h
        exact LockStep.choose choice hcode
      · rename_i b rest hcode
        cases h
        exact LockStep.flag hcode
      · rename_i rest hcode
        cases h
        exact LockStep.trap hcode
      · rename_i rest hcode
        cases h
        exact LockStep.stay hcode

structure LockStart (K : LockKernel cpu lock ref irq)
    (s : LockState cpu lock ref) : Prop where
  free : forall l, s.shared.owner l = none
  pool : s.shared.pool = []
  thread : forall c, K.Thread (s.place c).code
  saved : forall c, (s.place c).saved = []

def lockSystem (K : LockKernel cpu lock ref irq) :
    TransitionSystem (LockState cpu lock ref) cpu where
  Init := LockStart K
  Step := LockStep K

end Machine

/-!
# The invariant
-/

/-- The flags saved by `n` nested saves: all but the outermost one were made
with interrupts off. -/
def SavedFlags : Nat -> List Bool -> Prop
  | 0, saved => saved = []
  | n + 1, saved => exists b, saved = List.replicate n false ++ [b]

theorem SavedFlags.push {n : Nat} {saved : List Bool} {b : Bool}
    (h : SavedFlags n saved) (hb : 0 < n -> b = false) :
    SavedFlags (n + 1) (b :: saved) := by
  cases n with
  | zero =>
      rw [show saved = [] from h]
      exact ⟨b, rfl⟩
  | succ n =>
      rcases h with ⟨outer, hsaved⟩
      exists outer
      rw [hsaved, hb (Nat.succ_pos n), List.replicate_succ]
      rfl

theorem SavedFlags.pop {n : Nat} {saved : List Bool} {b : Bool}
    (h : SavedFlags (n + 1) (b :: saved)) :
    SavedFlags n saved ∧ (0 < n -> b = false) := by
  rcases h with ⟨outer, hsaved⟩
  cases n with
  | zero =>
      cases hsaved
      exact ⟨rfl, fun hpos => absurd hpos (Nat.lt_irrefl 0)⟩
  | succ n =>
      rw [List.replicate_succ, List.cons_append] at hsaved
      rcases List.cons.inj hsaved with ⟨hb, htail⟩
      exact ⟨⟨outer, htail⟩, fun _ => hb⟩

section Order

variable {cpu lock ref irq : Type}

structure LockKernel.KeepsOrder (K : LockKernel cpu lock ref irq)
    (rank : ref -> Nat) : Prop where
  resolve : forall c d r r', K.resolve c r = K.resolve d r' ->
    rank r = rank r'
  bounded : exists bound, forall r, rank r <= bound
  handler : forall i rest, rest.Ordered rank 1 [] ->
    (K.handler i rest).Ordered rank 1 []
  thread : forall code, K.Thread code -> code.Ordered rank 0 []

/-- A processor inside of `n` saves that holds exactly the locks `held`. -/
structure Disciplined (K : LockKernel cpu lock ref irq) (rank : ref -> Nat)
    (c : cpu) (m : LockShared cpu lock ref) (a : Activity ref) (n : Nat)
    (held : List ref) : Prop where
  ordered : a.code.Ordered rank n held
  saved : SavedFlags n a.saved
  disabled : 0 < n -> a.enabled = false
  outside : n = 0 -> held = []
  ascending : held.Pairwise (fun r r' => rank r' < rank r)
  owner : forall l, m.owner l = some c <-> exists r, r ∈ held ∧
    K.resolve c r = l

def PoolOrdered (rank : ref -> Nat) (m : LockShared cpu lock ref) : Prop :=
  forall context, context ∈ m.pool ->
    context.code.Ordered rank 1 [] ∧ SavedFlags 1 context.saved

abbrev LockInvariant (K : LockKernel cpu lock ref irq) (rank : ref -> Nat) :
    LockState cpu lock ref -> Prop :=
  Config.Holds (PoolOrdered rank)
    (fun c m a => exists n held, Disciplined K rank c m a n held)
    (fun _ _ => True)

variable {K : LockKernel cpu lock ref irq} {rank : ref -> Nat}
  {s : LockState cpu lock ref} {c : cpu} {n : Nat} {held : List ref}

theorem Disciplined.frame {m m' : LockShared cpu lock ref} {a : Activity ref}
    (h : Disciplined K rank c m a n held)
    (howner : forall l, m'.owner l = some c <-> m.owner l = some c) :
    Disciplined K rank c m' a n held :=
  { h with owner := fun l => (howner l).trans (h.owner l) }

theorem Disciplined.enter {m : LockShared cpu lock ref} {a : Activity ref}
    {code : LockCode ref} (h : Disciplined K rank c m a n held)
    (hcode : code.Ordered rank (n + 1) held) :
    Disciplined K rank c m (a.enter code) (n + 1) held := by
  constructor
  · exact hcode
  · exact h.saved.push h.disabled
  · intro _
    rfl
  · intro hzero
    cases hzero
  · exact h.ascending
  · exact h.owner

theorem holds_cons {r : ref} {l : lock} (hne : l ≠ K.resolve c r) :
    (exists q, q ∈ r :: held ∧ K.resolve c q = l) <->
      exists q, q ∈ held ∧ K.resolve c q = l := by
  constructor
  · rintro ⟨q, hq, hl⟩
    rcases List.mem_cons.mp hq with heq | hq
    · rw [heq] at hl
      exact absurd hl.symm hne
    · exact ⟨q, hq, hl⟩
  · rintro ⟨q, hq, hl⟩
    exact ⟨q, List.mem_cons_of_mem r hq, hl⟩

theorem Disciplined.goOn {m : LockShared cpu lock ref} {a : Activity ref}
    {code : LockCode ref} (h : Disciplined K rank c m a n held)
    (hcode : code.Ordered rank n held) :
    Disciplined K rank c m { a with code := code } n held :=
  { h with ordered := hcode }

theorem lockInvariant_start (hkeeps : K.KeepsOrder rank)
    (hstart : LockStart K s) : LockInvariant K rank s := by
  constructor
  · intro context hcontext
    rw [hstart.pool] at hcontext
    cases hcontext
  · intro c
    refine ⟨0, [], hkeeps.thread _ (hstart.thread c), hstart.saved c, ?_, ?_,
      List.Pairwise.nil, ?_⟩
    · intro hpos
      exact absurd hpos (Nat.lt_irrefl 0)
    · intro _
      rfl
    · intro l
      rw [hstart.free l]
      simp
  · intro _ _ _
    trivial

/-!
# No deadlock
-/

def Tries (K : LockKernel cpu lock ref irq) (s : LockState cpu lock ref)
    (c : cpu) (l : lock) : Prop :=
  exists r rest, (s.place c).code = LockCode.acquire r rest ∧
    K.resolve c r = l

structure LocksSafe (K : LockKernel cpu lock ref irq)
    (s : LockState cpu lock ref) : Prop where
  disabled : forall c l, s.shared.owner l = some c ->
    (s.place c).enabled = false
  no_reentry : forall c l, Tries K s c l -> s.shared.owner l ≠ some c
  no_deadlock : forall S : Set cpu, S.Nonempty ->
    ¬ forall c, c ∈ S -> exists l d, Tries K s c l ∧
      s.shared.owner l = some d ∧ d ∈ S

/-- What a processor holds ranks below what it is about to take. -/
theorem held_below (hkeeps : K.KeepsOrder rank)
    (hinv : LockInvariant K rank s) {r q : ref} {rest : LockCode ref} {d : cpu}
    (hcode : (s.place c).code = LockCode.acquire r rest)
    (howner : s.shared.owner (K.resolve d q) = some c) :
    rank q < rank r := by
  rcases hinv.own c with ⟨n, held, h⟩
  have hordered := h.ordered
  rw [hcode] at hordered
  rcases (h.owner _).mp howner with ⟨p, hp, hsame⟩
  rw [← hkeeps.resolve c d p q hsame]
  exact hordered.right.left p hp

theorem lockInvariant_safe (hkeeps : K.KeepsOrder rank)
    (hinv : LockInvariant K rank s) : LocksSafe K s := by
  constructor
  · intro c l howner
    rcases hinv.own c with ⟨n, held, h⟩
    rcases (h.owner l).mp howner with ⟨r, hr, _⟩
    apply h.disabled
    cases n with
    | zero =>
        rw [h.outside rfl] at hr
        cases hr
    | succ n => exact Nat.succ_pos n
  · rintro c l ⟨r, rest, hcode, hl⟩ howner
    rw [← hl] at howner
    exact Nat.lt_irrefl _ (held_below hkeeps hinv hcode howner)
  · intro S hS hall
    -- the ranks of the locks that the processors wait for have no bound
    have hclimb : forall k, exists c, c ∈ S ∧ exists r rest,
        (s.place c).code = LockCode.acquire r rest ∧ k <= rank r := by
      intro k
      induction k with
      | zero =>
          rcases hS with ⟨c, hc⟩
          rcases hall c hc with ⟨_, _, ⟨r, rest, hcode, _⟩, _⟩
          exact ⟨c, hc, r, rest, hcode, Nat.zero_le _⟩
      | succ k ih =>
          rcases ih with ⟨c, hc, r, rest, hcode, hk⟩
          rcases hall c hc with ⟨l, d, ⟨r', rest', hcode', hl⟩, howner, hd⟩
          rw [hcode] at hcode'
          cases hcode'
          rcases hall d hd with ⟨_, _, ⟨q, rest'', hcode'', _⟩, _⟩
          rw [← hl] at howner
          have hless := held_below hkeeps hinv hcode'' howner
          exact ⟨d, hd, q, rest'', hcode'', by lia⟩
    rcases hkeeps.bounded with ⟨bound, hbound⟩
    rcases hclimb (bound + 1) with ⟨_, _, r, _, _, hr⟩
    have hle := hbound r
    lia

section Steps

variable [DecidableEq cpu]

/-!
# The steps
-/

theorem lockInvariant_local {m : LockShared cpu lock ref} {a : Activity ref}
    (hinv : LockInvariant K rank s) (hpool : PoolOrdered rank m)
    (howner : m.owner = s.shared.owner)
    (ha : Disciplined K rank c m a n held) :
    LockInvariant K rank (s.move c m a) := by
  apply hinv.move (fun _ _ _ => trivial) hpool ⟨n, held, ha⟩
  · intro d _
    rcases hinv.own d with ⟨k, locks, hd⟩
    exact ⟨k, locks, hd.frame (fun l => by rw [howner])⟩
  · intro _ _
    trivial

theorem lockInvariant_restore {rest : LockCode ref} {b : Bool}
    {saved : List Bool} (hinv : LockInvariant K rank s)
    (hcode : (s.place c).code = LockCode.restore rest)
    (hsaved : (s.place c).saved = b :: saved) :
    LockInvariant K rank (s.move c s.shared
      { code := rest, saved := saved, enabled := b }) := by
  rcases hinv.own c with ⟨n, held, h⟩
  have hordered := h.ordered
  rw [hcode] at hordered
  rcases hordered with ⟨m, hn, hheld, hrest⟩
  have hflags := h.saved
  rw [hn, hsaved] at hflags
  rcases hflags.pop with ⟨hpop, hb⟩
  apply lockInvariant_local hinv hinv.shared rfl
  exact ⟨hrest, hpop, hb, hheld, h.ascending, h.owner⟩

theorem lockInvariant_switch {rest : LockCode ref}
    {left right : List (LockContext ref)} {next : LockContext ref}
    (hinv : LockInvariant K rank s)
    (hcode : (s.place c).code = LockCode.switch rest)
    (hpool : s.shared.pool = left ++ next :: right) :
    LockInvariant K rank (s.move c
      { s.shared with
        pool := left ++ { code := rest, saved := (s.place c).saved } :: right }
      { toLockContext := next, enabled := (s.place c).enabled }) := by
  rcases hinv.own c with ⟨n, held, h⟩
  have hordered := h.ordered
  rw [hcode] at hordered
  rcases hordered with ⟨hn, hheld, hrest⟩
  rw [hn, hheld] at h hrest
  have hnext := hinv.shared next (by rw [hpool]; simp)
  apply lockInvariant_local hinv
  · intro context hcontext
    rcases List.mem_append.mp hcontext with hleft | hright
    · exact hinv.shared context (by rw [hpool]; simp [hleft])
    · rcases List.mem_cons.mp hright with heq | hright
      · rw [heq]
        exact ⟨hrest, h.saved⟩
      · exact hinv.shared context (by rw [hpool]; simp [hright])
  · rfl
  · exact ⟨hnext.left, hnext.right, h.disabled, h.outside, h.ascending,
      h.owner⟩

theorem lockInvariant_create {code : LockCode ref}
    (hkeeps : K.KeepsOrder rank) (hinv : LockInvariant K rank s)
    (hthread : K.Thread code) :
    LockInvariant K rank (s.move c
      { s.shared with
        pool := { code := LockCode.restore code, saved := [true] } ::
          s.shared.pool }
      (s.place c)) := by
  rcases hinv.own c with ⟨n, held, h⟩
  apply lockInvariant_local hinv
  · intro context hcontext
    rcases List.mem_cons.mp hcontext with heq | hold
    · rw [heq]
      exact ⟨⟨0, rfl, fun _ => rfl, hkeeps.thread code hthread⟩, true, rfl⟩
    · exact hinv.shared context hold
  · rfl
  · exact h.frame (fun _ => Iff.rfl)

variable [DecidableEq lock]

theorem lockInvariant_owner {a : Activity ref} {l : lock} {o : Option cpu}
    (hinv : LockInvariant K rank s)
    (hbefore : forall d, d ≠ c -> s.shared.owner l ≠ some d)
    (hafter : forall d, d ≠ c -> o ≠ some d)
    (ha : Disciplined K rank c (s.shared.setOwner l o) a n held) :
    LockInvariant K rank (s.move c (s.shared.setOwner l o) a) := by
  apply hinv.move (fun _ _ _ => trivial)
  · exact hinv.shared
  · exact ⟨n, held, ha⟩
  · intro d hd
    rcases hinv.own d with ⟨k, locks, hother⟩
    refine ⟨k, locks, hother.frame ?_⟩
    intro other
    by_cases hsame : other = l
    · rw [hsame, LockShared.setOwner_self]
      constructor
      · intro ho
        exact absurd ho (hafter d hd)
      · intro howner
        exact absurd howner (hbefore d hd)
    · rw [LockShared.setOwner_other _ _ hsame]
  · intro _ _
    trivial

theorem lockInvariant_acquire {r : ref} {rest : LockCode ref}
    (hinv : LockInvariant K rank s)
    (hcode : (s.place c).code = LockCode.acquire r rest)
    (hfree : s.shared.owner (K.resolve c r) = none) :
    LockInvariant K rank (s.move c
      (s.shared.setOwner (K.resolve c r) (some c))
      { s.place c with code := rest }) := by
  rcases hinv.own c with ⟨n, held, h⟩
  have hordered := h.ordered
  rw [hcode] at hordered
  rcases hordered with ⟨hpos, hrank, hrest⟩
  apply lockInvariant_owner hinv
  · intro d _ hd
    rw [hfree] at hd
    cases hd
  · intro d hne hd
    exact hne (Option.some.inj hd).symm
  · refine ⟨hrest, h.saved, h.disabled, ?_,
      List.pairwise_cons.mpr ⟨hrank, h.ascending⟩, ?_⟩
    · intro hzero
      rw [hzero] at hpos
      exact absurd hpos (Nat.lt_irrefl 0)
    · intro l
      by_cases hsame : l = K.resolve c r
      · rw [hsame, LockShared.setOwner_self]
        constructor
        · intro _
          exact ⟨r, List.mem_cons_self, rfl⟩
        · intro _
          rfl
      · rw [LockShared.setOwner_other _ _ hsame, h.owner l]
        exact (holds_cons hsame).symm

/-- The lock that is released is the last one taken, and no other name that the
processor holds a lock by means it. -/
theorem lockInvariant_release {r : ref} {rest : LockCode ref}
    (hkeeps : K.KeepsOrder rank) (hinv : LockInvariant K rank s)
    (hcode : (s.place c).code = LockCode.release r rest) :
    LockInvariant K rank (s.move c (s.shared.setOwner (K.resolve c r) none)
      { s.place c with code := rest }) := by
  rcases hinv.own c with ⟨n, held, h⟩
  have hordered := h.ordered
  rw [hcode] at hordered
  rcases hordered with ⟨tail, hheld, hrest⟩
  rw [hheld] at h
  have hascending := List.pairwise_cons.mp h.ascending
  have howned : s.shared.owner (K.resolve c r) = some c :=
    (h.owner _).mpr ⟨r, List.mem_cons_self, rfl⟩
  apply lockInvariant_owner hinv
  · intro d hne hd
    rw [howned] at hd
    exact hne (Option.some.inj hd).symm
  · intro d _ hd
    cases hd
  · refine ⟨hrest, h.saved, h.disabled, ?_, hascending.right, ?_⟩
    · intro hzero
      cases h.outside hzero
    · intro l
      by_cases hsame : l = K.resolve c r
      · rw [hsame, LockShared.setOwner_self]
        constructor
        · intro hnone
          cases hnone
        · rintro ⟨q, hq, hl⟩
          have hless := hascending.left q hq
          rw [hkeeps.resolve c c q r hl] at hless
          exact absurd hless (Nat.lt_irrefl _)
      · rw [LockShared.setOwner_other _ _ hsame, h.owner l]
        exact holds_cons hsame

theorem lockInvariant_step {s' : LockState cpu lock ref}
    (hkeeps : K.KeepsOrder rank) (hinv : LockInvariant K rank s)
    (hstep : LockStep K s c s') : LockInvariant K rank s' := by
  rcases hinv.own c with ⟨n, held, h⟩
  have hordered := h.ordered
  cases hstep with
  | save hcode =>
      rw [hcode] at hordered
      exact lockInvariant_local hinv hinv.shared rfl (h.enter hordered)
  | restore hcode hsaved => exact lockInvariant_restore hinv hcode hsaved
  | acquire hcode hfree => exact lockInvariant_acquire hinv hcode hfree
  | release hcode => exact lockInvariant_release hkeeps hinv hcode
  | choose i hcode =>
      rw [hcode] at hordered
      exact lockInvariant_local hinv hinv.shared rfl (h.goOn (hordered i))
  | flag hcode =>
      rw [hcode] at hordered
      rcases hordered with ⟨hn, hrest⟩
      apply lockInvariant_local hinv hinv.shared rfl
      refine ⟨hrest, h.saved, ?_, h.outside, h.ascending, h.owner⟩
      intro hpos
      rw [hn] at hpos
      exact absurd hpos (Nat.lt_irrefl 0)
  | trap hcode =>
      rw [hcode] at hordered
      rcases hordered with ⟨hn, hrest⟩
      have hheld := h.outside hn
      rw [hn, hheld] at h hrest
      apply lockInvariant_local hinv hinv.shared rfl (h.enter _)
      exact hkeeps.handler K.soft _ ⟨0, rfl, fun _ => rfl, hrest⟩
  | interrupt i henabled =>
      -- an enabled processor is inside of no save
      have hn : n = 0 := by
        cases n with
        | zero => rfl
        | succ n =>
            rw [h.disabled (Nat.succ_pos n)] at henabled
            cases henabled
      have hheld := h.outside hn
      rw [hn, hheld] at h hordered
      apply lockInvariant_local hinv hinv.shared rfl (h.enter _)
      exact hkeeps.handler i _ ⟨0, rfl, fun _ => rfl, hordered⟩
  | stay hcode =>
      rw [hcode] at hordered
      exact lockInvariant_local hinv hinv.shared rfl
        (h.goOn hordered.right.right)
  | switch hcode hpool => exact lockInvariant_switch hinv hcode hpool
  | create hthread => exact lockInvariant_create hkeeps hinv hthread

/-- Code that keeps the order is safe in every reachable state. -/
theorem LockKernel.KeepsOrder.safe (hkeeps : K.KeepsOrder rank)
    (hreach : (lockSystem K).Reachable s) : LocksSafe K s := by
  apply lockInvariant_safe hkeeps
  apply TransitionSystem.reachable_invariant _ _ hreach
  · intro t ht
    exact lockInvariant_start hkeeps ht
  · intro t c u ht hstep
    exact lockInvariant_step hkeeps ht hstep

end Steps

end Order

end Foundation
end Barium
