import Barium.Sched.Queues

/-!
# Loops over queues

The loops of `sched_reschedule`, `sched_age_threads` and `sched_handoff` walk
along a queue with the thread before the current one in `prev`.  Each loop is
described by the part of the queue behind it and the part in front of it.
-/

namespace Barium
namespace Sched

open Foundation
open Function
open LinkedList

/-!
# Moves between queues
-/

/-- Threads outside the queues are as they were; threads in queues stay in
queues of their CPU. -/
structure Moves (s : SchedState) (place : Nat -> Option Place)
    (s' : SchedState) (place' : Nat -> Option Place) : Prop where
  frame : Frame s s'
  same : forall t, (forall l, place t ≠ some (Place.queue l)) ->
    s'.threads t = s.threads t ∧ place' t = place t
  queued : forall t l, place t = some (Place.queue l) ->
    exists q, place' t = some (Place.queue (l.1, q))

theorem Moves.refl (s : SchedState) (place : Nat -> Option Place) :
    Moves s place s place := by
  constructor
  · exact Frame.refl s
  · intro t _
    exact ⟨rfl, rfl⟩
  · intro t l ht
    exact ⟨l.2, ht⟩

theorem Moves.trans {s t u : SchedState}
    {place place' place'' : Nat -> Option Place}
    (hst : Moves s place t place') (htu : Moves t place' u place'') :
    Moves s place u place'' := by
  constructor
  · exact hst.frame.trans htu.frame
  · intro v hv
    rcases hst.same v hv with ⟨hrecord, hplace⟩
    have hv' : forall l, place' v ≠ some (Place.queue l) := by
      rw [hplace]
      exact hv
    rcases htu.same v hv' with ⟨hrecord', hplace'⟩
    exact ⟨hrecord'.trans hrecord, hplace'.trans hplace⟩
  · intro v l hv
    rcases hst.queued v l hv with ⟨q, hq⟩
    exact htu.queued v (l.1, q) hq

section Loops

variable {s : SchedState} {holds : Nat -> Option Nat} {spawned : Nat -> Prop}
  {place : Nat -> Option Place} {lists : Loc -> List Nat}

theorem Placed.touch (h : Placed s holds spawned place lists) {t : Nat}
    {f : Thread -> Thread} (hnext : (f (s.threads t)).next = (s.threads t).next)
    (hstate : (f (s.threads t)).state = (s.threads t).state)
    (hpriority : (f (s.threads t)).priority = (s.threads t).priority)
    (haffinity : (f (s.threads t)).coreAffinity = (s.threads t).coreAffinity) :
    Placed (Sched.modThread s t f) holds spawned place lists := by
  apply h.modThread
  · intro l _
    exact hnext
  · intro pl hpl
    exact (h.fits t pl hpl).congr hstate hpriority haffinity

theorem Placed.countTicks (h : Placed s holds spawned place lists) {t : Nat}
    {l : Loc} (ht : place t = some (Place.queue l)) (f : Thread -> Nat) :
    Placed (Sched.modThread s t (fun th => { th with totalTicks := f th }))
      holds spawned place lists ∧
    Moves s place
      (Sched.modThread s t (fun th => { th with totalTicks := f th }))
      place := by
  constructor
  · exact h.touch rfl rfl rfl rfl
  · constructor
    · exact modThread_frame s t _ rfl
    · intro u hu
      have hne : u ≠ t := by
        intro heq
        rw [heq] at hu
        exact hu l ht
      exact ⟨modThread_other _ _ _ hne, rfl⟩
    · intro u m hu
      exact ⟨m.2, hu⟩

theorem Placed.move (h : Placed s holds spawned place lists) {l m : Loc}
    (hl : LocValid s l) (hm : LocValid s m) (hcpu : m.1 = l.1)
    {before after : List Nat} {t : Nat}
    (hlist : lists l = before ++ t :: after) {f : Thread -> Thread}
    (hidentity : (f (s.threads t)).identity = (s.threads t).identity)
    (hfits : Fits (f (s.threads t)) (s.cpus m.1).cpuId (spawned t)
      (Place.queue m)) :
    Placed
      (Sched.push (Sched.modThread (Sched.unlink s l (last 0 before) t) t f)
        m t) holds spawned
      (update place t (some (Place.queue m)))
      (update (update lists l (before ++ after)) m
        (t :: update lists l (before ++ after) m)) ∧
    Moves s place
      (Sched.push (Sched.modThread (Sched.unlink s l (last 0 before) t) t f)
        m t)
      (update place t (some (Place.queue m))) := by
  have hplace : place t = some (Place.queue l) := by
    rw [← h.mem_iff, hlist]
    simp
  have haddress := h.address t _ hplace
  have htaken := h.unlink hl hlist
  have hself := h.unlink_self hlist
  have hlinks := unlink_links s l (last 0 before) t
  have hgone : update place t none t = none :=
    update_self _ _ _
  have hchanged := htaken.modThread_free hgone f
  have hframe : Frame s
      (Sched.modThread (Sched.unlink s l (last 0 before) t) t f) := by
    apply hlinks.toFrame.trans
    apply modThread_frame
    rw [hself]
    exact hidentity
  have hfits' : Fits
      ((Sched.modThread (Sched.unlink s l (last 0 before) t) t f).threads t)
      ((Sched.modThread (Sched.unlink s l (last 0 before) t) t f).cpus
        m.1).cpuId (spawned t) (Place.queue m) := by
    rw [modThread_self, hself, hframe.ids]
    exact hfits
  have hput := hchanged.push hgone haddress (hframe.locValid hm) hfits'
  rw [update_idem] at hput
  constructor
  · exact hput
  · constructor
    · exact hframe.trans (push_links _ m t).toFrame
    · intro u hu
      have hne : u ≠ t := by
        intro heq
        rw [heq] at hu
        exact hu l hplace
      constructor
      · unfold Sched.push
        rw [setQueueHead_threads, modThread_other _ _ _ hne,
          modThread_other _ _ _ hne]
        apply unlink_other
        intro hmem
        -- a thread in front of `t` is in the queue as well
        apply hu l
        rw [← h.mem_iff, hlist]
        exact List.mem_append_left _ hmem
      · exact update_of_ne hne _ _
    · intro u k hu
      by_cases hut : u = t
      · rw [hut, hplace] at hu
        cases hu
        exists m.2
        rw [hut, update_self, ← hcpu]
      · exists k.2
        rw [update_of_ne hut]
        exact hu

theorem Placed.walk (h : Placed s holds spawned place lists) {l : Loc}
    (hl : LocValid s l) {before after : List Nat} {t : Nat}
    (hlist : lists l = before ++ t :: after) :
    t ≠ 0 ∧ place t = some (Place.queue l) ∧
      (s.threads t).next = first 0 after := by
  have hchain := h.chain l hl
  rw [hlist] at hchain
  have hplace : place t = some (Place.queue l) := by
    rw [← h.mem_iff, hlist]
    simp
  exact ⟨(h.address t _ hplace).left, hplace, chain_next hchain⟩

/-!
# Waking
-/

theorem Placed.wake (h : Placed s holds spawned place lists) {c t : Nat}
    (hc : c < s.cpuCount) {before after : List Nat}
    (hlist : lists (c, Queue.sleep) = before ++ t :: after) :
    exists place' lists',
      Placed
        (wakeThread (Sched.unlink s (c, Queue.sleep) (last 0 before) t) c t)
        holds spawned place' lists' ∧
      lists' (c, Queue.sleep) = before ++ after ∧
      Moves s place
        (wakeThread (Sched.unlink s (c, Queue.sleep) (last 0 before) t) c t)
        place' := by
  have hl : LocValid s (c, Queue.sleep) := ⟨hc, trivial⟩
  rcases h.walk hl hlist with ⟨_, hplace, _⟩
  rcases h.fits t _ hplace with ⟨_, hpriority, haffinity⟩
  have hm : LocValid s (c, Queue.ready (s.threads t).priority) :=
    ⟨hc, hpriority⟩
  rcases h.move hl hm rfl hlist
    (f := fun th => { th with state := ThreadState.ready }) rfl
    ⟨rfl, rfl, hpriority, haffinity⟩ with ⟨hmoved, hmoves⟩
  unfold wakeThread
  simp only [modThread_self, h.unlink_self hlist]
  refine ⟨_, _, hmoved, ?_, hmoves⟩
  rw [update_of_ne (by simp), update_self]

theorem wakeLoop_spec {c fuel : Nat} {before rest : List Nat} (tick : Nat)
    (h : Placed s holds spawned place lists) (hc : c < s.cpuCount)
    (hlist : lists (c, Queue.sleep) = before ++ rest)
    (hfuel : rest.length < fuel) :
    exists s' place' lists',
      wakeLoop c tick fuel s (last 0 before) (first 0 rest) = some s' ∧
      Placed s' holds spawned place' lists' ∧ Moves s place s' place' := by
  induction fuel generalizing s place lists before rest with
  | zero => cases hfuel
  | succ fuel ih =>
      cases rest with
      | nil => exact ⟨s, place, lists, rfl, h, Moves.refl s place⟩
      | cons t after =>
          have hl : LocValid s (c, Queue.sleep) := ⟨hc, trivial⟩
          have hshort : after.length < fuel := Nat.lt_of_succ_lt_succ hfuel
          rcases h.walk hl hlist with ⟨hne, _, hnext⟩
          unfold wakeLoop
          rw [show first 0 (t :: after) = t from rfl, if_neg hne]
          by_cases hdue : (s.threads t).wakeupTick <= tick
          · rcases h.wake hc hlist with
              ⟨place1, lists1, hplaced, hleft, hmoves⟩
            rcases ih hplaced (hmoves.frame.count ▸ hc) hleft hshort with
              ⟨s', place', lists', hloop, hplaced', hmoves'⟩
            rw [if_pos hdue]
            simp only [h.unlink_self hlist, hnext]
            exact ⟨s', place', lists', hloop, hplaced',
              hmoves.trans hmoves'⟩
          · have hstep : lists (c, Queue.sleep) =
                (before ++ [t]) ++ after := by
              rw [hlist, List.append_assoc]
              rfl
            have hrest := ih h hc hstep hshort
            rw [last_snoc] at hrest
            rw [if_neg hdue, hnext]
            exact hrest

/-!
# Aging
-/

theorem Placed.age (h : Placed s holds spawned place lists) {c p t : Nat}
    (hc : c < s.cpuCount) (hp : p < maxPriority) {before after : List Nat}
    (hlist : lists (c, Queue.ready p) = before ++ t :: after) :
    exists place' lists',
      Placed
        (ageThread (Sched.unlink s (c, Queue.ready p) (last 0 before) t) c t)
        holds spawned place' lists' ∧
      lists' (c, Queue.ready p) = before ++ after ∧
      Moves s place
        (ageThread (Sched.unlink s (c, Queue.ready p) (last 0 before) t) c t)
        place' := by
  have hl : LocValid s (c, Queue.ready p) := ⟨hc, Nat.le_of_lt hp⟩
  have hm : LocValid s (c, Queue.ready (p + 1)) := ⟨hc, hp⟩
  rcases h.walk hl hlist with ⟨_, hplace, _⟩
  rcases h.fits t _ hplace with ⟨hstate, hpriority, _, haffinity⟩
  have hyes : (s.threads t).priority < maxPriority := by
    rw [hpriority]
    exact hp
  rcases h.move hl hm rfl hlist
    (f := fun th =>
      if th.priority < maxPriority then
        { th with priority := th.priority + 1 }
      else th)
    (by rw [if_pos hyes]; rfl)
    (by
      rw [if_pos hyes]
      exact ⟨hstate, congrArg (fun n => n + 1) hpriority, hp, haffinity⟩)
    with ⟨hmoved, hmoves⟩
  have hbody :
      ageThread (Sched.unlink s (c, Queue.ready p) (last 0 before) t) c t =
        Sched.push
          (Sched.modThread
            (Sched.unlink s (c, Queue.ready p) (last 0 before) t) t
            (fun th =>
              if th.priority < maxPriority then
                { th with priority := th.priority + 1 }
              else th))
          (c, Queue.ready (p + 1)) t := by
    unfold ageThread
    simp only [modThread_self, h.unlink_self hlist, if_pos hyes]
    rw [hpriority]
  rw [hbody]
  refine ⟨_, _, hmoved, ?_, hmoves⟩
  rw [update_of_ne (by simp), update_self]

theorem ageLoop_spec {c p fuel : Nat} {before rest : List Nat}
    (h : Placed s holds spawned place lists) (hc : c < s.cpuCount)
    (hp : p < maxPriority)
    (hlist : lists (c, Queue.ready p) = before ++ rest)
    (hfuel : rest.length < fuel) :
    exists s' place' lists',
      ageLoop c p fuel s (last 0 before) (first 0 rest) = some s' ∧
      Placed s' holds spawned place' lists' ∧ Moves s place s' place' := by
  induction fuel generalizing s place lists before rest with
  | zero => cases hfuel
  | succ fuel ih =>
      cases rest with
      | nil => exact ⟨s, place, lists, rfl, h, Moves.refl s place⟩
      | cons t after =>
          have hl : LocValid s (c, Queue.ready p) := ⟨hc, Nat.le_of_lt hp⟩
          have hshort : after.length < fuel := Nat.lt_of_succ_lt_succ hfuel
          have hstep : lists (c, Queue.ready p) = (before ++ [t]) ++ after := by
            rw [hlist, List.append_assoc]
            rfl
          rcases h.walk hl hlist with ⟨hne, hplace, hnext⟩
          unfold ageLoop
          rw [show first 0 (t :: after) = t from rfl, if_neg hne]
          by_cases hidle : (s.threads t).tid = 1
          · have hrest := ih h hc hstep hshort
            rw [last_snoc] at hrest
            rw [if_pos hidle, hnext]
            exact hrest
          · rw [if_neg hidle]
            -- the thread has waited one round more
            rcases h.countTicks hplace
              (fun th => Word.add th.totalTicks 1) with ⟨hticked, hticks⟩
            generalize modThread s t (fun th => { th with
              totalTicks := Word.add th.totalTicks 1 }) = s1
              at hticked hticks ⊢
            have hl1 := hticks.frame.locValid hl
            by_cases hold : 19 < (s1.threads t).totalTicks
            · simp only [if_pos hold]
              rcases hticked.countTicks hplace (fun _ => 0) with
                ⟨hreset, hresets⟩
              generalize modThread s1 t (fun th => { th with
                totalTicks := 0 }) = s2 at hreset hresets ⊢
              have hl2 := hresets.frame.locValid hl1
              rcases hreset.age hl2.left hp hlist with
                ⟨place1, lists1, haged, hleft, hmoves⟩
              rcases ih haged (hmoves.frame.count ▸ hl2.left) hleft
                hshort with
                ⟨s', place', lists', hloop, hplaced, hmoves'⟩
              simp only [hreset.unlink_self hlist,
                (hreset.walk hl2 hlist).right.right]
              exact ⟨s', place', lists', hloop, hplaced,
                (hticks.trans hresets).trans (hmoves.trans hmoves')⟩
            · rcases ih hticked hl1.left hstep hshort with
                ⟨s', place', lists', hloop, hplaced, hmoves⟩
              rw [last_snoc] at hloop
              simp only [if_neg hold,
                (hticked.walk hl1 hlist).right.right]
              exact ⟨s', place', lists', hloop, hplaced,
                hticks.trans hmoves⟩

theorem ageQueues_spec {c n p : Nat}
    (h : Placed s holds spawned place lists) (hc : c < s.cpuCount)
    (hp : p + n <= maxPriority) :
    exists s' place' lists',
      ageQueues c n s p = some s' ∧
      Placed s' holds spawned place' lists' ∧ Moves s place s' place' := by
  induction n generalizing s place lists p with
  | zero => exact ⟨s, place, lists, rfl, h, Moves.refl s place⟩
  | succ n ih =>
      have hl : LocValid s (c, Queue.ready p) := by
        constructor
        · exact hc
        · show p <= maxPriority
          lia
      have hhead := chain_first (h.chain _ hl)
      rcases ageLoop_spec h hc (show p < maxPriority by lia)
        (show lists (c, Queue.ready p) = [] ++ lists (c, Queue.ready p) from
          rfl) (h.length_lt _) with
        ⟨s1, place1, lists1, hloop, hplaced, hmoves⟩
      rcases ih hplaced (hmoves.frame.count ▸ hc)
        (show p + 1 + n <= maxPriority by lia) with
        ⟨s', place', lists', hrest, hplaced', hmoves'⟩
      rw [← hhead] at hloop
      refine ⟨s', place', lists', ?_, hplaced', hmoves.trans hmoves'⟩
      unfold ageQueues
      rw [show (0 : Nat) = last 0 ([] : List Nat) from rfl, hloop]
      exact hrest

theorem Placed.setAgeTick (h : Placed s holds spawned place lists)
    (id tick : Nat) :
    Placed (modExtra s id (fun extra => { extra with lastAgeTick := tick }))
      holds spawned place lists := by
  have hheads : forall l, queueHead (modExtra s id (fun extra =>
      { extra with lastAgeTick := tick })) l = queueHead s l := by
    intro l
    rcases l with ⟨c, q⟩
    cases q with
    | ready p => rfl
    | sleep =>
        show (update s.extras id _ (s.cpus c).cpuId).sleepQueue = _
        by_cases hsame : (s.cpus c).cpuId = id
        · rw [hsame, update_self]
          show _ = (s.extras (s.cpus c).cpuId).sleepQueue
          rw [hsame]
        · rw [update_of_ne hsame]
          rfl
  constructor
  · exact h.ids
  · intro l hl
    rw [hheads l]
    exact h.chain l hl
  · exact h.nodup
  · exact h.mem_iff
  · exact h.running
  · exact h.held
  · exact h.address
  · exact h.cpu_lt
  · exact h.fits

theorem schedAgeThreads_spec {c : Nat} (tick : Nat)
    (h : Placed s holds spawned place lists) (hc : c < s.cpuCount) :
    exists s' place' lists',
      schedAgeThreads s c tick = some s' ∧
      Placed s' holds spawned place' lists' ∧ Moves s place s' place' := by
  unfold schedAgeThreads
  by_cases hsoon : Word.sub tick (s.extras (s.cpus c).cpuId).lastAgeTick < 20
  · rw [if_pos hsoon]
    exact ⟨s, place, lists, rfl, h, Moves.refl s place⟩
  · rw [if_neg hsoon]
    rcases ageQueues_spec (h.setAgeTick (s.cpus c).cpuId tick) hc
      (show 0 + maxPriority <= maxPriority by lia) with
      ⟨s', place', lists', hrun, hplaced, hmoves⟩
    refine ⟨s', place', lists', hrun, hplaced, ?_, ?_, hmoves.queued⟩
    · exact ⟨hmoves.frame.count, hmoves.frame.ids, hmoves.frame.running,
        hmoves.frame.stack_tops, hmoves.frame.next_tid, hmoves.frame.next_cpu,
        hmoves.frame.identity⟩
    · exact hmoves.same

/-!
# Searching
-/

/-- What a search of `sched_handoff` gives: nothing, and nothing is changed, or
a thread, which has left its queue. -/
inductive Search (s : SchedState) (holds : Nat -> Option Nat)
    (spawned : Nat -> Prop) (place : Nat -> Option Place) (tid : Nat) :
    Option Nat × SchedState -> Prop where
  | missing : Search s holds spawned place tid (none, s)
  | found {t : Nat} {l : Loc} {s' : SchedState} {lists' : Loc -> List Nat} :
      place t = some (Place.queue l) -> (s.threads t).tid = tid ->
      Fits (s.threads t) (s.cpus l.1).cpuId (spawned t) (Place.queue l) ->
      (exists p, l.2 = Queue.ready p) ->
      Placed s' holds spawned (update place t none) lists' ->
      Links s s' ->
      Search s holds spawned place tid (some t, s')

theorem findInQueue_spec {c p fuel : Nat} {before rest : List Nat} (tid : Nat)
    (h : Placed s holds spawned place lists)
    (hl : LocValid s (c, Queue.ready p))
    (hlist : lists (c, Queue.ready p) = before ++ rest)
    (hfuel : rest.length < fuel) :
    exists r,
      findInQueue (c, Queue.ready p) tid fuel s (last 0 before)
        (first 0 rest) = some r ∧
      Search s holds spawned place tid r := by
  induction fuel generalizing before rest with
  | zero => cases hfuel
  | succ fuel ih =>
      cases rest with
      | nil => exact ⟨_, rfl, Search.missing⟩
      | cons t after =>
          have hshort : after.length < fuel := Nat.lt_of_succ_lt_succ hfuel
          rcases h.walk hl hlist with ⟨hne, hplace, hnext⟩
          unfold findInQueue
          rw [show first 0 (t :: after) = t from rfl, if_neg hne]
          by_cases hfound : (s.threads t).tid = tid
          · rw [if_pos hfound]
            refine ⟨_, rfl, ?_⟩
            exact Search.found hplace hfound (h.fits t _ hplace) ⟨p, rfl⟩
              (h.unlink hl hlist) (unlink_links s _ _ t)
          · have hstep : lists (c, Queue.ready p) =
                (before ++ [t]) ++ after := by
              rw [hlist, List.append_assoc]
              rfl
            have hrest := ih hstep hshort
            rw [last_snoc] at hrest
            rw [if_neg hfound, hnext]
            exact hrest

theorem findOnCpu_spec {c tid n : Nat}
    (h : Placed s holds spawned place lists) (hc : c < s.cpuCount)
    (hn : n <= maxPriority + 1) :
    exists r, findOnCpu c tid n s = some r ∧
      Search s holds spawned place tid r := by
  induction n with
  | zero => exact ⟨_, rfl, Search.missing⟩
  | succ p ih =>
      have hl : LocValid s (c, Queue.ready p) :=
        ⟨hc, Nat.le_of_succ_le_succ hn⟩
      have hhead := chain_first (h.chain _ hl)
      rcases findInQueue_spec tid h hl
        (show lists (c, Queue.ready p) = [] ++ lists (c, Queue.ready p) from
          rfl) (h.length_lt _) with ⟨r, hrun, hsearch⟩
      rw [← hhead] at hrun
      unfold findOnCpu
      rw [show (0 : Nat) = last 0 ([] : List Nat) from rfl, hrun]
      cases hsearch with
      | missing => exact ih (Nat.le_of_succ_le hn)
      | found hplace htid hfits hready hplaced hlinks =>
          exact ⟨_, rfl, Search.found hplace htid hfits hready hplaced hlinks⟩

end Loops

end Sched
end Barium
