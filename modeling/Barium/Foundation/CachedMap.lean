import Mathlib.Data.List.Induction
import Mathlib.Data.List.Infix
import Mathlib.Logic.Function.Basic

/-!
# Cached maps

A map that is changed in one place, and agents that look it up through caches of
their own.  A cache may be filled from the map at any time.  It does not notice
that the map has changed: a copy stays until the agent drops it.
-/

namespace Barium
namespace Foundation

open Function

inductive CacheEvent (agent key value : Type) where
  | store (k : key) (v : value)
  | fill (a : agent) (k : key)
  | drop (a : agent) (k : key)

/-- What has not been stored is not cached either. -/
structure CachedMap (agent key value : Type) where
  source : key -> Option value
  copies : agent -> key -> Option value

namespace CachedMap

section

variable {agent key value : Type}

def lookup (s : CachedMap agent key value) (a : agent) (k : key) :
    Option value :=
  match s.copies a k with
  | some v => some v
  | none => s.source k

variable [DecidableEq agent] [DecidableEq key]

def setCopy (s : CachedMap agent key value) (a : agent) (k : key)
    (v : Option value) : CachedMap agent key value :=
  { s with
    copies := update s.copies a (update (s.copies a) k v) }

def apply (s : CachedMap agent key value) :
    CacheEvent agent key value -> CachedMap agent key value
  | .store k v =>
      { s with source := update s.source k (some v) }
  | .fill a k => s.setCopy a k (s.source k)
  | .drop a k => s.setCopy a k none

def start : CachedMap agent key value where
  source := fun _ => none
  copies := fun _ _ => none

/-!
# What a copy may hold
-/

/-- The values that agent `a` may find for `k`, the newest one last. -/
def held (a : agent) (k : key) (before : List value) :
    CacheEvent agent key value -> List value
  | .store k' v => if k' = k then before ++ [v] else before
  | .fill _ _ => before
  | .drop a' k' =>
      if a' = a ∧ k' = k then before.getLast?.toList else before

structure Tracks (s : CachedMap agent key value) (a : agent) (k : key)
    (values : List value) : Prop where
  newest : s.source k = values.getLast?
  copy : forall v, s.copies a k = some v -> v ∈ values

theorem setCopy_self (s : CachedMap agent key value) (a : agent) (k : key)
    (v : Option value) : (s.setCopy a k v).copies a k = v := by
  unfold setCopy
  simp

theorem setCopy_other (s : CachedMap agent key value) {a a' : agent}
    {k k' : key} (v : Option value) (h : ¬ (a' = a ∧ k' = k)) :
    (s.setCopy a' k' v).copies a k = s.copies a k := by
  unfold setCopy
  by_cases haa : a = a'
  · have hne : k ≠ k' := fun hk => h ⟨haa.symm, hk.symm⟩
    simp [haa, update_of_ne hne]
  · simp [update_of_ne haa]

theorem tracks_apply {s : CachedMap agent key value} {a : agent} {k : key}
    {values : List value} (h : Tracks s a k values)
    (event : CacheEvent agent key value) :
    Tracks (s.apply event) a k (held a k values event) := by
  cases event with
  | store k' v =>
      rw [held, apply]
      by_cases hkk : k' = k
      · rw [if_pos hkk, hkk]
        refine ⟨?_, ?_⟩
        · rw [List.getLast?_concat]
          exact update_self k _ _
        · intro w hw
          exact List.mem_append_left _ (h.copy w hw)
      · rw [if_neg hkk]
        refine ⟨?_, h.copy⟩
        rw [← h.newest]
        exact update_of_ne (Ne.symm hkk) _ _
  | fill a' k' =>
      refine ⟨h.newest, ?_⟩
      intro v hv
      by_cases hcase : a' = a ∧ k' = k
      · rcases hcase with ⟨ha, hk⟩
        rw [apply, ha, hk, setCopy_self, h.newest] at hv
        exact List.mem_of_getLast? hv
      · rw [apply, setCopy_other s _ hcase] at hv
        exact h.copy v hv
  | drop a' k' =>
      rw [held]
      by_cases hsame : a' = a ∧ k' = k
      · rcases hsame with ⟨ha, hk⟩
        rw [if_pos ⟨ha, hk⟩]
        refine ⟨?_, ?_⟩
        · show s.source k = _
          rw [h.newest]
          cases values.getLast? with
          | none => rfl
          | some v => rfl
        · intro v hv
          rw [apply, ha, hk, setCopy_self] at hv
          cases hv
      · rw [if_neg hsame]
        refine ⟨h.newest, ?_⟩
        intro v hv
        rw [apply, setCopy_other s _ hsame] at hv
        exact h.copy v hv

theorem tracks_events (a : agent) (k : key)
    (events : List (CacheEvent agent key value)) :
    Tracks (events.foldl apply start) a k (events.foldl (held a k) []) := by
  induction events using List.reverseRecOn with
  | nil => exact ⟨rfl, fun v hv => by cases hv⟩
  | append_singleton events event ih =>
      rw [List.foldl_append, List.foldl_append]
      exact tracks_apply ih event

/-!
# Lookups
-/

/-- The value was stored, and the agent has not dropped its copy since a newer
one was. -/
def Recent (a : agent) (k : key) (events : List (CacheEvent agent key value))
    (v : value) : Prop :=
  exists before after, events = before ++ CacheEvent.store k v :: after ∧
    forall middle rest w,
      after = middle ++ CacheEvent.store k w :: rest ->
        CacheEvent.drop a k ∉ rest

omit [DecidableEq agent] [DecidableEq key] in
theorem Recent.snoc {a : agent} {k : key}
    {events : List (CacheEvent agent key value)} {v : value}
    (h : Recent a k events v) {event : CacheEvent agent key value}
    (hne : event ≠ CacheEvent.drop a k) : Recent a k (events ++ [event]) v := by
  rcases h with ⟨before, after, hevents, hlate⟩
  refine ⟨before, after ++ [event], ?_, ?_⟩
  · rw [hevents, List.append_assoc, List.cons_append]
  · intro middle rest w hafter hdrop
    rcases List.eq_nil_or_concat rest with hnil | ⟨rest', last, hrest⟩
    · rw [hnil] at hdrop
      cases hdrop
    · rw [List.concat_eq_append] at hrest
      rw [hrest, ← List.cons_append, ← List.append_assoc] at hafter
      have hparts := List.append_inj' hafter rfl
      have hlast : event = last := List.cons.inj hparts.right |>.left
      rw [hrest, List.mem_append, List.mem_singleton] at hdrop
      rcases hdrop with hdrop | hdrop
      · exact hlate middle rest' w hparts.left hdrop
      · exact hne (hlast.trans hdrop.symm)

omit [DecidableEq agent] [DecidableEq key] in
/-- The newest value is recent whatever happens to the copies. -/
theorem recent_of_newest {a : agent} {k : key}
    {before after : List (CacheEvent agent key value)} {v : value}
    (hlast : forall w, CacheEvent.store k w ∉ after) :
    Recent a k (before ++ CacheEvent.store k v :: after) v := by
  refine ⟨before, after, rfl, ?_⟩
  intro middle rest w hafter
  refine absurd ?_ (hlast w)
  rw [hafter]
  exact List.mem_append_right _ List.mem_cons_self

def Newest (k : key) (events : List (CacheEvent agent key value)) (v : value) :
    Prop :=
  exists before after, events = before ++ CacheEvent.store k v :: after ∧
    forall w, CacheEvent.store k w ∉ after

omit [DecidableEq agent] [DecidableEq key] in
theorem Newest.recent {a : agent} {k : key}
    {events : List (CacheEvent agent key value)} {v : value}
    (h : Newest k events v) : Recent a k events v := by
  rcases h with ⟨before, after, hevents, hlast⟩
  rw [hevents]
  exact recent_of_newest hlast

omit [DecidableEq agent] [DecidableEq key] in
theorem Newest.snoc {k : key} {events : List (CacheEvent agent key value)}
    {v : value} (h : Newest k events v) {event : CacheEvent agent key value}
    (hne : forall w, event ≠ CacheEvent.store k w) :
    Newest k (events ++ [event]) v := by
  rcases h with ⟨before, after, hevents, hlast⟩
  refine ⟨before, after ++ [event], ?_, ?_⟩
  · rw [hevents, List.append_assoc, List.cons_append]
  · intro w hw
    rcases List.mem_append.mp hw with hold | hnew
    · exact hlast w hold
    · exact hne w (List.mem_singleton.mp hnew).symm

omit [DecidableEq agent] [DecidableEq key] in
theorem newest_store (k : key) (events : List (CacheEvent agent key value))
    (v : value) : Newest k (events ++ [CacheEvent.store k v]) v :=
  ⟨events, [], rfl, fun w hw => by cases hw⟩

theorem held_recent (a : agent) (k : key)
    (events : List (CacheEvent agent key value)) :
    (forall v, v ∈ events.foldl (held a k) [] -> Recent a k events v) ∧
      forall v, (events.foldl (held a k) []).getLast? = some v ->
        Newest k events v := by
  induction events using List.reverseRecOn with
  | nil => exact ⟨fun v hv => (by cases hv), fun v hv => (by cases hv)⟩
  | append_singleton events event ih =>
      rcases ih with ⟨hrecent, hnewest⟩
      rw [List.foldl_append, List.foldl_cons, List.foldl_nil]
      cases event with
      | store k' w =>
          rw [held]
          by_cases hkk : k' = k
          · rw [if_pos hkk, hkk]
            refine ⟨?_, ?_⟩
            · intro v hv
              rcases List.mem_append.mp hv with hold | hnew
              · exact (hrecent v hold).snoc (by simp)
              · rw [List.mem_singleton.mp hnew]
                exact (newest_store k events w).recent
            · intro v hv
              rw [List.getLast?_concat] at hv
              rw [← Option.some.inj hv]
              exact newest_store k events w
          · rw [if_neg hkk]
            refine ⟨?_, ?_⟩
            · intro v hv
              exact (hrecent v hv).snoc (by simp)
            · intro v hv
              refine (hnewest v hv).snoc ?_
              intro u hu
              exact hkk (CacheEvent.store.inj hu).left
      | fill a' k' =>
          refine ⟨?_, ?_⟩
          · intro v hv
            exact (hrecent v hv).snoc (by simp)
          · intro v hv
            exact (hnewest v hv).snoc (by simp)
      | drop a' k' =>
          rw [held]
          by_cases hsame : a' = a ∧ k' = k
          · rw [if_pos hsame]
            refine ⟨?_, ?_⟩
            · intro v hv
              have hlast := Option.mem_toList.mp hv
              exact ((hnewest v hlast).snoc (by simp)).recent
            · intro v hv
              have hlast : (events.foldl (held a k) []).getLast? =
                  some v := by
                cases hvalues : (events.foldl (held a k) []).getLast? with
                | none =>
                    rw [hvalues] at hv
                    cases hv
                | some u =>
                    rw [hvalues] at hv
                    exact hv
              exact (hnewest v hlast).snoc (by simp)
          · rw [if_neg hsame]
            refine ⟨?_, ?_⟩
            · intro v hv
              refine (hrecent v hv).snoc ?_
              intro heq
              exact hsame (CacheEvent.drop.inj heq)
            · intro v hv
              exact (hnewest v hv).snoc (by simp)

theorem held_ne_nil (a : agent) {k : key}
    {events : List (CacheEvent agent key value)} {v : value}
    (h : CacheEvent.store k v ∈ events) :
    events.foldl (held a k) [] ≠ [] := by
  induction events using List.reverseRecOn with
  | nil => cases h
  | append_singleton events event ih =>
      rw [List.foldl_append, List.foldl_cons, List.foldl_nil]
      cases event with
      | store k' w =>
          rw [held]
          split
          case isTrue => simp
          case isFalse hne =>
              rcases List.mem_append.mp h with hold | hnew
              · exact ih hold
              · have heq := CacheEvent.store.inj (List.mem_singleton.mp hnew)
                exact absurd heq.left.symm hne
      | fill a' k' =>
          rcases List.mem_append.mp h with hold | hnew
          · exact ih hold
          · cases List.mem_singleton.mp hnew
      | drop a' k' =>
          have hold := ih (by simpa using h)
          rw [held]
          split
          case isTrue =>
              rw [List.getLast?_eq_some_getLast hold]
              simp
          case isFalse => exact hold

/-- What an agent finds is recent; it finds nothing only if there is nothing.
-/
theorem lookup_recent (a : agent) (k : key)
    (events : List (CacheEvent agent key value)) :
    (forall v, (events.foldl apply start).lookup a k = some v ->
      Recent a k events v) ∧
    ((events.foldl apply start).lookup a k = none ->
      forall v, CacheEvent.store k v ∉ events) := by
  have htracks := tracks_events a k events
  have hrecent := (held_recent a k events).left
  unfold lookup
  cases hcopy : (events.foldl apply start).copies a k with
  | some u =>
      refine ⟨?_, fun hnone => (by cases hnone)⟩
      intro v hv
      rw [← Option.some.inj hv]
      exact hrecent u (htracks.copy u hcopy)
  | none =>
      dsimp only
      rw [htracks.newest]
      refine ⟨?_, ?_⟩
      · intro v hv
        exact hrecent v (List.mem_of_getLast? hv)
      · intro hnone v hv
        exact held_ne_nil a hv (List.getLast?_eq_none_iff.mp hnone)

end

end CachedMap
end Foundation
end Barium
