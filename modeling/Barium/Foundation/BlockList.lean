import Mathlib

/-!
# Block lists

The abstract state of an allocator that divides one pool into consecutive
blocks, each a header of fixed size followed by its payload.  Allocation takes
the first block that fits and may cut off its tail; release marks a block free
and merges neighbouring free blocks.
-/

namespace Barium
namespace Foundation

structure Block where
  addr : Nat
  size : Nat
  free : Bool
  deriving DecidableEq, Repr

namespace Block

def payload (header : Nat) (b : Block) : Nat :=
  b.addr + header

def finish (header : Nat) (b : Block) : Nat :=
  b.addr + header + b.size

end Block

namespace BlockList

/-!
# Tilings

A list of blocks tiles an interval when every block starts where its
predecessor ends.
-/

def Tiles (header : Nat) : Nat -> List Block -> Nat -> Prop
  | lo, [], hi => lo = hi
  | lo, b :: rest, hi => b.addr = lo ∧ Tiles header (b.finish header) rest hi

theorem tiles_append {header lo hi : Nat} {left right : List Block} :
    Tiles header lo (left ++ right) hi <->
      exists mid, Tiles header lo left mid ∧ Tiles header mid right hi := by
  induction left generalizing lo with
  | nil =>
      constructor
      · intro h
        exact ⟨lo, rfl, h⟩
      · rintro ⟨mid, hmid, h⟩
        cases hmid
        exact h
  | cons b rest ih =>
      constructor
      · rintro ⟨haddr, htail⟩
        rcases ih.mp htail with ⟨mid, hleft, hright⟩
        exact ⟨mid, ⟨haddr, hleft⟩, hright⟩
      · rintro ⟨mid, ⟨haddr, hleft⟩, hright⟩
        exact ⟨haddr, ih.mpr ⟨mid, hleft, hright⟩⟩

theorem tiles_sum {header lo hi : Nat} {blocks : List Block}
    (h : Tiles header lo blocks hi) :
    hi = lo + (blocks.map (fun b => header + b.size)).sum := by
  induction blocks generalizing lo with
  | nil =>
      cases h
      simp
  | cons b rest ih =>
      rcases h with ⟨haddr, htail⟩
      rw [ih htail, Block.finish, haddr, List.map_cons, List.sum_cons]
      lia

theorem tiles_le {header lo hi : Nat} {blocks : List Block}
    (h : Tiles header lo blocks hi) : lo <= hi := by
  have hsum := tiles_sum h
  lia

theorem tiles_mem {header lo hi : Nat} {blocks : List Block}
    (h : Tiles header lo blocks hi) {b : Block} (hb : b ∈ blocks) :
    lo <= b.addr ∧ b.finish header <= hi := by
  induction blocks generalizing lo with
  | nil => cases hb
  | cons c rest ih =>
      rcases h with ⟨haddr, htail⟩
      cases hb with
      | head => exact ⟨haddr.ge, tiles_le htail⟩
      | tail _ hrest =>
          have hbounds := ih htail hrest
          unfold Block.finish at hbounds ⊢
          lia

theorem tiles_pairwise {header lo hi : Nat} {blocks : List Block}
    (h : Tiles header lo blocks hi) :
    blocks.Pairwise (fun b c => b.finish header <= c.addr) := by
  induction blocks generalizing lo with
  | nil => exact List.Pairwise.nil
  | cons b rest ih =>
      rcases h with ⟨_, htail⟩
      refine List.Pairwise.cons ?_ (ih htail)
      intro c hc
      exact (tiles_mem htail hc).left

theorem tiles_apart {header lo hi : Nat} {blocks : List Block}
    (h : Tiles header lo blocks hi) {b c : Block}
    (hb : b ∈ blocks) (hc : c ∈ blocks) (hne : b ≠ c) :
    b.finish header <= c.addr ∨ c.finish header <= b.addr := by
  have hpairs : blocks.Pairwise (fun b c =>
      b.finish header <= c.addr ∨ c.finish header <= b.addr) :=
    (tiles_pairwise h).imp (fun hle => Or.inl hle)
  have : Std.Symm (fun b c : Block =>
      b.finish header <= c.addr ∨ c.finish header <= b.addr) :=
    ⟨fun _ _ hbc => Or.symm hbc⟩
  exact hpairs.forall hb hc hne

theorem tiles_addr_inj {header lo hi : Nat} {blocks : List Block}
    (hpos : 0 < header) (h : Tiles header lo blocks hi) {b c : Block}
    (hb : b ∈ blocks) (hc : c ∈ blocks) (heq : b.addr = c.addr) : b = c := by
  by_contra hne
  have hapart := tiles_apart h hb hc hne
  unfold Block.finish at hapart
  lia

/-!
# Allocation

The chosen block keeps its address.  When enough would be left over, its tail
becomes a free block of its own.
-/

/-- Take `size` bytes of `b`; leave the rest as a free block when more than
`slack` bytes would remain behind a new header. -/
def carve (header slack size : Nat) (b : Block) : List Block :=
  if size + header + slack < b.size then
    [{ b with size := size, free := false },
      { addr := b.addr + header + size, size := b.size - size - header,
        free := true }]
  else
    [{ b with free := false }]

def Fits (size : Nat) (b : Block) : Prop :=
  b.free = true ∧ size <= b.size

instance (size : Nat) (b : Block) : Decidable (Fits size b) :=
  inferInstanceAs (Decidable (_ ∧ _))

def firstFit (size : Nat) : List Block -> Option (List Block × Block × List Block)
  | [] => none
  | b :: rest =>
      if Fits size b then
        some ([], b, rest)
      else
        match firstFit size rest with
        | none => none
        | some (before, c, after) => some (b :: before, c, after)

theorem firstFit_some {size : Nat} {blocks before after : List Block}
    {b : Block} (h : firstFit size blocks = some (before, b, after)) :
    blocks = before ++ b :: after ∧ Fits size b ∧
      forall c, c ∈ before -> ¬ Fits size c := by
  induction blocks generalizing before with
  | nil => cases h
  | cons c rest ih =>
      unfold firstFit at h
      by_cases hfit : Fits size c
      · rw [if_pos hfit] at h
        cases h
        exact ⟨rfl, hfit, fun _ hmem => absurd hmem (List.not_mem_nil)⟩
      · rw [if_neg hfit] at h
        cases hrest : firstFit size rest with
        | none =>
            rw [hrest] at h
            cases h
        | some found =>
            rcases found with ⟨before', c', after'⟩
            rw [hrest] at h
            cases h
            rcases ih hrest with ⟨hsplit, hfits, hbefore⟩
            refine ⟨by rw [hsplit]; rfl, hfits, ?_⟩
            intro d hd
            cases hd with
            | head => exact hfit
            | tail _ hd => exact hbefore d hd

theorem firstFit_none {size : Nat} {blocks : List Block}
    (h : firstFit size blocks = none) :
    forall b, b ∈ blocks -> ¬ Fits size b := by
  induction blocks with
  | nil =>
      intro b hb
      cases hb
  | cons c rest ih =>
      unfold firstFit at h
      by_cases hfit : Fits size c
      · rw [if_pos hfit] at h
        cases h
      · rw [if_neg hfit] at h
        cases hrest : firstFit size rest with
        | none =>
            intro b hb
            cases hb with
            | head => exact hfit
            | tail _ hb => exact ih hrest b hb
        | some found =>
            rw [hrest] at h
            cases h

theorem tiles_carve {header slack size lo hi : Nat} {b : Block}
    {before after : List Block}
    (h : Tiles header lo (before ++ b :: after) hi) :
    Tiles header lo (before ++ carve header slack size b ++ after) hi := by
  rw [List.append_assoc]
  rcases tiles_append.mp h with ⟨mid, hbefore, haddr, hafter⟩
  refine tiles_append.mpr ⟨mid, hbefore, ?_⟩
  unfold carve
  split
  · rename_i hroom
    refine ⟨haddr, rfl, ?_⟩
    unfold Block.finish at hafter ⊢
    rw [show b.addr + header + size + header + (b.size - size - header) =
      b.addr + header + b.size by lia]
    exact hafter
  · exact ⟨haddr, hafter⟩

theorem carve_not_free {header slack size : Nat} {b c : Block} :
    c ∈ carve header slack size b ∧ c.free = false <->
      c = { b with
        size := if size + header + slack < b.size then size else b.size
        free := false } := by
  unfold carve
  split
  · constructor
    · rintro ⟨hc, hfree⟩
      rcases List.mem_pair.mp hc with hc | hc
      · exact hc
      · rw [hc] at hfree
        cases hfree
    · intro hc
      rw [hc]
      exact ⟨List.mem_cons_self, rfl⟩
  · constructor
    · rintro ⟨hc, _⟩
      exact List.mem_singleton.mp hc
    · intro hc
      rw [hc]
      exact ⟨List.mem_cons_self, rfl⟩

theorem carve_mem (header slack size : Nat) (b : Block) :
    { b with
      size := if size + header + slack < b.size then size else b.size
      free := false } ∈ carve header slack size b := by
  apply And.left
  exact carve_not_free.mpr rfl

/-!
# Release

Neighbouring free blocks are merged from the right, so a run of free blocks
ends up in its first block.
-/

def markFree (addr : Nat) (blocks : List Block) : List Block :=
  blocks.map (fun b => if b.addr = addr then { b with free := true } else b)

def absorb (header : Nat) (b c : Block) : Block :=
  { b with size := b.size + (c.size + header) }

def mergeFree (header : Nat) : List Block -> List Block
  | [] => []
  | b :: rest =>
      match mergeFree header rest with
      | [] => [b]
      | c :: merged =>
          if b.free = true ∧ c.free = true then
            absorb header b c :: merged
          else
            b :: c :: merged

theorem mergeFree_cons (header : Nat) (b : Block) (rest : List Block) :
    mergeFree header (b :: rest) =
      match mergeFree header rest with
      | [] => [b]
      | c :: merged =>
          if b.free = true ∧ c.free = true then
            absorb header b c :: merged
          else
            b :: c :: merged := rfl

def NoAdjacentFree (blocks : List Block) : Prop :=
  blocks.IsChain (fun b c => ¬ (b.free = true ∧ c.free = true))

theorem mergeFree_head (header : Nat) (b : Block) (rest : List Block) :
    exists c merged, mergeFree header (b :: rest) = c :: merged ∧
      c.addr = b.addr ∧ c.free = b.free := by
  rw [mergeFree_cons]
  split
  · exact ⟨b, [], rfl, rfl, rfl⟩
  · split
    · exact ⟨_, _, rfl, rfl, rfl⟩
    · exact ⟨_, _, rfl, rfl, rfl⟩

theorem mergeFree_skip {header : Nat} {b c : Block} {rest : List Block}
    (h : ¬ (b.free = true ∧ c.free = true)) :
    mergeFree header (b :: c :: rest) = b :: mergeFree header (c :: rest) := by
  rcases mergeFree_head header c rest with ⟨d, merged, heq, _, hfree⟩
  rw [mergeFree_cons, heq]
  simp only
  rw [hfree, if_neg h]

theorem mergeFree_absorb {header : Nat} {b c : Block} {rest : List Block}
    (hb : b.free = true) (hc : c.free = true) :
    mergeFree header (b :: c :: rest) =
      mergeFree header (absorb header b c :: rest) := by
  rw [mergeFree_cons, mergeFree_cons, mergeFree_cons]
  cases mergeFree header rest with
  | nil => simp [hb, hc]
  | cons d merged =>
      by_cases hd : d.free = true
      · simp [hb, hc, hd, absorb]
        lia
      · simp [hb, hc, hd, absorb]

theorem mergeFree_noAdjacent (header : Nat) (blocks : List Block) :
    NoAdjacentFree (mergeFree header blocks) := by
  induction blocks with
  | nil => exact List.IsChain.nil
  | cons b rest ih =>
      rw [mergeFree_cons]
      cases hrest : mergeFree header rest with
      | nil => exact List.IsChain.singleton b
      | cons c merged =>
          rw [hrest] at ih
          unfold NoAdjacentFree at ih ⊢
          by_cases hfree : b.free = true ∧ c.free = true
          · simp only [if_pos hfree]
            cases merged with
            | nil => exact List.IsChain.singleton _
            | cons d tail =>
                rw [List.isChain_cons_cons] at ih ⊢
                refine ⟨?_, ih.right⟩
                rintro ⟨_, hd⟩
                exact ih.left ⟨hfree.right, hd⟩
          · simp only [if_neg hfree]
            exact List.isChain_cons_cons.mpr ⟨hfree, ih⟩

theorem mergeFree_eq_self {header : Nat} {blocks : List Block}
    (h : NoAdjacentFree blocks) : mergeFree header blocks = blocks := by
  induction blocks with
  | nil => rfl
  | cons b rest ih =>
      cases rest with
      | nil => rfl
      | cons c tail =>
          rw [NoAdjacentFree, List.isChain_cons_cons] at h
          rw [mergeFree_skip h.left, ih h.right]

theorem tiles_mergeFree {header lo hi : Nat} {blocks : List Block}
    (h : Tiles header lo blocks hi) :
    Tiles header lo (mergeFree header blocks) hi := by
  induction blocks generalizing lo with
  | nil => exact h
  | cons b rest ih =>
      rcases h with ⟨haddr, htail⟩
      have hrest := ih htail
      rw [mergeFree_cons]
      cases hmerged : mergeFree header rest with
      | nil =>
          rw [hmerged] at hrest
          exact ⟨haddr, hrest⟩
      | cons c merged =>
          rw [hmerged] at hrest
          by_cases hfree : b.free = true ∧ c.free = true
          · simp only [if_pos hfree]
            rcases hrest with ⟨hcaddr, hctail⟩
            refine ⟨haddr, ?_⟩
            unfold Block.finish at hcaddr hctail ⊢
            unfold absorb
            rw [show b.addr + header + (b.size + (c.size + header)) =
              c.addr + header + c.size by lia]
            exact hctail
          · simp only [if_neg hfree]
            exact ⟨haddr, hrest⟩

theorem mergeFree_not_free {header : Nat} {blocks : List Block} {b : Block}
    (hb : b.free = false) : b ∈ mergeFree header blocks <-> b ∈ blocks := by
  induction blocks with
  | nil => rfl
  | cons c rest ih =>
      rw [List.mem_cons, ← ih, mergeFree_cons]
      cases mergeFree header rest with
      | nil => simp
      | cons d merged =>
          by_cases hfree : c.free = true ∧ d.free = true
          · have hbc : b ≠ c := fun h => by rw [h, hfree.left] at hb; cases hb
            have hbd : b ≠ d := fun h => by rw [h, hfree.right] at hb; cases hb
            have hba : b ≠ absorb header c d := by
              intro h
              rw [h] at hb
              exact absurd (hb.symm.trans hfree.left) (by decide)
            simp only [if_pos hfree, List.mem_cons]
            simp [hbc, hbd, hba]
          · simp only [if_neg hfree, List.mem_cons]

theorem noAdjacent_carve {header slack size : Nat} {b : Block}
    {before after : List Block} (hb : b.free = true)
    (h : NoAdjacentFree (before ++ b :: after)) :
    NoAdjacentFree (before ++ carve header slack size b ++ after) := by
  unfold NoAdjacentFree at h ⊢
  rw [List.isChain_append] at h
  rcases h with ⟨hbefore, htail, hjoin⟩
  rw [List.append_assoc, List.isChain_append]
  unfold carve
  split
  · refine ⟨hbefore, ?_, ?_⟩
    · refine List.isChain_cons_cons.mpr ⟨by simp, ?_⟩
      cases after with
      | nil => exact List.IsChain.singleton _
      | cons c rest =>
          rw [List.isChain_cons_cons] at htail
          refine List.isChain_cons_cons.mpr ⟨?_, htail.right⟩
          rintro ⟨_, hc⟩
          exact htail.left ⟨hb, hc⟩
    · intro x _ y hy
      cases hy
      simp
  · refine ⟨hbefore, ?_, ?_⟩
    · cases after with
      | nil => exact List.IsChain.singleton _
      | cons c rest =>
          rw [List.isChain_cons_cons] at htail
          exact List.isChain_cons_cons.mpr ⟨by simp, htail.right⟩
    · intro x _ y hy
      cases hy
      simp

theorem markFree_not_free {addr : Nat} {blocks : List Block} {b : Block} :
    b ∈ markFree addr blocks ∧ b.free = false <->
      b ∈ blocks ∧ b.free = false ∧ b.addr ≠ addr := by
  unfold markFree
  constructor
  · rintro ⟨hb, hfree⟩
    rcases List.mem_map.mp hb with ⟨c, hc, heq⟩
    by_cases hcaddr : c.addr = addr
    · rw [if_pos hcaddr] at heq
      rw [← heq] at hfree
      cases hfree
    · rw [if_neg hcaddr] at heq
      rw [← heq] at hfree ⊢
      exact ⟨hc, hfree, hcaddr⟩
  · rintro ⟨hb, hfree, haddr⟩
    refine ⟨List.mem_map.mpr ⟨b, hb, ?_⟩, hfree⟩
    rw [if_neg haddr]

/-!
# Releases one after another

Merging looks only at what merging the tail gives, so it may be put off: the
result depends on the blocks that are marked and not on the order in which that
happened.
-/

theorem mergeFree_cons_congr {header : Nat} {b : Block}
    {left right : List Block}
    (h : mergeFree header left = mergeFree header right) :
    mergeFree header (b :: left) = mergeFree header (b :: right) := by
  rw [mergeFree_cons, mergeFree_cons, h]

theorem mergeFree_append_congr {header : Nat} (before : List Block)
    {left right : List Block}
    (h : mergeFree header left = mergeFree header right) :
    mergeFree header (before ++ left) = mergeFree header (before ++ right) := by
  induction before with
  | nil => exact h
  | cons b rest ih => exact mergeFree_cons_congr ih

theorem markFree_append (addr : Nat) (left right : List Block) :
    markFree addr (left ++ right) =
      markFree addr left ++ markFree addr right :=
  List.map_append

theorem markFree_cons_free {addr : Nat} {b : Block} (hb : b.free = true)
    (rest : List Block) :
    markFree addr (b :: rest) = b :: markFree addr rest := by
  have hself : { b with free := true } = b := by
    rw [← hb]
  unfold markFree
  rw [List.map_cons, hself]
  congr 1
  exact ite_self b

theorem markFree_of_not_mem {addr : Nat} {blocks : List Block}
    (h : forall b, b ∈ blocks -> b.addr ≠ addr) :
    markFree addr blocks = blocks := by
  unfold markFree
  rw [List.map_congr_left (g := id)]
  · exact List.map_id blocks
  · intro b hb
    exact if_neg (h b hb)

theorem mergeFree_markFree (header addr : Nat) (blocks : List Block) :
    mergeFree header (markFree addr (mergeFree header blocks)) =
      mergeFree header (markFree addr blocks) := by
  induction blocks with
  | nil => rfl
  | cons b rest ih =>
      rw [mergeFree_cons]
      cases hmerged : mergeFree header rest with
      | nil =>
          rw [hmerged] at ih
          exact mergeFree_cons_congr ih
      | cons c merged =>
          rw [hmerged] at ih
          dsimp only
          split
          case isTrue hfree =>
              -- both blocks are free already, so only the rest is marked
              have habsorb : (absorb header b c).free = true := hfree.left
              rw [markFree_cons_free habsorb,
                ← mergeFree_absorb hfree.left hfree.right,
                markFree_cons_free hfree.left,
                ← markFree_cons_free hfree.right]
              exact mergeFree_cons_congr ih
          case isFalse => exact mergeFree_cons_congr ih

theorem markFree_comm (a a' : Nat) (blocks : List Block) :
    markFree a (markFree a' blocks) = markFree a' (markFree a blocks) := by
  unfold markFree
  rw [List.map_map, List.map_map]
  apply List.map_congr_left
  intro b _
  dsimp only [Function.comp]
  split <;> split <;> simp_all

def markAll (addrs : List Nat) (blocks : List Block) : List Block :=
  addrs.foldl (fun blocks addr => markFree addr blocks) blocks

theorem markAll_perm {addrs addrs' : List Nat} (h : addrs.Perm addrs')
    (blocks : List Block) : markAll addrs blocks = markAll addrs' blocks :=
  h.foldl_eq' (fun a _ a' _ blocks => markFree_comm a' a blocks) blocks

theorem mergeFree_markAll (header : Nat) (addrs : List Nat)
    (blocks : List Block) :
    mergeFree header (markAll addrs (mergeFree header blocks)) =
      mergeFree header (markAll addrs blocks) := by
  induction addrs generalizing blocks with
  | nil => exact mergeFree_eq_self (mergeFree_noAdjacent header blocks)
  | cons a addrs ih =>
      show mergeFree header
        (markAll addrs (markFree a (mergeFree header blocks))) = _
      rw [← ih, mergeFree_markFree, ih]
      rfl

/-- Carving a block and releasing it again gives the block back. -/
theorem mergeFree_carve {header slack size : Nat} {b : Block}
    (hb : b.free = true) (rest : List Block)
    (hrest : forall c, c ∈ rest -> c.addr ≠ b.addr) (hpos : 0 < header) :
    mergeFree header
        (markFree b.addr (carve header slack size b ++ rest)) =
      mergeFree header (b :: rest) := by
  have hfree : { b with free := true } = b := by
    rw [← hb]
  unfold carve
  split
  case isTrue hroom =>
      have hne : b.addr + header + size ≠ b.addr := by lia
      rw [markFree_append, markFree_of_not_mem hrest]
      unfold markFree
      rw [List.map_cons, List.map_cons, List.map_nil, if_pos rfl, if_neg hne]
      show mergeFree header (_ :: _ :: rest) = _
      rw [mergeFree_absorb rfl rfl]
      congr 2
      unfold absorb
      rw [← hfree]
      dsimp only
      congr 1
      lia
  case isFalse =>
      rw [markFree_append, markFree_of_not_mem hrest]
      unfold markFree
      rw [List.map_cons, List.map_nil, if_pos rfl]
      dsimp only
      rw [hfree]
      rfl

/-!
A list without adjacent free blocks that consists of free blocks only has at
most one block.
-/

theorem eq_singleton_of_all_free {header lo hi : Nat} {blocks : List Block}
    (htiles : Tiles header lo blocks hi) (hne : blocks ≠ [])
    (hadj : NoAdjacentFree blocks)
    (hfree : forall b, b ∈ blocks -> b.free = true) :
    blocks = [{ addr := lo, size := hi - lo - header, free := true }] := by
  cases blocks with
  | nil => exact absurd rfl hne
  | cons b rest =>
      cases rest with
      | nil =>
          rcases htiles with ⟨haddr, hend⟩
          have hb : b.free = true := hfree b List.mem_cons_self
          cases b with
          | mk addr size free =>
              simp only [Tiles, Block.finish] at haddr hend hb
              subst haddr hend hb
              simp
              lia
      | cons c tail =>
          rw [NoAdjacentFree, List.isChain_cons_cons] at hadj
          exact absurd ⟨hfree b (by simp), hfree c (by simp)⟩ hadj.left

end BlockList
end Foundation
end Barium
