import Barium.Pmm.Conservation

/-!
# What initialisation reserves

The bitmap has `total_pages / 8` bytes, rounded down.  When the number of pages
is not a multiple of eight, the bits of the last pages lie in one more byte.
That byte is not filled with ones, and when it starts a page of its own, this
page is not reserved.
-/

namespace Barium
namespace Pmm

open Foundation

/-!
# Memory maps
-/

def descEnd (desc : MemDesc) : Nat :=
  desc.physicalStart + desc.numberOfPages * pageSize

structure WellFormedMap (mmap : List MemDesc) : Prop where
  aligned : forall desc, desc ∈ mmap -> desc.physicalStart % pageSize = 0
  end_lt : forall desc, desc ∈ mmap -> descEnd desc < 2 ^ 64
  apart : mmap.Pairwise (fun a b =>
    descEnd a <= b.physicalStart ∨ descEnd b <= a.physicalStart)

def SuitableDesc (mmap : List MemDesc) (desc : MemDesc) : Prop :=
  desc.type = usableType ∧ lowMemory <= desc.physicalStart ∧
    bitmapSize mmap <= desc.numberOfPages * pageSize

def InUsable (mmap : List MemDesc) (p : Nat) : Prop :=
  exists desc, desc ∈ mmap ∧ desc.type = usableType ∧
    desc.physicalStart <= p * pageSize ∧ p * pageSize < descEnd desc

def HoldsBitmap (bitmap total p : Nat) : Prop :=
  exists q, q < total ∧ (bitmap + q / 8) / pageSize = p

structure ReservesRight (mmap : List MemDesc) (s : PmmState) : Prop where
  bits : forall p, p < s.totalPages ->
    (bitmapTest s p = false <->
      InUsable mmap p ∧ lowMemory / pageSize <= p ∧
        ¬ HoldsBitmap s.bitmap s.totalPages p)
  free_eq : s.freePages =
    ((Finset.range s.totalPages).filter
      (fun p => bitmapTest s p = false)).card
  free_le : s.freePages <= s.usablePages

/-- The bits behind the filled bytes were already set where they have to be,
and the byte behind them does not start a page of usable memory. -/
def TailSafe (ram : ByteMemory) (mmap : List MemDesc) : Prop :=
  (forall p, 8 * bitmapSize mmap <= p -> p < mapPages mmap ->
    ¬ InUsable mmap p -> Bitmap.test ram (bitmapPlace mmap) p = true) ∧
  ¬ (mapPages mmap % 8 ≠ 0 ∧ bitmapSize mmap % pageSize = 0 ∧
    bitmapPlace mmap / pageSize + bitmapSize mmap / pageSize < mapPages mmap ∧
    InUsable mmap
      (bitmapPlace mmap / pageSize + bitmapSize mmap / pageSize))

section Maps

variable {mmap : List MemDesc}

theorem descEnd_eq {desc : MemDesc} (hend : descEnd desc < 2 ^ 64) :
    Word.mul desc.numberOfPages pageSize = desc.numberOfPages * pageSize ∧
      Word.add desc.physicalStart (Word.mul desc.numberOfPages pageSize) =
        descEnd desc := by
  unfold descEnd at hend
  have hmul : Word.mul desc.numberOfPages pageSize =
      desc.numberOfPages * pageSize := Word.mul_of_lt (by lia)
  refine ⟨hmul, ?_⟩
  rw [hmul]
  exact Word.add_of_lt hend

theorem memoryEnd_ge (h : WellFormedMap mmap) {desc : MemDesc}
    (hmem : desc ∈ mmap) (htype : desc.type = usableType) :
    descEnd desc <= memoryEnd mmap := by
  have hkeep : forall (rest : List MemDesc) (e : Nat),
      e <= rest.foldl memoryEndStep e := by
    intro rest
    induction rest with
    | nil =>
        intro e
        exact le_refl e
    | cons c rest ih =>
        intro e
        rw [List.foldl_cons]
        refine le_trans ?_ (ih _)
        unfold memoryEndStep
        split
        · exact le_refl e
        · split
          · lia
          · exact le_refl e
  have hfold : forall (rest : List MemDesc) (e : Nat), desc ∈ rest ->
      descEnd desc <= rest.foldl memoryEndStep e := by
    intro rest
    induction rest with
    | nil =>
        intro e hnil
        cases hnil
    | cons c rest ih =>
        intro e hc
        rw [List.foldl_cons]
        cases hc with
        | tail _ hc => exact ih _ hc
        | head =>
            refine le_trans ?_ (hkeep rest _)
            unfold memoryEndStep
            rw [(descEnd_eq (h.end_lt desc hmem)).right,
              if_neg (fun hne => hne htype)]
            split
            · exact le_refl _
            · lia
  exact hfold mmap 0 hmem

theorem findBitmap_spec {size : Nat} (h : findBitmap size mmap ≠ 0) :
    exists desc, desc ∈ mmap ∧ desc.type = usableType ∧
      size <= Word.mul desc.numberOfPages pageSize ∧
      lowMemory <= desc.physicalStart ∧
      findBitmap size mmap = desc.physicalStart := by
  induction mmap with
  | nil => exact absurd rfl h
  | cons c rest ih =>
      rw [findBitmap] at h ⊢
      have hrest : findBitmap size rest ≠ 0 -> exists desc, desc ∈ c :: rest ∧
          desc.type = usableType ∧
          size <= Word.mul desc.numberOfPages pageSize ∧
          lowMemory <= desc.physicalStart ∧
          findBitmap size rest = desc.physicalStart := by
        intro hne
        rcases ih hne with ⟨desc, hmem, hdesc⟩
        exact ⟨desc, List.mem_cons_of_mem c hmem, hdesc⟩
      by_cases hfits : c.type = usableType ∧
          size <= Word.mul c.numberOfPages pageSize
      · rw [if_pos hfits] at h ⊢
        by_cases hlow : lowMemory <= c.physicalStart
        · rw [if_pos hlow] at h ⊢
          exact ⟨c, List.mem_cons_self, hfits.left, hfits.right, hlow, rfl⟩
        · rw [if_neg hlow] at h ⊢
          exact hrest h
      · rw [if_neg hfits] at h ⊢
        exact hrest h

theorem findBitmap_ne_zero {size : Nat} {desc : MemDesc} (hmem : desc ∈ mmap)
    (htype : desc.type = usableType)
    (hsize : size <= Word.mul desc.numberOfPages pageSize)
    (hlow : lowMemory <= desc.physicalStart) :
    findBitmap size mmap ≠ 0 := by
  induction mmap with
  | nil => cases hmem
  | cons c rest ih =>
      have hpos : 0 < lowMemory := by decide
      rw [findBitmap]
      cases hmem with
      | head =>
          rw [if_pos ⟨htype, hsize⟩, if_pos hlow]
          lia
      | tail _ hmem =>
          split
          · split
            · lia
            · exact ih hmem
          · exact ih hmem

/-!
# Usable pages
-/

theorem WellFormedMap.tail {desc : MemDesc}
    (h : WellFormedMap (desc :: mmap)) : WellFormedMap mmap :=
  ⟨fun c hc => h.aligned c (List.mem_cons_of_mem desc hc),
    fun c hc => h.end_lt c (List.mem_cons_of_mem desc hc),
    (List.pairwise_cons.mp h.apart).right⟩

def descPages (desc : MemDesc) : Finset Nat :=
  Finset.Ico (desc.physicalStart / pageSize)
    (desc.physicalStart / pageSize + desc.numberOfPages)

theorem mem_descPages {desc : MemDesc}
    (haligned : desc.physicalStart % pageSize = 0) (p : Nat) :
    p ∈ descPages desc <->
      desc.physicalStart <= p * pageSize ∧ p * pageSize < descEnd desc := by
  unfold descPages descEnd
  rw [Finset.mem_Ico]
  unfold pageSize at haligned ⊢
  lia

def usableSet : List MemDesc -> Finset Nat
  | [] => ∅
  | desc :: rest =>
      if desc.type = usableType then descPages desc ∪ usableSet rest
      else usableSet rest

theorem mem_usableSet (h : WellFormedMap mmap) (p : Nat) :
    p ∈ usableSet mmap <-> InUsable mmap p := by
  induction mmap with
  | nil => simp [usableSet, InUsable]
  | cons desc rest ih =>
      have hpages := mem_descPages (h.aligned desc List.mem_cons_self) p
      rw [usableSet]
      by_cases htype : desc.type = usableType
      · rw [if_pos htype, Finset.mem_union, hpages, ih h.tail]
        simp [InUsable, htype]
      · rw [if_neg htype, ih h.tail]
        simp [InUsable, htype]

theorem usable_iff (h : WellFormedMap mmap) (p : Nat) :
    Usable mmap p <-> InUsable mmap p := by
  have hdesc : forall desc, desc ∈ mmap ->
      (Hits (desc.physicalStart / pageSize) 0 desc.numberOfPages p <->
        desc.physicalStart <= p * pageSize ∧ p * pageSize < descEnd desc) := by
    intro desc hmem
    have hend := h.end_lt desc hmem
    rw [← mem_descPages (h.aligned desc hmem), descPages, Finset.mem_Ico]
    apply hits_iff
    unfold descEnd pageSize at hend
    unfold pageSize
    lia
  unfold Usable InUsable
  constructor
  · rintro ⟨desc, hmem, htype, hp⟩
    exact ⟨desc, hmem, htype, (hdesc desc hmem).mp hp⟩
  · rintro ⟨desc, hmem, htype, hp⟩
    exact ⟨desc, hmem, htype, (hdesc desc hmem).mpr hp⟩

theorem card_usableSet (h : WellFormedMap mmap) :
    (usableSet mmap).card = usableTotal mmap := by
  induction mmap with
  | nil => rfl
  | cons desc rest ih =>
      rw [usableSet]
      by_cases htype : desc.type = usableType
      · have hdisjoint : Disjoint (descPages desc) (usableSet rest) := by
          rw [Finset.disjoint_left]
          intro p hp hrest
          rw [mem_descPages (h.aligned desc List.mem_cons_self)] at hp
          rcases (mem_usableSet h.tail p).mp hrest with
            ⟨c, hc, _, hlow, hhigh⟩
          have hapart := (List.pairwise_cons.mp h.apart).left c hc
          lia
        rw [if_pos htype, Finset.card_union_of_disjoint hdisjoint, ih h.tail]
        simp [usableTotal, htype, descPages]
      · rw [if_neg htype, ih h.tail]
        simp [usableTotal, htype]

theorem inUsable_lt (h : WellFormedMap mmap) {p : Nat}
    (hp : InUsable mmap p) : p < mapPages mmap := by
  rcases hp with ⟨desc, hmem, htype, _, hhigh⟩
  have hend := memoryEnd_ge h hmem htype
  have haligned := h.aligned desc hmem
  unfold mapPages
  unfold descEnd at hend hhigh
  unfold pageSize at *
  lia

end Maps

/-!
# The place of the bitmap
-/

structure BitmapFacts (mmap : List MemDesc) : Prop where
  aligned : bitmapPlace mmap % pageSize = 0
  low_le : lowMemory / pageSize <= bitmapPlace mmap / pageSize
  low_filled : lowMemory / pageSize <= 8 * bitmapSize mmap
  pages_eq : bitmapPages mmap = (bitmapSize mmap + 4095) / pageSize
  usable : forall p, bitmapPlace mmap / pageSize <= p ->
    p < bitmapPlace mmap / pageSize + bitmapPages mmap -> InUsable mmap p

theorem bitmapFacts {mmap : List MemDesc} (h : WellFormedMap mmap)
    (hplace : bitmapPlace mmap ≠ 0) : BitmapFacts mmap := by
  rcases findBitmap_spec hplace with
    ⟨desc, hmem, htype, hsize, hlow, hfound⟩
  have hplaceEq : bitmapPlace mmap = desc.physicalStart := hfound
  have haligned := h.aligned desc hmem
  have hdescEnd := h.end_lt desc hmem
  have hend := memoryEnd_ge h hmem htype
  have htotal := mapPages_lt mmap
  rw [(descEnd_eq hdescEnd).left] at hsize
  have hpages : bitmapPages mmap = (bitmapSize mmap + 4095) / pageSize := by
    unfold bitmapPages
    rw [Word.add_of_lt]
    unfold bitmapSize
    lia
  refine ⟨?_, ?_, ?_, hpages, ?_⟩
  · rw [hplaceEq]
    exact haligned
  · rw [hplaceEq]
    exact Nat.div_le_div_right hlow
  · unfold bitmapSize mapPages
    unfold descEnd at hend
    unfold lowMemory pageSize at *
    lia
  · intro p hp hpend
    refine ⟨desc, hmem, htype, ?_⟩
    rw [← mem_descPages haligned, descPages, Finset.mem_Ico]
    rw [hplaceEq] at hp hpend
    rw [hpages] at hpend
    unfold pageSize at *
    lia

theorem bitmap_hits_iff {mmap : List MemDesc} (h : WellFormedMap mmap)
    (hplace : bitmapPlace mmap ≠ 0) {p : Nat} :
    Hits (bitmapPlace mmap / pageSize) 0 (bitmapPages mmap) p <->
      bitmapPlace mmap / pageSize <= p ∧
        p < bitmapPlace mmap / pageSize + bitmapPages mmap := by
  have hpages := (bitmapFacts h hplace).pages_eq
  have htotal := mapPages_lt mmap
  have hplaceLt : bitmapPlace mmap < 2 ^ 64 := by
    rcases findBitmap_spec hplace with ⟨desc, hmem, _, _, _, hfound⟩
    have hend := h.end_lt desc hmem
    unfold descEnd at hend
    have hplaceEq : bitmapPlace mmap = desc.physicalStart := hfound
    lia
  apply hits_iff
  rw [hpages]
  unfold bitmapSize pageSize
  lia

section Result

variable {s : PmmState} {mmap : List MemDesc}

theorem pmmInit_clear_iff (h : WellFormedMap mmap)
    (hplace : bitmapPlace mmap ≠ 0) (p : Nat) :
    bitmapTest (pmmInit s mmap) p = false <->
      lowMemory / pageSize <= p ∧
        ¬ (bitmapPlace mmap / pageSize <= p ∧
          p < bitmapPlace mmap / pageSize + bitmapPages mmap) ∧
        (InUsable mmap p ∨ ¬ Filled s.ram mmap p) := by
  have hspec := (pmmInit_spec s mmap hplace).left
  rw [← Bool.not_eq_true, hspec.bits p, Reserved, bitmap_hits_iff h hplace,
    usable_iff h]
  by_cases hlow : p < lowMemory / pageSize
  · simp [hlow]
  · have hlow' : lowMemory / pageSize <= p := Nat.le_of_not_lt hlow
    simp only [hlow, hlow', false_or, true_and]
    tauto

theorem holdsBitmap_iff {bitmap total p : Nat}
    (haligned : bitmap % pageSize = 0) (hpos : 0 < total) :
    HoldsBitmap bitmap total p <->
      bitmap / pageSize <= p ∧
        p <= bitmap / pageSize + (total - 1) / 8 / pageSize := by
  unfold HoldsBitmap pageSize at *
  constructor
  · rintro ⟨q, hq, hp⟩
    lia
  · rintro ⟨hlow, hhigh⟩
    by_cases heq : p = bitmap / 4096
    · exact ⟨0, hpos, by lia⟩
    · exact ⟨8 * (4096 * (p - bitmap / 4096)), by lia, by lia⟩

theorem mapPages_pos (h : WellFormedMap mmap)
    (hplace : bitmapPlace mmap ≠ 0) : 0 < mapPages mmap := by
  have hfilled := (bitmapFacts h hplace).low_filled
  unfold bitmapSize lowMemory pageSize at hfilled
  lia

/-!
# The condition is needed
-/

theorem tailSafe_of_reserves (h : WellFormedMap mmap)
    (hplace : bitmapPlace mmap ≠ 0)
    (hright : ReservesRight mmap (pmmInit s mmap)) :
    TailSafe s.ram mmap := by
  have hspec := (pmmInit_spec s mmap hplace).left
  have hfacts := bitmapFacts h hplace
  have hpos := mapPages_pos h hplace
  have hbits := hright.bits
  rw [hspec.total_eq, hspec.bitmap_eq] at hbits
  constructor
  · intro p hlow hlt hout
    by_contra hbit
    have hclear : bitmapTest (pmmInit s mmap) p = false := by
      refine (pmmInit_clear_iff h hplace p).mpr ⟨?_, ?_, Or.inr ?_⟩
      · exact le_trans hfacts.low_filled hlow
      · rintro ⟨hbp, hbpe⟩
        exact hout (hfacts.usable p hbp hbpe)
      · rintro (hfill | hfill)
        · lia
        · exact hbit hfill
    exact hout ((hbits p hlt).mp hclear).left
  · rintro ⟨hodd, hstart, hlt, husable⟩
    have hlow := hfacts.low_le
    have hpages := hfacts.pages_eq
    have hclear := (pmmInit_clear_iff (s := s) h hplace _).mpr
      ⟨show lowMemory / pageSize <= bitmapPlace mmap / pageSize +
          bitmapSize mmap / pageSize by lia,
        by unfold pageSize at *; lia, Or.inl husable⟩
    refine ((hbits _ hlt).mp hclear).right.right ?_
    refine (holdsBitmap_iff hfacts.aligned hpos).mpr ⟨by lia, ?_⟩
    unfold bitmapSize pageSize at *
    lia

/-!
# The condition is enough
-/

theorem usable_or_not_filled (htail : TailSafe s.ram mmap) {p : Nat}
    (hlt : p < mapPages mmap)
    (hp : InUsable mmap p ∨ ¬ Filled s.ram mmap p) : InUsable mmap p := by
  rcases hp with hp | hp
  · exact hp
  · by_contra hout
    unfold Filled at hp
    rw [not_or] at hp
    exact hp.right (htail.left p (by lia) hlt hout)

theorem bits_of_tailSafe (h : WellFormedMap mmap)
    (hplace : bitmapPlace mmap ≠ 0) (htail : TailSafe s.ram mmap) {p : Nat}
    (hlt : p < mapPages mmap) :
    bitmapTest (pmmInit s mmap) p = false <->
      InUsable mmap p ∧ lowMemory / pageSize <= p ∧
        ¬ HoldsBitmap (bitmapPlace mmap) (mapPages mmap) p := by
  have hfacts := bitmapFacts h hplace
  have hpages := hfacts.pages_eq
  have hpos := mapPages_pos h hplace
  rw [pmmInit_clear_iff h hplace, holdsBitmap_iff hfacts.aligned hpos]
  constructor
  · rintro ⟨hlow, hout, hfree⟩
    have husable := usable_or_not_filled htail hlt hfree
    refine ⟨husable, hlow, ?_⟩
    rintro ⟨hge, hle⟩
    have hp : p = bitmapPlace mmap / pageSize +
        bitmapSize mmap / pageSize := by
      unfold bitmapSize pageSize at *
      lia
    rw [hp] at husable hlt
    refine htail.right ⟨?_, ?_, hlt, husable⟩
    · unfold bitmapSize pageSize at *
      lia
    · unfold bitmapSize pageSize at *
      lia
  · rintro ⟨husable, hlow, hout⟩
    refine ⟨hlow, ?_, Or.inl husable⟩
    rintro ⟨hge, hle⟩
    apply hout
    unfold bitmapSize pageSize at *
    lia

/-!
# The counters
-/

theorem usableTotal_lt (h : WellFormedMap mmap) :
    usableTotal mmap < 2 ^ 52 := by
  have hsub : usableSet mmap ⊆ Finset.range (mapPages mmap) := by
    intro p hp
    rw [Finset.mem_range]
    exact inUsable_lt h ((mem_usableSet h p).mp hp)
  have hcard := Finset.card_le_card hsub
  rw [card_usableSet h, Finset.card_range] at hcard
  exact lt_of_le_of_lt hcard (mapPages_lt mmap)

theorem low_reserved_iff (h : WellFormedMap mmap)
    (hplace : bitmapPlace mmap ≠ 0) {p : Nat}
    (hlow : p < lowMemory / pageSize) :
    ¬ Reserved s.ram mmap p <-> InUsable mmap p := by
  have hfacts := bitmapFacts h hplace
  have hbelow := hfacts.low_le
  have hfilled := hfacts.low_filled
  have hnotHit : ¬ Hits (bitmapPlace mmap / pageSize) 0 (bitmapPages mmap) p := by
    rw [bitmap_hits_iff h hplace]
    lia
  have hfill : Filled s.ram mmap p := Or.inl (by lia)
  unfold Reserved
  rw [usable_iff h]
  simp [hnotHit, hfill]

theorem free_of_tailSafe (h : WellFormedMap mmap)
    (hplace : bitmapPlace mmap ≠ 0) (htail : TailSafe s.ram mmap) :
    (pmmInit s mmap).freePages =
        ((Finset.range (mapPages mmap)).filter
          (fun p => bitmapTest (pmmInit s mmap) p = false)).card ∧
      (pmmInit s mmap).freePages <= (pmmInit s mmap).usablePages := by
  have hspec := (pmmInit_spec s mmap hplace).left
  have hfacts := bitmapFacts h hplace
  have htotal := usableTotal_lt h
  have hadd : Word.add 0 (usableTotal mmap) = usableTotal mmap := by
    rw [Word.add_of_lt (by lia), Nat.zero_add]
  rcases hspec.free_eq with ⟨low, hlow, hfree⟩
  have hlowMem : forall p, p ∈ low <->
      p < lowMemory / pageSize ∧ InUsable mmap p := by
    intro p
    rw [hlow p]
    exact and_congr_right (fun hp => low_reserved_iff h hplace hp)
  let own := Finset.Ico (bitmapPlace mmap / pageSize)
    (bitmapPlace mmap / pageSize + bitmapPages mmap)
  have hdisjoint : Disjoint own low := by
    rw [Finset.disjoint_left]
    intro p hp hpl
    have hp' := Finset.mem_Ico.mp hp
    have hpl' := (hlowMem p).mp hpl
    have hbelow := hfacts.low_le
    lia
  have hsub : own ∪ low ⊆ usableSet mmap := by
    intro p hp
    rw [mem_usableSet h]
    rcases Finset.mem_union.mp hp with hp | hp
    · have hp' := Finset.mem_Ico.mp hp
      exact hfacts.usable p hp'.left hp'.right
    · exact ((hlowMem p).mp hp).right
  have hcard : (own ∪ low).card = bitmapPages mmap + low.card := by
    rw [Finset.card_union_of_disjoint hdisjoint, Nat.card_Ico,
      Nat.add_sub_cancel_left]
  have hle := Finset.card_le_card hsub
  rw [hcard, card_usableSet h] at hle
  have hrest : (Finset.range (mapPages mmap)).filter
      (fun p => bitmapTest (pmmInit s mmap) p = false) =
      usableSet mmap \ (own ∪ low) := by
    ext p
    rw [Finset.mem_filter, Finset.mem_range, pmmInit_clear_iff h hplace,
      Finset.mem_sdiff, Finset.mem_union, mem_usableSet h, hlowMem,
      Finset.mem_Ico]
    constructor
    · rintro ⟨hlt, hlow', hout, hp⟩
      have husable := usable_or_not_filled htail hlt hp
      refine ⟨husable, ?_⟩
      rintro (hin | hin)
      · exact hout hin
      · lia
    · rintro ⟨husable, hout⟩
      rw [not_or] at hout
      refine ⟨inUsable_lt h husable, ?_, hout.left, Or.inl husable⟩
      by_contra hlt
      exact hout.right ⟨by lia, husable⟩
  have hvalue : (pmmInit s mmap).freePages =
      usableTotal mmap - (bitmapPages mmap + low.card) := by
    rw [hfree, hadd, Word.sub_sub _ (by lia), Word.sub_of_le (by lia) hle]
  constructor
  · rw [hrest, Finset.card_sdiff_of_subset hsub, hcard, card_usableSet h,
      hvalue]
  · rw [hvalue, hspec.usable_eq, hadd]
    exact Nat.sub_le _ _

theorem pmmInit_reserves_iff (h : WellFormedMap mmap)
    (hsuitable : exists desc, desc ∈ mmap ∧ SuitableDesc mmap desc) :
    ReservesRight mmap (pmmInit s mmap) <-> TailSafe s.ram mmap := by
  have hplace : bitmapPlace mmap ≠ 0 := by
    rcases hsuitable with ⟨desc, hmem, htype, hlow, hsize⟩
    refine findBitmap_ne_zero hmem htype ?_ hlow
    rw [(descEnd_eq (h.end_lt desc hmem)).left]
    exact hsize
  have hspec := (pmmInit_spec s mmap hplace).left
  refine ⟨tailSafe_of_reserves h hplace, ?_⟩
  intro htail
  have hfree := free_of_tailSafe h hplace htail
  refine ⟨?_, ?_, hfree.right⟩
  · intro p hp
    rw [hspec.total_eq] at hp ⊢
    rw [hspec.bitmap_eq]
    exact bits_of_tailSafe h hplace htail hp
  · rw [hspec.total_eq]
    exact hfree.left

end Result

theorem pmmInit_reserves_iff_plainMap :
    ReservesRight plainMap (pmmInit (bootState (fun _ => 0)) plainMap) := by
  have hform : WellFormedMap plainMap := by
    refine ⟨?_, ?_, List.pairwise_singleton _ _⟩
    · decide
    · decide
  refine (pmmInit_reserves_iff hform
    ⟨_, List.mem_cons_self, by unfold SuitableDesc; decide⟩).mpr ⟨?_, ?_⟩
  · intro p hlow hhigh
    have hsize : bitmapSize plainMap = 1024 := by decide
    have htotal : mapPages plainMap = 8192 := by decide
    lia
  · rintro ⟨hodd, _⟩
    exact hodd (by decide)

def holeMap : List MemDesc :=
  [{ type := 7, physicalStart := 0x1000000, numberOfPages := 1 },
    { type := 7, physicalStart := 0x1002000, numberOfPages := 1 }]

theorem pmmInit_holeMap_not_right :
    ¬ ReservesRight holeMap (pmmInit (bootState (fun _ => 0)) holeMap) := by
  intro hright
  have hform : WellFormedMap holeMap := by
    refine ⟨?_, ?_, ?_⟩
    · decide
    · decide
    · decide
  have htail := tailSafe_of_reserves hform (by decide) hright
  have hout : ¬ InUsable holeMap 4097 := by
    rw [← mem_usableSet hform]
    decide
  have hbit := htail.left 4097 (by decide) (by decide) hout
  revert hbit
  decide

end Pmm
end Barium
