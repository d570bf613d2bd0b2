import Barium.Acpi.Model

/-!
# Any bytes as an MADT

The entry loop of `acpi_init` trusts the lengths of the entries.  It ends and
stays inside the table exactly when no entry has length 0 and the fields it
reads of each entry lie inside; the last entry may reach beyond the end.
-/

namespace Barium
namespace Acpi

open Foundation
open RecordWalk

def RobustLoop (ram : ByteMemory) (madt : Nat) (s : AcpiState) : Prop :=
  exists scan, entryLoop ram madt s = some scan ∧
    forall a, a ∈ scan.reads ->
      madt <= a ∧ a < madt + tableLength ram madt

inductive EntriesFit (ram : ByteMemory) (finish : Nat) : Nat -> Prop where
  | done {ptr : Nat} : finish <= ptr -> EntriesFit ram finish ptr
  | entry {ptr : Nat} :
      ptr + 2 <= finish -> (ram ptr = 0 -> ptr + 8 <= finish) ->
      ram (ptr + 1) ≠ 0 -> ptr + (ram (ptr + 1)).toNat < 2 ^ 64 ->
      EntriesFit ram finish (ptr + (ram (ptr + 1)).toNat) ->
      EntriesFit ram finish ptr

section Loop

variable {ram : ByteMemory} {ptr finish : Nat}

theorem visitEntry_reads (ram : ByteMemory) (ptr : Nat) (s : EntryScan) :
    (visitEntry ram ptr s).reads = s.reads ++ entryReads ram ptr := by
  unfold visitEntry
  split
  · rfl
  · rfl

theorem foldl_reads (ram : ByteMemory) (path : List Nat) (s : EntryScan) :
    (path.foldl (fun s ptr => visitEntry ram ptr s) s).reads =
      s.reads ++ path.flatMap (entryReads ram) := by
  induction path generalizing s with
  | nil => simp
  | cons ptr rest ih =>
      rw [List.foldl_cons, ih, visitEntry_reads, List.flatMap_cons,
        List.append_assoc]

theorem mem_entryReads {a : Nat} (h : a ∈ entryReads ram ptr) :
    ptr <= a ∧ (a < ptr + 2 ∨ (ram ptr = 0 ∧ a < ptr + 8)) := by
  unfold entryReads at h
  by_cases henabled : EnabledAt ram ptr
  · rw [if_pos henabled.left, if_pos henabled] at h
    have hlapic := henabled.left
    simp at h
    lia
  · rw [if_neg henabled] at h
    by_cases hlapic : ram ptr = 0
    · rw [if_pos hlapic] at h
      simp at h
      lia
    · rw [if_neg hlapic] at h
      simp at h
      lia

theorem entryReads_inside_iff {start : Nat} (hptr : start <= ptr) :
    (forall a, a ∈ entryReads ram ptr -> start <= a ∧ a < finish) <->
      ptr + 2 <= finish ∧ (ram ptr = 0 -> ptr + 8 <= finish) := by
  constructor
  · intro hreads
    constructor
    · exact (hreads (ptr + 1) (by simp [entryReads])).right
    · intro hlapic
      exact (hreads (ptr + 7) (by simp [entryReads, hlapic])).right
  · intro hfields a ha
    rcases mem_entryReads ha with ⟨hle, hshort | ⟨hlapic, hlong⟩⟩
    · lia
    · have hend := hfields.right hlapic
      lia

/-!
# Entries that fit
-/

theorem EntriesFit.path (h : EntriesFit ram finish ptr) :
    exists path, Path finish (nextEntry ram) ptr path ∧
      path.length <= finish - ptr ∧
      forall q, q ∈ path -> ptr <= q ∧ q + 2 <= finish ∧
        (ram q = 0 -> q + 8 <= finish) := by
  induction h with
  | done hend =>
      refine ⟨[], Path.done hend, Nat.zero_le _, ?_⟩
      intro q hq
      cases hq
  | @entry ptr hhead hlapic hlength hword _ ih =>
      rcases ih with ⟨path, hpath, hcount, hfields⟩
      have hpos : 0 < (ram (ptr + 1)).toNat :=
        Nat.pos_of_ne_zero (fun hzero => hlength (UInt8.toNat_inj.mp hzero))
      refine ⟨ptr :: path, ?_, ?_, ?_⟩
      · refine Path.visit (by lia) ?_
        rw [nextEntry, Word.add_of_lt hword]
        exact hpath
      · rw [List.length_cons]
        lia
      · intro q hq
        rcases List.mem_cons.mp hq with heq | hrest
        · rw [heq]
          exact ⟨Nat.le_refl ptr, hhead, hlapic⟩
        · rcases hfields q hrest with ⟨hle, hfits⟩
          exact ⟨by lia, hfits⟩

/-!
# Loops that stay inside
-/

/-- The loop cannot leave a table at the end of the address space and come back
at its beginning, because a table is shorter than that. -/
theorem entriesFit_of_path {start : Nat} {path : List Nat}
    (h : Path finish (nextEntry ram) ptr path) (hptr : start <= ptr)
    (hstart : finish <= start + 2 ^ 32) (hword : finish < 2 ^ 64)
    (hreads : forall q, q ∈ path -> forall a, a ∈ entryReads ram q ->
      start <= a ∧ a < finish) :
    EntriesFit ram finish ptr := by
  induction h with
  | done hend => exact EntriesFit.done hend
  | @visit ptr rest hlt hrest ih =>
      have hhere := (entryReads_inside_iff hptr).mp
        (hreads ptr List.mem_cons_self)
      have hnext : nextEntry ram ptr = (ptr + (ram (ptr + 1)).toNat) % 2 ^ 64 :=
        rfl
      have hnowrap : ptr + (ram (ptr + 1)).toNat < 2 ^ 64 := by
        by_contra hwrap
        have hbyte : (ram (ptr + 1)).toNat < 2 ^ 8 := UInt8.toNat_lt _
        have hlow : nextEntry ram ptr < 2 ^ 8 := by lia
        cases hrest with
        | done hend => lia
        | visit _ _ =>
            have hback := (hreads _ (List.mem_cons_of_mem ptr
              List.mem_cons_self) (nextEntry ram ptr)
              (by simp [entryReads])).left
            lia
      rw [Nat.mod_eq_of_lt hnowrap] at hnext
      have hne := (Path.visit hlt hrest).next_ne hlt
      rw [hnext] at ih hne
      refine EntriesFit.entry hhere.left hhere.right ?_ hnowrap
        (ih (by lia) (fun q hq => hreads q (List.mem_cons_of_mem ptr hq)))
      intro hzero
      apply hne
      rw [hzero]
      rfl

end Loop

theorem entryLoop_robust_iff {ram : ByteMemory} {madt : Nat} (s : AcpiState)
    (hlength : madtSize <= tableLength ram madt)
    (hword : madt + tableLength ram madt < 2 ^ 64) :
    RobustLoop ram madt s <->
      EntriesFit ram (madt + tableLength ram madt) (madt + madtSize) := by
  have hshort := tableLength_lt ram madt
  unfold RobustLoop entryLoop
  rw [Word.add_of_lt hword, Word.add_of_lt (by lia)]
  constructor
  · intro hrobust
    rcases hrobust with ⟨scan, hloop, hreads⟩
    rcases path_of_walk hloop with ⟨path, hpath, hscan⟩
    rw [hscan, foldl_reads, List.nil_append] at hreads
    refine entriesFit_of_path hpath (Nat.le_add_right madt _) (by lia) hword ?_
    intro q hq a ha
    exact hreads a (List.mem_flatMap.mpr ⟨q, hq, ha⟩)
  · intro hfit
    rcases hfit.path with ⟨path, hpath, hcount, hfields⟩
    have hfuel : path.length < entryFuel := by
      unfold entryFuel
      lia
    refine ⟨_, walk_of_path _ hpath hfuel, ?_⟩
    rw [foldl_reads, List.nil_append]
    intro a ha
    rcases List.mem_flatMap.mp ha with ⟨q, hq, hin⟩
    rcases hfields q hq with ⟨hle, hfits⟩
    exact (entryReads_inside_iff (by lia)).mpr hfits a hin

def smallMadt (entries : List UInt8) : ByteMemory :=
  fun a =>
    if a = 0x1004 then UInt8.ofNat (madtSize + entries.length)
    else if 0x102C <= a then entries.getD (a - 0x102C) 0
    else 0

theorem entryLoop_robust_iff_one :
    RobustLoop (smallMadt [0, 8, 1, 5, 1, 0, 0, 0]) 0x1000 acpiStart := by
  apply (entryLoop_robust_iff acpiStart (by decide) (by decide)).mpr
  refine EntriesFit.entry (by decide) (fun _ => by decide) (by decide)
    (by decide) ?_
  exact EntriesFit.done (by decide)

/-- An entry of length 0 stops the loop from ever getting on, and the flags of a
local APIC of length 4 lie behind the end of the table. -/
theorem entryLoop_not_robust :
    ¬ RobustLoop (smallMadt [1, 0]) 0x1000 acpiStart ∧
      ¬ RobustLoop (smallMadt [0, 4, 1, 5]) 0x1000 acpiStart := by
  constructor
  · intro hrobust
    rcases hrobust with ⟨scan, hloop, _⟩
    rcases path_of_walk hloop with ⟨path, hpath, _⟩
    exact hpath.next_ne (by decide) (by decide)
  · intro hrobust
    rcases hrobust with ⟨scan, hloop, hreads⟩
    have hrun : (entryLoop (smallMadt [0, 4, 1, 5]) 0x1000 acpiStart).map
        EntryScan.reads =
          some [0x102C, 0x1030, 0x1031, 0x1032, 0x1033, 0x102D] := by
      decide +kernel
    rw [hloop] at hrun
    have hlast := (hreads 0x1033
      (by rw [Option.some.inj hrun]; decide)).right
    revert hlast
    decide

end Acpi
end Barium
