import Barium.Acpi.Model

/-!
# Discovering the processors

An MADT as the firmware specifies it: a row of entries that fills the table.
`acpi_init` decodes it exactly.
-/

namespace Barium
namespace Acpi

open Foundation
open RecordWalk

/-!
# Entries
-/

structure MadtEntry where
  type : UInt8
  payload : List UInt8
  size_lt : payload.length + 2 < 256
  lapic : type = 0 -> payload.length = 6

namespace MadtEntry

def size (e : MadtEntry) : Nat :=
  e.payload.length + 2

def encode (e : MadtEntry) : List UInt8 :=
  e.type :: UInt8.ofNat e.size :: e.payload

def apicId (e : MadtEntry) : Nat :=
  (e.payload.getD 1 0).toNat

def flags (e : MadtEntry) : Nat :=
  (e.payload.getD 2 0).toNat + 256 * ((e.payload.getD 3 0).toNat +
    256 * ((e.payload.getD 4 0).toNat + 256 * (e.payload.getD 5 0).toNat))

def Enabled (e : MadtEntry) : Prop :=
  e.type = 0 ∧ e.flags % 2 = 1

instance (e : MadtEntry) : Decidable e.Enabled :=
  inferInstanceAs (Decidable (_ ∧ _))

end MadtEntry

def enabledIds (entries : List MadtEntry) : List Nat :=
  (entries.filter (fun e => e.Enabled)).map MadtEntry.apicId

def EntryAt (ram : ByteMemory) (ptr : Nat) (e : MadtEntry) : Prop :=
  ByteMemory.Holds ram ptr e.encode

structure MadtAt (ram : ByteMemory) (madt : Nat) (entries : List MadtEntry) :
    Prop where
  tiled : Row (EntryAt ram) MadtEntry.size (madt + tableLength ram madt)
    (madt + madtSize) entries
  word : madt + tableLength ram madt < 2 ^ 64

section Entries

variable {ram : ByteMemory} {ptr : Nat} {e : MadtEntry}

theorem EntryAt.length (h : EntryAt ram ptr e) :
    (ram (ptr + 1)).toNat = e.size := by
  rw [h.right.left, UInt8.toNat_ofNat']
  exact Nat.mod_eq_of_lt e.size_lt

theorem EntryAt.fields (h : EntryAt ram ptr e) (htype : e.type = 0) :
    (ram (ptr + 3)).toNat = e.apicId ∧ lapicFlags ram ptr = e.flags := by
  have hlength := e.lapic htype
  have hpayload := h.right.right
  unfold MadtEntry.apicId MadtEntry.flags lapicFlags
  rcases hp : e.payload with _ | ⟨b0, _ | ⟨b1, _ | ⟨b2, _ | ⟨b3, _ | ⟨b4,
    _ | ⟨b5, rest⟩⟩⟩⟩⟩⟩
  all_goals rw [hp] at hlength hpayload
  all_goals simp at hlength
  rcases hpayload with ⟨_, h1, h2, h3, h4, h5, _⟩
  simp only [Nat.add_assoc] at h1 h2 h3 h4 h5
  simp [ByteMemory.loadLE, Nat.add_assoc, h1, h2, h3, h4, h5]

theorem enabledAt_iff (h : EntryAt ram ptr e) :
    EnabledAt ram ptr <-> e.Enabled := by
  unfold EnabledAt MadtEntry.Enabled
  rw [show ram ptr = e.type from h.left]
  constructor
  · intro henabled
    refine ⟨henabled.left, ?_⟩
    have hbit := henabled.right
    rw [(h.fields henabled.left).right, Nat.and_one_is_mod] at hbit
    lia
  · intro henabled
    refine ⟨henabled.left, ?_⟩
    rw [(h.fields henabled.left).right, Nat.and_one_is_mod]
    lia

end Entries

/-!
# The entry loop
-/

def visitAcpi (ram : ByteMemory) (ptr : Nat) (s : AcpiState) : AcpiState :=
  if EnabledAt ram ptr then addCpu s (ram (ptr + 3)).toNat else s

def addEntry (e : MadtEntry) (s : AcpiState) : AcpiState :=
  if e.Enabled then addCpu s e.apicId else s

section Loop

variable {ram : ByteMemory} {madt : Nat} {entries : List MadtEntry}

theorem visitEntry_acpi (ram : ByteMemory) (ptr : Nat) (s : EntryScan) :
    (visitEntry ram ptr s).acpi = visitAcpi ram ptr s.acpi := by
  unfold visitEntry visitAcpi
  split
  · rfl
  · rfl

theorem foldl_acpi (ram : ByteMemory) (path : List Nat) (s : EntryScan) :
    (path.foldl (fun s ptr => visitEntry ram ptr s) s).acpi =
      path.foldl (fun s ptr => visitAcpi ram ptr s) s.acpi := by
  induction path generalizing s with
  | nil => rfl
  | cons ptr rest ih =>
      rw [List.foldl_cons, List.foldl_cons, ih, visitEntry_acpi]

theorem foldl_stores (ram : ByteMemory) (path : List Nat) (s : EntryScan) :
    exists n,
      (path.foldl (fun s ptr => visitEntry ram ptr s) s).acpi.cpuCount =
        s.acpi.cpuCount + n ∧
      (path.foldl (fun s ptr => visitEntry ram ptr s) s).stores =
        s.stores ++ List.range' s.acpi.cpuCount n := by
  induction path generalizing s with
  | nil => exact ⟨0, rfl, (List.append_nil _).symm⟩
  | cons ptr rest ih =>
      rw [List.foldl_cons]
      rcases ih (visitEntry ram ptr s) with ⟨n, hcount, hstores⟩
      unfold visitEntry at hcount hstores ⊢
      by_cases henabled : EnabledAt ram ptr
      · rw [if_pos henabled] at hcount hstores ⊢
        refine ⟨n + 1, ?_, ?_⟩
        · rw [hcount]
          show s.acpi.cpuCount + 1 + n = _
          lia
        · rw [hstores, List.range'_succ, List.append_assoc]
          rfl
      · rw [if_neg henabled] at hcount hstores ⊢
        exact ⟨n, hcount, hstores⟩

theorem visitAcpi_at {ptr : Nat} {e : MadtEntry} (s : AcpiState)
    (h : EntryAt ram ptr e) : visitAcpi ram ptr s = addEntry e s := by
  unfold visitAcpi addEntry
  rcases Classical.em e.Enabled with henabled | hdisabled
  · rw [if_pos ((enabledAt_iff h).mpr henabled), if_pos henabled,
      (h.fields henabled.left).left]
  · rw [if_neg (fun hat => hdisabled ((enabledAt_iff h).mp hat)),
      if_neg hdisabled]

theorem foldl_addEntry (entries : List MadtEntry) (s : AcpiState) :
    entries.foldl (fun s e => addEntry e s) s =
      (enabledIds entries).foldl addCpu s := by
  induction entries generalizing s with
  | nil => rfl
  | cons e rest ih =>
      rw [List.foldl_cons, ih]
      unfold addEntry enabledIds
      rcases Classical.em e.Enabled with henabled | hdisabled
      · simp [henabled]
      · simp [hdisabled]

theorem MadtAt.path (h : MadtAt ram madt entries) :
    Path (madt + tableLength ram madt) (nextEntry ram) (madt + madtSize)
      (starts MadtEntry.size (madt + madtSize) entries) := by
  apply h.tiled.path
  · intro e _
    exact Nat.succ_pos _
  · intro ptr e hat hend
    have hword := h.word
    unfold nextEntry
    rw [hat.length, Word.add_of_lt (by lia)]

theorem MadtAt.length_lt (h : MadtAt ram madt entries) :
    entries.length < entryFuel := by
  have hsum : entries.length <= (entries.map MadtEntry.size).sum := by
    clear h
    induction entries with
    | nil => exact Nat.le_refl 0
    | cons e rest ih =>
        rw [List.length_cons, List.map_cons, List.sum_cons]
        unfold MadtEntry.size at ih ⊢
        lia
  have hend := h.tiled.end_eq
  have hword := h.word
  unfold entryFuel
  lia

theorem foldl_addCpu (ids : List Nat) (s : AcpiState) :
    (ids.foldl addCpu s).cpuCount = s.cpuCount + ids.length ∧
      (forall i, i < s.cpuCount ->
        (ids.foldl addCpu s).cpuApicIds i = s.cpuApicIds i) ∧
      forall i, i < ids.length ->
        (ids.foldl addCpu s).cpuApicIds (s.cpuCount + i) = ids.getD i 0 := by
  induction ids generalizing s with
  | nil => exact ⟨rfl, fun _ _ => rfl, fun _ hi => absurd hi (Nat.not_lt_zero _)⟩
  | cons id rest ih =>
      rcases ih (addCpu s id) with ⟨hcount, hold, hnew⟩
      have hnext : (addCpu s id).cpuCount = s.cpuCount + 1 := rfl
      rw [hnext] at hcount hold hnew
      rw [List.foldl_cons]
      refine ⟨by rw [hcount, List.length_cons]; lia, ?_, ?_⟩
      · intro i hi
        rw [hold i (Nat.lt_succ_of_lt hi)]
        exact Function.update_of_ne (Nat.ne_of_lt hi) _ _
      · intro i hi
        cases i with
        | zero =>
            rw [Nat.add_zero, hold s.cpuCount (Nat.lt_succ_self _)]
            exact Function.update_self _ _ _
        | succ i =>
            have hi' := hnew i (Nat.lt_of_succ_lt_succ hi)
            rw [List.getD_cons_succ, ← hi', Nat.add_assoc, Nat.add_comm 1 i]

/-- The loop over a well-formed table, whatever the variables are before. -/
theorem entryLoop_of_madt (h : MadtAt ram madt entries) (s : AcpiState) :
    exists scan, entryLoop ram madt s = some scan ∧
      scan.acpi = (enabledIds entries).foldl addCpu s ∧
      scan.stores = List.range' s.cpuCount (enabledIds entries).length := by
  have hword := h.word
  have hend := h.tiled.end_eq
  have hfuel : (starts MadtEntry.size (madt + madtSize) entries).length <
      entryFuel := by
    rw [starts_length]
    exact h.length_lt
  unfold entryLoop
  rw [Word.add_of_lt hword, Word.add_of_lt (by lia),
    walk_of_path _ h.path hfuel]
  rcases foldl_stores ram (starts MadtEntry.size (madt + madtSize) entries)
    { acpi := s, reads := [], stores := [] } with ⟨n, hcount, hstores⟩
  have hacpi := foldl_acpi ram
    (starts MadtEntry.size (madt + madtSize) entries)
    { acpi := s, reads := [], stores := [] }
  rw [h.tiled.foldl (fun ptr e s hat => visitAcpi_at s hat),
    foldl_addEntry] at hacpi
  refine ⟨_, rfl, hacpi, ?_⟩
  rw [hacpi, (foldl_addCpu (enabledIds entries) s).left] at hcount
  rw [hstores, Nat.add_left_cancel hcount]
  rfl

end Loop

/-!
# The table of tables
-/

/-- The tables of an XSDT; a header without room for one has none. -/
def xsdtTables (ram : ByteMemory) (xsdt : Nat) : List Nat :=
  (List.range ((tableLength ram xsdt - headerSize) / 8)).map
    (tablePtr ram xsdt)

/-- The first table, in the order of the XSDT, with the signature of an
MADT. -/
def firstMadt (ram : ByteMemory) (rsdp : Nat) : Option Nat :=
  (xsdtTables ram (ByteMemory.loadLE ram (rsdp + 24) 8)).find?
    (fun table => ByteMemory.Holds ram table apicSignature)

section Tables

variable {ram : ByteMemory}

/-- A length below that of a header gives a negative number of tables. -/
theorem toInt_short : forall length, length < headerSize ->
    (toInt (Word.sub length headerSize / 8)).toNat = 0 := by
  decide

theorem xsdtEntries_toNat (ram : ByteMemory) (xsdt : Nat) :
    (xsdtEntries ram xsdt).toNat =
      (tableLength ram xsdt - headerSize) / 8 := by
  have hlength := tableLength_lt ram xsdt
  unfold xsdtEntries
  rcases Nat.lt_or_ge (tableLength ram xsdt) headerSize with hshort | hlong
  · rw [toInt_short _ hshort, Nat.sub_eq_zero_of_le (Nat.le_of_lt hshort)]
  · rw [Word.sub_of_le (by lia) hlong]
    unfold toInt headerSize
    rw [if_pos (by lia)]
    lia

theorem findMadt_eq (ram : ByteMemory) (xsdt n i : Nat) :
    findMadt ram xsdt n i =
      (((List.range' i n).map (tablePtr ram xsdt)).find?
        (fun table => ByteMemory.Holds ram table apicSignature)).getD 0 := by
  induction n generalizing i with
  | zero => rfl
  | succ n ih =>
      rw [findMadt, List.range'_succ, List.map_cons, List.find?_cons]
      by_cases hsig : ByteMemory.Holds ram (tablePtr ram xsdt i) apicSignature
      · rw [if_pos ((Lib.bMemcmp_eq_zero_iff _ _ _).mpr hsig)]
        simp [hsig]
      · rw [if_neg (fun hzero => hsig
          ((Lib.bMemcmp_eq_zero_iff _ _ _).mp hzero)), ih]
        simp [hsig]

theorem acpiInit_eq (ram : ByteMemory) (rsdp : Nat) (s : AcpiState) :
    acpiInit ram rsdp s =
      if (firstMadt ram rsdp).getD 0 = 0 then some s
      else (entryLoop ram ((firstMadt ram rsdp).getD 0) s).map
        EntryScan.acpi := by
  unfold acpiInit firstMadt xsdtTables
  simp only
  rw [xsdtEntries_toNat, List.range_eq_range', ← findMadt_eq]

end Tables

def Discovers (ram : ByteMemory) (rsdp : Nat) (ids : List Nat) : Prop :=
  exists s, acpiInit ram rsdp acpiStart = some s ∧
    acpiGetCpuCount s = ids.length ∧
    forall i, i < ids.length -> acpiGetLapicId s i = ids[i]?

theorem acpiInit_discovers (ram : ByteMemory) (rsdp : Nat) :
    (firstMadt ram rsdp = none -> Discovers ram rsdp []) ∧
      forall madt entries, firstMadt ram rsdp = some madt -> madt ≠ 0 ->
        MadtAt ram madt entries -> (enabledIds entries).length <= cpuSlots ->
        Discovers ram rsdp (enabledIds entries) := by
  constructor
  · intro hnone
    refine ⟨acpiStart, ?_, rfl, fun i hi => absurd hi (Nat.not_lt_zero i)⟩
    rw [acpiInit_eq, hnone]
    rfl
  · intro madt entries hfirst hne hmadt hcount
    rcases entryLoop_of_madt hmadt acpiStart with ⟨scan, hloop, hscan, _⟩
    rcases foldl_addCpu (enabledIds entries) acpiStart with
      ⟨htotal, _, hids⟩
    refine ⟨scan.acpi, ?_, ?_, ?_⟩
    · rw [acpiInit_eq, hfirst, Option.getD_some, if_neg hne, hloop]
      rfl
    · rw [acpiGetCpuCount, hscan, htotal]
      exact Nat.zero_add _
    · intro i hi
      have hid := hids i hi
      rw [show acpiStart.cpuCount = 0 from rfl, Nat.zero_add] at hid
      rw [acpiGetLapicId, if_pos (by lia), hscan, hid]
      simp [hi]

/-- Firmware tables as pieces of memory: the pointer to the XSDT, its length and
two table pointers, and an MADT with an I/O APIC, an enabled processor and a
disabled one. -/
def sampleTables : List (Nat × List UInt8) :=
  [(0x118, [0x00, 0x02, 0, 0, 0, 0, 0, 0]),
   (0x204, [52, 0, 0, 0]),
   (0x224, [0x00, 0x03, 0, 0, 0, 0, 0, 0, 0x00, 0x10, 0, 0, 0, 0, 0, 0]),
   (0x300, [0x46, 0x41, 0x43, 0x50]),
   (0x1000, [0x41, 0x50, 0x49, 0x43, 64, 0, 0, 0]),
   (0x102C, [1, 4, 2, 0, 0, 8, 1, 5, 1, 0, 0, 0, 0, 8, 2, 6, 0, 0, 0, 0])]

def sampleRam : ByteMemory :=
  fun a =>
    match sampleTables.find? (fun t => t.1 <= a ∧ a < t.1 + t.2.length) with
    | some t => t.2.getD (a - t.1) 0
    | none => 0

def sampleEntries : List MadtEntry :=
  [{ type := 1, payload := [2, 0], size_lt := by decide,
     lapic := by decide },
   { type := 0, payload := [1, 5, 1, 0, 0, 0], size_lt := by decide,
     lapic := by decide },
   { type := 0, payload := [2, 6, 0, 0, 0, 0], size_lt := by decide,
     lapic := by decide }]

theorem sampleRam_madt : MadtAt sampleRam 0x1000 sampleEntries := by
  constructor
  · have hat : EntryAt sampleRam 0x102C (sampleEntries.get ⟨0, by decide⟩) ∧
        EntryAt sampleRam 0x1030 (sampleEntries.get ⟨1, by decide⟩) ∧
        EntryAt sampleRam 0x1038 (sampleEntries.get ⟨2, by decide⟩) := by
      unfold EntryAt
      decide
    exact ⟨hat.left, hat.right.left, hat.right.right,
      show 0x1040 = 0x1000 + tableLength sampleRam 0x1000 by decide⟩
  · decide

theorem acpiInit_discovers_sample : Discovers sampleRam 0x100 [5] :=
  (acpiInit_discovers sampleRam 0x100).right 0x1000 sampleEntries (by decide)
    (by decide) sampleRam_madt (by decide)

end Acpi
end Barium
