import Barium.Foundation.LinkedList
import Barium.Alpc.Port

/-!
# The registry of ports

Ports are linked through their `next` fields, the latest one first, and found by
their names.  Here the ports are bytes in memory: a name that is too long for its
field runs into the fields behind it.
-/

namespace Barium
namespace Alpc

open Foundation
open ByteMemory
open LinkedList
open Lib

/-!
# Creation and lookup
-/

def nameSize : Nat := 32
def ownerTidOffset : Nat := 32
def serverTidOffset : Nat := 40
def msgQueueOffset : Nat := 48
def queueSizeOffset : Nat := 64
def lockOffset : Nat := 68
def nextOffset : Nat := 72

structure Registry where
  mem : ByteMemory
  portList : Nat

/-- A call of `alpc_create_port` by thread `tid`; `port` and `msgQueue` are what
`kmalloc` returns. -/
structure CreateCall where
  port : Nat
  msgQueue : Nat
  tid : Nat
  name : CString
  queueSize : Nat

/-- The port before it joins the list. -/
def portImage (mem : ByteMemory) (c : CreateCall) : ByteMemory :=
  let mem := bMemset mem c.port 0 portSize
  let mem := bStrcpy mem c.port c.name
  let mem := storeLE mem (c.port + ownerTidOffset) 8 c.tid
  let mem := storeLE mem (c.port + serverTidOffset) 8 c.tid
  let mem := storeLE mem (c.port + queueSizeOffset) 4 c.queueSize
  let mem := storeLE mem (c.port + msgQueueOffset) 8 c.msgQueue
  storeLE mem (c.port + lockOffset) 4 0

def Registry.alpcCreatePort (r : Registry) (c : CreateCall) : Registry where
  mem := storeLE (portImage r.mem c) (c.port + nextOffset) 8 r.portList
  portList := c.port

def Registry.next (r : Registry) (port : Nat) : Nat :=
  loadLE r.mem (port + nextOffset) 8

def portFuel : Nat := 2 ^ 64

def connectLoop (r : Registry) (name : CString) : Nat -> Nat -> Option Nat
  | 0, _ => none
  | fuel + 1, curr =>
      if curr = 0 then
        some 0
      else if bStrcmp r.mem curr name = 0 then
        some curr
      else
        connectLoop r name fuel (r.next curr)

def alpcConnectPort (r : Registry) (name : CString) : Option Nat :=
  connectLoop r name portFuel r.portList

/-!
# What creation writes
-/

/-- The name and its terminating zero have room in `char name[32]`. -/
def CreateCall.NameFits (c : CreateCall) : Prop :=
  c.name.bytes.length < nameSize

section Image

variable {mem : ByteMemory} {c : CreateCall}

theorem portImage_outside (hname : c.NameFits) {a : Nat}
    (ha : a < c.port ∨ c.port + portSize <= a) : portImage mem c a = mem a := by
  unfold CreateCall.NameFits nameSize at hname
  unfold portSize at ha
  unfold portImage
  rw [storeLE_outside _ _ (by unfold lockOffset; lia),
    storeLE_outside _ _ (by unfold msgQueueOffset; lia),
    storeLE_outside _ _ (by unfold queueSizeOffset; lia),
    storeLE_outside _ _ (by unfold serverTidOffset; lia),
    storeLE_outside _ _ (by unfold ownerTidOffset; lia),
    bStrcpy, strcpyLoop_apply, if_neg (by lia), bMemset_apply,
    if_neg (by unfold portSize; lia)]

/-- No field behind the name overwrites a name that fits. -/
theorem portImage_name (hname : c.NameFits) :
    BytesAt (portImage mem c) c.port c.name.bytes := by
  unfold CreateCall.NameFits nameSize at hname
  intro i hi
  unfold portImage
  rw [storeLE_outside _ _ (by unfold lockOffset; lia),
    storeLE_outside _ _ (by unfold msgQueueOffset; lia),
    storeLE_outside _ _ (by unfold queueSizeOffset; lia),
    storeLE_outside _ _ (by unfold serverTidOffset; lia),
    storeLE_outside _ _ (by unfold ownerTidOffset; lia),
    bStrcpy, strcpyLoop_apply, if_pos (by lia), Nat.add_sub_cancel_left]

end Image

section Create

variable {r : Registry} {c : CreateCall}

theorem createPort_name (hname : c.NameFits) :
    BytesAt (r.alpcCreatePort c).mem c.port c.name.bytes := by
  intro i hi
  have hfits := hname
  unfold CreateCall.NameFits nameSize at hfits
  unfold Registry.alpcCreatePort
  dsimp only
  rw [storeLE_outside _ _ (by unfold nextOffset; lia)]
  exact portImage_name hname i hi

theorem createPort_outside (hname : c.NameFits) {a : Nat}
    (ha : a < c.port ∨ c.port + portSize <= a) :
    (r.alpcCreatePort c).mem a = r.mem a := by
  have hout := ha
  unfold portSize at hout
  unfold Registry.alpcCreatePort
  dsimp only
  rw [storeLE_outside _ _ (by unfold nextOffset; lia)]
  exact portImage_outside hname ha

theorem createPort_next (hlist : r.portList < 2 ^ 64) :
    (r.alpcCreatePort c).next c.port = r.portList := by
  unfold Registry.next Registry.alpcCreatePort
  dsimp only
  rw [loadLE_storeLE]
  exact Nat.mod_eq_of_lt hlist

end Create

/-!
# Runs of creations
-/

def CreateCall.Apart (c d : CreateCall) : Prop :=
  c.port + portSize <= d.port ∨ d.port + portSize <= c.port

/-- What `kmalloc` returns for the ports when it succeeds. -/
structure Allocated (calls : List CreateCall) : Prop where
  ne_zero : forall c, c ∈ calls -> c.port ≠ 0
  lt : forall c, c ∈ calls -> c.port + portSize <= 2 ^ 64
  apart : calls.Pairwise CreateCall.Apart

def emptyRegistry (mem : ByteMemory) : Registry where
  mem := mem
  portList := 0

def createAll (mem : ByteMemory) (calls : List CreateCall) : Registry :=
  calls.foldl Registry.alpcCreatePort (emptyRegistry mem)

def latestPort (name : CString) (calls : List CreateCall) : Nat :=
  match calls.reverse.find? (fun c => c.name.bytes = name.bytes) with
  | some c => c.port
  | none => 0

structure Registered (r : Registry) (calls : List CreateCall) : Prop where
  chain : Chain 0 r.next r.portList (calls.reverse.map CreateCall.port)
  names : forall c, c ∈ calls -> BytesAt r.mem c.port c.name.bytes
  lt : r.portList < 2 ^ 64

theorem registered_empty (mem : ByteMemory) :
    Registered (emptyRegistry mem) [] := by
  constructor
  · rfl
  · intro c hc
    cases hc
  · exact Nat.two_pow_pos 64

theorem registered_create {r : Registry} {calls : List CreateCall}
    {c : CreateCall} (h : Registered r calls) (hname : c.NameFits)
    (hnames : forall d, d ∈ calls -> d.NameFits)
    (halloc : Allocated (calls ++ [c])) :
    Registered (r.alpcCreatePort c) (calls ++ [c]) := by
  have hlast : c ∈ calls ++ [c] := List.mem_append_right calls (by simp)
  have hapart : forall d, d ∈ calls -> d.Apart c := by
    intro d hd
    exact (List.pairwise_append.mp halloc.apart).right.right d hd c (by simp)
  have hkept : forall d, d ∈ calls -> forall i, i < portSize ->
      (r.alpcCreatePort c).mem (d.port + i) = r.mem (d.port + i) := by
    intro d hd i hi
    apply createPort_outside hname
    have hblocks := hapart d hd
    unfold CreateCall.Apart at hblocks
    lia
  have hnext : forall d, d ∈ calls ->
      (r.alpcCreatePort c).next d.port = r.next d.port := by
    intro d hd
    apply loadLE_congr
    intro i hi
    rw [Nat.add_assoc]
    exact hkept d hd (nextOffset + i) (by unfold nextOffset portSize; lia)
  constructor
  · rw [List.reverse_concat, List.map_cons]
    refine ⟨rfl, halloc.ne_zero c hlast, ?_⟩
    rw [createPort_next h.lt]
    apply chain_congr h.chain
    intro x hx
    rcases List.mem_map.mp hx with ⟨d, hd, hdx⟩
    rw [← hdx]
    exact hnext d (List.mem_reverse.mp hd)
  · intro d hd
    rcases List.mem_append.mp hd with hold | hnew
    · intro i hi
      have hfits := hnames d hold
      unfold CreateCall.NameFits nameSize at hfits
      rw [hkept d hold i (by unfold portSize; lia)]
      exact h.names d hold i hi
    · rw [List.mem_singleton.mp hnew]
      exact createPort_name hname
  · have hblock := halloc.lt c hlast
    unfold portSize at hblock
    show c.port < 2 ^ 64
    exact Nat.lt_of_lt_of_le (by lia) hblock

theorem Allocated.init {calls : List CreateCall} {c : CreateCall}
    (h : Allocated (calls ++ [c])) : Allocated calls := by
  constructor
  · intro d hd
    exact h.ne_zero d (List.mem_append_left [c] hd)
  · intro d hd
    exact h.lt d (List.mem_append_left [c] hd)
  · exact (List.pairwise_append.mp h.apart).left

theorem registered_all (mem : ByteMemory) {calls : List CreateCall}
    (hnames : forall c, c ∈ calls -> c.NameFits) (halloc : Allocated calls) :
    Registered (createAll mem calls) calls := by
  induction calls using List.reverseRecOn with
  | nil => exact registered_empty mem
  | append_singleton calls c ih =>
      have hold : forall d, d ∈ calls -> d.NameFits :=
        fun d hd => hnames d (List.mem_append_left [c] hd)
      have hlast : c.NameFits :=
        hnames c (List.mem_append_right calls List.mem_cons_self)
      have hcreate := registered_create (ih hold halloc.init) hlast hold halloc
      unfold createAll at hcreate ⊢
      rw [List.foldl_append]
      exact hcreate

theorem connectLoop_find {r : Registry} {name : CString}
    {calls : List CreateCall} {head fuel : Nat}
    (hchain : Chain 0 r.next head (calls.map CreateCall.port))
    (hnames : forall c, c ∈ calls -> BytesAt r.mem c.port c.name.bytes)
    (hfuel : calls.length < fuel) :
    connectLoop r name fuel head =
      some (match calls.find? (fun c => c.name.bytes = name.bytes) with
        | some c => c.port
        | none => 0) := by
  induction calls generalizing head fuel with
  | nil =>
      cases fuel with
      | zero => exact absurd hfuel (Nat.not_lt_zero _)
      | succ fuel =>
          have hhead : head = 0 := hchain
          rw [connectLoop, if_pos hhead, List.find?_nil]
  | cons c calls ih =>
      rcases hchain with ⟨hhead, hne, htail⟩
      have hcmp : bStrcmp r.mem c.port name = 0 <->
          c.name.bytes = name.bytes :=
        bStrcmp_eq_zero (hnames c List.mem_cons_self)
      cases fuel with
      | zero => exact absurd hfuel (Nat.not_lt_zero _)
      | succ fuel =>
          rw [connectLoop, hhead, if_neg hne, List.find?_cons]
          by_cases hsame : c.name.bytes = name.bytes
          · rw [if_pos (hcmp.mpr hsame), decide_eq_true hsame]
          · rw [if_neg (fun hzero => hsame (hcmp.mp hzero)),
              decide_eq_false hsame]
            apply ih htail
            · intro d hd
              exact hnames d (List.mem_cons_of_mem c hd)
            · exact Nat.lt_of_succ_lt_succ hfuel

theorem Allocated.length_lt {calls : List CreateCall} (h : Allocated calls) :
    calls.length < portFuel := by
  have hnodup : (calls.map CreateCall.port).Nodup := by
    rw [List.Nodup, List.pairwise_map]
    apply h.apart.imp
    intro c d hapart heq
    unfold CreateCall.Apart portSize at hapart
    lia
  have hlength := length_lt_of_nodup hnodup (Nat.two_pow_pos 64) (by
    intro x hx
    rcases List.mem_map.mp hx with ⟨c, hc, hcx⟩
    have hblock := h.lt c hc
    rw [← hcx]
    refine ⟨h.ne_zero c hc, Nat.lt_of_lt_of_le ?_ hblock⟩
    exact Nat.lt_add_of_pos_right (by decide))
  rwa [List.length_map] at hlength

/-- A port is found by the name that it was created with. -/
theorem alpcConnectPort_latest (mem : ByteMemory) {calls : List CreateCall}
    (halloc : Allocated calls)
    (hnames : forall c, c ∈ calls -> c.name.bytes.length <= 31)
    (name : CString) :
    alpcConnectPort (createAll mem calls) name =
      some (latestPort name calls) := by
  have hfits : forall c, c ∈ calls -> c.NameFits :=
    fun c hc => Nat.lt_succ_of_le (hnames c hc)
  have hreg := registered_all mem hfits halloc
  apply connectLoop_find hreg.chain
  · intro c hc
    exact hreg.names c (List.mem_reverse.mp hc)
  · rw [List.length_reverse]
    exact halloc.length_lt

def twoPorts : List CreateCall :=
  [{ port := 0x1000
     msgQueue := 0x2000
     tid := 2
     name := { bytes := [0x61, 0x62], nonzero := by simp }
     queueSize := 4 },
   { port := 0x1100
     msgQueue := 0x3000
     tid := 3
     name := { bytes := [0x61], nonzero := by simp }
     queueSize := 4 }]

theorem alpcConnectPort_latest_two :
    alpcConnectPort (createAll (fun _ => 0) twoPorts)
      { bytes := [0x61, 0x62], nonzero := by simp } = some 0x1000 := by
  apply alpcConnectPort_latest
  · constructor
    · decide
    · decide
    · apply List.Pairwise.cons
      · intro c hc
        rw [List.mem_singleton.mp hc]
        exact Or.inl (by decide)
      · exact List.pairwise_singleton _ _
  · decide

/-- Thirty-two letters, one more than have room in front of the terminating
zero. -/
def fullName : CString where
  bytes := List.replicate 32 0x61
  nonzero := by
    intro b hb
    rw [List.eq_of_mem_replicate hb]
    decide

def fullNamePort : CreateCall where
  port := 0x1000
  msgQueue := 0x2000
  tid := 2
  name := fullName
  queueSize := 4

/-- `owner_tid` takes the place of the terminating zero. -/
theorem alpcConnectPort_fullName :
    alpcConnectPort (createAll (fun _ => 0) [fullNamePort]) fullName =
        some 0 ∧
      latestPort fullName [fullNamePort] = 0x1000 := by
  constructor
  · decide +kernel
  · decide +kernel

end Alpc
end Barium
