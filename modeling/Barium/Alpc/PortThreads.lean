import Barium.Foundation.SpinLock
import Barium.Alpc.Fifo

/-!
# Threads at a port

`alpc_send` and `alpc_recv` as the threads of several CPUs run them: one access
to the port after the other, under `port->lock`, and a message is copied byte by
byte.  The calls take effect one after the other, in the order in which they
release the lock.
-/

namespace Barium
namespace Alpc

open Foundation
open Function
open TransitionSystem

/-!
# Messages in memory
-/

def messageSize : Nat := 176

/-- The fields of `alpc_message_t`; four bytes of padding follow `type`. -/
def decodeMessage (bytes : ByteMemory) : AlpcMessage where
  senderTid := bytes.loadLE 0 8
  receiverTid := bytes.loadLE 8 8
  type := if bytes.loadLE 16 4 = 0 then AlpcMessageType.msgSmall
    else AlpcMessageType.msgSection
  length := bytes.loadLE 24 8
  sectionId := bytes.loadLE 32 8
  sectionOffset := bytes.loadLE 40 8
  data := fun i => bytes (48 + i)

theorem decodeMessage_congr {bytes bytes' : ByteMemory}
    (h : forall i, i < messageSize -> bytes i = bytes' i) :
    decodeMessage bytes = decodeMessage bytes' := by
  have hload : forall a width, a + width <= messageSize ->
      bytes.loadLE a width = bytes'.loadLE a width := by
    intro a width hle
    apply ByteMemory.loadLE_congr
    intro i hi
    exact h _ (by lia)
  have hdata : forall i : Fin 128, bytes (48 + i) = bytes' (48 + i) := by
    intro i
    apply h
    unfold messageSize
    lia
  unfold decodeMessage
  simp only [hload _ _ (show 0 + 8 <= messageSize by decide),
    hload _ _ (show 8 + 8 <= messageSize by decide),
    hload _ _ (show 16 + 4 <= messageSize by decide),
    hload _ _ (show 24 + 8 <= messageSize by decide),
    hload _ _ (show 32 + 8 <= messageSize by decide),
    hload _ _ (show 40 + 8 <= messageSize by decide), hdata]

def stampBytes (bytes : ByteMemory) (tid server : Nat) : ByteMemory :=
  (bytes.storeLE 0 8 tid).storeLE 8 8 server

theorem decodeMessage_stampBytes (bytes : ByteMemory) {tid server : Nat}
    (htid : tid < 2 ^ 64) (hserver : server < 2 ^ 64) :
    decodeMessage (stampBytes bytes tid server) =
      stamp (decodeMessage bytes) tid server := by
  have hother : forall a width, 16 <= a ->
      (stampBytes bytes tid server).loadLE a width = bytes.loadLE a width := by
    intro a width ha
    unfold stampBytes
    rw [ByteMemory.loadLE_storeLE_outside _ _ (Or.inr (by lia)),
      ByteMemory.loadLE_storeLE_outside _ _ (Or.inr (by lia))]
  have hsender : (stampBytes bytes tid server).loadLE 0 8 = tid := by
    unfold stampBytes
    rw [ByteMemory.loadLE_storeLE_outside _ _ (Or.inl (by lia)),
      ByteMemory.loadLE_storeLE]
    exact Nat.mod_eq_of_lt htid
  have hreceiver : (stampBytes bytes tid server).loadLE 8 8 = server := by
    unfold stampBytes
    rw [ByteMemory.loadLE_storeLE]
    exact Nat.mod_eq_of_lt hserver
  have hdata : forall i : Fin 128, stampBytes bytes tid server (48 + i) =
      bytes (48 + i) := by
    intro i
    unfold stampBytes
    rw [ByteMemory.storeLE_outside _ _ (Or.inr (by lia)),
      ByteMemory.storeLE_outside _ _ (Or.inr (by lia))]
  unfold decodeMessage stamp
  simp only [hsender, hreceiver, hother _ _ (show 16 <= 16 by decide),
    hother _ _ (show 16 <= 24 by decide), hother _ _ (show 16 <= 32 by decide),
    hother _ _ (show 16 <= 40 by decide), hdata]

/-!
# The critical sections
-/

structure PortMemory where
  name : Fin 32 -> UInt8
  ownerTid : Nat
  serverTid : Nat
  server_lt : serverTid < 2 ^ 64
  queueHead : Nat
  queueTail : Nat
  queueSize : Nat
  slots : Nat
  queue : Nat -> ByteMemory

def PortMemory.view (d : PortMemory) : AlpcPort where
  name := d.name
  ownerTid := d.ownerTid
  serverTid := d.serverTid
  msgQueue := { slots := d.slots, message := fun i => decodeMessage (d.queue i) }
  queueHead := d.queueHead
  queueTail := d.queueTail
  queueSize := d.queueSize

def PortMemory.setByte (d : PortMemory) (slot i : Nat) (b : UInt8) :
    PortMemory :=
  { d with
    queue := update d.queue slot
      (update (d.queue slot) i b) }

structure PortCall where
  sends : Bool
  tid : Nat
  tid_lt : tid < 2 ^ 64
  buffer : ByteMemory

/-- The points of a call under the lock: the test of `alpc_send`, the one of
`alpc_recv`, and the part they have in common. -/
inductive PortPc where
  | readTail
  | readSize (tail : Nat)
  | readHead (next : Nat)
  | recvHead
  | recvTail (head : Nat)
  | slot
  | copy (slot i : Nat)
  | bump
  | bumpSize (index : Nat)
  | bumpStore (next : Nat)
  | server
  | done (ret : Int)
  | fault (f : PortFault)

structure PortFrame where
  call : PortCall
  buffer : ByteMemory
  target : Nat
  pc : PortPc

def PortFrame.goto (l : PortFrame) (pc : PortPc) : PortFrame :=
  { l with pc := pc }

def indexAfter (index size : Nat) : Nat :=
  (index + 1) % 2 ^ 32 % size

/-- A sender stamps its message before it takes the lock. -/
def enterPort (d : PortMemory) (c : PortCall) : PortFrame where
  call := c
  buffer := if c.sends then stampBytes c.buffer c.tid d.serverTid
    else c.buffer
  target := 0
  pc := if c.sends then PortPc.readTail else PortPc.recvHead

/-- One access; a fault is never left. -/
def portAccess (d : PortMemory) (l : PortFrame) :
    Option (PortMemory × PortFrame) :=
  match l.pc with
  | .readTail => some (d, l.goto (PortPc.readSize d.queueTail))
  | .readSize tail =>
      if d.queueSize = 0 then
        some (d, l.goto (PortPc.fault PortFault.divideByZero))
      else some (d, l.goto (PortPc.readHead (indexAfter tail d.queueSize)))
  | .readHead next =>
      if next = d.queueHead then some (d, l.goto (PortPc.done (-1)))
      else some (d, l.goto PortPc.slot)
  | .recvHead => some (d, l.goto (PortPc.recvTail d.queueHead))
  | .recvTail head =>
      if head = d.queueTail then some (d, l.goto (PortPc.done (-1)))
      else some (d, l.goto PortPc.slot)
  | .slot =>
      some (d, l.goto (PortPc.copy
        (if l.call.sends then d.queueTail else d.queueHead) 0))
  | .copy slot i =>
      if messageSize <= i then some (d, l.goto PortPc.bump)
      else if d.slots <= slot then
        some (d, l.goto (PortPc.fault PortFault.outOfBounds))
      else if l.call.sends then
        some (d.setByte slot i (l.buffer i),
          l.goto (PortPc.copy slot (i + 1)))
      else
        some (d, { l with
          buffer := update l.buffer i (d.queue slot i)
          pc := PortPc.copy slot (i + 1) })
  | .bump =>
      some (d, l.goto (PortPc.bumpSize
        (if l.call.sends then d.queueTail else d.queueHead)))
  | .bumpSize index =>
      if d.queueSize = 0 then
        some (d, l.goto (PortPc.fault PortFault.divideByZero))
      else some (d, l.goto (PortPc.bumpStore (indexAfter index d.queueSize)))
  | .bumpStore next =>
      if l.call.sends then
        some ({ d with queueTail := next }, l.goto PortPc.server)
      else some ({ d with queueHead := next }, l.goto (PortPc.done 0))
  | .server =>
      some (d, { l with target := d.serverTid, pc := PortPc.done 0 })
  | .done _ => none
  | .fault f => some (d, l.goto (PortPc.fault f))

def portSection : CriticalSection PortMemory PortCall PortFrame where
  enter := enterPort
  step := portAccess

def PortFrame.events (l : PortFrame) : List PortEvent :=
  match l.pc with
  | .done ret =>
      if l.call.sends then
        [PortEvent.send l.call.tid (decodeMessage l.call.buffer) ret]
      else [PortEvent.recv l.call.tid (decodeMessage l.buffer) ret]
  | _ => []

/-!
# A call without others

At every point of a call, what it has done so far to the port that it found
under the lock.
-/

def PortMemory.copied (d : PortMemory) (buffer : ByteMemory) (i : Nat) :
    PortMemory :=
  { d with
    queue := update d.queue d.queueTail
      (fun k => if k < i then buffer k else d.queue d.queueTail k) }

theorem PortMemory.copied_zero (d : PortMemory) (buffer : ByteMemory) :
    d.copied buffer 0 = d := by
  unfold PortMemory.copied
  simp

theorem PortMemory.copied_succ (d : PortMemory) (buffer : ByteMemory)
    (i : Nat) :
    (d.copied buffer i).setByte d.queueTail i (buffer i) =
      d.copied buffer (i + 1) := by
  unfold PortMemory.copied PortMemory.setByte
  simp only [update_self, update_idem]
  congr 2
  funext k
  by_cases hki : k = i
  · rw [hki, update_self, if_pos (Nat.lt_succ_self i)]
  · rw [update_of_ne hki]
    simp only [show k < i + 1 <-> k < i by lia]

structure HasRoom (d : PortMemory) : Prop where
  size : d.queueSize ≠ 0
  room : indexAfter d.queueTail d.queueSize ≠ d.queueHead

def PortMemory.stored (d : PortMemory) (buffer : ByteMemory) : PortMemory :=
  d.copied buffer messageSize

def PortMemory.sent (d : PortMemory) (buffer : ByteMemory) : PortMemory :=
  { d.stored buffer with queueTail := indexAfter d.queueTail d.queueSize }

def SendPoint (d0 : PortMemory) (buffer : ByteMemory) (d : PortMemory) :
    PortPc -> Prop
  | .readTail => d = d0
  | .readSize tail => d = d0 ∧ tail = d0.queueTail
  | .readHead next =>
      d = d0 ∧ d0.queueSize ≠ 0 ∧ next = indexAfter d0.queueTail d0.queueSize
  | .slot => d = d0 ∧ HasRoom d0
  | .copy slot i =>
      d = d0.copied buffer i ∧ HasRoom d0 ∧ slot = d0.queueTail ∧
        i <= messageSize ∧ (0 < i -> slot < d0.slots)
  | .bump =>
      d = d0.stored buffer ∧ HasRoom d0 ∧ d0.queueTail < d0.slots
  | .bumpSize index =>
      d = d0.stored buffer ∧ HasRoom d0 ∧ d0.queueTail < d0.slots ∧
        index = d0.queueTail
  | .bumpStore next =>
      d = d0.stored buffer ∧ HasRoom d0 ∧ d0.queueTail < d0.slots ∧
        next = indexAfter d0.queueTail d0.queueSize
  | .server =>
      d = d0.sent buffer ∧ HasRoom d0 ∧ d0.queueTail < d0.slots
  | .done ret =>
      (ret = -1 ∧ d = d0 ∧ d0.queueSize ≠ 0 ∧
        indexAfter d0.queueTail d0.queueSize = d0.queueHead) ∨
      (ret = 0 ∧ d = d0.sent buffer ∧ HasRoom d0 ∧ d0.queueTail < d0.slots)
  | .fault _ => True
  | .recvHead => False
  | .recvTail _ => False

structure SendAt (d0 : PortMemory) (c : PortCall) (d : PortMemory)
    (l : PortFrame) : Prop where
  call : l.call = c
  buffer : l.buffer = stampBytes c.buffer c.tid d0.serverTid
  point : SendPoint d0 l.buffer d l.pc

theorem sendAt_access {d0 d d' : PortMemory} {c : PortCall} {l l' : PortFrame}
    (hsends : c.sends = true) (h : SendAt d0 c d l)
    (hstep : portAccess d l = some (d', l')) : SendAt d0 c d' l' := by
  rcases h with ⟨hcall, hbuffer, hpoint⟩
  have hsends' : l.call.sends = true := by rw [hcall, hsends]
  have hgoto : forall d1 pc, SendPoint d0 l.buffer d1 pc ->
      some (d1, l.goto pc) = some (d', l') -> SendAt d0 c d' l' := by
    intro d1 pc hnext heq
    cases heq
    exact ⟨hcall, hbuffer, hnext⟩
  unfold portAccess at hstep
  generalize l.pc = pc at hpoint hstep
  cases pc with
  | readTail =>
      refine hgoto _ _ ?_ hstep
      exact ⟨hpoint, by rw [hpoint]⟩
  | readSize tail =>
      rcases hpoint with ⟨hd, htail⟩
      rw [hd, htail] at hstep
      simp only at hstep
      split at hstep
      case isTrue => exact hgoto _ (PortPc.fault _) trivial hstep
      case isFalse hsize =>
          exact hgoto _ (PortPc.readHead _) ⟨rfl, hsize, rfl⟩ hstep
  | readHead next =>
      rcases hpoint with ⟨hd, hsize, hnext⟩
      rw [hd, hnext] at hstep
      simp only at hstep
      split at hstep
      case isTrue hfull =>
          exact hgoto _ (PortPc.done _) (Or.inl ⟨rfl, rfl, hsize, hfull⟩) hstep
      case isFalse hroom =>
          exact hgoto _ PortPc.slot ⟨rfl, hsize, hroom⟩ hstep
  | recvHead => exact hpoint.elim
  | recvTail head => exact hpoint.elim
  | slot =>
      rcases hpoint with ⟨hd, hroom⟩
      rw [hd] at hstep
      simp only [hsends', if_true] at hstep
      refine hgoto _ (PortPc.copy _ _) ?_ hstep
      exact ⟨(d0.copied_zero _).symm, hroom, rfl, Nat.zero_le _,
        fun hpos => absurd hpos (Nat.lt_irrefl 0)⟩
  | copy slot i =>
      rcases hpoint with ⟨hd, hroom, hslot, hi, hbound⟩
      simp only [hsends', if_true] at hstep
      split at hstep
      case isTrue hend =>
          have heq : i = messageSize := Nat.le_antisymm hi hend
          refine hgoto _ PortPc.bump ?_ hstep
          refine ⟨by rw [hd, heq]; rfl, hroom, ?_⟩
          rw [← hslot]
          exact hbound (by rw [heq]; decide)
      case isFalse hmore =>
          split at hstep
          case isTrue => exact hgoto _ (PortPc.fault _) trivial hstep
          case isFalse hslots =>
              refine hgoto _ (PortPc.copy _ _) ?_ hstep
              rw [hd] at hslots
              rw [hd, hslot]
              exact ⟨d0.copied_succ _ i, hroom, rfl, Nat.lt_of_not_le hmore,
                fun _ => hslot ▸ Nat.lt_of_not_le hslots⟩
  | bump =>
      rcases hpoint with ⟨hd, hroom, hslots⟩
      simp only [hsends', if_true] at hstep
      refine hgoto _ (PortPc.bumpSize _) ?_ hstep
      exact ⟨hd, hroom, hslots, by rw [hd]; rfl⟩
  | bumpSize index =>
      rcases hpoint with ⟨hd, hroom, hslots, hindex⟩
      have hsize : d.queueSize = d0.queueSize := by
        rw [hd]
        rfl
      simp only [hsize, if_neg hroom.size] at hstep
      refine hgoto _ (PortPc.bumpStore _) ?_ hstep
      exact ⟨hd, hroom, hslots, by rw [hindex]⟩
  | bumpStore next =>
      rcases hpoint with ⟨hd, hroom, hslots, hnext⟩
      simp only [hsends', if_true] at hstep
      refine hgoto _ PortPc.server ?_ hstep
      exact ⟨by rw [hd, hnext]; rfl, hroom, hslots⟩
  | server =>
      cases hstep
      exact ⟨hcall, hbuffer, Or.inr ⟨rfl, hpoint⟩⟩
  | done ret => cases hstep
  | fault f => exact hgoto _ (PortPc.fault f) trivial hstep

def fetched (d0 : PortMemory) (buffer : ByteMemory) (i : Nat) : ByteMemory :=
  fun k => if k < i then d0.queue d0.queueHead k else buffer k

theorem fetched_succ (d0 : PortMemory) (buffer : ByteMemory) (i : Nat) :
    update (fetched d0 buffer i) i (d0.queue d0.queueHead i) =
      fetched d0 buffer (i + 1) := by
  funext k
  unfold fetched
  by_cases hki : k = i
  · rw [hki, update_self, if_pos (Nat.lt_succ_self i)]
  · rw [update_of_ne hki]
    simp only [show k < i + 1 <-> k < i by lia]

def PortMemory.taken (d : PortMemory) : PortMemory :=
  { d with queueHead := indexAfter d.queueHead d.queueSize }

def RecvPoint (d0 : PortMemory) (given : ByteMemory) (d : PortMemory)
    (buffer : ByteMemory) : PortPc -> Prop
  | .recvHead => d = d0 ∧ buffer = given
  | .recvTail head => d = d0 ∧ buffer = given ∧ head = d0.queueHead
  | .slot => d = d0 ∧ buffer = given ∧ d0.queueHead ≠ d0.queueTail
  | .copy slot i =>
      d = d0 ∧ buffer = fetched d0 given i ∧ d0.queueHead ≠ d0.queueTail ∧
        slot = d0.queueHead ∧ i <= messageSize ∧ (0 < i -> slot < d0.slots)
  | .bump =>
      d = d0 ∧ buffer = fetched d0 given messageSize ∧
        d0.queueHead ≠ d0.queueTail ∧ d0.queueHead < d0.slots
  | .bumpSize index =>
      d = d0 ∧ buffer = fetched d0 given messageSize ∧
        d0.queueHead ≠ d0.queueTail ∧ d0.queueHead < d0.slots ∧
        index = d0.queueHead
  | .bumpStore next =>
      d = d0 ∧ buffer = fetched d0 given messageSize ∧
        d0.queueHead ≠ d0.queueTail ∧ d0.queueHead < d0.slots ∧
        d0.queueSize ≠ 0 ∧ next = indexAfter d0.queueHead d0.queueSize
  | .done ret =>
      (ret = -1 ∧ d = d0 ∧ buffer = given ∧ d0.queueHead = d0.queueTail) ∨
      (ret = 0 ∧ d = d0.taken ∧ buffer = fetched d0 given messageSize ∧
        d0.queueHead ≠ d0.queueTail ∧ d0.queueHead < d0.slots ∧
        d0.queueSize ≠ 0)
  | .fault _ => True
  | _ => False

structure RecvAt (d0 : PortMemory) (c : PortCall) (d : PortMemory)
    (l : PortFrame) : Prop where
  call : l.call = c
  point : RecvPoint d0 c.buffer d l.buffer l.pc

theorem recvAt_access {d0 d d' : PortMemory} {c : PortCall} {l l' : PortFrame}
    (hrecvs : c.sends = false) (h : RecvAt d0 c d l)
    (hstep : portAccess d l = some (d', l')) : RecvAt d0 c d' l' := by
  rcases h with ⟨hcall, hpoint⟩
  have hrecvs' : ¬ l.call.sends = true := by
    rw [hcall, hrecvs]
    decide
  have hgoto : forall d1 pc, RecvPoint d0 c.buffer d1 l.buffer pc ->
      some (d1, l.goto pc) = some (d', l') -> RecvAt d0 c d' l' := by
    intro d1 pc hnext heq
    cases heq
    exact ⟨hcall, hnext⟩
  unfold portAccess at hstep
  generalize l.pc = pc at hpoint hstep
  cases pc with
  | readTail => exact hpoint.elim
  | readSize tail => exact hpoint.elim
  | readHead next => exact hpoint.elim
  | server => exact hpoint.elim
  | recvHead =>
      rcases hpoint with ⟨hd, hbuffer⟩
      refine hgoto _ (PortPc.recvTail _) ?_ hstep
      exact ⟨hd, hbuffer, by rw [hd]⟩
  | recvTail head =>
      rcases hpoint with ⟨hd, hbuffer, hhead⟩
      rw [hd, hhead] at hstep
      simp only at hstep
      split at hstep
      case isTrue hempty =>
          exact hgoto _ (PortPc.done _) (Or.inl ⟨rfl, rfl, hbuffer, hempty⟩)
            hstep
      case isFalse hsome =>
          exact hgoto _ PortPc.slot ⟨rfl, hbuffer, hsome⟩ hstep
  | slot =>
      rcases hpoint with ⟨hd, hbuffer, hsome⟩
      simp only [if_neg hrecvs'] at hstep
      refine hgoto _ (PortPc.copy _ _) ?_ hstep
      exact ⟨hd, hbuffer, hsome, by rw [hd], Nat.zero_le _,
        fun hpos => absurd hpos (Nat.lt_irrefl 0)⟩
  | copy slot i =>
      rcases hpoint with ⟨hd, hbuffer, hsome, hslot, hi, hbound⟩
      simp only [if_neg hrecvs'] at hstep
      split at hstep
      case isTrue hend =>
          have heq : i = messageSize := Nat.le_antisymm hi hend
          refine hgoto _ PortPc.bump ?_ hstep
          refine ⟨hd, by rw [hbuffer, heq], hsome, ?_⟩
          rw [← hslot]
          exact hbound (by rw [heq]; decide)
      case isFalse hmore =>
          split at hstep
          case isTrue => exact hgoto _ (PortPc.fault _) trivial hstep
          case isFalse hslots =>
              cases hstep
              refine ⟨hcall, hd, ?_, hsome, hslot, Nat.lt_of_not_le hmore, ?_⟩
              · show update l.buffer i (d.queue slot i) = _
                rw [hbuffer, hd, hslot]
                exact fetched_succ d0 c.buffer i
              · intro _
                rw [← hd]
                exact Nat.lt_of_not_le hslots
  | bump =>
      rcases hpoint with ⟨hd, hbuffer, hsome, hslots⟩
      simp only [if_neg hrecvs'] at hstep
      refine hgoto _ (PortPc.bumpSize _) ?_ hstep
      exact ⟨hd, hbuffer, hsome, hslots, by rw [hd]⟩
  | bumpSize index =>
      rcases hpoint with ⟨hd, hbuffer, hsome, hslots, hindex⟩
      rw [hd, hindex] at hstep
      simp only at hstep
      split at hstep
      case isTrue => exact hgoto _ (PortPc.fault _) trivial hstep
      case isFalse hsize =>
          exact hgoto _ (PortPc.bumpStore _)
            ⟨rfl, hbuffer, hsome, hslots, hsize, rfl⟩ hstep
  | bumpStore next =>
      rcases hpoint with ⟨hd, hbuffer, hsome, hslots, hsize, hnext⟩
      simp only [if_neg hrecvs'] at hstep
      refine hgoto _ (PortPc.done _) ?_ hstep
      exact Or.inr ⟨rfl, by rw [hd, hnext]; rfl, hbuffer, hsome, hslots, hsize⟩
  | done ret => cases hstep
  | fault f => exact hgoto _ (PortPc.fault f) trivial hstep

/-!
# A call is a step of the port
-/

theorem portAccess_none {d : PortMemory} {l : PortFrame}
    (h : portAccess d l = none) : exists ret, l.pc = PortPc.done ret := by
  unfold portAccess at h
  split at h
  case h_12 ret heq => exact ⟨ret, heq⟩
  all_goals try split at h
  all_goals try split at h
  all_goals try split at h
  all_goals cases h

theorem sent_view {d : PortMemory} {c : PortCall} :
    (d.sent (stampBytes c.buffer c.tid d.serverTid)).view =
      { d.view with
        msgQueue := { d.view.msgQueue with
          message := update d.view.msgQueue.message d.view.queueTail
            (stamp (decodeMessage c.buffer) c.tid d.view.serverTid) }
        queueTail := indexAfter d.queueTail d.queueSize } := by
  have hmessage : (fun i => decodeMessage
      ((d.sent (stampBytes c.buffer c.tid d.serverTid)).queue i)) =
      update (fun i => decodeMessage (d.queue i)) d.queueTail
        (stamp (decodeMessage c.buffer) c.tid d.serverTid) := by
    funext i
    show decodeMessage (update d.queue d.queueTail _ i) = _
    by_cases hsame : i = d.queueTail
    · rw [hsame, update_self, update_self,
        ← decodeMessage_stampBytes c.buffer c.tid_lt d.server_lt]
      apply decodeMessage_congr
      intro k hk
      exact if_pos hk
    · rw [update_of_ne hsame, update_of_ne hsame]
  show AlpcPort.mk _ _ _ _ _ _ _ = _
  rw [hmessage]
  rfl

theorem sendAt_done {d0 d : PortMemory} {c : PortCall} {l : PortFrame}
    {ret : Int} (h : SendAt d0 c d l) (hpc : l.pc = PortPc.done ret) :
    exists r, alpcSend d0.view c.tid (decodeMessage c.buffer) = Except.ok r ∧
      r.ret = ret ∧ r.port = d.view := by
  have hpoint := h.point
  rw [hpc, h.buffer] at hpoint
  unfold alpcSend
  rcases hpoint with ⟨hret, hd, hsize, hfull⟩ | ⟨hret, hd, hroom, hslots⟩
  · rw [if_neg (show ¬ d0.view.queueSize = 0 from hsize),
      if_pos (show (d0.view.queueTail + 1) % 2 ^ 32 % d0.view.queueSize =
        d0.view.queueHead from hfull)]
    exact ⟨_, rfl, hret.symm, by rw [hd]⟩
  · rw [if_neg (show ¬ d0.view.queueSize = 0 from hroom.size),
      if_neg (show ¬ (d0.view.queueTail + 1) % 2 ^ 32 % d0.view.queueSize =
        d0.view.queueHead from hroom.room),
      if_pos (show d0.view.queueTail < d0.view.msgQueue.slots from hslots)]
    exact ⟨_, rfl, hret.symm, by rw [hd, sent_view]; rfl⟩

theorem recvAt_done {d0 d : PortMemory} {c : PortCall} {l : PortFrame}
    {ret : Int} (h : RecvAt d0 c d l) (hpc : l.pc = PortPc.done ret) :
    exists r, alpcRecv d0.view (decodeMessage c.buffer) = Except.ok r ∧
      r.ret = ret ∧ r.port = d.view ∧ r.msg = decodeMessage l.buffer := by
  have hpoint := h.point
  rw [hpc] at hpoint
  unfold alpcRecv
  rcases hpoint with ⟨hret, hd, hbuffer, hempty⟩ |
    ⟨hret, hd, hbuffer, hsome, hslots, hsize⟩
  · rw [if_pos (show d0.view.queueHead = d0.view.queueTail from hempty)]
    exact ⟨_, rfl, hret.symm, by rw [hd], by rw [hbuffer]⟩
  · rw [if_neg (show ¬ d0.view.queueHead = d0.view.queueTail from hsome),
      if_pos (show d0.view.queueHead < d0.view.msgQueue.slots from hslots),
      if_neg (show ¬ d0.view.queueSize = 0 from hsize)]
    refine ⟨_, rfl, hret.symm, by rw [hd]; rfl, ?_⟩
    show decodeMessage (d0.queue d0.queueHead) = _
    apply decodeMessage_congr
    intro k hk
    rw [hbuffer]
    exact (if_pos hk).symm

theorem portSection_completes {d0 d : PortMemory} {c : PortCall}
    {l : PortFrame} (h : portSection.Completes d0 c d l) :
    exists event, l.events = [event] ∧ PortStep d0.view event d.view := by
  rcases h with ⟨hsteps, hend⟩
  rcases portAccess_none hend with ⟨ret, hpc⟩
  cases hsends : c.sends with
  | true =>
      have hat : SendAt d0 c d l := by
        apply hsteps.invariant (P := SendAt d0 c)
        · refine ⟨rfl, ?_, ?_⟩
          · simp [portSection, enterPort, hsends]
          · simp [portSection, enterPort, hsends, SendPoint]
        · intro d1 l1 d2 l2 hat hstep
          exact sendAt_access hsends hat hstep
      rcases sendAt_done hat hpc with ⟨r, hsend, hret, hport⟩
      refine ⟨PortEvent.send c.tid (decodeMessage c.buffer) r.ret, ?_, ?_⟩
      · unfold PortFrame.events
        rw [hpc]
        simp [hat.call, hsends, hret]
      · rw [← hport]
        exact PortStep.send hsend
  | false =>
      have hat : RecvAt d0 c d l := by
        apply hsteps.invariant (P := RecvAt d0 c)
        · refine ⟨rfl, ?_⟩
          simp [portSection, enterPort, hsends, RecvPoint]
        · intro d1 l1 d2 l2 hat hstep
          exact recvAt_access hsends hat hstep
      rcases recvAt_done hat hpc with ⟨r, hrecv, hret, hport, hmsg⟩
      refine ⟨PortEvent.recv c.tid r.msg r.ret, ?_, ?_⟩
      · unfold PortFrame.events
        rw [hpc]
        simp [hat.call, hsends, hret, hmsg]
      · rw [← hport]
        exact PortStep.recv hrecv

/-- `server_tid` is the only field that is read without the lock. -/
theorem portSection_stable : portSection.Stable := by
  intro d l d' l' hstep
  have hserver : d'.serverTid = d.serverTid := by
    change portAccess d l = some (d', l') at hstep
    unfold portAccess at hstep
    split at hstep
    all_goals try split at hstep
    all_goals try split at hstep
    all_goals try split at hstep
    all_goals cases hstep
    all_goals rfl
  funext c
  show enterPort d' c = enterPort d c
  unfold enterPort
  rw [hserver]

/-!
# All calls
-/

def portEvents {agent : Type}
    (trace : List (SpinLabel agent PortCall PortFrame)) : List PortEvent :=
  (trace.flatMap SpinLabel.commits).flatMap (fun commit => commit.2.events)

section Threads

variable {agent : Type} [DecidableEq agent]

omit [DecidableEq agent] in
theorem atomic_runs_port {d0 d d' : PortMemory}
    {commits : List (agent × PortFrame)}
    (hrun : Runs (atomicSystem portSection d0) d commits d') :
    Runs (portSystem d0.view) d.view
      (commits.flatMap (fun commit => commit.2.events)) d'.view := by
  induction hrun with
  | nil => exact Runs.nil _
  | snoc _ hlast ih =>
      rcases hlast with ⟨c, hcompletes⟩
      rcases portSection_completes hcompletes with ⟨event, hevents, hstep⟩
      rw [List.flatMap_append, List.flatMap_singleton, hevents]
      exact Runs.snoc ih hstep

end Threads

def twoSlots : PortMemory where
  name := fun _ => 0
  ownerTid := 3
  serverTid := 3
  server_lt := by decide
  queueHead := 0
  queueTail := 0
  queueSize := 2
  slots := 2
  queue := fun _ _ => 0

def portCall (sends : Bool) : PortCall where
  sends := sends
  tid := if sends then 4 else 3
  tid_lt := by cases sends <;> decide
  buffer := fun _ => 7

/-- While the sender copies its message, the receiver waits for the lock. -/
def sendAndRecv : List (Bool × Option PortCall) :=
  [(true, some (portCall true)), (true, none),
    (false, some (portCall false)), (false, none), (false, none)] ++
  List.replicate (messageSize + 10) (true, none) ++
  List.replicate (messageSize + 10) (false, none)

end Alpc
end Barium
