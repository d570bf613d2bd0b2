import Barium.Lib

/-!
# ALPC ports

The port half of `alpc.c`: creation of a port, sending to it and receiving from
it.  The message queue is an array that the heap handed out, so an index outside
it is a fault, and so is a remainder by a queue size of zero.

`alpc_port_t` places `name` at offset 0, `owner_tid` at 32, `server_tid` at 40,
`msg_queue` at 48, `queue_head` at 56, `queue_tail` at 60 and `queue_size` at
64, in 80 bytes.
-/

namespace Barium
namespace Alpc

open Foundation
open Lib

inductive AlpcMessageType where
  | msgSmall
  | msgSection
  deriving DecidableEq, Repr

structure AlpcMessage where
  senderTid : Nat
  receiverTid : Nat
  type : AlpcMessageType
  length : Nat
  sectionId : Nat
  sectionOffset : Nat
  data : Fin 128 -> UInt8

structure MessageArray where
  slots : Nat
  message : Nat -> AlpcMessage

structure AlpcPort where
  name : Fin 32 -> UInt8
  ownerTid : Nat
  serverTid : Nat
  msgQueue : MessageArray
  queueHead : Nat
  queueTail : Nat
  queueSize : Nat

inductive PortFault where
  | divideByZero
  | outOfBounds
  deriving DecidableEq, Repr

/-!
# Creation

The structure is cleared, then the name is copied without a bound, then the
remaining fields are assigned.  `queue_head` and `queue_tail` are the two fields
behind the name that creation does not assign again, so they keep what the copy
left there.
-/

def portSize : Nat := 80
def queueHeadOffset : Nat := 56
def queueTailOffset : Nat := 60

/-- The bytes of a port block after `b_memset` and `b_strcpy`, where `block` is
what the heap returned. -/
def namedImage (block : ByteMemory) (name : CString) : ByteMemory :=
  bStrcpy (bMemset block 0 0 portSize) 0 name

/-- `tid` is `sched_get_tid()`, `block` the memory of the port and `msgQueue`
the memory of its queue, both as `kmalloc` returned them. -/
def alpcCreatePort (block : ByteMemory) (msgQueue : MessageArray) (tid : Nat)
    (name : CString) (queueSize : Nat) : AlpcPort :=
  let image := namedImage block name
  { name := fun i => image i
    ownerTid := tid
    serverTid := tid
    msgQueue := msgQueue
    queueHead := ByteMemory.loadLE image queueHeadOffset 4
    queueTail := ByteMemory.loadLE image queueTailOffset 4
    queueSize := queueSize }

/-!
# Sending and receiving

Each function is its critical section under the port lock.  Before taking the
lock, a sender stamps its own message with the two thread ids.
-/

structure SendResult where
  ret : Int
  port : AlpcPort
  msg : AlpcMessage
  handoff : Option Nat

structure RecvResult where
  ret : Int
  port : AlpcPort
  msg : AlpcMessage

def stamp (msg : AlpcMessage) (sender receiver : Nat) : AlpcMessage :=
  { msg with senderTid := sender, receiverTid := receiver }

def alpcSend (port : AlpcPort) (tid : Nat) (msg : AlpcMessage) :
    Except PortFault SendResult :=
  let msg := stamp msg tid port.serverTid
  if port.queueSize = 0 then
    Except.error PortFault.divideByZero
  else
    let next := (port.queueTail + 1) % 2 ^ 32 % port.queueSize
    if next = port.queueHead then
      Except.ok { ret := -1, port := port, msg := msg, handoff := none }
    else if port.queueTail < port.msgQueue.slots then
      let queue : MessageArray :=
        { port.msgQueue with
          message := Function.update port.msgQueue.message port.queueTail msg }
      Except.ok
        { ret := 0
          port := { port with msgQueue := queue, queueTail := next }
          msg := msg
          handoff := some port.serverTid }
    else
      Except.error PortFault.outOfBounds

def alpcRecv (port : AlpcPort) (msg : AlpcMessage) :
    Except PortFault RecvResult :=
  if port.queueHead = port.queueTail then
    Except.ok { ret := -1, port := port, msg := msg }
  else if port.queueHead < port.msgQueue.slots then
    if port.queueSize = 0 then
      Except.error PortFault.divideByZero
    else
      Except.ok
        { ret := 0
          port := { port with
            queueHead := (port.queueHead + 1) % 2 ^ 32 % port.queueSize }
          msg := port.msgQueue.message port.queueHead }
  else
    Except.error PortFault.outOfBounds

/-!
# The indices of a new port
-/

def nameWord (name : CString) (offset : Nat) : Nat :=
  ByteMemory.loadLE name.byteAt offset 4

theorem namedImage_apply (block : ByteMemory) (name : CString) {a : Nat}
    (ha : a < portSize) : namedImage block name a = name.byteAt a := by
  unfold namedImage
  apply bStrcpy_zeroed
  rw [bMemset_apply, if_pos (by lia)]

theorem namedImage_word (block : ByteMemory) (name : CString) {offset : Nat}
    (hoffset : offset + 4 <= portSize) :
    ByteMemory.loadLE (namedImage block name) offset 4 =
      nameWord name offset := by
  apply ByteMemory.loadLE_congr
  intro i hi
  exact namedImage_apply block name (by lia)

theorem alpcCreatePort_queueHead (block : ByteMemory) (msgQueue : MessageArray)
    (tid : Nat) (name : CString) (queueSize : Nat) :
    (alpcCreatePort block msgQueue tid name queueSize).queueHead =
      nameWord name queueHeadOffset :=
  namedImage_word block name (by decide)

theorem alpcCreatePort_queueTail (block : ByteMemory) (msgQueue : MessageArray)
    (tid : Nat) (name : CString) (queueSize : Nat) :
    (alpcCreatePort block msgQueue tid name queueSize).queueTail =
      nameWord name queueTailOffset :=
  namedImage_word block name (by decide)

theorem nameWord_eq_zero {name : CString} {offset : Nat}
    (hshort : name.bytes.length <= offset) : nameWord name offset = 0 := by
  apply ByteMemory.loadLE_eq_zero
  intro i hi
  exact List.getD_eq_default _ _ (by lia)

end Alpc
end Barium
