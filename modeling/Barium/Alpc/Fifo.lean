import Barium.Foundation.Run
import Barium.Foundation.RingBuffer
import Barium.Alpc.Port

/-!
# Ports as bounded queues

Every interleaving of sends and receives on a port is a run of one transition
system, because each critical section holds the port lock.  The queue that a
run implements is read off its trace: the messages that successful sends
accepted and the messages that successful receives returned.
-/

namespace Barium
namespace Alpc

open Foundation
open Lib

inductive PortEvent where
  | send (tid : Nat) (msg : AlpcMessage) (ret : Int)
  | recv (tid : Nat) (msg : AlpcMessage) (ret : Int)

inductive PortStep : AlpcPort -> PortEvent -> AlpcPort -> Prop where
  | send {port : AlpcPort} {tid : Nat} {msg : AlpcMessage} {r : SendResult} :
      alpcSend port tid msg = Except.ok r ->
      PortStep port (PortEvent.send tid msg r.ret) r.port
  | recv {port : AlpcPort} {tid : Nat} {buffer : AlpcMessage} {r : RecvResult} :
      alpcRecv port buffer = Except.ok r ->
      PortStep port (PortEvent.recv tid r.msg r.ret) r.port

def portSystem (created : AlpcPort) : TransitionSystem AlpcPort PortEvent where
  Init := fun port => port = created
  Step := PortStep

/-!
# The specification

An accepted message is the sender's message with the thread ids of the sender
and of the server.  A trace is first-in first-out when what was received is the
beginning of what was accepted and the rest is pending.
-/

def sentMessage (server : Nat) : PortEvent -> Option AlpcMessage
  | .send tid msg ret =>
      if ret = 0 then some (stamp msg tid server) else none
  | .recv _ _ _ => none

def receivedMessage : PortEvent -> Option AlpcMessage
  | .send _ _ _ => none
  | .recv _ msg ret => if ret = 0 then some msg else none

def accepted (server : Nat) (trace : List PortEvent) : List AlpcMessage :=
  trace.filterMap (sentMessage server)

def received (trace : List PortEvent) : List AlpcMessage :=
  trace.filterMap receivedMessage

theorem accepted_snoc (server : Nat) (trace : List PortEvent)
    (event : PortEvent) :
    accepted server (trace ++ [event]) =
      accepted server trace ++ (sentMessage server event).toList := by
  unfold accepted
  rw [List.filterMap_append]
  cases h : sentMessage server event <;> simp [h]

theorem received_snoc (trace : List PortEvent) (event : PortEvent) :
    received (trace ++ [event]) =
      received trace ++ (receivedMessage event).toList := by
  unfold received
  rw [List.filterMap_append]
  cases h : receivedMessage event <;> simp [h]

def pending (port : AlpcPort) : List AlpcMessage :=
  Ring.contents port.msgQueue.message port.queueSize
    port.queueHead port.queueTail

structure BoundedFifo (n server : Nat) (trace : List PortEvent)
    (port : AlpcPort) : Prop where
  head_lt : port.queueHead < n
  tail_lt : port.queueTail < n
  fifo : received trace ++ pending port = accepted server trace
  send_returns : forall tid msg, exists r : SendResult,
    alpcSend port tid msg = Except.ok r ∧
      (r.ret = -1 ∨ r.ret = 0) ∧
      (r.ret = -1 <-> (pending port).length = n - 1) ∧
      (r.ret = -1 -> r.port = port)
  recv_returns : forall buffer, exists r : RecvResult,
    alpcRecv port buffer = Except.ok r ∧
      (r.ret = -1 ∨ r.ret = 0) ∧
      (r.ret = -1 <-> (pending port).length = 0) ∧
      (r.ret = -1 -> r.port = port)

/-!
# The representation invariant
-/

structure PortInvariant (n server : Nat) (trace : List PortEvent)
    (port : AlpcPort) : Prop where
  size_eq : port.queueSize = n
  slots_eq : port.msgQueue.slots = n
  server_eq : port.serverTid = server
  head_lt : port.queueHead < n
  tail_lt : port.queueTail < n
  fifo : received trace ++ pending port = accepted server trace

theorem next_index_eq {k n : Nat} (hn : n < 2 ^ 32) (hk : k < n) :
    (k + 1) % 2 ^ 32 % n = (k + 1) % n := by
  rw [Nat.mod_eq_of_lt (show k + 1 < 2 ^ 32 by lia)]

theorem alpcSend_full {port : AlpcPort} {n : Nat} (hn : n < 2 ^ 32)
    (hsize : port.queueSize = n) (htail : port.queueTail < n)
    (hfull : (port.queueTail + 1) % n = port.queueHead)
    (tid : Nat) (msg : AlpcMessage) :
    alpcSend port tid msg =
      Except.ok { ret := -1, port := port,
                  msg := stamp msg tid port.serverTid, handoff := none } := by
  unfold alpcSend
  rw [if_neg (by lia)]
  simp only [hsize]
  rw [next_index_eq hn htail, if_pos hfull]

theorem alpcSend_room {port : AlpcPort} {n : Nat} (hn : n < 2 ^ 32)
    (hsize : port.queueSize = n) (hslots : port.msgQueue.slots = n)
    (htail : port.queueTail < n)
    (hroom : (port.queueTail + 1) % n ≠ port.queueHead)
    (tid : Nat) (msg : AlpcMessage) :
    alpcSend port tid msg =
      Except.ok
        { ret := 0
          port := { port with
            msgQueue := { port.msgQueue with
              message := Function.update port.msgQueue.message port.queueTail
                (stamp msg tid port.serverTid) }
            queueTail := (port.queueTail + 1) % n }
          msg := stamp msg tid port.serverTid
          handoff := some port.serverTid } := by
  unfold alpcSend
  rw [if_neg (by lia)]
  simp only [hsize]
  rw [next_index_eq hn htail, if_neg hroom, if_pos (by lia)]

theorem alpcRecv_empty {port : AlpcPort}
    (hempty : port.queueHead = port.queueTail) (buffer : AlpcMessage) :
    alpcRecv port buffer =
      Except.ok { ret := -1, port := port, msg := buffer } := by
  unfold alpcRecv
  rw [if_pos hempty]

theorem alpcRecv_some {port : AlpcPort} {n : Nat} (hn : n < 2 ^ 32)
    (hsize : port.queueSize = n) (hslots : port.msgQueue.slots = n)
    (hhead : port.queueHead < n) (hne : port.queueHead ≠ port.queueTail)
    (buffer : AlpcMessage) :
    alpcRecv port buffer =
      Except.ok
        { ret := 0
          port := { port with queueHead := (port.queueHead + 1) % n }
          msg := port.msgQueue.message port.queueHead } := by
  unfold alpcRecv
  rw [if_neg hne, if_pos (by lia), if_neg (by lia)]
  simp only [hsize]
  rw [next_index_eq hn hhead]

theorem portInvariant_send {n server : Nat} {trace : List PortEvent}
    {port : AlpcPort} {tid : Nat} {msg : AlpcMessage} {r : SendResult}
    (hn : n < 2 ^ 32) (hinv : PortInvariant n server trace port)
    (hsend : alpcSend port tid msg = Except.ok r) :
    PortInvariant n server (trace ++ [PortEvent.send tid msg r.ret])
      r.port := by
  rcases hinv with ⟨hsize, hslots, hserver, hhead, htail, hfifo⟩
  by_cases hfull : (port.queueTail + 1) % n = port.queueHead
  · rw [alpcSend_full hn hsize htail hfull] at hsend
    cases hsend
    refine ⟨hsize, hslots, hserver, hhead, htail, ?_⟩
    rw [accepted_snoc, received_snoc]
    simpa [receivedMessage, sentMessage] using hfifo
  · rw [alpcSend_room hn hsize hslots htail hfull] at hsend
    cases hsend
    refine ⟨hsize, hslots, hserver, hhead, Nat.mod_lt _ (by lia), ?_⟩
    have hpush := Ring.contents_push port.msgQueue.message
      (stamp msg tid port.serverTid) hhead htail hfull
    simp only [pending, hsize] at hfifo ⊢
    rw [hpush, accepted_snoc, received_snoc, ← hfifo]
    simp [receivedMessage, sentMessage, hserver]

theorem portInvariant_recv {n server : Nat} {trace : List PortEvent}
    {port : AlpcPort} {tid : Nat} {buffer : AlpcMessage} {r : RecvResult}
    (hn : n < 2 ^ 32) (hinv : PortInvariant n server trace port)
    (hrecv : alpcRecv port buffer = Except.ok r) :
    PortInvariant n server (trace ++ [PortEvent.recv tid r.msg r.ret])
      r.port := by
  rcases hinv with ⟨hsize, hslots, hserver, hhead, htail, hfifo⟩
  by_cases hempty : port.queueHead = port.queueTail
  · rw [alpcRecv_empty hempty] at hrecv
    cases hrecv
    refine ⟨hsize, hslots, hserver, hhead, htail, ?_⟩
    rw [accepted_snoc, received_snoc]
    simpa [receivedMessage, sentMessage] using hfifo
  · rw [alpcRecv_some hn hsize hslots hhead hempty] at hrecv
    cases hrecv
    refine ⟨hsize, hslots, hserver, Nat.mod_lt _ (by lia), htail, ?_⟩
    have hpop := Ring.contents_pop port.msgQueue.message hhead htail hempty
    simp only [pending, hsize] at hfifo ⊢
    rw [accepted_snoc, received_snoc, ← hfifo, hpop]
    simp [receivedMessage, sentMessage]

theorem portInvariant_step {n server : Nat} {trace : List PortEvent}
    {port port' : AlpcPort} {event : PortEvent} (hn : n < 2 ^ 32)
    (hinv : PortInvariant n server trace port)
    (hstep : PortStep port event port') :
    PortInvariant n server (trace ++ [event]) port' := by
  cases hstep with
  | send hsend => exact portInvariant_send hn hinv hsend
  | recv hrecv => exact portInvariant_recv hn hinv hrecv

theorem boundedFifo_of_invariant {n server : Nat} {trace : List PortEvent}
    {port : AlpcPort} (hn : n < 2 ^ 32)
    (hinv : PortInvariant n server trace port) :
    BoundedFifo n server trace port := by
  rcases hinv with ⟨hsize, hslots, _hserver, hhead, htail, hfifo⟩
  have hcount : (pending port).length =
      Ring.Count n port.queueHead port.queueTail := by
    rw [pending, Ring.contents_length, hsize]
  refine ⟨hhead, htail, hfifo, ?_, ?_⟩
  · intro tid msg
    have hiff := Ring.count_full_iff hhead htail
    by_cases hfull : (port.queueTail + 1) % n = port.queueHead
    · refine ⟨_, alpcSend_full hn hsize htail hfull tid msg, Or.inl rfl, ?_,
        fun _ => rfl⟩
      rw [hcount]
      exact ⟨fun _ => hiff.mpr hfull, fun _ => rfl⟩
    · refine ⟨_, alpcSend_room hn hsize hslots htail hfull tid msg,
        Or.inr rfl, ?_, ?_⟩
      · rw [hcount]
        constructor
        · intro hret
          cases hret
        · intro heq
          exact absurd (hiff.mp heq) hfull
      · intro hret
        cases hret
  · intro buffer
    have hiff := Ring.count_eq_zero_iff hhead htail
    by_cases hempty : port.queueHead = port.queueTail
    · refine ⟨_, alpcRecv_empty hempty buffer, Or.inl rfl, ?_, fun _ => rfl⟩
      rw [hcount]
      exact ⟨fun _ => hiff.mpr hempty, fun _ => rfl⟩
    · refine ⟨_, alpcRecv_some hn hsize hslots hhead hempty buffer,
        Or.inr rfl, ?_, ?_⟩
      · rw [hcount]
        constructor
        · intro hret
          cases hret
        · intro heq
          exact absurd (hiff.mp heq) hempty
      · intro hret
        cases hret

/-!
# Created ports

A new port starts with the indices that the copied name left behind.  They
describe an empty ring exactly when they are equal and below the queue size.
-/

def FifoPort (n : Nat) (port : AlpcPort) : Prop :=
  forall trace port', (portSystem port).Runs port trace port' ->
    BoundedFifo n port.serverTid trace port'

def NameLeavesEmptyQueue (name : CString) (n : Nat) : Prop :=
  nameWord name queueHeadOffset = nameWord name queueTailOffset ∧
    nameWord name queueHeadOffset < n

theorem nameLeavesEmptyQueue_of_length {name : CString} {n : Nat}
    (hn : 0 < n) (hshort : name.bytes.length <= queueHeadOffset) :
    NameLeavesEmptyQueue name n := by
  have hhead : nameWord name queueHeadOffset = 0 := nameWord_eq_zero hshort
  have htail : nameWord name queueTailOffset = 0 :=
    nameWord_eq_zero (le_trans hshort (by decide))
  exact ⟨by rw [hhead, htail], by rw [hhead]; exact hn⟩

theorem fifoPort_of_name {block : ByteMemory} {msgQueue : MessageArray}
    {tid n : Nat} {name : CString} (hn : n < 2 ^ 32)
    (halloc : msgQueue.slots = n) (hname : NameLeavesEmptyQueue name n) :
    FifoPort n (alpcCreatePort block msgQueue tid name n) := by
  rcases hname with ⟨heq, hlt⟩
  intro trace port' hrun
  apply boundedFifo_of_invariant hn
  refine TransitionSystem.runs_history_invariant (P := PortInvariant n _)
    ?_ ?_ hrun
  · refine ⟨rfl, halloc, rfl, ?_, ?_, ?_⟩
    · rw [alpcCreatePort_queueHead]
      exact hlt
    · rw [alpcCreatePort_queueTail, ← heq]
      exact hlt
    · have hnil : pending (alpcCreatePort block msgQueue tid name n) = [] := by
        unfold pending
        rw [alpcCreatePort_queueHead, alpcCreatePort_queueTail]
        exact (Ring.contents_eq_nil_iff _ hlt (heq ▸ hlt)).mpr heq
      rw [hnil]
      rfl
  · intro trace port event port'' hinv hstep
    exact portInvariant_step hn hinv hstep

theorem name_of_fifoPort {block : ByteMemory} {msgQueue : MessageArray}
    {tid n : Nat} {name : CString}
    (hfifo : FifoPort n (alpcCreatePort block msgQueue tid name n)) :
    NameLeavesEmptyQueue name n := by
  have hstart := hfifo [] _ (TransitionSystem.Runs.nil _)
  have hhead := hstart.head_lt
  have htail := hstart.tail_lt
  have hnil : pending (alpcCreatePort block msgQueue tid name n) = [] := by
    simpa [received, accepted] using hstart.fifo
  unfold pending at hnil
  have heq := (Ring.contents_eq_nil_iff _ hhead htail).mp hnil
  rw [alpcCreatePort_queueHead] at hhead heq
  rw [alpcCreatePort_queueTail] at heq
  exact ⟨heq, hhead⟩

theorem alpcCreatePort_fifo_iff (block : ByteMemory) (msgQueue : MessageArray)
    (tid n : Nat) (name : CString) (hn : n <= 2 ^ 32 - 1)
    (halloc : msgQueue.slots = n) :
    FifoPort n (alpcCreatePort block msgQueue tid name n) <->
      NameLeavesEmptyQueue name n := by
  constructor
  · exact name_of_fifoPort
  · exact fifoPort_of_name (by lia) halloc

def zeroMessages (n : Nat) : MessageArray where
  slots := n
  message := fun _ =>
    { senderTid := 0, receiverTid := 0, type := AlpcMessageType.msgSmall,
      length := 0, sectionId := 0, sectionOffset := 0, data := fun _ => 0 }

def testPortName : CString where
  bytes := [0x74, 0x65, 0x73, 0x74, 0x5F, 0x70, 0x6F, 0x72, 0x74]
  nonzero := by simp

theorem alpcCreatePort_fifo_testPort :
    FifoPort 64
      (alpcCreatePort (fun _ => 0) (zeroMessages 64) 2 testPortName 64) :=
  (alpcCreatePort_fifo_iff (fun _ => 0) (zeroMessages 64) 2 64 testPortName
    (by decide) rfl).mpr
    (nameLeavesEmptyQueue_of_length (by decide) (by decide))

/-- Fifty-seven letters, one more than fit in front of `queue_head`. -/
def longPortName : CString where
  bytes := List.replicate 57 0x61
  nonzero := by
    intro b hb
    rw [List.eq_of_mem_replicate hb]
    decide

theorem alpcCreatePort_longPortName_not_fifo :
    ¬ FifoPort 64
      (alpcCreatePort (fun _ => 0) (zeroMessages 64) 2 longPortName 64) := by
  intro hfifo
  have hlt := (name_of_fifoPort hfifo).right
  revert hlt
  decide

end Alpc
end Barium
