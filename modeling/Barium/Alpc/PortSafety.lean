import Barium.Alpc.Fifo

/-!
# Faults on a port

`alpc_create_port` stores any queue size and whatever `kmalloc` has returned for
the messages, and the copied name may have changed the two indices.  No call on
the port ever faults exactly when the queue has a message array, or a single
message that it never uses, and the indices lie inside.
-/

namespace Barium
namespace Alpc

open Foundation
open TransitionSystem
open Lib

/-- Neither a send nor a receive divides by zero or copies a message outside the
array. -/
structure CallsSafe (port : AlpcPort) : Prop where
  send : forall tid msg, exists r, alpcSend port tid msg = Except.ok r
  recv : forall buffer, exists r, alpcRecv port buffer = Except.ok r

def SafePort (port : AlpcPort) : Prop :=
  forall trace port', (portSystem port).Runs port trace port' ->
    CallsSafe port'

/-- The tail of a queue of one message does not matter: the queue is always
full. -/
structure SafeIndices (size slots head tail : Nat) : Prop where
  head_lt : head < size
  array : (slots = size ∧ (tail < size ∨ size = 1)) ∨ (size = 1 ∧ tail = 0)

/-- The outcomes of `kmalloc` for the messages: an array of `queue_size`
messages, or `NULL`. -/
def MessagesAllocated (msgQueue : MessageArray) (queueSize : Nat) : Prop :=
  msgQueue.slots = queueSize ∨ msgQueue.slots = 0

def nextIndex (port : AlpcPort) (k : Nat) : Nat :=
  (k + 1) % 2 ^ 32 % port.queueSize

section Calls

variable {port port' : AlpcPort}

def sentPort (port : AlpcPort) (tid : Nat) (msg : AlpcMessage) : AlpcPort :=
  { port with
    msgQueue := { port.msgQueue with
      message := Function.update port.msgQueue.message port.queueTail
        (stamp msg tid port.serverTid) }
    queueTail := nextIndex port port.queueTail }

def receivedPort (port : AlpcPort) : AlpcPort :=
  { port with queueHead := nextIndex port port.queueHead }

theorem alpcSend_cases (port : AlpcPort) (tid : Nat) (msg : AlpcMessage) :
    ((exists fault, alpcSend port tid msg = Except.error fault) ∧
        (port.queueSize = 0 ∨
          (nextIndex port port.queueTail ≠ port.queueHead ∧
            port.msgQueue.slots <= port.queueTail))) ∨
      exists r, alpcSend port tid msg = Except.ok r ∧ port.queueSize ≠ 0 ∧
        ((nextIndex port port.queueTail = port.queueHead ∧ r.port = port) ∨
          (nextIndex port port.queueTail ≠ port.queueHead ∧
            port.queueTail < port.msgQueue.slots ∧
            r.port = sentPort port tid msg)) := by
  unfold alpcSend
  by_cases hzero : port.queueSize = 0
  · rw [if_pos hzero]
    exact Or.inl ⟨⟨_, rfl⟩, Or.inl hzero⟩
  · rw [if_neg hzero]
    by_cases hfull : nextIndex port port.queueTail = port.queueHead
    · rw [if_pos (show (port.queueTail + 1) % 2 ^ 32 % port.queueSize =
        port.queueHead from hfull)]
      exact Or.inr ⟨_, rfl, hzero, Or.inl ⟨hfull, rfl⟩⟩
    · rw [if_neg (show ¬ (port.queueTail + 1) % 2 ^ 32 % port.queueSize =
        port.queueHead from hfull)]
      by_cases hin : port.queueTail < port.msgQueue.slots
      · rw [if_pos hin]
        exact Or.inr ⟨_, rfl, hzero, Or.inr ⟨hfull, hin, rfl⟩⟩
      · rw [if_neg hin]
        exact Or.inl ⟨⟨_, rfl⟩, Or.inr ⟨hfull, Nat.le_of_not_lt hin⟩⟩

theorem alpcRecv_cases (port : AlpcPort) (buffer : AlpcMessage) :
    ((exists fault, alpcRecv port buffer = Except.error fault) ∧
        port.queueHead ≠ port.queueTail ∧
        (port.msgQueue.slots <= port.queueHead ∨ port.queueSize = 0)) ∨
      exists r, alpcRecv port buffer = Except.ok r ∧
        ((port.queueHead = port.queueTail ∧ r.port = port) ∨
          (port.queueHead ≠ port.queueTail ∧
            port.queueHead < port.msgQueue.slots ∧ port.queueSize ≠ 0 ∧
            r.port = receivedPort port)) := by
  unfold alpcRecv
  by_cases hempty : port.queueHead = port.queueTail
  · rw [if_pos hempty]
    exact Or.inr ⟨_, rfl, Or.inl ⟨hempty, rfl⟩⟩
  · rw [if_neg hempty]
    by_cases hin : port.queueHead < port.msgQueue.slots
    · rw [if_pos hin]
      by_cases hzero : port.queueSize = 0
      · rw [if_pos hzero]
        exact Or.inl ⟨⟨_, rfl⟩, hempty, Or.inr hzero⟩
      · rw [if_neg hzero]
        exact Or.inr ⟨_, rfl, Or.inr ⟨hempty, hin, hzero, rfl⟩⟩
    · rw [if_neg hin]
      exact Or.inl ⟨⟨_, rfl⟩, hempty, Or.inl (Nat.le_of_not_lt hin)⟩

end Calls

/-!
# Safe indices stay safe
-/

def PortIndicesSafe (port : AlpcPort) : Prop :=
  SafeIndices port.queueSize port.msgQueue.slots port.queueHead port.queueTail

section Safe

variable {port port' : AlpcPort}

theorem nextIndex_lt (port : AlpcPort) (k : Nat) (hsize : 0 < port.queueSize) :
    nextIndex port k < port.queueSize :=
  Nat.mod_lt _ hsize

theorem PortIndicesSafe.send (h : PortIndicesSafe port) (tid : Nat)
    (msg : AlpcMessage) : exists r, alpcSend port tid msg = Except.ok r ∧
      PortIndicesSafe r.port := by
  have hhead := h.head_lt
  have hnext := nextIndex_lt port port.queueTail (Nat.zero_lt_of_lt hhead)
  rcases alpcSend_cases port tid msg with ⟨_, hfault⟩ |
    ⟨r, hsend, _, ⟨_, hport⟩ | ⟨hroom, _, hport⟩⟩
  · have harray := h.array
    lia
  · refine ⟨r, hsend, ?_⟩
    rw [hport]
    exact h
  · refine ⟨r, hsend, ?_⟩
    rw [hport]
    refine ⟨hhead, ?_⟩
    rcases h.array with ⟨hslots, _⟩ | ⟨hone, _⟩
    · exact Or.inl ⟨hslots, Or.inl hnext⟩
    · -- both indices of a queue of one message are 0
      lia

theorem PortIndicesSafe.recv (h : PortIndicesSafe port)
    (buffer : AlpcMessage) : exists r, alpcRecv port buffer = Except.ok r ∧
      PortIndicesSafe r.port := by
  have hhead := h.head_lt
  have hnext := nextIndex_lt port port.queueHead (Nat.zero_lt_of_lt hhead)
  rcases alpcRecv_cases port buffer with ⟨_, hfault⟩ |
    ⟨r, hrecv, ⟨_, hport⟩ | ⟨_, _, _, hport⟩⟩
  · have harray := h.array
    lia
  · refine ⟨r, hrecv, ?_⟩
    rw [hport]
    exact h
  · refine ⟨r, hrecv, ?_⟩
    rw [hport]
    exact ⟨hnext, h.array⟩

theorem PortIndicesSafe.step {event : PortEvent} (h : PortIndicesSafe port)
    (hstep : PortStep port event port') : PortIndicesSafe port' := by
  cases hstep with
  | @send tid msg r hsend =>
      rcases h.send tid msg with ⟨r', hsend', hsafe⟩
      rw [hsend] at hsend'
      cases hsend'
      exact hsafe
  | @recv tid buffer r hrecv =>
      rcases h.recv buffer with ⟨r', hrecv', hsafe⟩
      rw [hrecv] at hrecv'
      cases hrecv'
      exact hsafe

theorem safePort_of_indices (h : PortIndicesSafe port) : SafePort port := by
  intro trace port' hrun
  have hsafe : PortIndicesSafe port' := by
    refine runs_invariant (P := PortIndicesSafe) h ?_ hrun
    intro p event p' hp hstep
    exact hp.step hstep
  constructor
  · intro tid msg
    rcases hsafe.send tid msg with ⟨r, hsend, _⟩
    exact ⟨r, hsend⟩
  · intro buffer
    rcases hsafe.recv buffer with ⟨r, hrecv, _⟩
    exact ⟨r, hrecv⟩

/-!
# Unsafe indices lead to a fault
-/

theorem CallsSafe.sendable (h : CallsSafe port) :
    port.queueSize ≠ 0 ∧
      (nextIndex port port.queueTail = port.queueHead ∨
        port.queueTail < port.msgQueue.slots) := by
  rcases h.send 0 (port.msgQueue.message 0) with ⟨r, hsend⟩
  rcases alpcSend_cases port 0 (port.msgQueue.message 0) with
    ⟨⟨fault, hfault⟩, _⟩ | ⟨_, _, hsize, ⟨hfull, _⟩ | ⟨_, hin, _⟩⟩
  · rw [hsend] at hfault
    cases hfault
  · exact ⟨hsize, Or.inl hfull⟩
  · exact ⟨hsize, Or.inr hin⟩

theorem SafePort.receivable (h : SafePort port)
    (hsome : port.queueHead ≠ port.queueTail) :
    port.queueHead < port.msgQueue.slots ∧ CallsSafe (receivedPort port) := by
  rcases (h [] port (TransitionSystem.Runs.nil port)).recv
    (port.msgQueue.message 0) with ⟨r, hrecv⟩
  rcases alpcRecv_cases port (port.msgQueue.message 0) with
    ⟨⟨fault, hfault⟩, _⟩ | ⟨r', hrecv', ⟨hempty, _⟩ | ⟨_, hin, _, hport⟩⟩
  · rw [hrecv] at hfault
    cases hfault
  · exact absurd hempty hsome
  · refine ⟨hin, ?_⟩
    have hfirst : PortStep port (PortEvent.recv 0 r'.msg r'.ret) r'.port :=
      PortStep.recv hrecv'
    rw [hport] at hfirst
    exact h _ _ (runs_single (T := portSystem port) hfirst)

theorem nextIndex_self {k : Nat} (hword : port.queueSize < 2 ^ 32)
    (hk : k < port.queueSize) (h : nextIndex port k = k) :
    port.queueSize = 1 := by
  unfold nextIndex at h
  rw [next_index_eq hword hk] at h
  rcases Nat.lt_or_eq_of_le (Nat.succ_le_of_lt hk) with hlt | heq
  · rw [Nat.mod_eq_of_lt hlt] at h
    lia
  · rw [show k + 1 = port.queueSize from heq, Nat.mod_self] at h
    lia

theorem indices_of_safePort (h : SafePort port)
    (hword : port.queueSize < 2 ^ 32)
    (halloc : MessagesAllocated port.msgQueue port.queueSize) :
    PortIndicesSafe port := by
  rcases (h [] port (TransitionSystem.Runs.nil port)).sendable with
    ⟨hsize, hsend⟩
  have hnext := nextIndex_lt port port.queueTail (Nat.pos_of_ne_zero hsize)
  by_cases hempty : port.queueHead = port.queueTail
  · -- an empty queue: without an array, the send has to find it full
    rcases halloc with hslots | hnull
    · exact ⟨by lia, Or.inl ⟨hslots, Or.inl (by lia)⟩⟩
    · have hfull : nextIndex port port.queueTail = port.queueTail := by lia
      have hone := nextIndex_self hword (by lia) hfull
      exact ⟨by lia, Or.inr ⟨hone, by lia⟩⟩
  · rcases h.receivable hempty with ⟨hin, hlater⟩
    have hslots : port.msgQueue.slots = port.queueSize :=
      halloc.resolve_right (by lia)
    refine ⟨by lia, Or.inl ⟨hslots, ?_⟩⟩
    by_cases htail : port.queueTail < port.queueSize
    · exact Or.inl htail
    · -- the queue is full before and after a message is received
      right
      have hfull : nextIndex port port.queueTail = port.queueHead := by lia
      have hfull' : nextIndex port port.queueTail =
          nextIndex port port.queueHead := by
        refine hlater.sendable.right.resolve_right ?_
        show ¬ port.queueTail < port.msgQueue.slots
        lia
      exact nextIndex_self hword
        (show port.queueHead < port.queueSize by lia) (by lia)

theorem safePort_iff (hword : port.queueSize < 2 ^ 32)
    (halloc : MessagesAllocated port.msgQueue port.queueSize) :
    SafePort port <-> PortIndicesSafe port :=
  ⟨fun h => indices_of_safePort h hword halloc, safePort_of_indices⟩

end Safe

/-!
# Created ports
-/

theorem alpcCreatePort_safe_iff (block : ByteMemory) (msgQueue : MessageArray)
    (tid : Nat) (name : CString) {queueSize : Nat}
    (hword : queueSize < 2 ^ 32)
    (halloc : MessagesAllocated msgQueue queueSize) :
    SafePort (alpcCreatePort block msgQueue tid name queueSize) <->
      SafeIndices queueSize msgQueue.slots (nameWord name queueHeadOffset)
        (nameWord name queueTailOffset) := by
  rw [safePort_iff hword halloc, PortIndicesSafe, alpcCreatePort_queueHead,
    alpcCreatePort_queueTail]
  rfl

theorem alpcCreatePort_safe_testPort :
    SafePort
      (alpcCreatePort (fun _ => 0) (zeroMessages 64) 2 testPortName 64) := by
  apply (alpcCreatePort_safe_iff (fun _ => 0) (zeroMessages 64) 2 testPortName
    (by decide) (Or.inl rfl)).mpr
  have hhead : nameWord testPortName queueHeadOffset = 0 :=
    nameWord_eq_zero (by decide)
  have htail : nameWord testPortName queueTailOffset = 0 :=
    nameWord_eq_zero (by decide)
  rw [hhead, htail]
  exact ⟨by decide, Or.inl ⟨rfl, Or.inl (by decide)⟩⟩

/-- A port without messages divides by zero in its first send, and one for
which `kmalloc` has returned `NULL` copies its first message to address 0. -/
theorem alpcCreatePort_faults :
    ¬ SafePort
        (alpcCreatePort (fun _ => 0) (zeroMessages 0) 2 testPortName 0) ∧
      ¬ SafePort
        (alpcCreatePort (fun _ => 0) (zeroMessages 0) 2 testPortName 64) := by
  constructor
  · intro hsafe
    have hindices := indices_of_safePort hsafe (by decide) (Or.inl rfl)
    exact Nat.not_lt_zero _ hindices.head_lt
  · intro hsafe
    have hindices := indices_of_safePort hsafe (by decide) (Or.inr rfl)
    rcases hindices.array with ⟨hslots, _⟩ | ⟨hone, _⟩
    · cases hslots
    · cases hone

end Alpc
end Barium
