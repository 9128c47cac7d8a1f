import Umr.Lib.Run
import Umr.Rumr.Tcp

/-!
# Messages on one connection

A connection delivers its bytes reliably and in order.  Both ends use it in any
interleaving: `tcp_tx` puts a framed message at the end of what is in flight,
`tcp_rx` takes one from the front, and waits while nothing is in flight.
-/

set_option autoImplicit false

namespace Umr.Rumr

open Umr.Lib

/-- The bytes in flight, with a record of the payloads sent and received so far. -/
structure Connection where
  inFlight : List UInt8
  sent : List (List UInt8)
  received : List (List UInt8)

inductive CommEvent where
  | tx (buf : RumrBuffer)
  | rx

/-- One call at either end; `none` is an error return or a store outside the buffer. -/
def Connection.step (heap : Nat → Bool) : CommEvent → Connection → Option Connection
  | .tx buf, connection =>
      some { connection with
        inFlight := connection.inFlight ++ tcpTx buf
        sent := connection.sent ++ [buf.written] }
  | .rx, connection =>
      if connection.inFlight = [] then some connection
      else
        match tcpRx heap connection.inFlight with
        | some (some (buf, rest)) =>
            some { connection with
              inFlight := rest
              received := connection.received ++ [buf.written] }
        | _ => none

/-- Successive `tcp_rx` calls: the payloads obtained, and what is left in flight. -/
def receiveAll (heap : Nat → Bool) : Nat → List UInt8 → Option (List (List UInt8) × List UInt8)
  | 0, stream => some ([], stream)
  | count + 1, stream =>
      match tcpRx heap stream with
      | some (some (buf, rest)) =>
          (receiveAll heap count rest).map fun later => (buf.written :: later.1, later.2)
      | _ => none

/-- A buffer whose written bytes are a payload `tcp_tx` can announce: fewer than
`2 ^ 32 - 8` bytes. -/
structure Sendable (buf : RumrBuffer) : Prop where
  readable : buf.Readable
  small : buf.woffset.toNat < 2 ^ 32 - 8

def CommEvent.Sends : CommEvent → Prop
  | .tx buf => Sendable buf
  | .rx => True

section Delivery
variable {heap : Nat → Bool}

theorem tcpTx_ne_nil (buf : RumrBuffer) (rest : List UInt8) : tcpTx buf ++ rest ≠ [] := by
  simp [tcpTx, rumrMagic]

theorem tcpRx_sendable (granted : ∀ request, heap request = true) {buf : RumrBuffer}
    (sendable : Sendable buf) (rest : List UInt8) :
    tcpRx heap (tcpTx buf ++ rest) = some (some (receivedBuffer buf.written, rest)) := by
  have small := sendable.small
  exact tcpRx_tcpTx heap buf rest sendable.readable (by omega) granted

theorem receivedBuffer_written {buf : RumrBuffer} (sendable : Sendable buf) :
    (receivedBuffer buf.written).written = buf.written := by
  have length := sendable.readable.written_length
  have word : buf.woffset.toNat < 2 ^ 32 := buf.woffset.toNat_lt
  simp only [receivedBuffer, RumrBuffer.written] at length ⊢
  rw [ofNat_toNat_of_lt (by omega), List.take_length]

theorem receiveAll_tcpTx (granted : ∀ request, heap request = true) (bufs : List RumrBuffer)
    (sendable : ∀ buf ∈ bufs, Sendable buf) (rest : List UInt8) :
    receiveAll heap bufs.length (bufs.flatMap tcpTx ++ rest) =
      some (bufs.map RumrBuffer.written, rest) := by
  induction bufs with
  | nil => rfl
  | cons buf bufs ih =>
      have first := sendable buf List.mem_cons_self
      have others := ih fun later member => sendable later (List.mem_cons_of_mem _ member)
      rw [List.flatMap_cons, List.append_assoc, List.length_cons, receiveAll,
        tcpRx_sendable granted first]
      simp only [others, Option.map_some, receivedBuffer_written first, List.map_cons]

/-- The messages in flight are whole ones, and they are the sent payloads that have not
been received. -/
structure Connection.Inv (connection : Connection) (pending : List RumrBuffer) : Prop where
  sendable : ∀ buf ∈ pending, Sendable buf
  inFlight : connection.inFlight = pending.flatMap tcpTx
  sent : connection.sent = connection.received ++ pending.map RumrBuffer.written

theorem Connection.Inv.tx (heap : Nat → Bool) {connection : Connection} {pending : List RumrBuffer}
    (inv : connection.Inv pending) {buf : RumrBuffer} (sendable : Sendable buf) :
    ∃ next, connection.step heap (.tx buf) = some next ∧ next.Inv (pending ++ [buf]) := by
  refine ⟨_, rfl, ?_, ?_, ?_⟩
  · intro other member
    rcases List.mem_append.mp member with old | new
    · exact inv.sendable other old
    · rw [List.mem_singleton.mp new]
      exact sendable
  · simp [inv.inFlight, List.flatMap_append]
  · simp [inv.sent, List.append_assoc]

theorem Connection.Inv.rx (granted : ∀ request, heap request = true) {connection : Connection}
    {pending : List RumrBuffer} (inv : connection.Inv pending) :
    ∃ next rest, connection.step heap .rx = some next ∧ next.Inv rest := by
  cases pending with
  | nil =>
      have idle : connection.inFlight = [] := inv.inFlight
      exact ⟨connection, [], by simp [Connection.step, idle], inv⟩
  | cons buf rest =>
      have first := inv.sendable buf List.mem_cons_self
      have front : connection.inFlight = tcpTx buf ++ rest.flatMap tcpTx := by
        rw [inv.inFlight, List.flatMap_cons]
      have busy : connection.inFlight ≠ [] := by
        rw [front]
        exact tcpTx_ne_nil buf _
      refine ⟨{ connection with
        inFlight := rest.flatMap tcpTx
        received := connection.received ++ [buf.written] }, rest, ?_, ?_, rfl, ?_⟩
      · rw [Connection.step, if_neg busy, front, tcpRx_sendable granted first]
        simp only [receivedBuffer_written first]
      · intro other member
        exact inv.sendable other (List.mem_cons_of_mem _ member)
      · simp [inv.sent]

theorem Connection.step_inv (granted : ∀ request, heap request = true) (connection : Connection)
    (event : CommEvent) (sends : event.Sends) (inv : ∃ pending, connection.Inv pending) :
    ∃ next, connection.step heap event = some next ∧ ∃ pending, next.Inv pending := by
  obtain ⟨pending, holds⟩ := inv
  cases event with
  | tx buf =>
      obtain ⟨next, taken, kept⟩ := holds.tx heap sends
      exact ⟨next, taken, _, kept⟩
  | rx =>
      obtain ⟨next, rest, taken, kept⟩ := holds.rx granted
      exact ⟨next, taken, rest, kept⟩

theorem Connection.Inv.delivers (granted : ∀ request, heap request = true)
    {connection : Connection} {pending : List RumrBuffer} (inv : connection.Inv pending) :
    receiveAll heap pending.length connection.inFlight =
      some (pending.map RumrBuffer.written, []) := by
  have all := receiveAll_tcpTx granted pending inv.sendable []
  rwa [List.append_nil, ← inv.inFlight] at all

end Delivery

/-- Both ends at work in any interleaving: no call fails, the payloads received so far are
the first ones of those sent, and the calls of `tcp_rx` to come return the others, in order
and one each, and leave nothing behind. -/
theorem connection_delivers (heap : Nat → Bool) (granted : ∀ request, heap request = true)
    (events : List CommEvent) (sends : ∀ event ∈ events, event.Sends) :
    Safe (Connection.step heap)
      (fun connection => ∃ pending, connection.sent = connection.received ++ pending ∧
        receiveAll heap pending.length connection.inFlight = some (pending, []))
      events ⟨[], [], []⟩ := by
  have start : (⟨[], [], []⟩ : Connection).Inv [] := ⟨by simp, rfl, rfl⟩
  have safe := safe_of_step (Connection.step_inv granted) events sends _ ⟨[], start⟩
  apply safe.mono
  rintro connection ⟨pending, inv⟩
  refine ⟨pending.map RumrBuffer.written, inv.sent, ?_⟩
  rw [List.length_map]
  exact inv.delivers granted

def wordMessage (value : UInt32) : RumrBuffer := ⟨wordBytes value, 4, 0, 4, false⟩

theorem wordMessage_sendable (value : UInt32) : Sendable (wordMessage value) :=
  ⟨⟨UInt32.le_iff_toNat_le.mpr (Nat.zero_le _), Nat.le_refl 4⟩, by
    change 4 < 2 ^ 32 - 8
    norm_num⟩

theorem two_messages_delivered :
    Safe (Connection.step fun _ => true)
      (fun connection => ∃ pending, connection.sent = connection.received ++ pending ∧
        receiveAll (fun _ => true) pending.length connection.inFlight = some (pending, []))
      [.tx (wordMessage 1), .rx, .tx (wordMessage 2), .tx (wordMessage 3), .rx, .rx, .rx]
      ⟨[], [], []⟩ := by
  apply connection_delivers (fun _ => true) (fun _ => rfl)
  intro event member
  simp only [List.mem_cons, List.not_mem_nil, or_false] at member
  rcases member with rfl | rfl | rfl | rfl | rfl | rfl | rfl
  · exact wordMessage_sendable 1
  · trivial
  · exact wordMessage_sendable 2
  · exact wordMessage_sendable 3
  · trivial
  · trivial
  · trivial

end Umr.Rumr
