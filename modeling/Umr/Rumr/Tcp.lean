import Umr.Rumr.Buffer

/-!
# The TCP transport

`tcp_tx` and `tcp_rx` of `tcp_comm.c`.  A connection is the list of bytes that
will still arrive; `recv` with `MSG_WAITALL` either delivers the requested
number of bytes or the peer is gone.  Every packet travels behind eight bytes:
`RUMR` and the payload length.
-/

set_option autoImplicit false

namespace Umr.Rumr

open Umr.Lib

def rumrMagic : List UInt8 := [0x52, 0x55, 0x4D, 0x52]

def tcpTx (buf : RumrBuffer) : List UInt8 :=
  rumrMagic ++ wordBytes buf.woffset ++ buf.data.take buf.woffset.toNat

def announcedLen (stream : List UInt8) : Option UInt32 :=
  if 8 ≤ stream.length ∧ stream.take 4 = rumrMagic then
    some (bytesWord ((stream.drop 4).take 4))
  else none

/-- `tcp_rx`.  The outer `none` is a store outside the allocation, the inner
one the error return.  The buffer comes from `rumr_buffer_init`, so its `size`
stays 1024 whatever block replaces the storage, and the result of that `calloc`
is not checked: without a block only an empty payload is received. -/
def tcpRx (heap : Nat → Bool) (stream : List UInt8) :
    Option (Option (RumrBuffer × List UInt8)) :=
  match announcedLen stream, rumrBufferInit heap with
  | some len, some buf =>
      let request := len + rumrBufferPreheader
      let arrived := (stream.drop 8).take len.toNat
      if heap request.toNat then
        if arrived.length ≤ payloadBytes request then
          if arrived.length = len.toNat then
            some (some ({ buf with data := arrived, woffset := len },
              stream.drop (8 + len.toNat)))
          else some none
        else none
      else if len = 0 then some (some ({ buf with data := [], woffset := 0 }, stream.drop 8))
      else some none
  | _, _ => some none

def receivedBuffer (payload : List UInt8) : RumrBuffer :=
  ⟨payload, 1024, 0, UInt32.ofNat payload.length, false⟩

/-- Received bytes are the transmitted ones, in front of what follows on the
wire. -/
theorem tcpRx_tcpTx (heap : Nat → Bool) (buf : RumrBuffer) (rest : List UInt8)
    (readable : buf.Readable) (bound : buf.woffset.toNat + 8 < 2 ^ 32)
    (granted : ∀ request, heap request = true) :
    tcpRx heap (tcpTx buf ++ rest) = some (some (receivedBuffer buf.written, rest)) := by
  have headLength : (rumrMagic ++ wordBytes buf.woffset).length = 8 := rfl
  have payloadLength := readable.written_length
  have stream : tcpTx buf ++ rest =
      (rumrMagic ++ wordBytes buf.woffset) ++ (buf.written ++ rest) := by
    simp [tcpTx, RumrBuffer.written, List.append_assoc]
  have announced : announcedLen (tcpTx buf ++ rest) = some buf.woffset := by
    rw [announcedLen, if_pos]
    · rw [stream]
      exact congrArg some (bytesWord_wordBytes buf.woffset)
    · rw [stream]
      refine ⟨?_, rfl⟩
      rw [List.length_append, headLength]
      omega
  have afterHeader : (tcpTx buf ++ rest).drop 8 = buf.written ++ rest := by
    rw [stream]
    rfl
  have arrived : (buf.written ++ rest).take buf.woffset.toNat = buf.written := by
    rw [← payloadLength, List.take_left]
  have after : (tcpTx buf ++ rest).drop (8 + buf.woffset.toNat) = rest := by
    rw [← List.drop_drop, afterHeader, ← payloadLength, List.drop_left]
  have eight : rumrBufferPreheader.toNat = 8 := rfl
  have payload : payloadBytes (buf.woffset + rumrBufferPreheader) = buf.woffset.toNat := by
    rw [payloadBytes, add_toNat_of_lt (by omega)]
    omega
  have initial : rumrBufferInit heap =
      some ⟨List.replicate 1024 0, 1024, 0, 0, false⟩ := if_pos (granted _)
  simp only [tcpRx, announced, initial, granted, if_true, afterHeader, arrived, payload,
    payloadLength, le_refl, after, receivedBuffer, UInt32.ofNat_toNat]

end Umr.Rumr
