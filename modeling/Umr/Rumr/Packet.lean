import Umr.Rumr.Server

/-!
# Decoding a received packet

A received packet is read word by word from its start.  A read past the end
returns zero and does not move, so word `k` of a packet has a closed form for
packets of every length, and with it every decoder of the server.
-/

set_option autoImplicit false

namespace Umr.Rumr

open Umr.Lib

def packetWord (payload : List UInt8) (k : Nat) : UInt32 :=
  if 4 * k + 4 ≤ payload.length then bytesWord ((payload.drop (4 * k)).take 4) else 0

def packetAt (payload : List UInt8) (k : Nat) : RumrBuffer :=
  { receivedBuffer payload with
    roffset := UInt32.ofNat (4 * min k (payload.length / 4)) }

section Words
variable {payload : List UInt8}

theorem packetAt_zero : packetAt payload 0 = receivedBuffer payload := by
  simp [packetAt, receivedBuffer]

theorem packetAt_roffset (payload : List UInt8) (k : Nat) (small : 4 * k < 2 ^ 32) :
    (packetAt payload k).roffset.toNat = 4 * min k (payload.length / 4) := by
  simp only [packetAt]
  exact ofNat_toNat_of_lt (by omega)

theorem packetAt_readable (k : Nat) (bound : payload.length < 2 ^ 32)
    (small : 4 * k < 2 ^ 32) : (packetAt payload k).Readable := by
  have roffset := packetAt_roffset payload k small
  have woffset : (packetAt payload k).woffset.toNat = payload.length :=
    ofNat_toNat_of_lt bound
  refine ⟨?_, Nat.le_of_eq woffset⟩
  rw [UInt32.le_iff_toNat_le, roffset, woffset]
  omega

theorem packetAt_unread (k : Nat) (bound : payload.length < 2 ^ 32)
    (small : 4 * k < 2 ^ 32) :
    (packetAt payload k).unread = payload.drop (4 * min k (payload.length / 4)) := by
  rw [RumrBuffer.unread, packetAt_roffset payload k small]
  simp only [RumrBuffer.written, packetAt, receivedBuffer, ofNat_toNat_of_lt bound,
    List.take_length]

theorem readUint32_packetAt (payload : List UInt8) (k : Nat) (bound : payload.length < 2 ^ 32)
    (small : 4 * k + 4 < 2 ^ 32) :
    rumrBufferReadUint32 (packetAt payload k) =
      some (packetWord payload k, packetAt payload (k + 1)) := by
  have roffset := packetAt_roffset payload k (by omega)
  have woffset : (packetAt payload k).woffset.toNat = payload.length :=
    ofNat_toNat_of_lt bound
  have four : (4 : UInt32).toNat = 4 := rfl
  have read : rumrBufferReadUint32 (packetAt payload k) =
      (rumrBufferReadData 4 (packetAt payload k)).bind
        fun pair => some (bytesWord pair.1, pair.2) := rfl
  rw [read]
  by_cases whole : 4 * k + 4 ≤ payload.length
  · have count : min k (payload.length / 4) = k := by omega
    have nextCount : min (k + 1) (payload.length / 4) = k + 1 := by omega
    rw [count] at roffset
    have sum : ((packetAt payload k).roffset + 4).toNat = 4 * k + 4 := by
      rw [add_toNat_of_lt (by omega), roffset, four]
    have inside : (packetAt payload k).roffset + 4 ≤ (packetAt payload k).woffset := by
      rw [UInt32.le_iff_toNat_le, sum, woffset]
      exact whole
    have room : (4 : UInt32).toNat = 0 ∨ (packetAt payload k).roffset.toNat +
        (4 : UInt32).toNat ≤ (packetAt payload k).data.length := by
      rw [roffset, four]
      exact Or.inr whole
    have next : (packetAt payload k).roffset + 4 =
        UInt32.ofNat (4 * min (k + 1) (payload.length / 4)) := by
      apply UInt32.toNat_inj.mp
      rw [sum, nextCount, ofNat_toNat_of_lt (by omega)]
      omega
    simp only [rumrBufferReadData, if_pos inside, if_pos room, Option.bind_some, packetWord,
      if_pos whole]
    rw [next, roffset]
    rfl
  · have count : min k (payload.length / 4) = payload.length / 4 := by omega
    have nextCount : min (k + 1) (payload.length / 4) = payload.length / 4 := by omega
    rw [count] at roffset
    rw [rumrBufferReadData_short _ 4 (by omega) (by omega)]
    simp only [Option.bind_some, packetWord, if_neg whole, packetAt, count, nextCount]
    rfl

theorem readUint32_bind_packetAt {α : Type} (next : UInt32 → StateT RumrBuffer Option α)
    (k : Nat) (bound : payload.length < 2 ^ 32) (small : 4 * k + 4 < 2 ^ 32) :
    (rumrBufferReadUint32 >>= next) (packetAt payload k) =
      next (packetWord payload k) (packetAt payload (k + 1)) := by
  change (rumrBufferReadUint32 (packetAt payload k)).bind
    (fun pair => next pair.1 pair.2) = _
  rw [readUint32_packetAt payload k bound small]
  rfl

end Words

section Decoders
variable (payload : List UInt8)

theorem decodeGprAccess_packetAt (bound : payload.length < 2 ^ 32) :
    decodeGprAccess (packetAt payload 1) =
      some (⟨packetWord payload 1, packetWord payload 2, packetWord payload 3,
        packetWord payload 4, packetWord payload 5, packetWord payload 6,
        packetWord payload 7, packetWord payload 8, packetWord payload 9⟩,
        packetAt payload 10) := by
  simp (disch := omega) only [decodeGprAccess, readUint32_bind_packetAt]
  rfl

theorem decodeWaveAccess_packetAt (bound : payload.length < 2 ^ 32) :
    decodeWaveAccess (packetAt payload 1) =
      some (⟨packetWord payload 1, packetWord payload 2, packetWord payload 3,
        packetWord payload 4, packetWord payload 5⟩, packetAt payload 6) := by
  simp (disch := omega) only [decodeWaveAccess, readUint32_bind_packetAt]
  rfl

theorem decodeMemAccess_packetAt (bound : payload.length < 2 ^ 32) :
    decodeMemAccess (packetAt payload 1) =
      some (⟨packetWord payload 1, packetWord payload 2, packetWord payload 3,
        packetWord payload 4⟩, packetAt payload 5) := by
  simp (disch := omega) only [decodeMemAccess, readUint32_bind_packetAt]
  rfl

theorem decodeRegAccess_packetAt (bound : payload.length < 2 ^ 32) :
    decodeRegAccess (packetAt payload 1) =
      if packetWord payload 3 &&& 1 = 0 then
        some (⟨packetWord payload 1, packetWord payload 2, packetWord payload 3,
          packetWord payload 4, packetWord payload 5, packetWord payload 6,
          packetWord payload 7, some (packetWord payload 8, packetWord payload 9)⟩,
          packetAt payload 10)
      else
        some (⟨packetWord payload 1, packetWord payload 2, packetWord payload 3,
          packetWord payload 4, packetWord payload 5, packetWord payload 6,
          packetWord payload 7, none⟩, packetAt payload 8) := by
  simp (disch := omega) only [decodeRegAccess, readUint32_bind_packetAt]
  split
  · rename_i isWrite
    simp (disch := omega) only [decodeRegValue, if_pos isWrite, bind_assoc,
      readUint32_bind_packetAt]
    rfl
  · rename_i isRead
    simp only [decodeRegValue, if_neg isRead]
    rfl

def packetRingName (payload : List UInt8) : List UInt8 :=
  if 132 ≤ payload.length then ((payload.drop 4).take 128).take 127 ++ [0]
  else List.replicate 127 0 ++ [0]

theorem decodeRingAccess_packetAt (bound : payload.length < 2 ^ 32) :
    decodeRingAccess (packetAt payload 1) =
      some (packetRingName payload, packetAt payload (if 132 ≤ payload.length then 33 else 1)) := by
  have roffset := packetAt_roffset payload 1 (by omega)
  have woffset : (packetAt payload 1).woffset.toNat = payload.length :=
    ofNat_toNat_of_lt bound
  have width : (128 : UInt32).toNat = 128 := rfl
  have read : decodeRingAccess (packetAt payload 1) =
      (rumrBufferReadData 128 (packetAt payload 1)).bind
        fun pair => some (pair.1.take 127 ++ [0], pair.2) := rfl
  rw [read, packetRingName]
  by_cases whole : 132 ≤ payload.length
  · rw [if_pos whole, if_pos whole]
    have count : min 1 (payload.length / 4) = 1 := by omega
    have nextCount : min 33 (payload.length / 4) = 33 := by omega
    rw [count] at roffset
    have sum : ((packetAt payload 1).roffset + 128).toNat = 132 := by
      rw [add_toNat_of_lt (by omega), roffset, width]
    have inside : (packetAt payload 1).roffset + 128 ≤ (packetAt payload 1).woffset := by
      rw [UInt32.le_iff_toNat_le, sum, woffset]
      exact whole
    have room : (128 : UInt32).toNat = 0 ∨ (packetAt payload 1).roffset.toNat +
        (128 : UInt32).toNat ≤ (packetAt payload 1).data.length := by
      rw [roffset, width]
      exact Or.inr whole
    have next : (packetAt payload 1).roffset + 128 =
        UInt32.ofNat (4 * min 33 (payload.length / 4)) := by
      apply UInt32.toNat_inj.mp
      rw [sum, nextCount]
      rfl
    simp only [rumrBufferReadData, if_pos inside, if_pos room, Option.bind_some]
    rw [next, roffset]
    rfl
  · rw [if_neg whole, if_neg whole]
    rw [rumrBufferReadData_short _ 128 (by omega) (by omega)]
    simp only [Option.bind_some, width, List.take_replicate]
    rfl

/-- The loop on a received packet.  The test of the SERVER bit has dropped out:
no header has a bit in common with `0`. -/
theorem rumrServerLoop_packet {σ : Type} (server : Server σ) (heap : Nat → Bool) (txOk : Bool)
    (state : ServerState σ) (bound : payload.length < 2 ^ 32) :
    rumrServerLoop server ⟨heap, some (receivedBuffer payload), txOk⟩ state =
      if headerVersion (packetWord payload 0) ≠ rumrVersion then ⟨none, .ok (-1, state)⟩
      else dispatch server ⟨heap, some (receivedBuffer payload), txOk⟩ (packetWord payload 0)
        (packetAt payload 1) state := by
  have header := readUint32_packetAt payload 0 bound (by decide)
  rw [packetAt_zero] at header
  have noBit : ¬ packetWord payload 0 &&& 0 ≠ 0 := by
    rw [UInt32.and_zero]
    exact fun different => different rfl
  simp only [rumrServerLoop, header, if_neg noBit]

/-- Behind a complete memory request: 20 bytes are read, and the write check,
which takes every packet for 1024 bytes, expects 1004 more. -/
theorem packetAt_five (complete : 20 ≤ payload.length) :
    (packetAt payload 5).roffset.toNat = 20 ∧
      (packetAt payload 5).size - (packetAt payload 5).roffset = 1004 := by
  have count : 4 * min 5 (payload.length / 4) = 20 := by omega
  have roffset := packetAt_roffset payload 5 (by decide)
  rw [count] at roffset
  have value : (packetAt payload 5).roffset = 20 := UInt32.toNat_inj.mp roffset
  have size : (packetAt payload 5).size = 1024 := rfl
  refine ⟨roffset, ?_⟩
  rw [value, size]
  decide

def Requests (payload : List UInt8) (opcode : Opcode) : Prop :=
  headerVersion (packetWord payload 0) = rumrVersion ∧
    headerOpcode (packetWord payload 0) = some opcode

def startSession {σ : Type} (state : ServerState σ) (payload : List UInt8) : Session σ :=
  ⟨state.device, state.options, packetAt payload 1, { emptyBuffer with woffset := 4 }⟩

theorem rumrServerLoop_requested {σ : Type} (server : Server σ) (heap : Nat → Bool)
    (txOk : Bool) (state : ServerState σ) (opcode : Opcode) (bound : payload.length < 2 ^ 32)
    (requested : Requests payload opcode) (returns : opcode ≠ .goodbye)
    (buffer : heap (1024 + rumrBufferPreheader).toNat = true) :
    (rumrServerLoop server ⟨heap, some (receivedBuffer payload), txOk⟩ state).finish =
      (runCommand heap server opcode (startSession state payload)).map
        (sendReply (packetWord payload 0) txOk state) := by
  obtain ⟨version, known⟩ := requested
  have init : rumrBufferInit heap = some emptyBuffer := if_pos buffer
  rw [rumrServerLoop_packet payload _ _ _ _ bound, if_neg (fun wrong => wrong version)]
  simp only [dispatch, init, known]
  cases opcode with
  | goodbye => exact absurd rfl returns
  | _ => rfl

theorem rumrServerLoop_fault {σ : Type} (server : Server σ) (heap : Nat → Bool)
    (txOk : Bool) (state : ServerState σ) (fault : Fault) (bound : payload.length < 2 ^ 32)
    (stopped : (rumrServerLoop server ⟨heap, some (receivedBuffer payload), txOk⟩
      state).finish = .error fault) :
    ∃ opcode, Requests payload opcode ∧
      runCommand heap server opcode (startSession state payload) = .error fault := by
  by_cases version : headerVersion (packetWord payload 0) = rumrVersion
  · cases buffer : heap (1024 + rumrBufferPreheader).toNat with
    | false =>
        have noBuffer : rumrBufferInit heap = none := by
          rw [rumrBufferInit, buffer]
          rfl
        rw [rumrServerLoop_packet payload _ _ _ _ bound,
          if_neg (fun wrong => wrong version)] at stopped
        simp only [dispatch, noBuffer] at stopped
        cases stopped
    | true =>
        have init : rumrBufferInit heap = some emptyBuffer := if_pos buffer
        cases known : headerOpcode (packetWord payload 0) with
        | none =>
            rw [rumrServerLoop_packet payload _ _ _ _ bound,
              if_neg (fun wrong => wrong version)] at stopped
            simp only [dispatch, init, known] at stopped
            cases stopped
        | some opcode =>
            refine ⟨opcode, ⟨version, known⟩, ?_⟩
            by_cases returns : opcode = .goodbye
            · rw [rumrServerLoop_packet payload _ _ _ _ bound,
                if_neg (fun wrong => wrong version)] at stopped
              simp only [dispatch, init, known, returns] at stopped
              cases stopped
            · rw [rumrServerLoop_requested payload server heap txOk state opcode bound
                ⟨version, known⟩ returns buffer] at stopped
              cases run : runCommand heap server opcode (startSession state payload) with
              | ok pair =>
                  rw [run] at stopped
                  cases stopped
              | error reached =>
                  rw [run] at stopped
                  cases stopped
                  rfl
  · rw [rumrServerLoop_packet payload _ _ _ _ bound, if_pos version] at stopped
    cases stopped

end Decoders

end Umr.Rumr
