import Umr.Lib.Nesting
import Umr.Packet.MesVcn

/-!
# Packets parsed first and followed then

The loops of `umr_pm4_decode_stream` and `umr_vcn_dec_decode_stream` parse a packet
and follow the IB it asks for before they go on.  What a packet asks for does not
depend on what was found in IBs before it, so the same stream comes out if all
packets are framed and parsed first.
-/

set_option autoImplicit false

namespace Umr.Packet

open Umr.Lib Umr.Rumr

/-! ## Both loops -/

section Loop
variable (header : UInt32 → Pm4Packet)
  (parse : UvdIb → Pm4Packet → (Option IbRequest × UvdIb) × Pm4Packet)

def framePackets : Nat → List UInt32 → List Pm4Packet
  | 0, _ => []
  | _ + 1, [] => []
  | turns + 1, word :: behind =>
      let ps := header word
      if behind.length < ps.nWords.toNat then []
      else
        { ps with words := behind.take ps.nWords.toNat } ::
          framePackets turns (behind.drop ps.nWords.toNat)

def parsePackets : UvdIb → List Pm4Packet → List (Pm4Packet × Option IbRequest)
  | _, [] => []
  | uvd, ps :: packets =>
      ((parse uvd ps).2, (parse uvd ps).1.1) :: parsePackets (parse uvd ps).1.2 packets

variable (env : Pm4Env) (follow : UInt32 → List UInt32 → Except StreamStop Pm4Stream)

def followPackets : List (Pm4Packet × Option IbRequest) → Except StreamStop Pm4Stream
  | [] => .ok .null
  | (ps, request) :: packets => do
      let followed ← followIb env follow request ps
      let next ← followPackets packets
      pure (.node followed.1 followed.2 next)

def packetLoop (stream : List UInt32) : Nat → Nat → Nat → UvdIb → Except StreamStop Pm4Stream
  | 0, _, _, _ => .ok .null
  | turns + 1, offset, nwords, uvd =>
      if nwords = 0 then .ok .null
      else do
        let word ← orStop (readWord stream offset)
        let ps := header word
        if nwords < 1 + ps.nWords.toNat then .ok .null
        else do
          let words ← orStop (readWords stream (offset + 1) ps.nWords.toNat)
          let parsed := parse uvd { ps with words := words }
          let followed ← followIb env follow parsed.1.1 parsed.2
          let next ← packetLoop stream turns (offset + (1 + ps.nWords.toNat))
            (nwords - (1 + ps.nWords.toNat)) parsed.1.2
          pure (.node followed.1 followed.2 next)

variable {header parse env follow}

theorem packetLoop_follows {stream : List UInt32} {turns : Nat} :
    ∀ {offset nwords : Nat} {uvd : UvdIb}, offset + nwords = stream.length →
      packetLoop header parse env follow stream turns offset nwords uvd =
        followPackets env follow
          (parsePackets parse uvd (framePackets header turns (stream.drop offset))) := by
  induction turns with
  | zero => exact fun _ => rfl
  | succ turns ih =>
      intro offset nwords uvd whole
      have length : (stream.drop offset).length = nwords := by
        rw [List.length_drop]
        omega
      rw [packetLoop]
      cases left : stream.drop offset with
      | nil =>
          rw [left, List.length_nil] at length
          rw [if_pos length.symm]
          rfl
      | cons word behind =>
          rw [left, List.length_cons] at length
          have some_ : nwords ≠ 0 := by omega
          rw [if_neg some_, readWord_of_drop left, framePackets]
          by_cases short : behind.length < (header word).nWords.toNat
          · rw [if_pos short]
            exact if_pos (by omega)
          · obtain ⟨body, tail, split_, size, read, further⟩ :=
              readWords_of_drop left (Nat.le_of_not_lt short)
            have next := @ih (offset + (1 + (header word).nWords.toNat))
              (nwords - (1 + (header word).nWords.toNat))
              (parse uvd { header word with words := body }).1.2 (by omega)
            have isBody : behind.take (header word).nWords.toNat = body := by
              rw [split_, ← size, List.take_left]
            have isTail : behind.drop (header word).nWords.toNat = tail := by
              rw [split_, ← size, List.drop_left]
            rw [further] at next
            rw [if_neg short, isBody, isTail, parsePackets, followPackets, ← next]
            change (if nwords < 1 + (header word).nWords.toNat then _ else _) = _
            rw [if_neg (by omega), read]
            rfl

end Loop

/-! ## The two decoders -/

section Decoders
variable (env : Pm4Env)

def pm4Parsed (vmid : UInt32) (stream : List UInt32) : List (Pm4Packet × Option IbRequest) :=
  parsePackets (parsePacket env vmid) .zero
    (framePackets (pm4Header (· = 3)) stream.length stream)

def vcnDecParsed (ip : Nat × Nat) (stream : List UInt32) : List (Pm4Packet × Option IbRequest) :=
  parsePackets (parseVcnDec (vcnDecEnv env ip)) .zero
    (framePackets (vcnDecHeader ip) stream.length stream)

variable {env} {follow : UInt32 → List UInt32 → Except StreamStop Pm4Stream}

theorem pm4Loop_eq {vmid : UInt32} {stream : List UInt32} {turns : Nat} :
    ∀ {offset nwords : Nat} {uvd : UvdIb},
      pm4Loop env follow vmid stream turns offset nwords uvd =
        packetLoop (pm4Header (· = 3)) (parsePacket env vmid) env follow stream turns offset nwords
          uvd := by
  induction turns with
  | zero => exact rfl
  | succ turns ih =>
      intro offset nwords uvd
      rw [pm4Loop, packetLoop]
      simp only [ih]

theorem vcnDecLoop_eq {ip : Nat × Nat} {stream : List UInt32} {turns : Nat} :
    ∀ {offset nwords : Nat} {uvd : UvdIb},
      vcnDecLoop env ip follow stream turns offset nwords uvd =
        packetLoop (vcnDecHeader ip) (parseVcnDec (vcnDecEnv env ip)) env follow stream turns offset
          nwords uvd := by
  induction turns with
  | zero => exact rfl
  | succ turns ih =>
      intro offset nwords uvd
      rw [vcnDecLoop, packetLoop]
      simp only [ih]

theorem umrPm4DecodeStream_parsed (depth : Nat) (vmid : UInt32) (stream : List UInt32) :
    umrPm4DecodeStream env (depth + 1) vmid stream =
      decodeWith (followPackets env (umrPm4DecodeStream env depth) (pm4Parsed env vmid stream))
        stream.length := by
  rw [umrPm4DecodeStream, pm4Loop_eq, packetLoop_follows (Nat.zero_add _)]
  rfl

theorem umrVcnDecDecodeStream_parsed {ip : Nat × Nat} (known : ip.1 ≤ 3) (depth : Nat)
    (vmid : UInt32) (stream : List UInt32) :
    umrVcnDecDecodeStream env (some ip) (depth + 1) vmid stream =
      decodeWith (followPackets env (umrVcnDecDecodeStream env (some ip) depth)
        (vcnDecParsed env ip stream)) stream.length := by
  rw [umrVcnDecDecodeStream, if_neg (Nat.not_lt.mpr known), vcnDecLoop_eq, packetLoop_follows (Nat.zero_add _)]
  rfl

end Decoders

end Umr.Packet
