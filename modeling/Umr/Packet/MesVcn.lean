import Umr.Packet.Sdma

/-!
# MES and VCN streams

`umr_mes_decode_stream` of `read_mes_stream.c`, `umr_vcn_enc_decode_stream` of
`read_vcn_enc_stream.c` and `umr_vcn_dec_decode_stream` of `read_vcn_dec_stream.c`.
The messages that VCN packets point to are not packets of the stream and are
left out.
-/

set_option autoImplicit false

namespace Umr.Packet

open Umr.Lib Umr.Rumr

/-! ## MES -/

structure MesPacket where
  type : UInt32
  opcode : UInt32
  header : UInt32
  nwords : UInt32
  words : List UInt32
  deriving DecidableEq, Repr

def mesHeader (header : UInt32) : MesPacket where
  type := header &&& 0xF
  opcode := (header >>> 4) &&& 0xFF
  header := header
  nwords := (header >>> 12) &&& 0xFF
  words := []

def zeroMes : MesPacket := ⟨0, 0, 0, 0, []⟩

/-- The length counts the header, the array of words leaves it out. -/
def mesLoop (stream : List UInt32) : Nat → Nat → Nat → Except StreamStop (List MesPacket)
  | 0, _, _ => .ok []
  | turns + 1, offset, nwords =>
      if nwords = 0 then .ok []
      else do
        let header ← orStop (readWord stream offset)
        let ms := mesHeader header
        if nwords < ms.nwords.toNat ∨ ms.nwords = 0 then .ok []
        else do
          let words ← orStop (readWords stream (offset + 1) (ms.nwords.toNat - 1))
          let next ← mesLoop stream turns (offset + ms.nwords.toNat) (nwords - ms.nwords.toNat)
          pure ({ ms with words := words } :: next)

def mesVerMaj : Option (Nat × Nat) → Option Nat
  | none => none
  | some (maj, min) =>
      if maj = 10 ∧ 1 ≤ min then some 10
      else if maj = 11 then some 11
      else if maj = 12 then some 12
      else none

def umrMesDecodeStream (gfx : Option (Nat × Nat)) (stream : List UInt32) :
    Except StreamStop (List MesPacket) :=
  match mesVerMaj gfx with
  | none => .ok []
  | some _ =>
      if stream.length = 0 then .ok [zeroMes] else mesLoop stream stream.length 0 stream.length

/-! ## VCN encode -/

structure VcnEncPacket where
  opcode : UInt32
  nwords : UInt32
  words : List UInt32
  invalid : Bool
  deriving DecidableEq, Repr

def findNwords (opcode : UInt32) : UInt32 :=
  match opcode.toNat with
  | 0x2 => 4
  | 0xC => 3
  | 0x3 => 4
  | 0xB => 2
  | _ => 0

/-- An IB packet has its four words fetched; `fetch_word` takes the length itself
for an offset inside. -/
def vcnEncInvalid (opcode nwords : UInt32) : Bool :=
  opcode = 2 && [0, 1, 2, 3].any fun off => decide (nwords.toNat < off)

def vcnEncLoop (stream : List UInt32) : Nat → Nat → Nat → Except StreamStop (List VcnEncPacket)
  | 0, _, _ => .ok []
  | turns + 1, offset, nwords =>
      if nwords = 0 then .ok []
      else do
        let opcode ← orStop (readWord stream offset)
        let size := findNwords opcode
        if nwords < 1 + size.toNat then .ok []
        else do
          let words ← orStop (readWords stream (offset + 1) size.toNat)
          let next ← vcnEncLoop stream turns (offset + (1 + size.toNat))
            (nwords - (1 + size.toNat))
          pure (⟨opcode, size, words, vcnEncInvalid opcode size⟩ :: next)

def umrVcnEncDecodeStream (stream : List UInt32) : Except StreamStop (List VcnEncPacket) :=
  if stream.length = 0 then .ok [⟨0, 0, [], false⟩]
  else vcnEncLoop stream stream.length 0 stream.length

/-! ## VCN decode -/

def vcnRegName (ip : Nat × Nat) (pkt0off : Nat) : String :=
  if ip.1 = 2 ∧ (ip.2 = 0 ∨ ip.2 = 2) then
    match pkt0off with
    | 0x503 => "mmUVD_GPCOM_VCPU_CMD"
    | 0x504 => "mmUVD_GPCOM_VCPU_DATA0"
    | 0x505 => "mmUVD_GPCOM_VCPU_DATA1"
    | 0x54c => "mmUVD_GPCOM_VCPU_DATA2"
    | 0x506 => "mmUVD_ENGINE_CNTL"
    | 0x1fd => "mmUVD_CONTEXT_ID"
    | 0x53f | 0x81ff => "mmUVD_NO_OP"
    | 0x54a => "mmUVD_GP_SCRATCH8"
    | 0xc01d => "mmUVD_SCRATCH9"
    | 0x1e1 => "mmUVD_LMI_RBC_IB_VMID"
    | 0x5a7 => "mmUVD_LMI_RBC_IB_64BIT_BAR_LOW"
    | 0x5a6 => "mmUVD_LMI_RBC_IB_64BIT_BAR_HIGH"
    | 0x1e2 => "mmUVD_RBC_IB_SIZE"
    | _ => "UNK"
  else
    match pkt0off with
    | 0x0f => "mmUVD_GPCOM_VCPU_CMD"
    | 0x10 => "mmUVD_GPCOM_VCPU_DATA0"
    | 0x11 => "mmUVD_GPCOM_VCPU_DATA1"
    | 0x68 => "mmUVD_GPCOM_VCPU_DATA2"
    | 0x27 => "mmUVD_CONTEXT_ID"
    | 0x29 | 0x81ff => "mmUVD_NO_OP"
    | 0x66 => "mmUVD_GP_SCRATCH8"
    | 0xc01d => "mmUVD_SCRATCH9"
    | 0x431 => "mmUVD_LMI_RBC_IB_VMID"
    | 0x3b4 => "mmUVD_LMI_RBC_IB_64BIT_BAR_LOW"
    | 0x3b5 => "mmUVD_LMI_RBC_IB_64BIT_BAR_HIGH"
    | 0x25c => "mmUVD_RBC_IB_SIZE"
    | 0x26d => "mmUVD_ENGINE_CNTL"
    | _ => "UNK"

/-- Version 1 asks the ASIC model for register names, the others a table. -/
def vcnDecEnv (env : Pm4Env) (ip : Nat × Nat) : Pm4Env :=
  if ip.1 = 1 then env else { env with regName := fun offset => vcnRegName ip offset.toNat }

/-- A header outside the table is a packet without payload. -/
def vcnDecHeader (ip : Nat × Nat) (header : UInt32) : Pm4Packet :=
  let known := ip.1 = 1 ∨ vcnRegName ip (header &&& 0xFFFF).toNat ≠ "UNK"
  { zeroPacket with
    pkttype := header >>> 30
    pkt0off := if known then header &&& 0xFFFF else 0
    opcode := header &&& 0xFFFF
    header := header
    nWords := if known then pm4NWords header else 0 }

section Decode
variable (env : Pm4Env)

/-- The registers of an IB are collected as in a PM4 stream. -/
def parseVcnDec (uvd : UvdIb) (ps : Pm4Packet) : (Option IbRequest × UvdIb) × Pm4Packet :=
  if ps.nWords = 0 then ((none, uvd), ps) else parsePkt0 env uvd ps

def vcnDecLoop (ip : Nat × Nat) (follow : UInt32 → List UInt32 → Except StreamStop Pm4Stream)
    (stream : List UInt32) : Nat → Nat → Nat → UvdIb → Except StreamStop Pm4Stream
  | 0, _, _, _ => .ok .null
  | turns + 1, offset, nwords, uvd =>
      if nwords = 0 then .ok .null
      else do
        let header ← orStop (readWord stream offset)
        let ps := vcnDecHeader ip header
        if nwords < 1 + ps.nWords.toNat then .ok .null
        else do
          let words ← orStop (readWords stream (offset + 1) ps.nWords.toNat)
          let parsed := parseVcnDec (vcnDecEnv env ip) uvd { ps with words := words }
          let followed ← followIb env follow parsed.1.1 parsed.2
          let next ← vcnDecLoop ip follow stream turns (offset + (1 + ps.nWords.toNat))
            (nwords - (1 + ps.nWords.toNat)) parsed.1.2
          pure (.node followed.1 followed.2 next)

/-- The first argument bounds how deep IBs are nested. -/
def umrVcnDecDecodeStream (vcn : Option (Nat × Nat)) :
    Nat → UInt32 → List UInt32 → Except StreamStop Pm4Stream
  | 0, _, _ => .error .depth
  | depth + 1, _, stream =>
      match vcn with
      | none => .ok .null
      | some ip =>
          if 3 < ip.1 then .ok .null
          else decodeWith (vcnDecLoop env ip (umrVcnDecDecodeStream vcn depth) stream stream.length
            0 stream.length .zero) stream.length

end Decode

end Umr.Packet
