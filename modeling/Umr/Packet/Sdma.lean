import Umr.Packet.Pm4

/-!
# SDMA streams

`umr_sdma_decode_stream` of `read_sdma_stream.c`: the length of a packet comes
from a table of opcodes and sub-opcodes, for a few of them from words of the
packet itself.  `sdmaKnown` is what `sdma_decode_opcodes.c` knows of the same
opcodes, one decoder per version that hands on to the next older one.
-/

set_option autoImplicit false

namespace Umr.Packet

open Umr.Lib Umr.Rumr

structure SdmaPacket where
  opcode : UInt32
  subOpcode : UInt32
  nwords : UInt32
  headerDw : UInt32
  words : List UInt32
  ibVmid : UInt32
  ibSize : UInt32
  ibAddr : UInt64
  fromVmid : UInt32
  fromAddr : UInt64
  deriving DecidableEq, Repr

/-- `NULL`, or a packet with its `next_ib` and its `next`. -/
inductive SdmaStream where
  | null
  | node (packet : SdmaPacket) (nextIb next : SdmaStream)
  deriving DecidableEq, Repr

def SdmaStream.packets : SdmaStream → List SdmaPacket
  | .null => []
  | .node packet _ next => packet :: next.packets

/-- `ossmaj` is the major version `umr_sdma_get_ip_ver` finds, if it finds one;
`unhandledSize` the length the UI gives for a header with an opcode outside the
table, if there is such a callback and it succeeds. -/
structure SdmaEnv where
  family : ChipFamily
  ossmaj : Option Nat
  noFollowIb : Bool
  unhandledSize : UInt32 → Option UInt32
  readVram : UInt32 → UInt64 → UInt32 → Option (Nat → UInt32)

def sdmaOpcode (header : UInt32) : UInt32 := header &&& 0xFF

def sdmaSubOpcode (header : UInt32) : UInt32 := (header >>> 8) &&& 0xFF

def unsized : UInt32 := 0xFFFFFFFF

/-! ## The length table -/

section Sized
variable (env : SdmaEnv) (header : UInt32)

/-- `stream[k]`, the words behind the header. -/
abbrev WordAccess := Nat → Option UInt32

def sizedCopy (stream : WordAccess) : Except StreamStop UInt32 :=
  let tiled : Bool := header &&& ((3 : UInt32) <<< 26) ≠ 0
  let fromAi : Bool := ChipFamily.ai.code ≤ env.family.code
  let fromNv : Bool := ChipFamily.nv.code ≤ env.family.code
  match (sdmaSubOpcode header).toNat with
  | 0 => .ok (if header &&& ((1 : UInt32) <<< 27) ≠ 0 then 6 + 2 else 6)
  | 1 => .ok (if tiled then (if fromAi then 15 else 14) else (if fromAi then 12 else 11))
  | 3 => .ok 7
  | 4 => .ok 12
  | 5 => .ok (if fromNv then 16 else 13)
  | 6 => .ok (if fromNv then 17 else 14)
  | 7 => .ok 6
  | 8 => do
      let count ← orStop (stream 0)
      pure (6 + (4 : UInt32) * (count >>> (24 : UInt32)))
  | 16 => .ok 6
  | 17 => .ok (if tiled then 15 else 12)
  | 20 => .ok 12
  | 21 => .ok 13
  | 22 => .ok 14
  | 36 => .ok 19
  | _ => .ok unsized

def sizedWrite (stream : WordAccess) : Except StreamStop UInt32 :=
  match (sdmaSubOpcode header).toNat with
  | 0 => do
      let count ← orStop (stream 2)
      pure (4 + (count &&& 0xFFFFF))
  | 1 => do
      let count ← orStop (stream 7)
      pure (9 + (count &&& 0xFFFFF))
  | 2 => do
      let count ← orStop (stream 7)
      pure (9 + (count &&& 0xFFFFF))
  | _ => .ok unsized

def sizedBySub (table : List (Nat × UInt32)) : UInt32 :=
  (table.lookup (sdmaSubOpcode header).toNat).getD unsized

/-- The `switch` on the opcode.  An IB packet reads its three words besides. -/
def sizedOss15 (stream : WordAccess) : Except StreamStop UInt32 :=
  match (sdmaOpcode header).toNat with
  | 0 => .ok ((header >>> 16) &&& 0x3FFF)
  | 1 => sizedCopy env header stream
  | 2 => sizedWrite header stream
  | 4 => do
      let _ ← orStop (stream 1)
      let _ ← orStop (stream 0)
      let _ ← orStop (stream 2)
      pure 5
  | 5 => .ok 3
  | 6 => .ok 1
  | 7 => .ok 2
  | 8 => .ok (sizedBySub header [(0, 5), (1, 3), (2, 4), (3, 12), (4, 3)])
  | 9 => .ok 4
  | 10 => .ok 7
  | 11 => .ok (sizedBySub header [(0, 4), (1, 5)])
  | 12 => .ok (sizedBySub header [(0, 9), (1, 7), (2, 7)])
  | 13 => .ok (sizedBySub header [(0, 2), (1, 2), (2, 2)])
  | 14 => .ok (sizedBySub header [(0, 2), (1, 3)])
  | 15 => .ok 1
  | 16 => .ok 3
  | 17 => .ok 4
  | _ => .ok ((env.unhandledSize header).getD unsized)

/-- The `switch` on the version: only 1 to 6 have a table. -/
def sdmaSize (ossmaj : Nat) (stream : WordAccess) : Except StreamStop UInt32 :=
  if 1 ≤ ossmaj ∧ ossmaj ≤ 6 then sizedOss15 env header stream else .ok unsized

end Sized

/-! ## The loop -/

section Decode
variable (env : SdmaEnv)

def sdmaHeader (header : UInt32) : SdmaPacket where
  opcode := sdmaOpcode header
  subOpcode := sdmaSubOpcode header
  nwords := unsized
  headerDw := header
  words := []
  ibVmid := 0
  ibSize := 0
  ibAddr := 0
  fromVmid := 0
  fromAddr := 0

def withIb (ossmaj : Nat) (fromVmid : UInt32) (stream : WordAccess) (ps : SdmaPacket) :
    SdmaPacket :=
  if (1 ≤ ossmaj ∧ ossmaj ≤ 6) ∧ ps.opcode = 4 then
    let hub : UInt32 := if env.family = .ai then (1 : UInt32) <<< 8 else fromVmid &&& 0xFF00
    { ps with
      ibVmid := ((ps.headerDw >>> 16) &&& 0xF) ||| hub
      ibAddr := (((stream 1).getD 0).toUInt64 <<< 32) ||| ((stream 0).getD 0).toUInt64
      ibSize := (stream 2).getD 0 }
  else ps

def SdmaStream.setFrom (addr : UInt64) (vmid : UInt32) : SdmaStream → SdmaStream
  | .null => .null
  | .node packet nextIb next =>
      .node { packet with fromAddr := addr, fromVmid := vmid } nextIb next

/-- A `follow` decodes the words of an IB, given where it was found. -/
def followSdmaIb (follow : UInt64 → UInt32 → List UInt32 → Except StreamStop SdmaStream)
    (ossmaj : Nat) (here : UInt64) (fromVmid : UInt32) (ps : SdmaPacket) :
    Except StreamStop SdmaStream :=
  if (1 ≤ ossmaj ∧ ossmaj ≤ 6) ∧ ps.opcode = 4 ∧ env.noFollowIb = false then
    match env.readVram ps.ibVmid ps.ibAddr (ps.ibSize * 4) with
    | none => .ok .null
    | some buf => do
        let stream ← follow here ps.ibVmid ((List.range ps.ibSize.toNat).map buf)
        pure (stream.setFrom here fromVmid)
  else .ok .null

/-- What a turn of the loop leaves: `none` when the whole stream is given up. -/
def sdmaLoop (follow : UInt64 → UInt32 → List UInt32 → Except StreamStop SdmaStream)
    (ossmaj : Nat) (fromAddr : UInt64) (fromVmid : UInt32) (stream : List UInt32) :
    Nat → Nat → Nat → Except StreamStop (Option SdmaStream)
  | 0, _, _ => .ok (some .null)
  | turns + 1, offset, nwords =>
      if nwords = 0 then .ok (some .null)
      else do
        let header ← orStop (readWord stream offset)
        let behind : WordAccess := fun k => readWord stream (offset + 1 + k)
        let size ← sdmaSize env header ossmaj behind
        let ps := withIb env ossmaj fromVmid behind { sdmaHeader header with nwords := size }
        let ib ← followSdmaIb env follow ossmaj
          (fromAddr + (UInt64.ofNat (offset + 1) <<< 2)) fromVmid ps
        if size = unsized then .ok none
        else if nwords < 1 + size.toNat then .ok (some .null)
        else do
          let words ← orStop (readWords stream (offset + 1) size.toNat)
          let further ← sdmaLoop follow ossmaj fromAddr fromVmid stream turns
            (offset + (1 + size.toNat)) (nwords - (1 + size.toNat))
          pure (further.map fun next => .node { ps with words := words } ib next)

/-- The first argument bounds how deep IBs are nested. -/
def umrSdmaDecodeStream :
    Nat → UInt64 → UInt32 → List UInt32 → Except StreamStop SdmaStream
  | 0, _, _, _ => .error .depth
  | depth + 1, fromAddr, fromVmid, stream =>
      match env.ossmaj with
      | none => .ok .null
      | some ossmaj =>
          if stream.length = 0 then .ok (.node { sdmaHeader 0 with nwords := 0 } .null .null)
          else do
            let decoded ← sdmaLoop env (umrSdmaDecodeStream depth) ossmaj fromAddr fromVmid stream
              stream.length 0 stream.length
            pure (decoded.getD .null)

end Decode

/-! ## What the opcode decoders know -/

/-- How a decoder's `switch` treats an opcode: it shows every packet, it hands
every packet to the older decoder, or it looks at the sub-opcode. -/
inductive SdmaCase where
  | shown
  | older
  | bySub (shown older : List UInt32)

def knownBy (decoder : UInt32 → SdmaCase) (olderKnows : UInt32 → UInt32 → Bool)
    (opcode sub : UInt32) : Bool :=
  match decoder opcode with
  | .shown => true
  | .older => olderKnows opcode sub
  | .bySub shown older => shown.contains sub || (older.contains sub && olderKnows opcode sub)

def casesUptoVi (opcode : UInt32) : SdmaCase :=
  match opcode.toNat with
  | 0 | 4 | 5 | 6 | 9 | 10 | 15 | 16 | 17 | 32 => .shown
  | 1 => .bySub [0, 1, 3, 4, 5, 6, 7, 8, 16, 17, 20, 21, 22, 36] []
  | 2 => .bySub [0, 1, 17] []
  | 7 => .bySub [0, 1] []
  | 8 => .bySub [0, 1, 2, 3] []
  | 11 => .bySub [0, 1] []
  | 12 => .bySub [0, 1, 2] []
  | 13 => .bySub [0, 1, 2] []
  | 14 => .bySub [0] []
  | _ => .bySub [] []

def casesUptoAi (opcode : UInt32) : SdmaCase :=
  match opcode.toNat with
  | 1 => .bySub [0, 1, 3, 4, 5, 6, 7, 8] [16, 17, 20, 21, 22, 36]
  | 2 => .bySub [0, 1] [17]
  | 5 | 9 | 10 => .shown
  | 7 => .bySub [1] [0]
  | 8 => .bySub [0, 1, 2, 3, 4] []
  | 11 => .bySub [0, 1] []
  | 12 => .bySub [0, 1, 2] []
  | 13 => .bySub [1, 2] [0]
  | 14 => .bySub [0] []
  | _ => .older

def casesUptoNv (opcode : UInt32) : SdmaCase :=
  match opcode.toNat with
  | 1 => .bySub [1, 5, 6, 7, 8] [0, 3, 4, 16, 17, 20, 21, 22, 36]
  | 2 => .bySub [1] [0, 17]
  | 5 => .shown
  | 7 => .bySub [] [0, 1]
  | 8 => .bySub [0, 1, 4] [2, 3]
  | 11 => .bySub [] [0, 1]
  | 12 => .bySub [] [0, 1, 2]
  | 13 => .bySub [] [0, 1, 2]
  | 14 => .bySub [0, 1] []
  | _ => .older

def casesUptoOss7 (opcode : UInt32) : SdmaCase :=
  match opcode.toNat with
  | 1 => .bySub [0, 1, 3, 4, 5, 6, 8, 12, 36] []
  | 2 => .bySub [0, 1] []
  | 5 => .bySub [0, 1] []
  | 6 | 9 | 10 | 16 => .shown
  | 7 => .bySub [1] []
  | 8 => .bySub [0, 1, 2, 4] []
  | 11 => .bySub [0] [1]
  | 12 => .bySub [0, 1, 2] []
  | 13 => .bySub [1, 2] [0]
  | 14 => .bySub [0, 1] []
  | 17 => .bySub [0, 1] []
  | _ => .older

def knownUptoVi : UInt32 → UInt32 → Bool := knownBy casesUptoVi fun _ _ => false

def knownUptoAi : UInt32 → UInt32 → Bool := knownBy casesUptoAi knownUptoVi

def knownUptoNv : UInt32 → UInt32 → Bool := knownBy casesUptoNv knownUptoAi

def knownUptoOss7 : UInt32 → UInt32 → Bool := knownBy casesUptoOss7 knownUptoNv

/-- The version dispatch of `umr_sdma_decode_stream_opcodes`. -/
def sdmaKnown (verMaj : Nat) : UInt32 → UInt32 → Bool :=
  match verMaj with
  | 1 | 2 | 3 => knownUptoVi
  | 4 => knownUptoAi
  | 5 | 6 => knownUptoNv
  | 7 => knownUptoOss7
  | _ => fun _ _ => false

end Umr.Packet
