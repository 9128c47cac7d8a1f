import Umr.Packet.Sdma

/-!
# VPE streams

`umr_vpe_decode_stream` of `read_vpe_stream.c`, and of the opcode decoder of
`vpe_decode_opcodes.c` the words it fetches from a packet: both count the payload
by the same fields, each for itself.
-/

set_option autoImplicit false

namespace Umr.Packet

open Umr.Lib Umr.Rumr

structure VpePacket where
  opcode : UInt32
  subOpcode : UInt32
  nwords : UInt32
  headerDw : UInt32
  words : List UInt32
  ibVmid : UInt32
  ibSize : UInt32
  ibAddr : UInt64
  fromVmid : UInt32
  fromAddr : UInt64
  deriving DecidableEq, Repr

/-- `NULL`, or a packet with its `next_ib` and its `next`. -/
inductive VpeStream where
  | null
  | node (packet : VpePacket) (nextIb next : VpeStream)
  deriving DecidableEq, Repr

structure VpeEnv where
  family : ChipFamily
  noFollowIb : Bool
  readVram : UInt32 → UInt64 → UInt32 → Option (Nat → UInt32)

def vpeOpcode (header : UInt32) : UInt32 := header &&& 0xFF

def vpeSubOpcode (header : UInt32) : UInt32 := (header >>> 8) &&& 0xFF

/-- `nwords` of a packet without a length of its own stays what `calloc` made it. -/
def sizedPlaneConfig (header : UInt32) : UInt32 :=
  let nps0 := (header >>> 16) &&& 3
  let npd0 := (header >>> 18) &&& 3
  let nps1 := (header >>> 20) &&& 3
  let npd1 := (header >>> 22) &&& 3
  match (vpeSubOpcode header).toNat with
  | 0 => (2 : UInt32) + 5 * (1 + nps0) + 5 * (1 + npd0)
  | 1 => 2 + 5 * (1 + nps0) + 5 * (1 + nps1) + 5 * (1 + npd0)
  | 2 => 2 + 5 * (1 + nps0) + 5 * (1 + nps1) + 5 * (1 + npd0) + 5 * (1 + npd1)
  | _ => 0

def sizedVpepConfig (header : UInt32) : UInt32 :=
  match (vpeSubOpcode header).toNat with
  | 0 => (header >>> 16) + 1
  | 1 => (3 : UInt32) + ((header >>> (28 : UInt32)) + 1) * 3
  | _ => 0

/-- The `switch` on the opcode; `none` is its `default`. -/
def vpeSize (header : UInt32) (stream : WordAccess) : Except StreamStop (Option UInt32) :=
  match (vpeOpcode header).toNat with
  | 0 => .ok (some 0)
  | 1 => do
      let count ← orStop (stream 2)
      pure (some (3 + ((count + 1) &&& 0xFF) * 2))
  | 2 => .ok (some (sizedPlaneConfig header))
  | 3 => .ok (some (sizedVpepConfig header))
  | 4 => do
      let _ ← orStop (stream 1)
      let _ ← orStop (stream 0)
      let _ ← orStop (stream 2)
      pure (some 5)
  | 5 => .ok (some 3)
  | 6 => .ok (some 1)
  | 7 => .ok (some 2)
  | 8 => .ok (some (if vpeSubOpcode header ≠ 0 then 3 else 5))
  | 9 => .ok (some 4)
  | 10 => .ok (some 7)
  | 13 => .ok (some (if vpeSubOpcode header ≤ 2 then 2 else 0))
  | _ => .ok none

/-! ## The loop -/

section Decode
variable (env : VpeEnv)

def vpeHeader (header : UInt32) : VpePacket where
  opcode := vpeOpcode header
  subOpcode := vpeSubOpcode header
  nwords := 0
  headerDw := header
  words := []
  ibVmid := 0
  ibSize := 0
  ibAddr := 0
  fromVmid := 0
  fromAddr := 0

def withVpeIb (stream : WordAccess) (ps : VpePacket) : VpePacket :=
  if ps.opcode = 4 then
    let hub : UInt32 := if ChipFamily.ai.code ≤ env.family.code then (1 : UInt32) <<< 8 else 0
    { ps with
      ibVmid := ((ps.headerDw >>> 16) &&& 0xF) ||| hub
      ibAddr := (((stream 1).getD 0).toUInt64 <<< 32) ||| ((stream 0).getD 0).toUInt64
      ibSize := (stream 2).getD 0 }
  else ps

def VpeStream.setFrom (addr : UInt64) (vmid : UInt32) : VpeStream → VpeStream
  | .null => .null
  | .node packet nextIb next =>
      .node { packet with fromAddr := addr, fromVmid := vmid } nextIb next

/-- A `follow` decodes the words of an IB, given where it was found. -/
def followVpeIb (follow : UInt64 → UInt32 → List UInt32 → Except StreamStop VpeStream)
    (here : UInt64) (fromVmid : UInt32) (ps : VpePacket) : Except StreamStop VpeStream :=
  if ps.opcode = 4 ∧ env.noFollowIb = false then
    match env.readVram ps.ibVmid ps.ibAddr (ps.ibSize * 4) with
    | none => .ok .null
    | some buf => do
        let stream ← follow here ps.ibVmid ((List.range ps.ibSize.toNat).map buf)
        pure (stream.setFrom here fromVmid)
  else .ok .null

/-- What a turn of the loop leaves: `none` when the whole stream is given up. -/
def vpeLoop (follow : UInt64 → UInt32 → List UInt32 → Except StreamStop VpeStream)
    (fromAddr : UInt64) (fromVmid : UInt32) (stream : List UInt32) :
    Nat → Nat → Nat → Except StreamStop (Option VpeStream)
  | 0, _, _ => .ok (some .null)
  | turns + 1, offset, nwords =>
      if nwords = 0 then .ok (some .null)
      else do
        let header ← orStop (readWord stream offset)
        let behind : WordAccess := fun k => readWord stream (offset + 1 + k)
        let sized ← vpeSize header behind
        match sized with
        | none => pure none
        | some size =>
            let ps := withVpeIb env behind { vpeHeader header with nwords := size }
            let ib ← followVpeIb env follow (fromAddr + (UInt64.ofNat (offset + 1) <<< 2))
              fromVmid ps
            if nwords < 1 + size.toNat then pure (some .null)
            else do
              let words ← orStop (readWords stream (offset + 1) size.toNat)
              let further ← vpeLoop follow fromAddr fromVmid stream turns
                (offset + (1 + size.toNat)) (nwords - (1 + size.toNat))
              pure (further.map fun next => .node { ps with words := words } ib next)

/-- The first argument bounds how deep IBs are nested. -/
def umrVpeDecodeStream : Nat → UInt64 → UInt32 → List UInt32 → Except StreamStop VpeStream
  | 0, _, _, _ => .error .depth
  | depth + 1, fromAddr, fromVmid, stream =>
      if stream.length = 0 then .ok (.node (vpeHeader 0) .null .null)
      else do
        let decoded ← vpeLoop env (umrVpeDecodeStream depth) fromAddr fromVmid stream
          stream.length 0 stream.length
        pure (decoded.getD .null)

end Decode

/-! ## The opcode decoder -/

section Opcodes
variable (ps : VpePacket)

/-- `fetch_word`, which checks the length of the packet for itself. -/
def vpeFetchWord (off : UInt32) : UInt32 :=
  if ps.nwords ≤ off then 0 else ps.words.getD off.toNat 0

def fetchRun : Nat → UInt32 → List UInt32
  | 0, _ => []
  | count + 1, n => n :: fetchRun count (n + 1)

/-- The descriptor's loop from `n` on; its condition fetches the count again each time. -/
def descriptorFetches : Nat → UInt32 → Option (List UInt32)
  | 0, _ => none
  | turns + 1, n =>
      if n < (vpeFetchWord ps 2 &&& 0xFF) + 1 then
        (descriptorFetches turns (n + 1)).map fun later =>
          [2, 3 + 2 * n, 3 + 2 * n, 3 + 2 * n, 4 + 2 * n] ++ later
      else some [2]

def planeFetches (n : UInt32) : List UInt32 :=
  [n + 0, n + 1, n + 2, n + 3, n + 3, n + 4, n + 4, n + 4]

def planeConfigFetches : List UInt32 :=
  let nps0 := (ps.headerDw >>> 16) &&& 3
  let npd0 := (ps.headerDw >>> 18) &&& 3
  let source : List UInt32 := [0, 0, 0, 1, 2, 3, 4, 4, 5, 5, 5]
  let n : UInt32 := 6
  let further := if nps0 ≠ 0 then planeFetches n else []
  let n := if nps0 ≠ 0 then n + 5 else n
  let destination := [n, n, n] ++ planeFetches (n + 1)
  let n := n + 1 + 5
  source ++ further ++ destination ++ if npd0 ≠ 0 then planeFetches n else []

def vpepConfigDataSize (word : UInt32) : UInt32 := (word >>> 20) + 1

/-- The direct config's loop with `size` words of the array to go; both counters wrap. -/
def directConfigFetches : Nat → UInt32 → UInt32 → Option (List UInt32)
  | 0, _, _ => none
  | turns + 1, size, n =>
      if size = 0 then some []
      else
        let dataSize := vpepConfigDataSize (vpeFetchWord ps n)
        (directConfigFetches turns (size - 1 - dataSize) (n + 1 + dataSize)).map fun later =>
          [n, n, n, n, n] ++ fetchRun dataSize.toNat (n + 1) ++ later

def indirectConfigFetches : Nat → UInt32 → List UInt32
  | 0, _ => []
  | numDst + 1, n => [n + 0, n + 0, n + 1, n + 2, n + 2] ++ indirectConfigFetches numDst (n + 3)

/-- The words that `umr_vpe_decode_stream_opcodes` fetches from a packet, in order;
`none` if its loop takes more than `turns` turns. -/
def vpeFetches (turns : Nat) : Option (List UInt32) :=
  match ps.opcode.toNat with
  | 1 => (descriptorFetches ps turns 0).map fun loop => [0, 0, 1, 2] ++ loop
  | 2 => some (planeConfigFetches ps)
  | 3 =>
      match ps.subOpcode.toNat with
      | 0 => directConfigFetches ps turns ((ps.headerDw >>> 16) + 1) 0
      | 1 => some (([0, 1, 1, 2] : List UInt32) ++
          indirectConfigFetches (((ps.headerDw >>> 28) + 1) &&& 0xF).toNat 3)
      | _ => some []
  | 4 => some [0, 1, 2, 3, 4]
  | 5 => some [0, 1, 2]
  | 6 => some [0]
  | 7 => some [0, 0, 0, 0, 1]
  | 8 =>
      match ps.subOpcode.toNat with
      | 0 =>
          if ps.headerDw &&& ((1 : UInt32) <<< 31) = 0 then some [0, 0, 2, 3, 4, 4]
          else some [0, 1, 2, 3, 4, 4]
      | 1 => some [0, 0, 1, 2]
      | _ => some []
  | 9 => some [0, 1, 2, 3]
  | 10 => some [0, 1, 2, 3, 4, 5, 6]
  | 13 =>
      match ps.subOpcode.toNat with
      | 0 | 1 | 2 => some [0, 1]
      | _ => some []
  | _ => some []

end Opcodes

end Umr.Packet
