import Umr.Packet.MesVcn
import Umr.Packet.Pm4Framing

/-!
# Disassembly of packet streams

`umr_packet_decode_buffer` and `umr_packet_disassemble_stream` of
`packet_stream.c` for the five packet formats a GUI ring request selects.  The
five opcode decoders are one loop: they open an IB, show the packets of the
stream, enter the IBs the packets point to and close the IB again.  What they
show goes to callbacks of the user interface.
-/

set_option autoImplicit false

namespace Umr.Packet

open Umr.Lib Umr.Rumr

inductive Callback where
  | startIb (ibAddr : UInt64) (ibVmid : UInt32)
  | startOpcode (nwords header : UInt32) (rawData : List UInt32)
  | done
  deriving DecidableEq, Repr

/-! ## The loop -/

/-- A linked list of packets: `NULL`, or a packet with the list of the IB it
points to and the packets behind it. -/
inductive Linked (α : Type) where
  | null
  | node (packet : α) (ib next : Linked α)

/-- What an opcode decoder does with a packet. -/
structure StreamLoop (α : Type) where
  header : α → UInt32
  words : α → List UInt32
  /-- where the IB of the packet comes from -/
  source : α → UInt64 × UInt32
  /-- the `nwords` of the `start_opcode` call, if there is one -/
  call : α → Option UInt32
  /-- a pointer without an array behind it is read -/
  fault : α → Bool
  follow : α → Bool
  /-- the loop ends behind the packet -/
  stop : α → Bool

section Loop
variable {α : Type} (loop : StreamLoop α)

def Linked.isNull : Linked α → Bool
  | .null => true
  | .node .. => false

theorem Linked.eq_null {stream : Linked α} (null : stream.isNull = true) : stream = .null := by
  cases stream with
  | null => rfl
  | node packet ib next => cases null

def Linked.All (holds : α → Prop) : Linked α → Prop
  | .null => True
  | .node packet ib next => holds packet ∧ ib.All holds ∧ next.All holds

def StreamLoop.shows (packet : α) : List Callback :=
  match loop.call packet with
  | none => []
  | some nwords => [.startOpcode nwords (loop.header packet) (loop.words packet)]

def inIb (source : UInt64 × UInt32) (calls : List Callback) : List Callback :=
  .startIb source.1 source.2 :: (calls ++ [.done])

def StreamLoop.enters (packet : α) (ib : Linked α) : Bool := loop.follow packet && !ib.isNull

/-- The calls between `start_ib` and `done`.  `opcodes` is `~0UL`, which is more
packets than a stream has words. -/
def StreamLoop.calls : Linked α → Option (List Callback)
  | .null => some []
  | .node packet ib next =>
      if loop.fault packet then none
      else
        (if loop.enters packet ib then (StreamLoop.calls ib).map (inIb (loop.source packet))
          else some []).bind fun inner =>
        (if loop.stop packet then some [] else StreamLoop.calls next).map fun further =>
          loop.shows packet ++ (inner ++ further)

def decodeStreamOpcodes (ibAddr : UInt64) (ibVmid : UInt32) (stream : Linked α) :
    Option (List Callback) :=
  (loop.calls stream).map (inIb (ibAddr, ibVmid))

end Loop

/-! ## The five decoders -/

/-- How the fields of a packet are shown: to the end, with a `fetch_word` behind
the payload, or with an access that is not checked. -/
inductive FieldsEnd where
  | fine | pastEnd | crash
  deriving DecidableEq, Repr

/-- `gfxMaj` is what `umr_gfx_get_ip_ver` finds, `mesGfx` the version of the
`gfx` block of the caller's partition, `vcn` the version of the `vcn` block. -/
structure RingEnv where
  pm4 : Pm4Env
  sdma : SdmaEnv
  gfxMaj : Nat
  mesGfx : Option (Nat × Nat)
  vcn : Option (Nat × Nat)
  /-- `decode_pkt3` on a packet -/
  pkt3Fields : Pm4Packet → FieldsEnd
  /-- the field decoders of `sdma_decode_opcodes.c` on a packet -/
  sdmaFields : SdmaPacket → FieldsEnd

/-- `pm4_pkt_names`: the first major version that has the opcode, `none` for
`UNK`.  The minor version is 0 throughout. -/
def pm4PktMaj (opcode : Nat) : Option Nat :=
  match opcode with
  | 0x10 | 0x12 | 0x15 | 0x1d | 0x1e | 0x22 | 0x27 | 0x28 | 0x2d | 0x2f | 0x33 | 0x37 | 0x3c
  | 0x3f | 0x40 | 0x42 | 0x43 | 0x46 | 0x47 | 0x49 | 0x4a | 0x50 | 0x58 | 0x5e | 0x5f | 0x60
  | 0x61 | 0x63 | 0x68 | 0x69 | 0x76 | 0x79 | 0x7a | 0x80 | 0x81 | 0x83 | 0x84 | 0x86 | 0x8b
  | 0x90 | 0x91 | 0x95 | 0x9a | 0x9b | 0x9f | 0xa0 | 0xa1 | 0xa2 | 0xa3 | 0xa4 | 0xa5 => some 8
  | 0x11 | 0x13 | 0x16 | 0x20 | 0x25 | 0x26 | 0x38 | 0x51 | 0x5d => some 9
  | 0x4c | 0x4d | 0xa9 | 0xaa | 0xad => some 10
  | 0xb9 | 0xbb | 0xbd => some 11
  | 0xa7 | 0xb8 | 0xba | 0xbc | 0xbe | 0xef => some 12
  | _ => none

section Decoders
variable (env : RingEnv)

/-- A type 0 packet, or a type 3 packet with a name. -/
def pm4Named (ps : Pm4Packet) : Bool :=
  ps.pkttype = 0 ||
    (ps.pkttype = 3 && (pm4PktMaj ps.opcode.toNat).any fun maj => decide (maj ≤ env.gfxMaj))

def pm4FieldsEnd (ps : Pm4Packet) : FieldsEnd :=
  if ps.pkttype = 3 then env.pkt3Fields ps else .fine

/-- A packet of another type is tested under the name the packet before it left;
its words are never fetched, so it neither is invalid nor has an IB, and it is
not shown under any name. -/
def pm4StreamLoop : StreamLoop Pm4Packet where
  header := (·.header)
  words := (·.words)
  source ps := (ps.ibAddr, ps.ibVmid)
  call ps := if pm4Named env ps then some ps.nWords else none
  fault ps := pm4Named env ps && pm4FieldsEnd env ps = .crash
  follow ps := pm4Named env ps && !(ps.invalid || pm4FieldsEnd env ps = .pastEnd)
  stop ps := pm4Named env ps && (ps.invalid || pm4FieldsEnd env ps = .pastEnd)

/-- A linear copy with the broadcast bit is compared with 1, which the masked bit
never is. -/
def sdmaShown (ps : SdmaPacket) : Bool :=
  match env.sdma.ossmaj with
  | none => false
  | some verMaj =>
      sdmaKnown verMaj ps.opcode ps.subOpcode &&
        !(ps.opcode = 1 && ps.subOpcode = 0 && ps.headerDw &&& ((1 : UInt32) <<< 27) ≠ 0)

/-- The IB is entered while the fields are shown, before the test for `invalid`. -/
def sdmaStreamLoop : StreamLoop SdmaPacket where
  header := (·.headerDw)
  words := (·.words)
  source ps := (ps.ibAddr, ps.ibVmid)
  call ps := if sdmaShown env ps then some (ps.nwords + 1) else none
  fault ps := sdmaShown env ps && env.sdmaFields ps = .crash
  follow ps := sdmaShown env ps && ps.opcode = 4
  stop ps := sdmaShown env ps && env.sdmaFields ps = .pastEnd

def mesStreamLoop : StreamLoop MesPacket where
  header := (·.header)
  words := (·.words)
  source _ := (0, 0)
  call ms := if ms.nwords = 0 then none else some ms.nwords
  fault _ := false
  follow _ := false
  stop ms := ms.nwords = 0

def vcnEncStreamLoop : StreamLoop VcnEncPacket where
  header := (·.opcode)
  words := (·.words)
  source _ := (0, 0)
  call ps := some ps.nwords
  fault _ := false
  follow _ := false
  stop ps := ps.invalid

/-- Past version 1 the first payload word of a command is shown without a look at
the length; without payload there is no array. -/
def vcnCommandFault (ip : Nat × Nat) (ps : Pm4Packet) : Bool :=
  ip.1 ≠ 1 && vcnRegName ip ps.pkt0off.toNat = "mmUVD_GPCOM_VCPU_CMD" && ps.nWords = 0

def vcnDecStreamLoop (ip : Nat × Nat) : StreamLoop Pm4Packet where
  header := (·.header)
  words := (·.words)
  source ps := (ps.ibAddr, ps.ibVmid)
  call ps := some ps.nWords
  fault := vcnCommandFault ip
  follow ps := !ps.invalid
  stop ps := ps.invalid

def Pm4Stream.linked : Pm4Stream → Linked Pm4Packet
  | .null => .null
  | .node packet ib next => .node packet ib.linked next.linked

def SdmaStream.linked : SdmaStream → Linked SdmaPacket
  | .null => .null
  | .node packet nextIb next => .node packet nextIb.linked next.linked

def Linked.ofList {α : Type} : List α → Linked α
  | [] => .null
  | packet :: packets => .node packet .null (Linked.ofList packets)

def umrPm4DecodeStreamOpcodes (stream : Pm4Stream) (ibAddr : UInt64) (ibVmid : UInt32) :
    Option (List Callback) :=
  decodeStreamOpcodes (pm4StreamLoop env) ibAddr ibVmid stream.linked

/-- Without a version nothing is called; with one outside the table the first
packet ends the function and the IB stays open. -/
def umrSdmaDecodeStreamOpcodes (stream : SdmaStream) (ibAddr : UInt64) (ibVmid : UInt32) :
    Option (List Callback) :=
  match env.sdma.ossmaj with
  | none => some []
  | some verMaj =>
      if (1 ≤ verMaj ∧ verMaj ≤ 7) ∨ stream = .null then
        decodeStreamOpcodes (sdmaStreamLoop env) ibAddr ibVmid stream.linked
      else some [.startIb ibAddr ibVmid]

def umrMesDecodeStreamOpcodes (stream : List MesPacket) (ibAddr : UInt64) (ibVmid : UInt32) :
    Option (List Callback) :=
  match mesVerMaj env.mesGfx with
  | none => some []
  | some _ => decodeStreamOpcodes mesStreamLoop ibAddr ibVmid (Linked.ofList stream)

def umrVcnEncDecodeStreamOpcodes (stream : List VcnEncPacket) (ibAddr : UInt64)
    (ibVmid : UInt32) : Option (List Callback) :=
  decodeStreamOpcodes vcnEncStreamLoop ibAddr ibVmid (Linked.ofList stream)

def umrVcnDecDecodeStreamOpcodes (stream : Pm4Stream) (ibAddr : UInt64) (ibVmid : UInt32) :
    Option (List Callback) :=
  match env.vcn with
  | none => some []
  | some ip => decodeStreamOpcodes (vcnDecStreamLoop ip) ibAddr ibVmid stream.linked

end Decoders

/-! ## The wrapper -/

/-- The packet formats the GUI selects from the name of a ring. -/
inductive RingFormat where
  | pm4 | sdma | mes | vcnEnc | vcnDec
  deriving DecidableEq, Repr

def ringFormatOf (ringName : String) : RingFormat :=
  let named := fun start : String => start.toList.isPrefixOf ringName.toList
  if named "sdma" || named "page" then .sdma
  else if named "mes" then .mes
  else if named "vcn_enc" || named "vcn_unified_" then .vcnEnc
  else if named "vcn_dec" then .vcnDec
  else .pm4

inductive PacketStream where
  | pm4 (stream : Pm4Stream)
  | sdma (stream : SdmaStream)
  | mes (stream : List MesPacket)
  | vcnEnc (stream : List VcnEncPacket)
  | vcnDec (stream : Pm4Stream)

section Wrapper
variable (env : RingEnv)

def unlessNull {σ : Type} (wrap : σ → PacketStream) (null : σ → Bool)
    (decoded : Except StreamStop σ) : Except StreamStop (Option PacketStream) :=
  decoded.map fun stream => if null stream then none else some (wrap stream)

def umrPacketDecodeBuffer (depth : Nat) (fromVmid : UInt32) (fromAddr : UInt64)
    (stream : List UInt32) : RingFormat → Except StreamStop (Option PacketStream)
  | .pm4 => unlessNull .pm4 (· = .null) (umrPm4DecodeStream env.pm4 depth fromVmid stream)
  | .sdma =>
      unlessNull .sdma (· = .null) (umrSdmaDecodeStream env.sdma depth fromAddr fromVmid stream)
  | .mes => unlessNull .mes (·.isEmpty) (umrMesDecodeStream env.mesGfx stream)
  | .vcnEnc => unlessNull .vcnEnc (·.isEmpty) (umrVcnEncDecodeStream stream)
  | .vcnDec =>
      unlessNull .vcnDec (· = .null) (umrVcnDecDecodeStream env.pm4 env.vcn depth fromVmid stream)

/-- The whole stream with IBs entered; `none` when a read faults. -/
def umrPacketDisassembleStream (ibAddr : UInt64) (ibVmid : UInt32) :
    PacketStream → Option (List Callback)
  | .pm4 stream => umrPm4DecodeStreamOpcodes env stream ibAddr ibVmid
  | .sdma stream => umrSdmaDecodeStreamOpcodes env stream ibAddr ibVmid
  | .mes stream => umrMesDecodeStreamOpcodes env stream ibAddr ibVmid
  | .vcnEnc stream => umrVcnEncDecodeStreamOpcodes stream ibAddr ibVmid
  | .vcnDec stream => umrVcnDecDecodeStreamOpcodes env stream ibAddr ibVmid

end Wrapper

end Umr.Packet
