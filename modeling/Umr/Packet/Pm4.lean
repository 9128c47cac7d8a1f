import Umr.Lib.Framing
import Umr.Rumr.Protocol
import Mathlib.Data.List.Infix

/-!
# PM4 streams

`umr_pm4_decode_stream` of `read_pm4_stream.c` and `umr_pm4_lite_decode_stream`
of `pm4_lite.c`.  A decoded stream is the linked list the code builds: each
packet has the stream of the IB it points to and the packets behind it.

An access to the word array outside its bounds stops the decoder.  The calls
that leave it (register names, VRAM, the size of a shader) are an environment.
-/

set_option autoImplicit false

namespace Umr.Packet

open Umr.Lib Umr.Rumr

inductive ShaderType where
  | pixel | vertex | compute | hs | gs | es | ls | opaque_
  deriving DecidableEq, Repr

structure ShaderPgm where
  vmid : UInt32
  addr : UInt64
  size : UInt32
  type : ShaderType
  rsrc1 : UInt32
  rsrc2 : UInt32
  deriving DecidableEq, Repr

structure Pm4Packet where
  pkttype : UInt32
  pkt0off : UInt32
  opcode : UInt32
  header : UInt32
  nWords : UInt32
  words : List UInt32
  ibAddr : UInt64
  ibVmid : UInt32
  shader : Option ShaderPgm
  invalid : Bool
  deriving DecidableEq, Repr

/-- `NULL`, or a packet with its `ib` and its `next`. -/
inductive Pm4Stream where
  | null
  | node (packet : Pm4Packet) (ib next : Pm4Stream)
  deriving DecidableEq, Repr

def Pm4Stream.packets : Pm4Stream → List Pm4Packet
  | .null => []
  | .node packet _ next => packet :: next.packets

structure ShaderEnable where
  ps : Bool
  vs : Bool
  gs : Bool
  hs : Bool
  es : Bool
  ls : Bool
  esLsSwap : Bool
  comp : Bool
  deriving DecidableEq, Repr

/-- `readVram` is `umr_read_vram` in the caller's partition: the words of the
buffer, or an error. -/
structure Pm4Env where
  family : ChipFamily
  noFollowIb : Bool
  noFollowShader : Bool
  shaderEnable : ShaderEnable
  regName : UInt64 → String
  readVram : UInt32 → UInt64 → UInt32 → Option (Nat → UInt32)
  computeShaderSize : UInt32 → UInt64 → UInt32

def strstr (text pattern : String) : Bool := decide (pattern.toList <:+: text.toList)

inductive StreamStop where
  /-- a word outside the array was read -/
  | outOfBounds
  /-- IBs are nested deeper than the given depth -/
  | depth
  deriving DecidableEq, Repr

def orStop {α : Type} : Option α → Except StreamStop α
  | some value => .ok value
  | none => .error .outOfBounds

/-! ## One packet -/

/-- Payload words are read with a check of their own. -/
def fetchWord (off : Nat) : StateM Pm4Packet UInt32 := fun ps =>
  if ps.nWords.toNat ≤ off then (0, { ps with invalid := true })
  else (ps.words.getD off 0, ps)

def pm4NWords (header : UInt32) : UInt32 := ((header >>> 16) + 1) &&& 0x3FFF

def pm4Header (opcodeOfType : UInt32 → Bool) (header : UInt32) : Pm4Packet where
  pkttype := header >>> 30
  pkt0off := if header >>> 30 = 0 then header &&& 0xFFFF else 0
  opcode := if opcodeOfType (header >>> 30) then (header >>> 8) &&& 0xFF else 0
  header := header
  nWords := pm4NWords header
  words := []
  ibAddr := 0
  ibVmid := 0
  shader := none
  invalid := false

section Parse
variable (env : Pm4Env)

def shaderType (name : String) : ShaderType :=
  let old : Bool := env.family.code ≤ ChipFamily.vi.code
  let swap := !old && env.shaderEnable.esLsSwap
  if strstr name "LO_PS" then
    if env.shaderEnable.ps then .pixel else .opaque_
  else if strstr name "LO_VS" then
    if env.shaderEnable.vs then .vertex else .opaque_
  else if strstr name "LO_HS" then
    if old || env.shaderEnable.hs then .hs else .opaque_
  else if strstr name "LO_GS" then
    if old || env.shaderEnable.gs then .gs else .opaque_
  else if strstr name "LO_LS" then
    if env.shaderEnable.ls then (if swap then .hs else .ls) else .opaque_
  else if strstr name "LO_ES" then
    if env.shaderEnable.es then (if swap then .gs else .es) else .opaque_
  else if env.shaderEnable.comp then .compute else .opaque_

/-- The locals of the `SET_SH_REG` loop. -/
structure ShRegScan where
  na : UInt32
  shaderAddr : UInt64
  type : ShaderType
  rsrc1 : UInt32
  rsrc2 : UInt32
  deriving DecidableEq, Repr

def scanShReg (regAddr : UInt32) (scan : ShRegScan) (n : Nat) : StateM Pm4Packet ShRegScan := do
  let name := env.regName (regAddr + UInt32.ofNat n - 1).toUInt64
  if strstr name "SPI_SHADER_PGM_LO_" || strstr name "COMPUTE_PGM_LO" then do
    let type := shaderType env name
    let word ← fetchWord n
    pure { scan with
      type := type
      shaderAddr := (scan.shaderAddr &&& ~~~(0xFFFFFFFFFF : UInt64)) ||| (word.toUInt64 <<< 8)
      na := if type ≠ .opaque_ then scan.na ||| 1 else scan.na }
  else if strstr name "SPI_SHADER_PGM_HI_" || strstr name "COMPUTE_PGM_HI" then do
    let word ← fetchWord n
    pure { scan with
      shaderAddr := (scan.shaderAddr &&& (0xFFFFFFFFFF : UInt64)) ||| (word.toUInt64 <<< 40)
      na := scan.na ||| 2 }
  else if strstr name "SPI_SHADER_PGM_RSRC1" || strstr name "COMPUTE_PGM_RSRC1" then do
    let word ← fetchWord n
    pure { scan with rsrc1 := word }
  else if strstr name "SPI_SHADER_PGM_RSRC2" || strstr name "COMPUTE_PGM_RSRC2" then do
    let word ← fetchWord n
    pure { scan with rsrc2 := word }
  else pure scan

def parseSetShReg (vmid : UInt32) : StateM Pm4Packet Unit := do
  let first ← fetchWord 0
  let ps ← get
  let scan ← (List.range' 1 (ps.nWords.toNat - 1)).foldlM (scanShReg env (first + 0x2C00))
    ⟨0, 0, .pixel, 0, 0⟩
  if scan.na = 3 then
    let size := if env.noFollowShader then 1 else env.computeShaderSize vmid scan.shaderAddr
    modify fun ps => { ps with
      shader := some ⟨vmid, scan.shaderAddr, size, scan.type, scan.rsrc1, scan.rsrc2⟩ }
  else pure ()

/-- What an IB packet or a UVD register sequence asks to be followed. -/
structure IbRequest where
  vmid : UInt32
  addr : UInt64
  size : UInt32
  deriving DecidableEq, Repr

def parseIndirectBuffer (vmid : UInt32) : StateM Pm4Packet (Option IbRequest) := do
  let lo ← fetchWord 0
  let hi ← fetchWord 1
  let control ← fetchWord 2
  let addr := (lo.toUInt64 &&& ~~~(3 : UInt64)) ||| ((hi &&& 0xFFFF).toUInt64 <<< 32)
  let size := (control &&& (((1 : UInt32) <<< 20) - 1)) * 4
  if size > 1024 * 1024 * 8 then pure none
  else do
    let control ← fetchWord 2
    let tvmid := (control >>> 24) &&& 0xF
    pure (some ⟨if tvmid = 0 then vmid else tvmid, addr, size⟩)

/-- A type 3 packet: the IB to follow, if any. -/
def parsePm4 (vmid : UInt32) : StateM Pm4Packet (Option IbRequest) := do
  let ps ← get
  if ps.opcode = 0x76 then do
    parseSetShReg env vmid
    pure none
  else if ps.opcode = 0x3F ∨ ps.opcode = 0x33 then
    if env.noFollowIb then pure none else parseIndirectBuffer vmid
  else pure none

/-- The locals that collect a UVD IB; `n` is the bit field of what was seen. -/
structure UvdIb where
  n : UInt32
  size : UInt32
  vmid : UInt32
  addr : UInt64
  deriving DecidableEq, Repr

def UvdIb.zero : UvdIb := ⟨0, 0, 0, 0⟩

def trackUvdIb (uvd : UvdIb) : StateM Pm4Packet UvdIb := do
  let ps ← get
  let name := env.regName ps.pkt0off.toUInt64
  if strstr name "mmUVD_LMI_RBC_IB_VMID" then do
    let word ← fetchWord 0
    let hub : UInt32 := if env.family.code ≤ ChipFamily.vi.code then 0 else (1 : UInt32) <<< 8
    pure { uvd with vmid := word ||| hub, n := uvd.n ||| 1 }
  else if strstr name "mmUVD_LMI_RBC_IB_64BIT_BAR_LOW" then do
    let word ← fetchWord 0
    pure { uvd with addr := uvd.addr ||| word.toUInt64, n := uvd.n ||| 2 }
  else if strstr name "mmUVD_LMI_RBC_IB_64BIT_BAR_HIGH" then do
    let word ← fetchWord 0
    pure { uvd with addr := uvd.addr ||| (word.toUInt64 <<< 32), n := uvd.n ||| 4 }
  else if strstr name "mmUVD_RBC_IB_SIZE" then do
    let word ← fetchWord 0
    pure { uvd with size := word * 4, n := uvd.n ||| 8 }
  else pure uvd

/-- A type 0 packet: the IB to follow, if one is complete, and the collected
state afterwards. -/
def parsePkt0 (uvd : UvdIb) : StateM Pm4Packet (Option IbRequest × UvdIb) := do
  let uvd ← trackUvdIb env uvd
  -- everything but the VMID is there: VMID 0
  let uvd := if uvd.n = (2 ||| 4 ||| 8) then { uvd with vmid := 0, n := 15 } else uvd
  if !env.noFollowIb && uvd.n = 15 then
    pure (some ⟨uvd.vmid, uvd.addr, uvd.size⟩, .zero)
  else pure (none, uvd)

def parsePacket (vmid : UInt32) (uvd : UvdIb) (ps : Pm4Packet) :
    (Option IbRequest × UvdIb) × Pm4Packet :=
  if ps.pkttype = 3 then
    let (request, ps) := parsePm4 env vmid ps
    ((request, uvd), ps)
  else if ps.pkttype = 0 then parsePkt0 env uvd ps
  else ((none, uvd), ps)

end Parse

/-! ## The loops -/

section Decode
variable (env : Pm4Env)

/-- A `follow` decodes the words of an IB that belong to a VMID. -/
def followIb (follow : UInt32 → List UInt32 → Except StreamStop Pm4Stream)
    (request : Option IbRequest) (ps : Pm4Packet) : Except StreamStop (Pm4Packet × Pm4Stream) :=
  match request with
  | none => .ok (ps, .null)
  | some ib =>
      match env.readVram ib.vmid ib.addr ib.size with
      | none => .ok (ps, .null)
      | some buf => do
          let stream ← follow ib.vmid ((List.range (ib.size.toNat / 4)).map buf)
          pure ({ ps with ibAddr := ib.addr, ibVmid := ib.vmid }, stream)

/-- The `while` loop at word `offset` with `nwords` words to go; each turn takes
at least one, so the first argument never runs out before they do. -/
def pm4Loop (follow : UInt32 → List UInt32 → Except StreamStop Pm4Stream) (vmid : UInt32)
    (stream : List UInt32) : Nat → Nat → Nat → UvdIb → Except StreamStop Pm4Stream
  | 0, _, _, _ => .ok .null
  | turns + 1, offset, nwords, uvd =>
      if nwords = 0 then .ok .null
      else do
        let header ← orStop (readWord stream offset)
        let ps := pm4Header (· = 3) header
        if nwords < 1 + ps.nWords.toNat then .ok .null
        else do
          let words ← orStop (readWords stream (offset + 1) ps.nWords.toNat)
          let parsed := parsePacket env vmid uvd { ps with words := words }
          let followed ← followIb env follow parsed.1.1 parsed.2
          let next ← pm4Loop follow vmid stream turns (offset + (1 + ps.nWords.toNat))
            (nwords - (1 + ps.nWords.toNat)) parsed.1.2
          pure (.node followed.1 followed.2 next)

def zeroPacket : Pm4Packet := ⟨0, 0, 0, 0, 0, [], 0, 0, none, false⟩

/-- Without any word the first, zeroed packet is returned. -/
def decodeWith (loop : Except StreamStop Pm4Stream) (nwords : Nat) : Except StreamStop Pm4Stream :=
  if nwords = 0 then .ok (.node zeroPacket .null .null) else loop

/-- The first argument bounds how deep IBs are nested. -/
def umrPm4DecodeStream : Nat → UInt32 → List UInt32 → Except StreamStop Pm4Stream
  | 0, _, _ => .error .depth
  | depth + 1, vmid, stream =>
      decodeWith (pm4Loop env (umrPm4DecodeStream depth) vmid stream stream.length 0
        stream.length .zero) stream.length

def pm4LiteLoop (stream : List UInt32) : Nat → Nat → Nat → Except StreamStop Pm4Stream
  | 0, _, _ => .ok .null
  | turns + 1, offset, nwords =>
      if nwords = 0 then .ok .null
      else do
        let header ← orStop (readWord stream offset)
        let ps := pm4Header (· ≠ 0) header
        if nwords < 1 + ps.nWords.toNat then .ok .null
        else do
          let words ← orStop (readWords stream (offset + 1) ps.nWords.toNat)
          let next ← pm4LiteLoop stream turns (offset + (1 + ps.nWords.toNat))
            (nwords - (1 + ps.nWords.toNat))
          pure (.node { ps with words := words } .null next)

def umrPm4LiteDecodeStream (stream : List UInt32) : Except StreamStop Pm4Stream :=
  decodeWith (pm4LiteLoop stream stream.length 0 stream.length) stream.length

end Decode

end Umr.Packet
