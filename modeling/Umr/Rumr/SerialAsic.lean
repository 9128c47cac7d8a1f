import Umr.Lib.Codec
import Umr.Rumr.Buffer

/-!
# The serialized ASIC

`rumr_serialize_asic` and `rumr_parse_serialized_asic` of `rumr_serial_asic.c`,
with the `umr_scan_config_gca_data` of `scan_config.c` that ends the parser.
The format is a fixed head followed by three nested lists: IP blocks, their
registers, and the bit-fields of each register.  Names travel in fields of 64
or 128 bytes.
-/

set_option autoImplicit false

namespace Umr.Rumr

open Umr.Lib

/-! ## The data model -/

structure Bitfield where
  regname : CString
  start : UInt8
  stop : UInt8
  deriving DecidableEq

structure Reg where
  regname : CString
  type : UInt32
  addr : UInt64
  bit64 : UInt64
  bits : List Bitfield
  deriving DecidableEq

structure Discoverable where
  die : UInt32
  maj : UInt32
  min : UInt32
  rev : UInt32
  instance_ : UInt32
  logicalInst : UInt32
  deriving DecidableEq

structure IpBlock where
  ipname : CString
  discoverable : Discoverable
  regs : List Reg
  deriving DecidableEq

/-- `uint32_t data[512]`, as its bytes in memory. -/
structure ConfigData where
  bytes : List UInt8
  length : bytes.length = 2048
  deriving DecidableEq

def ConfigData.word (data : ConfigData) (k : Nat) : UInt32 :=
  bytesWord ((data.bytes.drop (4 * k)).take 4)

def ConfigData.ofBytes (bytes : List UInt8) : ConfigData where
  bytes := (bytes ++ List.replicate 2048 0).take 2048
  length := by
    rw [List.length_take, List.length_append, List.length_replicate]
    omega

/-- The fields of `umr_asic` that are serialized. -/
structure AsicModel where
  asicname : CString
  did : UInt32
  family : UInt32
  vgprGranularity : UInt32
  configData : ConfigData
  vramSize : UInt64
  visVramSize : UInt64
  gttSize : UInt64
  isApu : UInt32
  blocks : List IpBlock
  deriving DecidableEq

structure GfxConfig where
  maxShaderEngines : UInt32
  maxTilePipes : UInt32
  maxCuPerSh : UInt32
  maxShPerSe : UInt32
  maxBackendsPerSe : UInt32
  maxTextureChannelCaches : UInt32
  maxGprs : UInt32
  maxGsThreads : UInt32
  maxHwContexts : UInt32
  scPrimFifoSizeFrontend : UInt32
  scPrimFifoSizeBackend : UInt32
  scHizTileFifoSize : UInt32
  scEarlyzTileFifoSize : UInt32
  numTilePipes : UInt32
  backendEnableMask : UInt32
  memMaxBurstLengthBytes : UInt32
  memRowSizeInKb : UInt32
  shaderEngineTileSize : UInt32
  numGpus : UInt32
  multiGpuTileSize : UInt32
  mcArbRamcfg : UInt32
  gbAddrConfig : UInt32
  numRbs : UInt32
  revId : UInt32
  pgFlags : UInt64
  cgFlags : UInt64
  family : UInt32
  externalRevId : UInt32
  deriving DecidableEq

structure PciConfig where
  device : UInt32
  revision : UInt32
  subsystemDevice : UInt32
  subsystemVendor : UInt32
  deriving DecidableEq

structure ParsedAsic where
  model : AsicModel
  gfx : GfxConfig
  pci : PciConfig
  configIsApu : UInt32
  deriving DecidableEq

/-! ## Decoding the GCA data -/

def ParsedAsic.fresh (model : AsicModel) : ParsedAsic where
  model := model
  gfx := ⟨0, 0, 0, 0, 0, 0, 0, 0, 0, 0, 0, 0, 0, 0, 0, 0, 0, 0, 0, 0, 0, 0, 0, 0, 0, 0, 0, 0⟩
  pci := ⟨0, 0, 0, 0⟩
  configIsApu := 0

def parseRev0 (asic : ParsedAsic) : ParsedAsic :=
  let data := asic.model.configData.word
  { asic with gfx := { asic.gfx with
    maxShaderEngines := data 1
    maxTilePipes := data 2
    maxCuPerSh := data 3
    maxShPerSe := data 4
    maxBackendsPerSe := data 5
    maxTextureChannelCaches := data 6
    maxGprs := data 7
    maxGsThreads := data 8
    maxHwContexts := data 9
    scPrimFifoSizeFrontend := data 10
    scPrimFifoSizeBackend := data 11
    scHizTileFifoSize := data 12
    scEarlyzTileFifoSize := data 13
    numTilePipes := data 14
    backendEnableMask := data 15
    memMaxBurstLengthBytes := data 16
    memRowSizeInKb := data 17
    shaderEngineTileSize := data 18
    numGpus := data 19
    multiGpuTileSize := data 20
    mcArbRamcfg := data 21
    gbAddrConfig := data 22
    numRbs := data 23 } }

def parseRev1 (asic : ParsedAsic) : ParsedAsic :=
  let asic := parseRev0 asic
  let data := asic.model.configData.word
  { asic with
    gfx := { asic.gfx with
      revId := data 24
      pgFlags := (data 25).toUInt64
      cgFlags := (data 26).toUInt64 }
    configIsApu := asic.model.isApu }

def parseRev2 (asic : ParsedAsic) : ParsedAsic :=
  let asic := parseRev1 asic
  let data := asic.model.configData.word
  { asic with gfx := { asic.gfx with family := data 27, externalRevId := data 28 } }

def parseRev3 (asic : ParsedAsic) : ParsedAsic :=
  let asic := parseRev2 asic
  let data := asic.model.configData.word
  { asic with pci := ⟨data 29, data 30, data 31, data 32⟩ }

/-- From this revision on the flag in the data replaces the serialized one. -/
def parseRev4 (asic : ParsedAsic) : ParsedAsic :=
  let asic := parseRev3 asic
  let data := asic.model.configData.word
  { asic with configIsApu := data 33, model := { asic.model with isApu := data 33 } }

def parseRev5 (asic : ParsedAsic) : ParsedAsic :=
  let asic := parseRev4 asic
  let data := asic.model.configData.word
  { asic with gfx := { asic.gfx with
    pgFlags := asic.gfx.pgFlags ||| ((data 34).toUInt64 <<< 32)
    cgFlags := asic.gfx.cgFlags ||| ((data 35).toUInt64 <<< 32) } }

/-- `none` is the call of `err_msg`, which a parsed ASIC does not have. -/
def umrScanConfigGcaData (asic : ParsedAsic) : Option ParsedAsic :=
  let version := asic.model.configData.word 0
  if version = 0 then some (parseRev0 asic)
  else if version = 1 then some (parseRev1 asic)
  else if version = 2 then some (parseRev2 asic)
  else if version = 3 then some (parseRev3 asic)
  else if version = 4 then some (parseRev4 asic)
  else if version = 5 then some (parseRev5 asic)
  else none

/-! ## Writing -/

/-- The first `width` bytes of a zeroed `char[256]` that the name was copied
to. -/
def nameField (width : Nat) (name : CString) : List UInt8 :=
  (name.bytes ++ List.replicate (256 - name.bytes.length) 0).take width

section Serialize
variable (heap : Nat → Bool)

def serializeBitfield (bit : Bitfield) : StateT RumrBuffer Option Unit := do
  rumrBufferAddData heap (nameField 128 bit.regname)
  rumrBufferAddUint32 heap bit.start.toUInt32
  rumrBufferAddUint32 heap bit.stop.toUInt32

def serializeReg (reg : Reg) : StateT RumrBuffer Option Unit := do
  rumrBufferAddData heap (nameField 128 reg.regname)
  rumrBufferAddUint32 heap reg.type
  rumrBufferAddUint32 heap (loWord reg.addr)
  rumrBufferAddUint32 heap (hiWord reg.addr)
  rumrBufferAddUint32 heap reg.bit64.toUInt32
  rumrBufferAddUint32 heap (UInt32.ofNat reg.bits.length)
  writeMany (serializeBitfield heap) reg.bits

def serializeBlock (block : IpBlock) : StateT RumrBuffer Option Unit := do
  rumrBufferAddData heap (nameField 64 block.ipname)
  rumrBufferAddUint32 heap (UInt32.ofNat block.regs.length)
  rumrBufferAddUint32 heap block.discoverable.die
  rumrBufferAddUint32 heap block.discoverable.maj
  rumrBufferAddUint32 heap block.discoverable.min
  rumrBufferAddUint32 heap block.discoverable.rev
  rumrBufferAddUint32 heap block.discoverable.instance_
  rumrBufferAddUint32 heap block.discoverable.logicalInst
  writeMany (serializeReg heap) block.regs

def serializeFields (asic : AsicModel) : StateT RumrBuffer Option Unit := do
  rumrBufferAddData heap (nameField 64 asic.asicname)
  rumrBufferAddUint32 heap asic.did
  rumrBufferAddUint32 heap asic.family
  rumrBufferAddUint32 heap asic.vgprGranularity
  rumrBufferAddUint32 heap 2048
  rumrBufferAddData heap asic.configData.bytes
  rumrBufferAddUint32 heap (loWord asic.vramSize)
  rumrBufferAddUint32 heap (hiWord asic.vramSize)
  rumrBufferAddUint32 heap (loWord asic.visVramSize)
  rumrBufferAddUint32 heap (hiWord asic.visVramSize)
  rumrBufferAddUint32 heap (loWord asic.gttSize)
  rumrBufferAddUint32 heap (hiWord asic.gttSize)
  rumrBufferAddUint32 heap asic.isApu
  rumrBufferAddUint32 heap (UInt32.ofNat asic.blocks.length)
  writeMany (serializeBlock heap) asic.blocks

/-- The outer `none` is a store outside the buffer, the inner one `NULL`. -/
def rumrSerializeAsic (asic : AsicModel) : Option (Option RumrBuffer) :=
  match rumrBufferInit heap with
  | none => some none
  | some buf =>
      match serializeFields heap asic buf with
      | none => none
      | some (_, buf) => if buf.failed then some none else some (some buf)

end Serialize

/-! ## Reading -/

def loopRounds (count : UInt32) : Nat := if count.toNat < 2 ^ 31 then count.toNat else 0

def parseName (width : UInt32) : StateT RumrBuffer Option CString := do
  let linebuf ← rumrBufferReadData width
  pure (CString.ofBuffer linebuf)

def parseUint64 : StateT RumrBuffer Option UInt64 := do
  let lo ← rumrBufferReadUint32
  let hi ← rumrBufferReadUint32
  pure (joinWords lo hi)

def parseBitfield : StateT RumrBuffer Option Bitfield := do
  let regname ← parseName 128
  let start ← rumrBufferReadUint32
  let stop ← rumrBufferReadUint32
  pure ⟨regname, start.toUInt8, stop.toUInt8⟩

def parseReg : StateT RumrBuffer Option Reg := do
  let regname ← parseName 128
  let type ← rumrBufferReadUint32
  let addr ← parseUint64
  let bit64 ← rumrBufferReadUint32
  let noBits ← rumrBufferReadUint32
  let bits ← readMany parseBitfield (loopRounds noBits)
  pure ⟨regname, type, addr, bit64.toUInt64, bits⟩

def parseDiscoverable : StateT RumrBuffer Option Discoverable := do
  let die ← rumrBufferReadUint32
  let maj ← rumrBufferReadUint32
  let min ← rumrBufferReadUint32
  let rev ← rumrBufferReadUint32
  let instance_ ← rumrBufferReadUint32
  let logicalInst ← rumrBufferReadUint32
  pure ⟨die, maj, min, rev, instance_, logicalInst⟩

def parseBlock : StateT RumrBuffer Option IpBlock := do
  let ipname ← parseName 64
  let noRegs ← rumrBufferReadUint32
  let discoverable ← parseDiscoverable
  let regs ← readMany parseReg (loopRounds noRegs)
  pure ⟨ipname, discoverable, regs⟩

def parseTail (asicname : CString) (did family vgprGranularity : UInt32)
    (configData : ConfigData) : StateT RumrBuffer Option AsicModel := do
  let vramSize ← parseUint64
  let visVramSize ← parseUint64
  let gttSize ← parseUint64
  let isApu ← rumrBufferReadUint32
  let noBlocks ← rumrBufferReadUint32
  let blocks ← readMany parseBlock (loopRounds noBlocks)
  pure ⟨asicname, did, family, vgprGranularity, configData, vramSize, visVramSize, gttSize,
    isApu, blocks⟩

/-- All serialized fields; `none` when the announced GCA data is too long. -/
def parseFields : StateT RumrBuffer Option (Option AsicModel) := do
  let asicname ← parseName 64
  let did ← rumrBufferReadUint32
  let family ← rumrBufferReadUint32
  let vgprGranularity ← rumrBufferReadUint32
  let v ← rumrBufferReadUint32
  if v ≤ 2048 then do
    let data ← rumrBufferReadData v
    let model ← parseTail asicname did family vgprGranularity (ConfigData.ofBytes data)
    pure (some model)
  else pure none

/-- The outer `none` is an access outside the buffer or a call through a null
pointer, the inner one `NULL`. -/
def rumrParseSerializedAsic (buf : RumrBuffer) : Option (Option ParsedAsic × RumrBuffer) :=
  match parseFields buf with
  | none => none
  | some (none, buf) => some (none, buf)
  | some (some model, buf) =>
      match umrScanConfigGcaData (ParsedAsic.fresh model) with
      | some asic => some (some asic, buf)
      | none => none

end Umr.Rumr
