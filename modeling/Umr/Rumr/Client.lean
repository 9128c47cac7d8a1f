import Umr.Rumr.Protocol

/-!
# The RUMR client

The request side of `client.c`.  `send_opcode` appends the parameters one word
at a time, `send_opcode_buf` a packet built by the caller in one append.  A
client callback is modelled by the packet it hands to one of the two and, for
memory accesses, by what it makes of the reply.
-/

set_option autoImplicit false

namespace Umr.Rumr

open Umr.Lib

section Send
variable (heap : Nat → Bool)

/-- The buffer `send_opcode` transmits; `none` if building it leaves the
allocation or there is no block to start with. -/
def sendOpcode (opcode : Opcode) (params : List UInt32) : Option RumrBuffer := do
  let buf ← rumrBufferInit heap
  let (_, buf) ← rumrBufferAddUint32 heap (clientHeader opcode) buf
  let (_, buf) ← writeMany (rumrBufferAddUint32 heap) params buf
  pure buf

/-- The buffer `send_opcode_buf` transmits: `pktsize*4` bytes behind `pkt`, the
product taken in 32 bits. -/
def sendOpcodeBuf (opcode : Opcode) (pkt : List UInt8) (pktsize : UInt32) :
    Option RumrBuffer := do
  let buf ← rumrBufferInit heap
  let (_, buf) ← rumrBufferAddUint32 heap (clientHeader opcode) buf
  let (_, buf) ← rumrBufferAddData heap (pkt.take (pktsize * 4).toNat) buf
  pure buf

/-- The check of a received reply's header word; the buffer is left behind it. -/
def checkReply (received : Option RumrBuffer) : Option RumrBuffer := do
  let buf ← received
  let (reply, buf) ← rumrBufferReadUint32 buf
  if headerVersion reply = rumrVersion ∧ headerServerBit reply ≠ 0 then pure buf else none

end Send

/-! ## Memory -/

/-- The words `mem_op` puts into its packet.  Without a destination it asks for
a translation. -/
def memOpWords (addr : UInt64) (size : UInt32) (dst : Option (List UInt32))
    (writeEn vramEn : Bool) : List UInt32 :=
  let subop : UInt32 := if dst.isNone then 2 else if vramEn then 0 else 1
  [loWord addr, hiWord addr, (if writeEn then (1 : UInt32) <<< 2 else 0) ||| subop, size] ++
    match dst with
    | some words => if writeEn then words.take (size >>> 2).toNat else []
    | none => []

def memOpRequest (heap : Nat → Bool) (addr : UInt64) (size : UInt32)
    (dst : Option (List UInt32)) (writeEn vramEn : Bool) : Option RumrBuffer :=
  let pkt := memOpWords addr size dst writeEn vramEn
  sendOpcodeBuf heap .memAccess (pkt.flatMap wordBytes) (UInt32.ofNat pkt.length)

/-- What `mem_op` takes from a reply: the address and, for a read, `size`
bytes.  `none` is its error return. -/
def memOpReply (received : Option RumrBuffer) (size : UInt32) (isRead : Bool) :
    Option (UInt64 × List UInt8) := do
  let buf ← checkReply received
  let (status, buf) ← rumrBufferReadUint32 buf
  if status ≠ 1 then none
  else do
    let (lo, buf) ← rumrBufferReadUint32 buf
    let (hi, buf) ← rumrBufferReadUint32 buf
    if isRead then do
      let (data, _) ← rumrBufferReadData size buf
      pure (joinWords lo hi, data)
    else pure (joinWords lo hi, [])

/-! ## Waves and registers -/

/-- What the client knows about a wave: its place, the two size fields of
`ixSQ_WAVE_GPR_ALLOC`, and whether it is in the trap handler. -/
structure WaveData where
  se : UInt32
  sh : UInt32
  cu : UInt32
  simd : UInt32
  wave : UInt32
  sgprSize : UInt32
  vgprSize : UInt32
  inTrap : Bool
  deriving DecidableEq, Repr

def gprsSize (family : ChipFamily) (vgprGranularity : UInt32) (wd : WaveData)
    (vOrS : UInt32) : UInt32 :=
  if vOrS = 0 then
    let shift : UInt32 := if family.code ≤ ChipFamily.cik.code then 3 else 4
    4 * ((wd.sgprSize + 1) <<< shift)
  else 4 * ((wd.vgprSize + 1) <<< vgprGranularity)

def gprsParams (wd : WaveData) (thread vOrS size : UInt32) : List UInt32 :=
  [wd.se, wd.sh, wd.cu, wd.simd, wd.wave, thread, vOrS, 0, size]

def trapParams (wd : WaveData) (thread vOrS : UInt32) : List UInt32 :=
  [wd.se, wd.sh, wd.cu, wd.simd, thread, vOrS, 0x6C * 4, 16 * 4]

def waveParams (se sh cu simd wave : UInt32) : List UInt32 := [se, sh, cu, simd, wave]

def bankParams : BankSelect → UInt32 × List UInt32
  | .noBank => (0, [0, 0, 0, 0])
  | .grbm se sh instance_ => ((1 : UInt32) <<< 1, [se, sh, instance_, 0])
  | .srbm me pipe queue vmid => ((1 : UInt32) <<< 2, [me, pipe, queue, vmid])

def mmioRegParams (bank : BankSelect) (addr : UInt64) (type : RegClass)
    (value : Option UInt32) : List UInt32 :=
  let readEn : UInt32 := if value.isNone then 1 else 0
  [loWord addr, hiWord addr, readEn ||| (bankParams bank).1 ||| (type.code <<< 3)] ++
    (bankParams bank).2 ++
    match value with
    | some value => [value, 0]
    | none => []

/-- `strncpy` into a zeroed array of 128 bytes, the last byte kept zero. -/
def ringNameField (ringname : CString) : List UInt8 :=
  ringname.bytes.take 127 ++ List.replicate (128 - (ringname.bytes.take 127).length) 0

end Umr.Rumr
