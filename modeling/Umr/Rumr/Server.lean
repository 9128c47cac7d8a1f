import Umr.Rumr.Protocol

/-!
# The RUMR server

`umr_server.c`: one call of `rumr_server_loop` takes a received buffer, checks
its header word, and hands the rest to the handler of the opcode.  Every
handler first decodes its `in` record and then acts on the device, so each is
written here as a decoder on the buffer followed by the action.

What lies behind the library calls is the parameter `Device`.  C accesses
outside an object are reported as a `Fault`.
-/

set_option autoImplicit false

namespace Umr.Rumr

open Umr.Lib

/-! ## What the handlers decode -/

structure GprIn where
  se : UInt32
  sh : UInt32
  cuWgp : UInt32
  simd : UInt32
  wave : UInt32
  thread : UInt32
  vgprOrSgpr : UInt32
  offset : UInt32
  size : UInt32
  deriving DecidableEq, Repr

def decodeGprAccess : StateT RumrBuffer Option GprIn := do
  let se ← rumrBufferReadUint32
  let sh ← rumrBufferReadUint32
  let cuWgp ← rumrBufferReadUint32
  let simd ← rumrBufferReadUint32
  let wave ← rumrBufferReadUint32
  let thread ← rumrBufferReadUint32
  let vgprOrSgpr ← rumrBufferReadUint32
  let offset ← rumrBufferReadUint32
  let size ← rumrBufferReadUint32
  pure ⟨se, sh, cuWgp, simd, wave, thread, vgprOrSgpr, offset, size⟩

structure WaveIn where
  se : UInt32
  sh : UInt32
  cuWgp : UInt32
  simd : UInt32
  wave : UInt32
  deriving DecidableEq, Repr

def decodeWaveAccess : StateT RumrBuffer Option WaveIn := do
  let se ← rumrBufferReadUint32
  let sh ← rumrBufferReadUint32
  let cuWgp ← rumrBufferReadUint32
  let simd ← rumrBufferReadUint32
  let wave ← rumrBufferReadUint32
  pure ⟨se, sh, cuWgp, simd, wave⟩

structure MemIn where
  addrLo : UInt32
  addrHi : UInt32
  options : UInt32
  size : UInt32
  deriving DecidableEq, Repr

def MemIn.addr (args : MemIn) : UInt64 := joinWords args.addrLo args.addrHi

def MemIn.subcommand (args : MemIn) : UInt32 := args.options &&& 3

def MemIn.rw (args : MemIn) : UInt32 := (args.options >>> 2) &&& 1

def decodeMemAccess : StateT RumrBuffer Option MemIn := do
  let addrLo ← rumrBufferReadUint32
  let addrHi ← rumrBufferReadUint32
  let options ← rumrBufferReadUint32
  let size ← rumrBufferReadUint32
  pure ⟨addrLo, addrHi, options, size⟩

/-- `value` is read for a write access only. -/
structure RegIn where
  regAddrLo : UInt32
  regAddrHi : UInt32
  accessBank : UInt32
  seOrMe : UInt32
  shOrPipe : UInt32
  instanceOrQueue : UInt32
  vmid : UInt32
  value : Option (UInt32 × UInt32)
  deriving DecidableEq, Repr

def RegIn.addr (args : RegIn) : UInt64 := joinWords args.regAddrLo args.regAddrHi

def RegIn.access (args : RegIn) : UInt32 := args.accessBank &&& 1

def RegIn.grbmIndex (args : RegIn) : UInt32 := (args.accessBank >>> 1) &&& 1

def RegIn.srbmIndex (args : RegIn) : UInt32 := (args.accessBank >>> 2) &&& 1

def RegIn.type (args : RegIn) : UInt32 := (args.accessBank >>> 3) &&& 0xFF

def decodeRegValue (access : UInt32) : StateT RumrBuffer Option (Option (UInt32 × UInt32)) :=
  if access = 0 then do
    let valueLo ← rumrBufferReadUint32
    let valueHi ← rumrBufferReadUint32
    pure (some (valueLo, valueHi))
  else pure none

def decodeRegAccess : StateT RumrBuffer Option RegIn := do
  let regAddrLo ← rumrBufferReadUint32
  let regAddrHi ← rumrBufferReadUint32
  let accessBank ← rumrBufferReadUint32
  let seOrMe ← rumrBufferReadUint32
  let shOrPipe ← rumrBufferReadUint32
  let instanceOrQueue ← rumrBufferReadUint32
  let vmid ← rumrBufferReadUint32
  let value ← decodeRegValue (accessBank &&& 1)
  pure ⟨regAddrLo, regAddrHi, accessBank, seOrMe, shOrPipe, instanceOrQueue, vmid, value⟩

/-- The ring name: 128 bytes, the last one overwritten by a terminator. -/
def decodeRingAccess : StateT RumrBuffer Option (List UInt8) := do
  let bytes ← rumrBufferReadData 128
  pure (bytes.take 127 ++ [0])

/-! ## Device and library calls -/

/-- `options.use_bank` and the `options.bank` union.  The GRBM and the SRBM view
share their first three words. -/
structure BankOptions where
  useBank : UInt32
  instanceOrMe : UInt32
  seOrQueue : UInt32
  shOrPipe : UInt32
  vmid : UInt32
  deriving DecidableEq, Repr

/-- The request block of `AMDGPU_DEBUGFS_GPRWAVE_IOC_SET_STATE`. -/
structure GprwaveIocdata where
  gprOrWave : UInt32
  se : UInt32
  sh : UInt32
  cu : UInt32
  wave : UInt32
  simd : UInt32
  thread : UInt32
  vgprOrSgpr : UInt32
  xccId : UInt32
  deriving DecidableEq, Repr

/-- A ring's debugfs file: the length `lseek` reports and the bytes a `read`
gets to see. -/
structure RingFile where
  length : Nat
  contents : List UInt8

/-- The calls that leave the server.  A read returns the bytes it stored, a
write whether it succeeded; an `ioctl` that fails returns `-1`. -/
structure Device (σ : Type) where
  accessRead : MemSpace → UInt64 → UInt32 → StateM σ (Bool × List UInt8)
  accessWrite : MemSpace → UInt64 → List UInt8 → StateM σ Bool
  vmDmaToPhys : UInt64 → StateM σ UInt64
  readReg : BankOptions → UInt64 → UInt32 → StateM σ UInt32
  writeReg : BankOptions → UInt64 → UInt32 → UInt32 → StateM σ Unit
  gprwaveIoctl : GprwaveIocdata → StateM σ Bool
  gprwaveRead : UInt32 → UInt32 → StateM σ (Option (List UInt8))
  ringFile : List UInt8 → StateM σ (Option RingFile)

/-- A device read of `n` bytes stores at most `n` bytes. -/
structure Device.Lawful {σ : Type} (device : Device σ) : Prop where
  accessRead_le : ∀ space addr size s,
    (device.accessRead space addr size s).1.2.length ≤ size.toNat
  gprwaveRead_le : ∀ offset size s bytes,
    (device.gprwaveRead offset size s).1 = some bytes → bytes.length ≤ size.toNat

/-- The parts of the server's `umr_asic` that the handlers read. -/
structure ServerAsic where
  family : ChipFamily
  vmPartition : Int
  gprwaveOpen : Bool

def ServerAsic.xccId (asic : ServerAsic) : UInt32 :=
  if asic.vmPartition = -1 then 0 else UInt32.ofInt asic.vmPartition

def readStatus (stored : List UInt8) : Int := Int.bmod stored.length (2 ^ 32)

section Calls
variable {σ : Type} (device : Device σ) (asic : ServerAsic)

/-- `ioctl`, `lseek` and `read` on the gprwave file: the return value and the
bytes stored behind the destination. -/
def gprwaveAccess (id : GprwaveIocdata) (offset size : UInt32) :
    StateM σ (Int × List UInt8) := do
  let selected ← device.gprwaveIoctl id
  if selected then do
    let stored ← device.gprwaveRead offset size
    match stored with
    | some stored => pure (readStatus stored, stored)
    | none => pure (-1, [])
  else pure (-1, [])

def umrLinuxReadGprGprwaveRaw (vOrS thread se sh cu wave simd offset size : UInt32) :
    StateM σ (Int × List UInt8) :=
  gprwaveAccess device {
    gprOrWave := 1
    se := se
    sh := sh
    cu := cu
    wave := wave
    simd := if asic.family.code < ChipFamily.nv.code then simd else 0
    thread := if vOrS = 0 then 0 else thread
    vgprOrSgpr := vOrS
    xccId := asic.xccId } offset size

def umrGetWaveStatusRaw (se sh cu simd wave : UInt32) : StateM σ (Int × List UInt8) :=
  if asic.gprwaveOpen then
    gprwaveAccess device {
      gprOrWave := 0
      se := se
      sh := sh
      cu := cu
      wave := wave
      simd := simd
      thread := 0
      vgprOrSgpr := 0
      xccId := asic.xccId } 0 (64 * 4)
  else pure (-1, [])

/-- The ring size without its 12-byte head, and the bytes of the block. -/
def umrReadRingData (ringname : List UInt8) : StateM σ (Option (UInt32 × List UInt8)) := do
  let opened ← device.ringFile (ringname.takeWhile (· ≠ 0))
  match opened with
  | none => pure none
  | some file =>
      let ringsize := UInt32.ofNat file.length - 12
      let ringData := file.contents.take (ringsize + 12).toNat
      if ringData.length = (ringsize + 12).toNat then pure (some (ringsize, ringData))
      else pure none

end Calls

/-! ## Handlers -/

inductive Fault where
  /-- a callee stored past the end of the caller's buffer -/
  | localStore
  /-- bytes of a local buffer were read that nobody stored -/
  | localRead
  /-- a read outside the received packet -/
  | packetRead
  /-- the reply buffer was left -/
  | replyBuffer
  deriving DecidableEq, Repr

structure Session (σ : Type) where
  device : σ
  options : BankOptions
  inbuf : RumrBuffer
  outbuf : RumrBuffer

abbrev Handler (σ : Type) := StateT (Session σ) (Except Fault)

section Primitives
variable {σ α : Type}

def fromPacket (read : StateT RumrBuffer Option α) : Handler σ α := fun session =>
  match read session.inbuf with
  | some (value, inbuf) => .ok (value, { session with inbuf := inbuf })
  | none => .error .packetRead

def toReply (write : StateT RumrBuffer Option Unit) : Handler σ Unit := fun session =>
  match write session.outbuf with
  | some (_, outbuf) => .ok ((), { session with outbuf := outbuf })
  | none => .error .replyBuffer

def onDevice (call : StateM σ α) : Handler σ α := fun session =>
  .ok ((call session.device).1, { session with device := (call session.device).2 })

def setOptions (change : BankOptions → BankOptions) : Handler σ Unit := fun session =>
  .ok ((), { session with options := change session.options })

def onBank (call : BankOptions → StateM σ α) : Handler σ α := fun session =>
  onDevice (call session.options) session

def storeLocal (capacity : Nat) (stored : List UInt8) : Handler σ Unit := fun session =>
  if stored.length ≤ capacity then .ok ((), session) else .error .localStore

def takeLocal (count : Nat) (stored : List UInt8) : Handler σ (List UInt8) := fun session =>
  if count ≤ stored.length then .ok (stored.take count, session) else .error .localRead

def packetSlice (size : UInt32) : Handler σ (List UInt8) := fun session =>
  if session.inbuf.roffset.toNat + size.toNat ≤ session.inbuf.data.length then
    .ok ((session.inbuf.data.drop session.inbuf.roffset.toNat).take size.toNat, session)
  else .error .packetRead

def packetRest : Handler σ UInt32 := fun session =>
  .ok (session.inbuf.size - session.inbuf.roffset, session)

end Primitives

section Handlers
variable {σ : Type} (heap : Nat → Bool) (device : Device σ) (asic : ServerAsic)

def replyUint32 (value : UInt32) : Handler σ Unit := toReply (rumrBufferAddUint32 heap value)

def replyData (data : List UInt8) : Handler σ Unit := toReply (rumrBufferAddData heap data)

/-- Status, length and data of a GPR or wave read that returned `r`. -/
def replyStored (r : Int) (stored : List UInt8) : Handler σ Unit := do
  replyUint32 heap (if r > 0 then 1 else 0)
  if r > 0 then do
    replyUint32 heap (UInt32.ofInt r)
    let bytes ← takeLocal r.toNat stored
    replyData heap bytes
  else pure ()

/-- `uint32_t buf[1024]` receives the registers. -/
def handleOpGprAccess : Handler σ Int := do
  let args ← fromPacket decodeGprAccess
  let (r, stored) ← onDevice (umrLinuxReadGprGprwaveRaw device asic args.vgprOrSgpr
    args.thread args.se args.sh args.cuWgp args.wave args.simd args.offset args.size)
  storeLocal (1024 * 4) stored
  replyStored heap r stored
  pure 0

/-- `uint32_t buf[64]` receives the wave status. -/
def handleOpWaveAccess : Handler σ Int := do
  let args ← fromPacket decodeWaveAccess
  let (r, stored) ← onDevice
    (umrGetWaveStatusRaw device asic args.se args.sh args.cuWgp args.simd args.wave)
  storeLocal (64 * 4) stored
  replyStored heap r stored
  pure 0

def replyMemStatus (ok : Bool) (args : MemIn) : Handler σ Unit := do
  replyUint32 heap (if ok then 1 else 0)
  replyUint32 heap args.addrLo
  replyUint32 heap args.addrHi

/-- Reading: subcommand 1 is system memory.  `dst` is a zeroed block. -/
def memRead (args : MemIn) : Handler σ Int := do
  let space := if args.subcommand = 1 then MemSpace.sram else .vram
  let (ok, stored) ← onDevice (device.accessRead space args.addr args.size)
  storeLocal args.size.toNat stored
  replyMemStatus heap ok args
  if ok then do
    replyData heap (stored ++ List.replicate (args.size.toNat - stored.length) 0)
    pure 0
  else pure 0

/-- Writing, straight from the packet: subcommand 0 is system memory. -/
def memWrite (args : MemIn) : Handler σ Int := do
  let rest ← packetRest
  if args.size ≠ rest then pure (-1)
  else do
    let data ← packetSlice args.size
    let space := if args.subcommand = 0 then MemSpace.sram else .vram
    let ok ← onDevice (device.accessWrite space args.addr data)
    replyMemStatus heap ok args
    pure 0

def memTranslate (args : MemIn) : Handler σ Int := do
  let addr ← onDevice (device.vmDmaToPhys args.addr)
  replyUint32 heap 1
  replyUint32 heap (loWord addr)
  replyUint32 heap (hiWord addr)
  pure 0

def handleOpMemAccess : Handler σ Int := do
  let args ← fromPacket decodeMemAccess
  if args.subcommand = 3 then pure (-1)
  else if args.size &&& 3 ≠ 0 then pure (-1)
  else if args.addr &&& 3 ≠ 0 then pure (-1)
  else if args.rw ≠ 0 ∧ args.subcommand = 2 then pure (-1)
  else if args.subcommand = 0 ∨ args.subcommand = 1 then
    if args.rw = 0 then memRead heap device args
    else memWrite heap device args
  else memTranslate heap device args

def BankOptions.selectGrbm (args : RegIn) (options : BankOptions) : BankOptions :=
  { options with
    useBank := 1
    seOrQueue := args.seOrMe
    shOrPipe := args.shOrPipe
    instanceOrMe := args.instanceOrQueue }

def BankOptions.selectSrbm (args : RegIn) (options : BankOptions) : BankOptions :=
  { options with
    useBank := 2
    instanceOrMe := args.seOrMe
    seOrQueue := args.instanceOrQueue
    shOrPipe := args.shOrPipe
    vmid := args.vmid }

def selectBank (args : RegIn) (options : BankOptions) : BankOptions :=
  if args.grbmIndex ≠ 0 then options.selectGrbm args
  else if args.srbmIndex ≠ 0 then options.selectSrbm args
  else options

def handleOpRegAccess : Handler σ Int := do
  let args ← fromPacket decodeRegAccess
  if args.grbmIndex ≠ 0 ∧ args.srbmIndex ≠ 0 then pure (-1)
  else do
    setOptions (selectBank args)
    match args.value with
    | some (valueLo, _) => do
        -- `umr_write_reg` takes a `uint32_t`: the high word is cut off
        onBank fun bank => device.writeReg bank args.addr valueLo args.type
        setOptions fun options => { options with useBank := 0 }
        replyUint32 heap 1
        pure 0
    | none => do
        let readval ← onBank fun bank => device.readReg bank args.addr args.type
        setOptions fun options => { options with useBank := 0 }
        replyUint32 heap 1
        replyUint32 heap readval
        replyUint32 heap 0
        pure 0

def handleOpRingAccess : Handler σ Int := do
  let ringname ← fromPacket decodeRingAccess
  storeLocal 128 ringname
  let ret ← onDevice (umrReadRingData device ringname)
  match ret with
  | some (ringsize, ringData) => do
      replyUint32 heap 1
      replyUint32 heap ringsize
      let bytes ← takeLocal (ringsize + 12).toNat ringData
      replyData heap bytes
      pure 0
  | none => do
      replyUint32 heap 0
      pure 0

end Handlers

/-! ## The loop -/

section Loop
variable {σ : Type}

/-- What does not change while the server runs.  The serialized ASIC is a
buffer whose written bytes exist. -/
structure Server (σ : Type) where
  device : Device σ
  asic : ServerAsic
  serializedAsic : RumrBuffer
  readable : serializedAsic.Readable

structure ServerState (σ : Type) where
  device : σ
  options : BankOptions
  connected : Bool
  sent : List RumrBuffer

/-- What the outside contributes to one call: the allocator, the outcome of
`comm.rx`, and whether `comm.tx` succeeds. -/
structure CommInput where
  heap : Nat → Bool
  received : Option RumrBuffer
  txOk : Bool

/-- `handled` is the command whose code was entered. -/
structure LoopOutcome (σ : Type) where
  handled : Option Opcode
  finish : Except Fault (Int × ServerState σ)

/-- The `switch` on the opcode; `RUMR_OP_GOODBYE` does not come back from it. -/
def runCommand (heap : Nat → Bool) (server : Server σ) : Opcode → Handler σ Int
  | .discover => do
      toReply (rumrBufferAddBuffer heap server.serializedAsic)
      pure 0
  | .regAccess => handleOpRegAccess heap server.device
  | .memAccess => handleOpMemAccess heap server.device
  | .waveAccess => handleOpWaveAccess heap server.device server.asic
  | .gprAccess => handleOpGprAccess heap server.device server.asic
  | .ringAccess => handleOpRingAccess heap server.device
  | .goodbye => pure 0

def sendReply (header : UInt32) (txOk : Bool) (state : ServerState σ) :
    Int × Session σ → Int × ServerState σ
  | (r, session) =>
      let state := { state with device := session.device, options := session.options }
      if r ≠ 0 then (r, state)
      else if session.outbuf.failed then (-1, state)
      else
        let reply := { session.outbuf with
          data := wordBytes (serverHeader header) ++ session.outbuf.data.drop 4 }
        (if txOk then 0 else -1, { state with sent := state.sent ++ [reply] })

/-- The part behind the header checks: a reply buffer, then the opcode. -/
def dispatch (server : Server σ) (input : CommInput) (header : UInt32) (rbuf : RumrBuffer)
    (state : ServerState σ) : LoopOutcome σ :=
  match rumrBufferInit input.heap, headerOpcode header with
  | none, _ => ⟨none, .ok (-1, state)⟩
  | some _, none => ⟨none, .ok (-1, state)⟩
  | some _, some .goodbye => ⟨some .goodbye, .ok (1, { state with connected := false })⟩
  | some outbuf, some opcode =>
      let session : Session σ :=
        ⟨state.device, state.options, rbuf, { outbuf with woffset := 4 }⟩
      ⟨some opcode, (runCommand input.heap server opcode session).map
        (sendReply header input.txOk state)⟩

def rumrServerLoop (server : Server σ) (input : CommInput) (state : ServerState σ) :
    LoopOutcome σ :=
  match input.received with
  | none => ⟨none, .ok (-1, state)⟩
  | some rbuf =>
      match rumrBufferReadUint32 rbuf with
      | none => ⟨none, .error .packetRead⟩
      | some (header, rbuf) =>
          if header &&& 0 ≠ 0 then ⟨none, .ok (-1, state)⟩
          else if headerVersion header ≠ rumrVersion then ⟨none, .ok (-1, state)⟩
          else dispatch server input header rbuf state

end Loop

end Umr.Rumr
