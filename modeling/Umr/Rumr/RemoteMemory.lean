import Umr.Lib.Fault
import Umr.Rumr.Agreement
import Umr.Rumr.Bounds

/-!
# Remote memory access

Client, transport and server put together for memory accesses, with two
independent memories behind the server.  A remote write never is the local
write: the size check of the handler takes every packet for 1024 bytes, and the
one payload length that passes it is written to the other memory.
-/

set_option autoImplicit false

namespace Umr.Rumr

open Umr.Lib

structure Memories where
  cells : MemSpace → UInt64 → UInt8
  writes : List (MemSpace × UInt64 × List UInt8)

def Memories.write (space : MemSpace) (addr : UInt64) (bytes : List UInt8)
    (memories : Memories) : Memories where
  cells := fun other cell =>
    if other = space ∧ (cell - addr).toNat < bytes.length then bytes.getD (cell - addr).toNat 0
    else memories.cells other cell
  writes := memories.writes ++ [(space, addr, bytes)]

def Memories.read (space : MemSpace) (addr : UInt64) (size : Nat) (memories : Memories) :
    List UInt8 :=
  (List.range size).map fun i => memories.cells space (addr + UInt64.ofNat i)

def memoryDevice : Device Memories where
  accessRead := fun space addr size memories =>
    ((true, memories.read space addr size.toNat), memories)
  accessWrite := fun space addr bytes memories => (true, memories.write space addr bytes)
  vmDmaToPhys := fun addr => pure addr
  readReg := fun _ _ _ => pure 0
  writeReg := fun _ _ _ _ => pure ()
  gprwaveIoctl := fun _ => pure false
  gprwaveRead := fun _ _ => pure none
  ringFile := fun _ => pure none

def memoryServer : Server Memories where
  device := memoryDevice
  asic := ⟨.ai, -1, false⟩
  serializedAsic := ⟨[], 0, 0, 0, false⟩
  readable := unallocated_readable

def delivered (buf : RumrBuffer) : Option RumrBuffer :=
  match tcpRx granted (tcpTx buf) with
  | some (some (received, _)) => some received
  | _ => none

theorem delivered_written {buf : RumrBuffer} (readable : buf.Readable)
    (bound : buf.written.length + 8 < 2 ^ 32) :
    delivered buf = some (receivedBuffer buf.written) := by
  have length := readable.written_length
  have received := tcpRx_tcpTx granted buf [] readable (by omega) (fun _ => rfl)
  rw [List.append_nil] at received
  simp only [delivered, received]

def serveRequest (state : ServerState Memories) (request : RumrBuffer) :
    Except Fault (Int × ServerState Memories) :=
  (rumrServerLoop memoryServer ⟨granted, delivered request, true⟩ state).finish

def serverAfter (state : ServerState Memories) :
    Except Fault (Int × ServerState Memories) → ServerState Memories
  | .ok (_, after) => after
  | .error _ => state

def replyOf : Except Fault (Int × ServerState Memories) → Option RumrBuffer
  | .ok (_, after) => after.sent.head?
  | .error _ => none

/-- `mem_op` against a server that handles one packet: what the client gets, and
the server afterwards. -/
def remoteMemOp (state : ServerState Memories) (addr : UInt64) (size : UInt32)
    (dst : Option (List UInt32)) (writeEn vramEn : Bool) :
    Option (UInt64 × List UInt8) × ServerState Memories :=
  match memOpRequest granted addr size dst writeEn vramEn with
  | none => (none, state)
  | some request =>
      let outcome := serveRequest { state with sent := [] } request
      (memOpReply ((replyOf outcome).bind delivered) size (!writeEn && dst.isSome),
        serverAfter state outcome)

def payloadSize (words : List UInt32) : UInt32 := UInt32.ofNat (4 * words.length)

/-- A write through the client does what the local write does, and a read of the
same range through the client returns the bytes. -/
def RemoteWriteIsLocal (space : MemSpace) (addr : UInt64) (words : List UInt32)
    (state : ServerState Memories) : Prop :=
  let written := remoteMemOp state addr (payloadSize words) (some words) true (space = .vram)
  written.2.device = state.device.write space addr (words.flatMap wordBytes) ∧
    (remoteMemOp written.2 addr (payloadSize words) (some words) false (space = .vram)).1.map
      Prod.snd = some (words.flatMap wordBytes)

def MemSpace.other : MemSpace → MemSpace
  | .vram => .sram
  | .sram => .vram

/-! ## What a write request does to the device -/

section Frame
variable {α : Type} {session : Session Memories} {memories : Memories}

def DeviceIs (memories : Memories) (_ : α) (session : Session Memories) : Prop :=
  session.device = memories

theorem toReply_device (write : StateT RumrBuffer Option Unit)
    (same : session.device = memories) :
    Guarded (fun _ => True) (toReply write) session (DeviceIs memories) := by
  unfold Guarded toReply
  cases write session.outbuf with
  | none => trivial
  | some pair => exact same

theorem replyMemStatus_device (ok : Bool) (args : MemIn) (same : session.device = memories) :
    Guarded (fun _ => True) (replyMemStatus granted ok args) session (DeviceIs memories) := by
  refine (toReply_device _ same).bind ?_
  intro _ _ same
  refine (toReply_device _ same).bind ?_
  intro _ _ same
  exact toReply_device _ same

theorem packetSlice_device (size : UInt32) (same : session.device = memories) :
    Guarded (fun _ => True) (packetSlice size) session (DeviceIs memories) := by
  unfold Guarded packetSlice
  by_cases inside : session.inbuf.roffset.toNat + size.toNat ≤ session.inbuf.data.length
  · rw [if_pos inside]
    exact same
  · rw [if_neg inside]
    trivial

/-- Nothing, or one write to the wrong memory. -/
def MissesWrite (space : MemSpace) (before after : Memories) : Prop :=
  after = before ∨ ∃ addr bytes, after = before.write space.other addr bytes

theorem memWrite_misses (space : MemSpace) (args : MemIn)
    (named : args.subcommand = space.subcommand) (same : session.device = memories) :
    Guarded (fun _ => True) (memWrite granted memoryDevice args) session
      (fun _ next => MissesWrite space memories next.device) := by
  have swapped : (if args.subcommand = 0 then MemSpace.sram else .vram) = space.other := by
    rw [named]
    cases space <;> decide
  have rest : Guarded (fun _ => True) (packetRest : Handler Memories UInt32) session
      (DeviceIs memories) := Guarded.of_ok rfl same
  refine rest.bind ?_
  intro _ _ same
  refine Guarded.ite (fun _ => Guarded.pure (Or.inl same)) (fun _ => ?_)
  refine (packetSlice_device args.size same).bind ?_
  intro bytes middle same
  have written : Guarded (fun _ => True)
      (onDevice (memoryDevice.accessWrite
        (if args.subcommand = 0 then MemSpace.sram else .vram) args.addr bytes)) middle
      (DeviceIs (memories.write space.other args.addr bytes)) := by
    refine Guarded.of_ok rfl ?_
    rw [swapped, ← same]
    rfl
  refine written.bind ?_
  intro ok _ after
  refine (replyMemStatus_device ok args after).bind ?_
  intro _ _ after
  exact Guarded.pure (Or.inr ⟨args.addr, bytes, after⟩)

theorem handleOpMemAccess_misses (session : Session Memories) (space : MemSpace) {args : MemIn}
    {next : RumrBuffer}
    (found : decodeMemAccess session.inbuf = some (args, next))
    (named : args.subcommand = space.subcommand) (isWrite : args.rw ≠ 0) :
    Guarded (fun _ => True) (handleOpMemAccess granted memoryDevice) session
      (fun _ after => MissesWrite space session.device after.device) := by
  have isMemory : args.subcommand = 0 ∨ args.subcommand = 1 := by
    rw [named]
    cases space <;> decide
  have run : fromPacket decodeMemAccess session = .ok (args, { session with inbuf := next }) := by
    simp only [fromPacket, found]
  have decoded : Guarded (fun _ => True) (fromPacket decodeMemAccess) session
      (fun value after => value = args ∧ after.device = session.device) :=
    Guarded.of_ok run ⟨rfl, rfl⟩
  refine decoded.bind ?_
  rintro _ _ ⟨rfl, same⟩
  refine Guarded.ite (fun _ => Guarded.pure (Or.inl same)) (fun _ => ?_)
  refine Guarded.ite (fun _ => Guarded.pure (Or.inl same)) (fun _ => ?_)
  refine Guarded.ite (fun _ => Guarded.pure (Or.inl same)) (fun _ => ?_)
  refine Guarded.ite (fun _ => Guarded.pure (Or.inl same)) (fun _ => ?_)
  rw [if_pos isMemory, if_neg isWrite]
  exact memWrite_misses space _ named same

end Frame

/-- What is missed is not the local write: the logs differ. -/
theorem MissesWrite.ne_write {space : MemSpace} {before after : Memories}
    (misses : MissesWrite space before after) (addr : UInt64) (bytes : List UInt8) :
    after ≠ before.write space addr bytes := by
  intro same
  rcases misses with unchanged | ⟨_, _, elsewhere⟩
  · have logs := congrArg (fun memories => memories.writes.length) (unchanged.symm.trans same)
    simp [Memories.write] at logs
  · have logs := congrArg Memories.writes (elsewhere.symm.trans same)
    have entries := List.append_cancel_left logs
    have spaces : space.other = space := congrArg Prod.fst (List.cons.inj entries).1
    cases space <;> cases spaces

theorem sendReply_device {σ : Type} (header : UInt32) (txOk : Bool) (state : ServerState σ)
    (pair : Int × Session σ) : (sendReply header txOk state pair).2.device = pair.2.device := by
  simp only [sendReply]
  split
  · rfl
  · split <;> rfl

/-! ## Every remote write -/

section Remote
variable (space : MemSpace) (addr : UInt64) (words : List UInt32)

def writeRequest : List UInt32 :=
  [clientHeader .memAccess, loWord addr, hiWord addr, 4 ||| space.subcommand,
    payloadSize words] ++ words

theorem payloadSize_words (fits : 4 * words.length + 1048 < 2 ^ 32) :
    words.length = (payloadSize words >>> 2).toNat := by
  rw [shiftRight_two_toNat, payloadSize, ofNat_toNat_of_lt (by omega)]
  omega

theorem writeRequest_length (fits : 4 * words.length + 1048 < 2 ^ 32) :
    ((writeRequest space addr words).flatMap wordBytes).length + 8 < 2 ^ 32 := by
  rw [flatMap_wordBytes_length, writeRequest, List.length_append]
  simp only [List.length_cons, List.length_nil]
  omega

theorem writeRequest_delivered (fits : 4 * words.length + 1048 < 2 ^ 32) :
    ∃ request, memOpRequest granted addr (payloadSize words) (some words) true (space = .vram) =
        some request ∧
      delivered request =
        some (receivedBuffer ((writeRequest space addr words).flatMap wordBytes)) := by
  have filled := payloadSize_words words fits
  have sent := memWrite_sent space addr (payloadSize words) words filled
  simp only [ClientRequest.transmit] at sent
  have count : ([loWord addr, hiWord addr, 4 ||| space.subcommand, payloadSize words] ++
      words).length = 4 + words.length := by
    rw [List.length_append]
    rfl
  have whole := pktsize_bytes ([loWord addr, hiWord addr, 4 ||| space.subcommand,
    payloadSize words] ++ words) (by omega)
  have length := flatMap_wordBytes_length ([loWord addr, hiWord addr, 4 ||| space.subcommand,
    payloadSize words] ++ words)
  obtain ⟨request, transmitted, inv, written⟩ := sendOpcodeBuf_built .memAccess
    (([loWord addr, hiWord addr, 4 ||| space.subcommand, payloadSize words] ++ words).flatMap
      wordBytes) _ (by rw [whole, length]; omega)
  rw [whole, ← List.flatMap_cons] at written
  have written : request.written = (writeRequest space addr words).flatMap wordBytes := written
  have bound := writeRequest_length space addr words fits
  refine ⟨request, sent.trans transmitted, ?_⟩
  rw [delivered_written inv.readable (by rw [written]; exact bound), written]

theorem writeRequest_requests :
    Requests ((writeRequest space addr words).flatMap wordBytes) .memAccess := by
  have header : packetWord ((writeRequest space addr words).flatMap wordBytes) 0 =
      clientHeader .memAccess := packetWord_words _ 0
  rw [Requests, header]
  exact ⟨headerVersion_clientHeader _, headerOpcode_clientHeader _⟩

theorem remoteMemOp_server {state : ServerState Memories} {addr : UInt64} {size : UInt32}
    {dst : Option (List UInt32)} {writeEn vramEn : Bool} {request : RumrBuffer}
    (sent : memOpRequest granted addr size dst writeEn vramEn = some request) :
    (remoteMemOp state addr size dst writeEn vramEn).2 =
      serverAfter state (serveRequest { state with sent := [] } request) := by
  unfold remoteMemOp
  rw [sent]

theorem remoteMemOp_misses (state : ServerState Memories)
    (fits : 4 * words.length + 1048 < 2 ^ 32) :
    MissesWrite space state.device (remoteMemOp state addr (payloadSize words) (some words) true
      (space = .vram)).2.device := by
  obtain ⟨request, sent, arrives⟩ := writeRequest_delivered space addr words fits
  have bound := writeRequest_length space addr words fits
  have found := decodeMemAccess_packetAt ((writeRequest space addr words).flatMap wordBytes)
    (by omega)
  simp only [packetWord_words] at found
  have bits := (subcommand_bits space).2
  have served := rumrServerLoop_requested ((writeRequest space addr words).flatMap wordBytes)
    memoryServer granted true { state with sent := [] } .memAccess (by omega)
    (writeRequest_requests space addr words) (by decide) rfl
  have isWrite : ((4 ||| space.subcommand) >>> 2) &&& 1 ≠ 0 := by
    rw [bits.2]
    decide
  have misses := handleOpMemAccess_misses (startSession { state with sent := [] }
    ((writeRequest space addr words).flatMap wordBytes)) space found bits.1 isWrite
  have command : runCommand granted memoryServer .memAccess =
    handleOpMemAccess granted memoryDevice := rfl
  rw [← command] at misses
  rw [← arrives] at served
  rw [remoteMemOp_server sent, serveRequest, served]
  cases run : runCommand granted memoryServer .memAccess (startSession { state with sent := [] }
      ((writeRequest space addr words).flatMap wordBytes)) with
  | error fault => exact Or.inl rfl
  | ok pair =>
      rw [Guarded, run] at misses
      have device := sendReply_device
        (packetWord ((writeRequest space addr words).flatMap wordBytes) 0) true
        { state with sent := [] } pair
      change MissesWrite space state.device (sendReply _ true _ pair).2.device
      rw [device]
      exact misses

/-- Any payload that fits, in either memory, from any state of the server. -/
theorem remote_write_never_local (state : ServerState Memories)
    (fits : 4 * words.length + 1048 < 2 ^ 32) : ¬ RemoteWriteIsLocal space addr words state := by
  rintro ⟨write, _⟩
  exact (remoteMemOp_misses space addr words state fits).ne_write addr _ write

end Remote

def freshState : ServerState Memories := ⟨⟨fun _ _ => 0, []⟩, ⟨0, 0, 0, 0, 0⟩, true, []⟩

theorem one_word_fits_not_local : 4 * [(0xDEADBEEF : UInt32)].length + 1048 < 2 ^ 32 ∧
    ¬ RemoteWriteIsLocal .sram 0x2000 [0xDEADBEEF] freshState :=
  ⟨by decide, remote_write_never_local .sram 0x2000 [0xDEADBEEF] freshState (by decide)⟩

theorem one_word_to_vram_not_local :
    ¬ RemoteWriteIsLocal .vram 0x1000 [0xDEADBEEF] freshState := by
  rintro ⟨write, _⟩
  exact (remoteMemOp_misses .vram 0x1000 [0xDEADBEEF] freshState (by decide)).ne_write _ _ write

end Umr.Rumr
