import Umr.Rumr.RemoteMemory
import Umr.Waves.ReadGprwave

/-!
# Remote GPR reads

Client, transport and server put together for GPR reads, over a gprwave file
that refuses a read or answers it in full.  The result is compared with what
`umr_read_sgprs` and `umr_read_vgprs` read on the server's own device.
-/

set_option autoImplicit false

namespace Umr.Rumr

open Umr.Lib Umr.Waves

/-- The gprwave file.  Reads are all or nothing. -/
structure GprFile where
  read : GprwaveIocdata → UInt32 → UInt32 → Option (List UInt8)
  full : ∀ id offset size bytes, read id offset size = some bytes → bytes.length = size.toNat

/-- The device state is the selection of the last `ioctl`; without an open file
every call on it fails. -/
def gprDevice (file : Option GprFile) : Device GprwaveIocdata where
  accessRead := fun _ _ _ => pure (false, [])
  accessWrite := fun _ _ _ => pure false
  vmDmaToPhys := fun addr => pure addr
  readReg := fun _ _ _ => pure 0
  writeReg := fun _ _ _ _ => pure ()
  gprwaveIoctl := fun id _ => (file.isSome, id)
  gprwaveRead := fun offset size id => (file.bind fun gprs => gprs.read id offset size, id)
  ringFile := fun _ => pure none

def gprServer (family : ChipFamily) (vmPartition : Int) (file : Option GprFile) :
    Server GprwaveIocdata where
  device := gprDevice file
  asic := ⟨family, vmPartition, file.isSome⟩
  serializedAsic := ⟨[], 0, 0, 0, false⟩
  readable := unallocated_readable

@[simp] theorem gprServer_family (family : ChipFamily) (vmPartition : Int)
    (file : Option GprFile) : (gprServer family vmPartition file).asic.family = family := rfl

section Client
variable {σ : Type} (server : Server σ)

/-- `send_opcode` with a GPR request against a server that handles one packet:
the reply behind its checked header, and the server afterwards.  `none` is a
fault on the way. -/
def sendGprOpcode (state : ServerState σ) (params : List UInt32) :
    Option (Option RumrBuffer × ServerState σ) := do
  let request ← sendOpcode granted .gprAccess params
  match (rumrServerLoop server ⟨granted, delivered request, true⟩
      { state with sent := [] }).finish with
  | .error _ => none
  | .ok (_, after) => some (checkReply (after.sent.head?.bind delivered), after)

/-- What `gprs_op` takes from a reply: the bytes stored from word `index` of the
destination on.  `none` is its error return. -/
def gprsReply (reply : Option RumrBuffer) (size : UInt32) (index : Nat) :
    Option (List (Nat × List UInt8)) := do
  let buf ← reply
  let (status, buf) ← rumrBufferReadUint32 buf
  if status ≠ 1 then none
  else do
    let (length, buf) ← rumrBufferReadUint32 buf
    if length >>> 2 ≤ size then do
      let (data, _) ← rumrBufferReadData size buf
      pure [(index, data)]
    else pure []

def gprsOp (state : ServerState σ) (vgprGranularity : UInt32) (wd : WaveData) (thread : UInt32)
    (kind : GprKind) : Option (Option (List (Nat × List UInt8))) := do
  let size := gprsSize server.asic.family vgprGranularity wd kind.vOrS
  let (reply, state) ← sendGprOpcode server state (gprsParams wd thread kind.vOrS size)
  match gprsReply reply size 0 with
  | none => pure none
  | some stores =>
      if kind = .sgpr ∧ wd.inTrap then do
        let (reply, _) ← sendGprOpcode server state (trapParams wd thread kind.vOrS)
        match gprsReply reply (16 * 4) 0x6C with
        | none => pure none
        | some trap => pure (some (stores ++ trap))
      else pure (some stores)

end Client

inductive GprCall where
  | sgprs
  | vgprs (thread : UInt32)
  deriving DecidableEq, Repr

def GprCall.kind : GprCall → GprKind
  | .sgprs => .sgpr
  | .vgprs _ => .vgpr

def GprCall.thread : GprCall → UInt32
  | .sgprs => 0
  | .vgprs thread => thread

def GprCall.remote {σ : Type} (server : Server σ) (state : ServerState σ)
    (vgprGranularity : UInt32) (wave : Wave) (call : GprCall) :
    Option (Option (List (Nat × List UInt8))) :=
  gprsOp server state vgprGranularity wave.toWaveData call.thread call.kind

def GprCall.onServer {σ : Type} (server : Server σ) (vgprGranularity : UInt32) (wave : Wave) :
    GprCall → StateM σ GprRead
  | .sgprs => umrReadSgprs server.device server.asic false vgprGranularity wave
  | .vgprs thread => umrReadVgprs server.device server.asic false vgprGranularity wave thread

/-- Whatever the file holds, the client stores what the local read stores. -/
def GprCall.AgreesWithLocal (family : ChipFamily) (vmPartition : Int) (vgprGranularity : UInt32)
    (wave : Wave) (call : GprCall) : Prop :=
  ∀ (file : Option GprFile) (state : ServerState GprwaveIocdata),
    call.remote (gprServer family vmPartition file) state vgprGranularity wave =
      some (call.onServer (gprServer family vmPartition file) vgprGranularity wave
        state.device).1.returned

def SameUnit (family : ChipFamily) (wave : Wave) : Prop :=
  gprUnit family wave = ⟨wave.se, wave.sh, wave.cu, wave.wave,
    if family.code < ChipFamily.nv.code then wave.simd else 0⟩

def GprCall.Ok (family : ChipFamily) (vgprGranularity : UInt32) (wave : Wave) : GprCall → Prop
  | .sgprs =>
      let size := gprsSize family vgprGranularity wave.toWaveData 0
      family.code < ChipFamily.nv.code ∧ wave.inTrap = false ∧ 0 < size ∧ size ≤ 4096 ∧
        SameUnit family wave
  | .vgprs _ =>
      let size := gprsSize family vgprGranularity wave.toWaveData 1
      if family.code < ChipFamily.ai.code then size = 0
      else 0 < size ∧ size ≤ 4096 ∧ SameUnit family wave

/-! ## The server's answer -/

section Answer
variable {σ : Type} {session : Session σ}

structure Answers (bytes : List UInt8) (session : Session σ) : Prop where
  inv : session.outbuf.Inv
  live : session.outbuf.failed = false
  written : session.outbuf.written = List.replicate 4 0 ++ bytes
  size_le : session.outbuf.size.toNat ≤ 1024 + 1024 * bytes.length

theorem startSession_answers (state : ServerState σ) (payload : List UInt8) :
    Answers [] (startSession state payload) := by
  have inv : ({ emptyBuffer with woffset := 4 } : RumrBuffer).Inv :=
    ⟨by decide, by decide, emptyBuffer_inv.size_eq⟩
  have size : ({ emptyBuffer with woffset := 4 } : RumrBuffer).size.toNat = 1024 := rfl
  refine ⟨inv, rfl, ?_, ?_⟩
  · change (List.replicate 1024 (0 : UInt8)).take 4 = _
    rw [List.take_replicate]
    rfl
  · exact Nat.le_of_eq size

theorem replyData_answers {bytes : List UInt8} (before : Answers bytes session)
    (data : List UInt8) (nonempty : 0 < data.length)
    (small : bytes.length + data.length ≤ 8192) :
    ∃ outbuf, replyData granted data session = .ok ((), { session with outbuf := outbuf }) ∧
      Answers (bytes ++ data) { session with outbuf := outbuf } := by
  have sizeLe := before.size_le
  have grown : grownSize session.outbuf.size.toNat session.outbuf.woffset.toNat data.length ≤
      session.outbuf.size.toNat + max 1024 data.length := by
    unfold grownSize
    split <;> omega
  have fits : grownSize session.outbuf.size.toNat session.outbuf.woffset.toNat data.length + 8 <
      2 ^ 32 := by omega
  have always : ∀ request, granted request = true := fun _ => rfl
  obtain ⟨next, run, inv, written, _, live, size, _⟩ :=
    rumrBufferAddData_spec before.inv before.live fits always
  refine ⟨next, ?_, inv, live, ?_, ?_⟩
  · simp only [replyData, toReply, run]
  · rw [written, before.written, List.append_assoc]
  · rw [size, List.length_append]
    omega

def gprAnswer (stored : List UInt8) : List UInt8 :=
  if stored = [] then wordBytes 0
  else wordBytes 1 ++ (wordBytes (UInt32.ofNat stored.length) ++ stored)

theorem replyStored_answers (before : Answers [] session) {r : Int} {stored : List UInt8}
    (small : stored.length ≤ 4096) (status : r = -1 ∧ stored = [] ∨ r = stored.length) :
    ∃ outbuf, replyStored granted r stored session = .ok ((), { session with outbuf := outbuf }) ∧
      Answers (gprAnswer stored) { session with outbuf := outbuf } := by
  by_cases empty : stored = []
  · have notPositive : ¬ r > 0 := by
      rcases status with ⟨negative, _⟩ | length
      · omega
      · rw [empty, List.length_nil] at length
        omega
    obtain ⟨outbuf, run, answers⟩ := replyData_answers before (wordBytes 0) (by decide) (by decide)
    refine ⟨outbuf, ?_, ?_⟩
    · simp only [replyStored, if_neg notPositive]
      exact bind_of_ok run
    · rw [gprAnswer, if_pos empty]
      exact answers
  · have nonempty : 0 < stored.length := List.length_pos_iff.mpr empty
    have length : r = stored.length := by
      rcases status with ⟨_, none⟩ | length
      · exact absurd none empty
      · exact length
    have positive : r > 0 := by omega
    have count : r.toNat = stored.length := by omega
    have word : UInt32.ofInt r = UInt32.ofNat stored.length := by
      rw [length, UInt32.ofInt]
      exact congrArg UInt32.ofNat (by omega)
    obtain ⟨first, runFirst, afterFirst⟩ := replyData_answers before (wordBytes 1) (by decide)
      (by decide)
    obtain ⟨second, runSecond, afterSecond⟩ := replyData_answers afterFirst
      (wordBytes (UInt32.ofNat stored.length)) (by rw [wordBytes_length]; decide)
      (by rw [wordBytes_length]; decide)
    obtain ⟨third, runThird, afterThird⟩ := replyData_answers afterSecond stored nonempty
      (by simp only [List.length_append, wordBytes_length, List.length_nil]; omega)
    refine ⟨third, ?_, ?_⟩
    · have taken : takeLocal (σ := σ) r.toNat stored { session with outbuf := second } =
          .ok (stored, { session with outbuf := second }) := by
        rw [takeLocal, count, if_pos (Nat.le_refl _), List.take_length]
      simp only [replyStored, if_pos positive, word]
      exact (bind_of_ok runFirst).trans ((bind_of_ok runSecond).trans
        ((bind_of_ok taken).trans runThird))
    · rw [gprAnswer, if_neg empty]
      rwa [List.nil_append, List.append_assoc] at afterThird

theorem handleOpGprAccess_answers {device : Device σ} {asic : ServerAsic} {args : GprIn}
    {next : RumrBuffer} {r : Int} {stored : List UInt8} {after : σ}
    (found : decodeGprAccess session.inbuf = some (args, next))
    (outcome : umrLinuxReadGprGprwaveRaw device asic args.vgprOrSgpr args.thread args.se args.sh
      args.cuWgp args.wave args.simd args.offset args.size session.device = ((r, stored), after))
    (small : stored.length ≤ 4096) (status : r = -1 ∧ stored = [] ∨ r = stored.length)
    (before : Answers [] session) :
    ∃ final, handleOpGprAccess granted device asic session = .ok (0, final) ∧
      Answers (gprAnswer stored) final := by
  have fresh : Answers [] { session with inbuf := next, device := after } :=
    ⟨before.inv, before.live, before.written, before.size_le⟩
  obtain ⟨outbuf, run, answers⟩ := replyStored_answers fresh small status
  have called : onDevice (umrLinuxReadGprGprwaveRaw device asic args.vgprOrSgpr args.thread
      args.se args.sh args.cuWgp args.wave args.simd args.offset args.size)
      { session with inbuf := next } =
        .ok ((r, stored), { session with inbuf := next, device := after }) := by
    simp only [onDevice, outcome]
  have kept : storeLocal (1024 * 4) stored { session with inbuf := next, device := after } =
      .ok ((), { session with inbuf := next, device := after }) := if_pos small
  refine ⟨_, ?_, answers⟩
  rw [handleOpGprAccess, fromPacket_bind found, bind_of_ok called]
  change (storeLocal (1024 * 4) stored >>= fun _ =>
    replyStored granted r stored >>= fun _ => pure 0) _ = _
  rw [bind_of_ok kept, bind_of_ok run]
  rfl

end Answer

/-! ## One exchange -/

section Exchange
variable {σ : Type} {params : List UInt32}

def gprRequest (params : List UInt32) : List UInt8 :=
  (clientHeader .gprAccess :: params).flatMap wordBytes

def gprArgs (params : List UInt32) : GprIn :=
  ⟨params.getD 0 0, params.getD 1 0, params.getD 2 0, params.getD 3 0, params.getD 4 0,
    params.getD 5 0, params.getD 6 0, params.getD 7 0, params.getD 8 0⟩

def gprReplyHeader : UInt32 := serverHeader (clientHeader .gprAccess)

theorem gprRequest_length (short : params.length ≤ 255) :
    (gprRequest params).length + 8 < 2 ^ 32 := by
  rw [gprRequest, flatMap_wordBytes_length, List.length_cons]
  omega

theorem gprRequest_decoded (state : ServerState σ) (short : params.length ≤ 255) :
    decodeGprAccess (startSession state (gprRequest params)).inbuf =
      some (gprArgs params, packetAt (gprRequest params) 10) := by
  have bound := gprRequest_length short
  have found := decodeGprAccess_packetAt (gprRequest params) (by omega)
  simp only [gprRequest, packetWord_words, List.getD_cons_succ] at found
  exact found

theorem gprRequest_served (server : Server σ) (state : ServerState σ)
    (short : params.length ≤ 255) :
    ∃ request, sendOpcode granted .gprAccess params = some request ∧
      (rumrServerLoop server ⟨granted, delivered request, true⟩ state).finish =
        (handleOpGprAccess granted server.device server.asic
          (startSession state (gprRequest params))).map
          (sendReply (clientHeader .gprAccess) true state) := by
  obtain ⟨request, sent, inv, written⟩ := sendOpcode_built .gprAccess params short
  have bound := gprRequest_length short
  have header : packetWord (gprRequest params) 0 = clientHeader .gprAccess := packetWord_words _ 0
  have requested : Requests (gprRequest params) .gprAccess := by
    rw [Requests, header]
    exact ⟨headerVersion_clientHeader _, headerOpcode_clientHeader _⟩
  have served := rumrServerLoop_requested (gprRequest params) server granted true state
    .gprAccess (by omega) requested (by decide) rfl
  have arrives := delivered_written inv.readable (by rw [written]; exact bound)
  refine ⟨request, sent, ?_⟩
  rw [arrives, written]
  rw [header] at served
  exact served

theorem gprAnswer_length {stored : List UInt8} (small : stored.length ≤ 4096) :
    (gprAnswer stored).length ≤ 4104 := by
  unfold gprAnswer
  split
  · rw [wordBytes_length]
    omega
  · simp only [List.length_append, wordBytes_length]
    omega

theorem sendReply_answers {session : Session σ} {bytes : List UInt8} (header : UInt32)
    (state : ServerState σ) (unsent : state.sent = []) (answers : Answers bytes session) :
    ∃ reply, (sendReply header true state (0, session)).2.sent = [reply] ∧ reply.Readable ∧
      reply.written = wordBytes (serverHeader header) ++ bytes := by
  have written := answers.written
  have length := answers.inv.readable.written_length
  have inside := answers.inv.readable.woffset_le
  rw [written, List.length_append, List.length_replicate] at length
  have headLength : (wordBytes (serverHeader header)).length = 4 := wordBytes_length _
  refine ⟨{ session.outbuf with
    data := wordBytes (serverHeader header) ++ session.outbuf.data.drop 4 }, ?_, ⟨?_, ?_⟩, ?_⟩
  · simp only [sendReply, answers.live, unsent]
    rfl
  · exact answers.inv.roffset_le
  · simp only [List.length_append, List.length_drop, headLength]
    omega
  · have behind : session.outbuf.written.drop 4 = bytes := by
      rw [written]
      rfl
    simp only [RumrBuffer.written] at behind ⊢
    rw [List.take_append, headLength, List.take_of_length_le (by omega), ← behind,
      List.drop_take]

theorem checkReply_answer (bytes : List UInt8) (bound : bytes.length + 4 < 2 ^ 32) :
    checkReply (some (receivedBuffer (wordBytes gprReplyHeader ++ bytes))) =
      some (packetAt (wordBytes gprReplyHeader ++ bytes) 1) := by
  have length : (wordBytes gprReplyHeader ++ bytes).length < 2 ^ 32 := by
    rw [List.length_append, wordBytes_length]
    omega
  have header := readUint32_packetAt (wordBytes gprReplyHeader ++ bytes) 0 length (by decide)
  have word : packetWord (wordBytes gprReplyHeader ++ bytes) 0 = gprReplyHeader := by
    have first := packetWord_flatMap [gprReplyHeader] bytes 0 Nat.zero_lt_one
    rwa [List.flatMap_cons, List.flatMap_nil, List.append_nil] at first
  rw [packetAt_zero, word] at header
  have accepted : headerVersion gprReplyHeader = rumrVersion ∧
    headerServerBit gprReplyHeader ≠ 0 := by decide
  simp only [checkReply, Option.bind_eq_bind, Option.bind_some, header, if_pos accepted]
  rfl

/-- The client is left behind the header of the server's answer. -/
theorem sendGprOpcode_answered {server : Server σ} {state : ServerState σ}
    {args : GprIn} (short : params.length ≤ 255) (decoded : gprArgs params = args) {r : Int}
    {stored : List UInt8} {after : σ}
    (outcome : umrLinuxReadGprGprwaveRaw server.device server.asic args.vgprOrSgpr args.thread
      args.se args.sh args.cuWgp args.wave args.simd args.offset args.size state.device = ((r, stored), after))
    (small : stored.length ≤ 4096) (status : r = -1 ∧ stored = [] ∨ r = stored.length) :
    ∃ next, sendGprOpcode server state params =
      some (some (packetAt (wordBytes gprReplyHeader ++ gprAnswer stored) 1), next) := by
  obtain ⟨request, sent, served⟩ := gprRequest_served server { state with sent := [] } short
  have found := gprRequest_decoded { state with sent := [] } short
  rw [decoded] at found
  obtain ⟨final, run, answers⟩ := handleOpGprAccess_answers found outcome small status
    (startSession_answers _ _)
  obtain ⟨reply, transmitted, readable, written⟩ :=
    sendReply_answers (clientHeader .gprAccess) { state with sent := [] } rfl answers
  rw [run] at served
  have length := gprAnswer_length small
  have arrives := delivered_written readable (by
    rw [written, List.length_append, wordBytes_length]
    omega)
  have checked := checkReply_answer (gprAnswer stored) (by omega)
  rw [written] at arrives
  refine ⟨(sendReply (clientHeader .gprAccess) true { state with sent := [] } (0, final)).2, ?_⟩
  rw [sendGprOpcode, sent]
  simp only [Option.bind_eq_bind, Option.bind_some, served, Except.map, transmitted,
    List.head?_cons, arrives]
  exact congrArg (fun reply => some (reply, _)) checked

theorem sendGprOpcode_overruns {server : Server σ} {state : ServerState σ}
    {args : GprIn} (short : params.length ≤ 255) (decoded : gprArgs params = args)
    {outcome : (Int × List UInt8) × σ}
    (raw : umrLinuxReadGprGprwaveRaw server.device server.asic args.vgprOrSgpr args.thread
      args.se args.sh args.cuWgp args.wave args.simd args.offset args.size state.device = outcome)
    (large : 4096 < outcome.1.2.length) :
    sendGprOpcode server state params = none := by
  obtain ⟨request, sent, served⟩ := gprRequest_served server { state with sent := [] } short
  have found := gprRequest_decoded { state with sent := [] } short
  rw [decoded] at found
  rw [handleOpGprAccess_overruns found raw large] at served
  rw [sendGprOpcode, sent]
  simp only [Option.bind_eq_bind, Option.bind_some, served, Except.map]

theorem gprsReply_refused (size : UInt32) (index : Nat) :
    gprsReply (some (packetAt (wordBytes gprReplyHeader ++ gprAnswer []) 1)) size index = none := by
  have flat : wordBytes gprReplyHeader ++ gprAnswer [] =
      [gprReplyHeader, 0].flatMap wordBytes := rfl
  have status := readUint32_packetAt ([gprReplyHeader, 0].flatMap wordBytes) 1 (by decide)
    (by decide)
  rw [packetWord_words] at status
  rw [flat]
  simp only [gprsReply, Option.bind_eq_bind, Option.bind_some, status]
  rfl

theorem gprsReply_filled {stored : List UInt8} {size : UInt32} (index : Nat)
    (nonempty : stored ≠ []) (length : stored.length = size.toNat)
    (small : stored.length ≤ 4096) :
    gprsReply (some (packetAt (wordBytes gprReplyHeader ++ gprAnswer stored) 1)) size index =
      some [(index, stored)] := by
  have flat : wordBytes gprReplyHeader ++ gprAnswer stored =
      [gprReplyHeader, 1, size].flatMap wordBytes ++ stored := by
    have word : UInt32.ofNat stored.length = size := by
      rw [length, UInt32.ofNat_toNat]
    rw [gprAnswer, if_neg nonempty, word]
    simp only [List.flatMap_cons, List.flatMap_nil, List.append_nil, List.append_assoc]
  have heads := flatMap_wordBytes_length [gprReplyHeader, 1, size]
  have three : [gprReplyHeader, 1, size].length = 3 := rfl
  have bound : ([gprReplyHeader, 1, size].flatMap wordBytes ++ stored).length < 2 ^ 32 := by
    rw [List.length_append, heads, three]
    omega
  have status := readUint32_packetAt _ 1 bound (by decide)
  have count := readUint32_packetAt _ 2 bound (by decide)
  rw [packetWord_flatMap _ _ 1 (by omega)] at status
  rw [packetWord_flatMap _ _ 2 (by omega)] at count
  have unread : (packetAt ([gprReplyHeader, 1, size].flatMap wordBytes ++ stored) 3).unread =
      stored ++ [] := by
    have words : 4 * min 3 (([gprReplyHeader, 1, size].flatMap wordBytes ++ stored).length / 4) =
        ([gprReplyHeader, 1, size].flatMap wordBytes).length := by
      rw [List.length_append, heads, three]
      omega
    rw [packetAt_unread 3 bound (by decide), words, List.drop_left, List.append_nil]
  have readable := packetAt_readable 3 bound (by decide)
  obtain ⟨rest, data, _⟩ := rumrBufferReadData_reads _ size stored length _ []
    readable.readFrom unread
  have whole : size >>> 2 ≤ size := by
    rw [UInt32.le_iff_toNat_le, shiftRight_two_toNat]
    omega
  rw [flat]
  simp only [gprsReply, Option.bind_eq_bind, Option.bind_some, status, count]
  simp only [List.getD_cons_succ, List.getD_cons_zero, ne_eq, not_true_eq_false, if_false,
    if_pos whole, data, Option.bind_some]
  rfl

end Exchange

/-! ## The file on both sides -/

section File
variable (family : ChipFamily) (vmPartition : Int) (file : Option GprFile)
  (vOrS thread : UInt32)

def fileBytes (id : GprwaveIocdata) (offset size : UInt32) : Option (List UInt8) :=
  file.bind fun gprs => gprs.read id offset size

def fileStatus : Option (List UInt8) → Int × List UInt8
  | some stored => (readStatus stored, stored)
  | none => (-1, [])

@[simp] theorem fileStatus_some (stored : List UInt8) :
    fileStatus (some stored) = (readStatus stored, stored) := rfl

def unitId (unit : GprUnit) : GprwaveIocdata where
  gprOrWave := 1
  se := unit.se
  sh := unit.sh
  cu := unit.cu
  wave := unit.wave
  simd := if family.code < ChipFamily.nv.code then unit.simd else 0
  thread := if vOrS = 0 then 0 else thread
  vgprOrSgpr := vOrS
  xccId := (gprServer family vmPartition none).asic.xccId

theorem raw_gprServer (unit : GprUnit) (offset size : UInt32) (id : GprwaveIocdata) :
    umrLinuxReadGprGprwaveRaw (gprServer family vmPartition file).device
        (gprServer family vmPartition file).asic vOrS thread unit.se unit.sh unit.cu unit.wave
        unit.simd offset size id =
      (fileStatus (fileBytes file (unitId family vmPartition vOrS thread unit) offset size),
        unitId family vmPartition vOrS thread unit) := by
  cases file with
  | none => rfl
  | some gprs =>
      change (match gprs.read (unitId family vmPartition vOrS thread unit) offset size
        with
        | some stored => (pure (readStatus stored, stored) : StateM GprwaveIocdata _)
        | none => pure (-1, [])) _ = _
      cases found : gprs.read (unitId family vmPartition vOrS thread unit) offset size <;>
        simp only [fileBytes, Option.bind_some, found, fileStatus] <;> rfl

variable {file}

theorem fileBytes_length {id : GprwaveIocdata} {offset size : UInt32} {stored : List UInt8}
    (found : fileBytes file id offset size = some stored) : stored.length = size.toNat := by
  cases file with
  | none => cases found
  | some gprs => exact gprs.full id offset size stored found

theorem readStatus_small {stored : List UInt8} (small : stored.length ≤ 4096) :
    readStatus stored = stored.length :=
  bmod_of_small stored.length (2 ^ 32) (by omega)

variable (file) in
theorem raw_gprServer_small (unit : GprUnit) (offset size : UInt32) (id : GprwaveIocdata)
    (small : size.toNat ≤ 4096) :
    ∃ r stored, umrLinuxReadGprGprwaveRaw (gprServer family vmPartition file).device
        (gprServer family vmPartition file).asic vOrS thread unit.se unit.sh unit.cu unit.wave
        unit.simd offset size id =
          ((r, stored), unitId family vmPartition vOrS thread unit) ∧
      stored.length ≤ 4096 ∧
      (fileBytes file (unitId family vmPartition vOrS thread unit) offset size = none ∧
          r = -1 ∧ stored = [] ∨
        fileBytes file (unitId family vmPartition vOrS thread unit) offset size =
          some stored ∧ r = stored.length) := by
  have raw := raw_gprServer family vmPartition file vOrS thread unit offset size id
  cases found : fileBytes file (unitId family vmPartition vOrS thread unit) offset size with
  | none =>
      rw [found] at raw
      exact ⟨-1, [], raw, Nat.zero_le _, Or.inl ⟨rfl, rfl, rfl⟩⟩
  | some stored =>
      rw [found] at raw
      have length := fileBytes_length found
      have storedSmall : stored.length ≤ 4096 := by omega
      have status := readStatus_small storedSmall
      exact ⟨readStatus stored, stored, raw, storedSmall, Or.inr ⟨rfl, status⟩⟩

variable (file) in
/-- One request of the client: it gets the bytes of the file, unless it asked
for none. -/
theorem sendGprOpcode_file (state : ServerState GprwaveIocdata) {params : List UInt32}
    (unit : GprUnit) (offset size : UInt32) (short : params.length ≤ 255)
    (args : gprArgs params =
      ⟨unit.se, unit.sh, unit.cu, unit.simd, unit.wave, thread, vOrS, offset, size⟩)
    (small : size.toNat ≤ 4096) :
    ∃ reply next, sendGprOpcode (gprServer family vmPartition file) state params =
        some (reply, next) ∧
      ∀ asked index, asked = size ∨ size = 0 → gprsReply reply asked index =
        if size = 0 then none
        else (fileBytes file (unitId family vmPartition vOrS thread unit) offset size).map
          fun stored => [(index, stored)] := by
  obtain ⟨r, stored, raw, storedSmall, outcome⟩ := raw_gprServer_small family vmPartition file vOrS
    thread unit offset size state.device small
  have status : r = -1 ∧ stored = [] ∨ r = stored.length := outcome.imp And.right And.right
  obtain ⟨next, run⟩ := sendGprOpcode_answered short args raw storedSmall status
  refine ⟨_, next, run, ?_⟩
  intro asked index same
  rcases outcome with ⟨refused, _, nothing⟩ | ⟨found, _⟩
  · rw [refused, nothing, gprsReply_refused, Option.map_none, ite_self]
  · have length := fileBytes_length found
    rw [found]
    by_cases empty : size = 0
    · have nothing : stored = [] := List.eq_nil_of_length_eq_zero (by rw [length, empty]; rfl)
      rw [if_pos empty, nothing, gprsReply_refused]
    · have nonempty : stored ≠ [] := by
        rintro rfl
        exact empty (UInt32.toNat_inj.mp length.symm)
      rw [if_neg empty, same.resolve_right empty,
        gprsReply_filled index nonempty length storedSmall]
      rfl

theorem sendGprOpcode_file_overruns (state : ServerState GprwaveIocdata) {params : List UInt32}
    (unit : GprUnit) (offset size : UInt32) (short : params.length ≤ 255)
    (args : gprArgs params =
      ⟨unit.se, unit.sh, unit.cu, unit.simd, unit.wave, thread, vOrS, offset, size⟩)
    {stored : List UInt8}
    (found : fileBytes file (unitId family vmPartition vOrS thread unit) offset size =
      some stored) (large : 4096 < size.toNat) :
    sendGprOpcode (gprServer family vmPartition file) state params = none := by
  have raw := raw_gprServer family vmPartition file vOrS thread unit offset size state.device
  have length := fileBytes_length found
  rw [found, fileStatus_some] at raw
  exact sendGprOpcode_overruns short args raw (by rw [length]; exact large)

end File

/-! ## Both reads in closed form -/

section Reads
variable (family : ChipFamily) (vmPartition : Int) {file : Option GprFile}
  (vgprGranularity : UInt32) (wave : Wave) (kind : GprKind) (thread : UInt32)

def clientUnit : GprUnit := ⟨wave.se, wave.sh, wave.cu, wave.wave, wave.simd⟩

/-- What a side that selects `unit` and asks for `size` bytes finds in the file. -/
def unitBytes (file : Option GprFile) (unit : GprUnit) (size : UInt32) : Option (List UInt8) :=
  fileBytes file (unitId family vmPartition kind.vOrS thread unit) 0 size

theorem gprsOp_file (state : ServerState GprwaveIocdata) {size : UInt32}
    (sizeEq : gprsSize family vgprGranularity wave.toWaveData kind.vOrS = size)
    (small : size.toNat ≤ 4096) :
    gprsOp (gprServer family vmPartition file) state vgprGranularity wave.toWaveData thread kind =
      some (if size = 0 ∨ (kind = .sgpr ∧ wave.inTrap = true) then none
        else (unitBytes family vmPartition kind thread file (clientUnit wave) size).map
          fun stored => [(0, stored)]) := by
  have short : (gprsParams wave.toWaveData thread kind.vOrS size).length ≤ 255 :=
    Nat.le_of_ble_eq_true rfl
  have trapShort : (trapParams wave.toWaveData thread kind.vOrS).length ≤ 255 :=
    Nat.le_of_ble_eq_true rfl
  obtain ⟨reply, next, run, taken⟩ := sendGprOpcode_file family vmPartition file kind.vOrS thread
    state (clientUnit wave) 0 size short rfl small
  -- the trap request is a word short: its size field is read behind the packet
  obtain ⟨trapReply, trapNext, trapRun, trapTaken⟩ := sendGprOpcode_file family vmPartition file
    (0x6C * 4) kind.vOrS next ⟨wave.se, wave.sh, wave.cu, thread, wave.simd⟩ (16 * 4) 0
    trapShort rfl (by decide)
  have trapNone := trapTaken (16 * 4) 0x6C (Or.inr rfl)
  rw [if_pos rfl] at trapNone
  simp only [gprsOp, gprServer_family, sizeEq, Option.bind_eq_bind, run, Option.bind_some,
    taken size 0 (Or.inl rfl)]
  by_cases empty : size = 0
  · rw [if_pos empty, if_pos (Or.inl empty)]
    rfl
  · rw [if_neg empty]
    change (match (unitBytes family vmPartition kind thread file (clientUnit wave) size).map
      fun stored => [(0, stored)] with
      | none => _
      | some stores => _) = _
    cases unitBytes family vmPartition kind thread file (clientUnit wave) size with
    | none => simp only [Option.map_none, ite_self]; rfl
    | some stored =>
        by_cases trapped : kind = .sgpr ∧ wave.inTrap = true
        · simp only [Option.map_some, if_pos trapped, trapRun, Option.bind_some, trapNone,
            if_pos (Or.inr trapped)]
          rfl
        · have answered : ¬ (size = 0 ∨ kind = .sgpr ∧ wave.inTrap = true) :=
            not_or.mpr ⟨empty, trapped⟩
          simp only [Option.map_some, if_neg trapped, if_neg answered]
          rfl

theorem gprsOp_overruns (state : ServerState GprwaveIocdata) {stored : List UInt8}
    (found : unitBytes family vmPartition kind thread file (clientUnit wave)
      (gprsSize family vgprGranularity wave.toWaveData kind.vOrS) = some stored)
    (large : 4096 < (gprsSize family vgprGranularity wave.toWaveData kind.vOrS).toNat) :
    gprsOp (gprServer family vmPartition file) state vgprGranularity wave.toWaveData thread kind =
      none := by
  have short : (gprsParams wave.toWaveData thread kind.vOrS
      (gprsSize family vgprGranularity wave.toWaveData kind.vOrS)).length ≤ 255 :=
    Nat.le_of_ble_eq_true rfl
  have fault := sendGprOpcode_file_overruns family vmPartition kind.vOrS thread state
    (clientUnit wave) 0 _ short rfl found large
  simp only [gprsOp, Option.bind_eq_bind, gprServer_family, fault, Option.bind_none]

/-- The local read of a wave whose trap registers are not read. -/
theorem readGprGprwave_file (id : GprwaveIocdata) {size : UInt32}
    (sizeEq : gprSize family vgprGranularity wave kind = size) (small : size.toNat ≤ 4096)
    (noTrap : ¬ (kind = .sgpr ∧ size < 4 * 0x6C ∧ wave.inTrap = true)) :
    (readGprGprwave (gprServer family vmPartition file).device
        (gprServer family vmPartition file).asic false vgprGranularity kind thread wave
        id).1.returned =
      (unitBytes family vmPartition kind thread file (gprUnit family wave) size).map
        fun stored => [(0, stored)] := by
  obtain ⟨r, stored, raw, _, outcome⟩ := raw_gprServer_small family vmPartition
    file kind.vOrS thread (gprUnit family wave) 0 size id small
  rw [readGprGprwave, gprServer_family, sizeEq, stateM_bind raw, unitBytes]
  simp only [if_neg noTrap]
  rcases outcome with ⟨refused, negative, _⟩ | ⟨found, status⟩
  · have failed : r < 0 := by omega
    rw [if_pos failed, refused]
    exact if_pos failed
  · have answered : ¬ r < 0 := by omega
    rw [if_neg answered, found]
    exact if_neg answered

/-! ## When they agree -/

def filledFile (fill : GprwaveIocdata → UInt8) : GprFile where
  read := fun id _ size => some (List.replicate size.toNat (fill id))
  full := by
    intro id offset size bytes found
    rw [← Option.some.inj found, List.length_replicate]

theorem unitBytes_filled (fill : GprwaveIocdata → UInt8) (unit : GprUnit) (size : UInt32) :
    unitBytes family vmPartition kind thread (some (filledFile fill)) unit size =
      some (List.replicate size.toNat
        (fill (unitId family vmPartition kind.vOrS thread unit))) := rfl

theorem readGprGprwave_filled (fill : GprwaveIocdata → UInt8) (id : GprwaveIocdata)
    (small : (gprSize family vgprGranularity wave kind).toNat ≤ 4096) :
    (readGprGprwave (gprServer family vmPartition (some (filledFile fill))).device
      (gprServer family vmPartition (some (filledFile fill))).asic false vgprGranularity kind
      thread wave id).1.returned ≠ none := by
  obtain ⟨r, stored, raw, _, outcome⟩ := raw_gprServer_small family vmPartition
    (some (filledFile fill)) kind.vOrS thread (gprUnit family wave) 0
    (gprSize family vgprGranularity wave kind) id small
  obtain ⟨trapR, trapStored, trapRaw, _, trapOutcome⟩ := raw_gprServer_small family vmPartition
    (some (filledFile fill)) kind.vOrS thread (gprUnit family wave) (4 * 0x6C)
    (gprSize family vgprGranularity wave kind)
    (unitId family vmPartition kind.vOrS thread (gprUnit family wave)) small
  have status : ¬ r < 0 := by
    rcases outcome with ⟨refused, _⟩ | ⟨_, status⟩
    · cases refused
    · omega
  have trapStatus : ¬ trapR < 0 := by
    rcases trapOutcome with ⟨refused, _⟩ | ⟨_, status⟩
    · cases refused
    · omega
  rw [readGprGprwave, gprServer_family, stateM_bind raw]
  simp only [if_neg status]
  by_cases trapped : kind = .sgpr ∧ gprSize family vgprGranularity wave kind < 4 * 0x6C ∧
      wave.inTrap = true
  · rw [if_pos trapped, stateM_bind (readTrapGprwave_of_raw trapRaw)]
    exact returned_ne_none trapStatus
  · rw [if_neg trapped]
    exact returned_ne_none status

theorem sameUnit_iff (vOrS : UInt32) :
    SameUnit family wave ↔
      unitId family vmPartition vOrS thread (clientUnit wave) =
        unitId family vmPartition vOrS thread (gprUnit family wave) := by
  unfold SameUnit unitId clientUnit gprUnit
  by_cases old : family.code < ChipFamily.nv.code
  · simp only [if_pos old, GprUnit.mk.injEq, GprwaveIocdata.mk.injEq, true_and, and_true]
    constructor
    · rintro ⟨se, sh, cu, wave, simd⟩
      exact ⟨se.symm, sh.symm, cu.symm, wave.symm, simd.symm⟩
    · rintro ⟨se, sh, cu, wave, simd⟩
      exact ⟨se.symm, sh.symm, cu.symm, wave.symm, simd.symm⟩
  · simp only [if_neg old, GprUnit.mk.injEq, GprwaveIocdata.mk.injEq, true_and, and_true]
    exact eq_comm

/-- The two reads of an open file, before the checks of the callers. -/
def OpenReadsAgree : Prop :=
  ∀ (gprs : GprFile) (state : ServerState GprwaveIocdata),
    gprsOp (gprServer family vmPartition (some gprs)) state vgprGranularity wave.toWaveData thread
        kind =
      some (readGprGprwave (gprServer family vmPartition (some gprs)).device
        (gprServer family vmPartition (some gprs)).asic false vgprGranularity kind thread wave
        state.device).1.returned

def idleGprState : ServerState GprwaveIocdata :=
  ⟨⟨0, 0, 0, 0, 0, 0, 0, 0, 0⟩, ⟨0, 0, 0, 0, 0⟩, true, []⟩

theorem size_le_of_filled
    (noFault : gprsOp (gprServer family vmPartition (some (filledFile fun _ => 0))) idleGprState
      vgprGranularity wave.toWaveData thread kind ≠ none) :
    (gprsSize family vgprGranularity wave.toWaveData kind.vOrS).toNat ≤ 4096 := by
  by_contra large
  exact noFault (gprsOp_overruns family vmPartition vgprGranularity wave kind thread idleGprState
    (unitBytes_filled family vmPartition kind thread (fun _ => 0) (clientUnit wave) _)
    (Nat.lt_of_not_le large))

section Forced
variable {family vmPartition vgprGranularity wave kind thread} {size : UInt32}

theorem OpenReadsAgree.size_le
    (agree : OpenReadsAgree family vmPartition vgprGranularity wave kind thread) :
    (gprsSize family vgprGranularity wave.toWaveData kind.vOrS).toNat ≤ 4096 := by
  apply size_le_of_filled family vmPartition vgprGranularity wave kind thread
  rw [agree (filledFile fun _ => 0) idleGprState]
  exact Option.some_ne_none _

theorem OpenReadsAgree.answered
    (agree : OpenReadsAgree family vmPartition vgprGranularity wave kind thread)
    (localSmall : (gprSize family vgprGranularity wave kind).toNat ≤ 4096) :
    ¬ (gprsSize family vgprGranularity wave.toWaveData kind.vOrS = 0 ∨
      kind = .sgpr ∧ wave.inTrap = true) := by
  intro refused
  have same := agree (filledFile fun _ => 0) idleGprState
  rw [gprsOp_file family vmPartition vgprGranularity wave kind thread idleGprState rfl agree.size_le,
    if_pos refused] at same
  exact readGprGprwave_filled family vmPartition vgprGranularity wave kind thread (fun _ => 0)
    idleGprState.device localSmall (Option.some.inj same).symm

/-- Files filled with one byte tell both the sizes and the units apart. -/
theorem OpenReadsAgree.forces
    (agree : OpenReadsAgree family vmPartition vgprGranularity wave kind thread)
    (localSmall : (gprSize family vgprGranularity wave kind).toNat ≤ 4096) :
    gprsSize family vgprGranularity wave.toWaveData kind.vOrS =
      gprSize family vgprGranularity wave kind ∧ SameUnit family wave := by
  have answered := agree.answered localSmall
  have noTrap : ¬ (kind = .sgpr ∧ gprSize family vgprGranularity wave kind < 4 * 0x6C ∧
      wave.inTrap = true) := fun trapped => answered (Or.inr ⟨trapped.1, trapped.2.2⟩)
  have both : ∀ fill : GprwaveIocdata → UInt8,
      List.replicate (gprsSize family vgprGranularity wave.toWaveData kind.vOrS).toNat
          (fill (unitId family vmPartition kind.vOrS thread
            (clientUnit wave))) =
        List.replicate (gprSize family vgprGranularity wave kind).toNat
          (fill (unitId family vmPartition kind.vOrS thread
            (gprUnit family wave))) := by
    intro fill
    have same := agree (filledFile fill) idleGprState
    rw [gprsOp_file family vmPartition vgprGranularity wave kind thread idleGprState rfl
        agree.size_le, if_neg answered,
      readGprGprwave_file family vmPartition vgprGranularity wave kind thread idleGprState.device rfl
        localSmall noTrap, unitBytes_filled, unitBytes_filled] at same
    simpa using same
  have sizes : gprsSize family vgprGranularity wave.toWaveData kind.vOrS =
      gprSize family vgprGranularity wave kind := by
    have lengths := congrArg List.length (both fun _ => 0)
    rw [List.length_replicate, List.length_replicate] at lengths
    exact UInt32.toNat_inj.mp lengths
  refine ⟨sizes, ?_⟩
  by_contra apart
  rw [sameUnit_iff family vmPartition wave thread kind.vOrS] at apart
  have marked := both fun id => if id = unitId family vmPartition kind.vOrS thread
    (gprUnit family wave) then 1 else 0
  rw [if_neg apart, if_pos rfl, sizes, List.replicate_inj] at marked
  rcases marked.2 with none | bytes
  · rw [← sizes] at none
    exact answered (Or.inl (UInt32.toNat_inj.mp none))
  · exact absurd bytes (by decide)

end Forced

variable (file) in
/-- Conversely, the same size and the same unit give the same bytes. -/
theorem gprsOp_agrees (state : ServerState GprwaveIocdata)
    (positive : 0 < gprsSize family vgprGranularity wave.toWaveData kind.vOrS)
    (small : (gprsSize family vgprGranularity wave.toWaveData kind.vOrS).toNat ≤ 4096)
    (untrapped : ¬ (kind = .sgpr ∧ wave.inTrap = true))
    (sizes : gprsSize family vgprGranularity wave.toWaveData kind.vOrS =
      gprSize family vgprGranularity wave kind)
    (same : SameUnit family wave) :
    gprsOp (gprServer family vmPartition file) state vgprGranularity wave.toWaveData thread kind =
        some ((unitBytes family vmPartition kind thread file (gprUnit family wave)
          (gprSize family vgprGranularity wave kind)).map fun stored => [(0, stored)]) ∧
      (readGprGprwave (gprServer family vmPartition file).device
          (gprServer family vmPartition file).asic false vgprGranularity kind thread wave
          state.device).1.returned =
        (unitBytes family vmPartition kind thread file (gprUnit family wave)
          (gprSize family vgprGranularity wave kind)).map fun stored => [(0, stored)] := by
  have nonzero : gprsSize family vgprGranularity wave.toWaveData kind.vOrS ≠ 0 := by
    intro zero
    rw [zero] at positive
    exact absurd positive (by decide)
  have noTrap : ¬ (kind = .sgpr ∧ gprSize family vgprGranularity wave kind < 4 * 0x6C ∧
      wave.inTrap = true) := fun trapped => untrapped ⟨trapped.1, trapped.2.2⟩
  have units := (sameUnit_iff family vmPartition wave thread kind.vOrS).mp same
  constructor
  · rw [gprsOp_file family vmPartition vgprGranularity wave kind thread state rfl small,
      if_neg (not_or.mpr ⟨nonzero, untrapped⟩), unitBytes, unitBytes, units, sizes]
  · exact readGprGprwave_file family vmPartition vgprGranularity wave kind thread state.device rfl
      (by rw [← sizes]; exact small) noTrap

theorem gprSize_old (old : family.code < ChipFamily.nv.code) :
    gprSize family vgprGranularity wave kind =
      gprsSize family vgprGranularity wave.toWaveData kind.vOrS := if_pos old

theorem gprSize_vgpr : gprSize family vgprGranularity wave .vgpr =
    gprsSize family vgprGranularity wave.toWaveData 1 := by
  unfold gprSize
  split <;> rfl

/-- From NV on the client asks for a multiple of 16 words and the local read for
124. -/
theorem gprsSize_sgpr_new (new : ¬ family.code < ChipFamily.nv.code) :
    gprsSize family vgprGranularity wave.toWaveData 0 ≠
      gprSize family vgprGranularity wave .sgpr := by
  have above : ¬ family.code ≤ ChipFamily.cik.code := by
    cases family <;> revert new <;> decide
  have size : gprSize family vgprGranularity wave .sgpr = 4 * 124 := if_neg new
  rw [size, gprsSize, if_pos rfl, if_neg above]
  intro same
  have bytes := congrArg UInt32.toNat same
  have wide : ((4 : UInt32) * 124).toNat = 496 := rfl
  rw [wide, UInt32.toNat_mul, UInt32.toNat_shiftLeft, Nat.shiftLeft_eq] at bytes
  have shift : (4 : UInt32).toNat % 32 = 4 := rfl
  have four : (4 : UInt32).toNat = 4 := rfl
  rw [shift, four] at bytes
  omega

theorem sgprs_agree_iff :
    GprCall.sgprs.AgreesWithLocal family vmPartition vgprGranularity wave ↔
      GprCall.sgprs.Ok family vgprGranularity wave := by
  constructor
  · intro agree
    have opened : OpenReadsAgree family vmPartition vgprGranularity wave .sgpr 0 :=
      fun gprs state => agree (some gprs) state
    have small := opened.size_le
    have localSmall : (gprSize family vgprGranularity wave .sgpr).toNat ≤ 4096 := by
      by_cases old : family.code < ChipFamily.nv.code
      · rw [gprSize_old family vgprGranularity wave .sgpr old]
        exact small
      · have size : gprSize family vgprGranularity wave .sgpr = 4 * 124 := if_neg old
        rw [size]
        decide
    have answered := opened.answered localSmall
    obtain ⟨sizes, same⟩ := opened.forces localSmall
    have old : family.code < ChipFamily.nv.code := by
      by_contra new
      exact gprsSize_sgpr_new family vgprGranularity wave new sizes
    refine ⟨old, ?_, ?_, UInt32.le_iff_toNat_le.mpr small, same⟩
    · by_contra trapped
      exact answered (Or.inr ⟨rfl, Bool.of_not_eq_false trapped⟩)
    · exact UInt32.pos_iff_ne_zero.mpr fun zero => answered (Or.inl zero)
  · rintro ⟨old, untrapped, positive, small, same⟩ file state
    have sizes := (gprSize_old family vgprGranularity wave .sgpr old).symm
    have noTrap : ¬ (GprKind.sgpr = .sgpr ∧ wave.inTrap = true) := by
      rw [untrapped]
      decide
    obtain ⟨remote, onServer⟩ := gprsOp_agrees family vmPartition file vgprGranularity wave .sgpr 0
      state positive (UInt32.le_iff_toNat_le.mp small) noTrap sizes same
    cases file with
    | none => exact remote
    | some gprs => exact remote.trans (congrArg some onServer).symm

/-- Before AI the local read refuses VGPRs, and only an empty request is refused
by the server too. -/
theorem early_vgprs_agree_iff (early : family.code < ChipFamily.ai.code) :
    (GprCall.vgprs thread).AgreesWithLocal family vmPartition vgprGranularity wave ↔
      gprsSize family vgprGranularity wave.toWaveData 1 = 0 := by
  have refused : ∀ (file : Option GprFile) (id : GprwaveIocdata), ((GprCall.vgprs thread).onServer
      (gprServer family vmPartition file) vgprGranularity wave id).1.returned = none := by
    intro file id
    have returns : umrReadVgprs (gprServer family vmPartition file).device
        (gprServer family vmPartition file).asic false vgprGranularity wave thread =
      pure ⟨-1, [], []⟩ := if_pos early
    rw [GprCall.onServer, returns]
    rfl
  have noTrap : ¬ (GprKind.vgpr = .sgpr ∧ wave.inTrap = true) := fun trapped => nomatch trapped.1
  constructor
  · intro agree
    have same : gprsOp (gprServer family vmPartition (some (filledFile fun _ => 0))) idleGprState
        vgprGranularity wave.toWaveData thread .vgpr = some none := by
      rw [← refused (some (filledFile fun _ => 0)) idleGprState.device]
      exact agree (some (filledFile fun _ => 0)) idleGprState
    have small := size_le_of_filled family vmPartition vgprGranularity wave .vgpr thread
      (by rw [same]; exact Option.some_ne_none _)
    rw [gprsOp_file family vmPartition vgprGranularity wave .vgpr thread idleGprState rfl small,
      unitBytes_filled] at same
    by_contra nonzero
    have answered : ¬ (gprsSize family vgprGranularity wave.toWaveData GprKind.vgpr.vOrS = 0 ∨
        GprKind.vgpr = .sgpr ∧ wave.inTrap = true) := not_or.mpr ⟨nonzero, noTrap⟩
    rw [if_neg answered] at same
    cases same
  · intro zero file state
    have remote : gprsOp (gprServer family vmPartition file) state vgprGranularity wave.toWaveData
        thread .vgpr = some _ :=
      gprsOp_file family vmPartition vgprGranularity wave .vgpr thread state zero (by decide)
    rw [if_pos (Or.inl rfl)] at remote
    rw [refused]
    exact remote

theorem late_vgprs_agree_iff (late : ¬ family.code < ChipFamily.ai.code) :
    (GprCall.vgprs thread).AgreesWithLocal family vmPartition vgprGranularity wave ↔
      0 < gprsSize family vgprGranularity wave.toWaveData 1 ∧
        gprsSize family vgprGranularity wave.toWaveData 1 ≤ 4096 ∧ SameUnit family wave := by
  have noTrap : ¬ (GprKind.vgpr = .sgpr ∧ wave.inTrap = true) := fun trapped => nomatch trapped.1
  have sizes := (gprSize_vgpr family vgprGranularity wave).symm
  have openRead : ∀ gprs : GprFile, umrReadVgprs (gprServer family vmPartition (some gprs)).device
      (gprServer family vmPartition (some gprs)).asic false vgprGranularity wave thread =
        readGprGprwave (gprServer family vmPartition (some gprs)).device
          (gprServer family vmPartition (some gprs)).asic false vgprGranularity .vgpr thread wave :=
    fun gprs => (if_neg late).trans (if_pos rfl)
  have closedRead : umrReadVgprs (gprServer family vmPartition none).device
      (gprServer family vmPartition none).asic false vgprGranularity wave thread =
        pure ⟨-1, [], []⟩ := (if_neg late).trans (if_neg Bool.false_ne_true)
  constructor
  · intro agree
    have opened : OpenReadsAgree family vmPartition vgprGranularity wave .vgpr thread := by
      intro gprs state
      rw [← openRead]
      exact agree (some gprs) state
    have small := opened.size_le
    have localSmall : (gprSize family vgprGranularity wave .vgpr).toNat ≤ 4096 := by
      rw [← sizes]
      exact small
    have answered := opened.answered localSmall
    exact ⟨UInt32.pos_iff_ne_zero.mpr fun zero => answered (Or.inl zero),
      UInt32.le_iff_toNat_le.mpr small, (opened.forces localSmall).2⟩
  · rintro ⟨positive, small, same⟩ file state
    obtain ⟨remote, read⟩ := gprsOp_agrees family vmPartition file vgprGranularity wave .vgpr thread
      state positive (UInt32.le_iff_toNat_le.mp small) noTrap sizes same
    cases file with
    | none =>
        rw [GprCall.onServer, closedRead]
        exact remote
    | some gprs =>
        rw [GprCall.onServer, openRead, read]
        exact remote

/-- Every family, wave, thread and file. -/
theorem gprCall_agreesWithLocal_iff (call : GprCall) :
    call.AgreesWithLocal family vmPartition vgprGranularity wave ↔
      call.Ok family vgprGranularity wave := by
  cases call with
  | sgprs => exact sgprs_agree_iff family vmPartition vgprGranularity wave
  | vgprs thread =>
      by_cases early : family.code < ChipFamily.ai.code
      · rw [early_vgprs_agree_iff family vmPartition vgprGranularity wave thread early]
        simp only [GprCall.Ok, if_pos early]
      · rw [late_vgprs_agree_iff family vmPartition vgprGranularity wave thread early]
        simp only [GprCall.Ok, if_neg early]

end Reads

def nvWave : Wave where
  se := 0
  sh := 0
  cu := 2
  simd := 1
  wave := 0
  sgprSize := 0
  vgprSize := 3
  inTrap := false
  hwId := ⟨0, 0, 0, 0, 0⟩
  hwId1 := ⟨0, 0, 2, 1, 0⟩

theorem nvWave_vgprs_disagree : ¬ (GprCall.vgprs 0).AgreesWithLocal .nv (-1) 2 nvWave := by
  rw [late_vgprs_agree_iff .nv (-1) 2 nvWave 0 (by decide)]
  unfold SameUnit
  decide

end Umr.Rumr
