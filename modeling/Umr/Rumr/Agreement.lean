import Umr.Rumr.Client
import Umr.Rumr.Packet

/-!
# Client and server read the same request

Encoder and decoder are written separately for every command.  A request
agrees when the server's decoder, run on the packet as it is received, finds
every parameter the client passed and leaves nothing behind but the data of a
memory write.  All blocks are granted here: the format is the subject.
-/

set_option autoImplicit false

namespace Umr.Rumr

open Umr.Lib

def granted : Nat → Bool := fun _ => true

inductive ClientRequest where
  | regRead (bank : BankSelect) (addr : UInt64) (type : RegClass)
  | regWrite (bank : BankSelect) (addr : UInt64) (type : RegClass) (value : UInt32)
  | memRead (space : MemSpace) (addr : UInt64) (size : UInt32)
  | memWrite (space : MemSpace) (addr : UInt64) (size : UInt32) (words : List UInt32)
      (filled : words.length = (size >>> 2).toNat)
  | translate (addr : UInt64)
  | waveStatus (se sh cu simd wave : UInt32)
  | sgprs (family : ChipFamily) (vgprGranularity : UInt32) (wd : WaveData)
  | vgprs (family : ChipFamily) (vgprGranularity : UInt32) (wd : WaveData) (thread : UInt32)
  | trapSgprs (wd : WaveData)
  | ring (ringname : CString)

def ClientRequest.transmit (heap : Nat → Bool) : ClientRequest → Option RumrBuffer
  | .regRead bank addr type => sendOpcode heap .regAccess (mmioRegParams bank addr type none)
  | .regWrite bank addr type value =>
      sendOpcode heap .regAccess (mmioRegParams bank addr type (some value))
  | .memRead space addr size => memOpRequest heap addr size (some []) false (space = .vram)
  | .memWrite space addr size words _ =>
      memOpRequest heap addr size (some words) true (space = .vram)
  | .translate addr => memOpRequest heap addr 0 none false false
  | .waveStatus se sh cu simd wave => sendOpcode heap .waveAccess (waveParams se sh cu simd wave)
  | .sgprs family granularity wd =>
      sendOpcode heap .gprAccess (gprsParams wd 0 0 (gprsSize family granularity wd 0))
  | .vgprs family granularity wd thread =>
      sendOpcode heap .gprAccess (gprsParams wd thread 1 (gprsSize family granularity wd 1))
  | .trapSgprs wd => sendOpcode heap .gprAccess (trapParams wd 0 0)
  | .ring ringname => sendOpcodeBuf heap .ringAccess (ringNameField ringname) (128 / 4)

inductive Decoded where
  | nothing
  | reg (args : RegIn)
  | mem (args : MemIn)
  | wave (args : WaveIn)
  | gpr (args : GprIn)
  | ring (ringname : List UInt8)
  deriving DecidableEq, Repr

def decodeCommand : Opcode → StateT RumrBuffer Option Decoded
  | .discover => pure .nothing
  | .regAccess => do
      let args ← decodeRegAccess
      pure (.reg args)
  | .memAccess => do
      let args ← decodeMemAccess
      pure (.mem args)
  | .waveAccess => do
      let args ← decodeWaveAccess
      pure (.wave args)
  | .gprAccess => do
      let args ← decodeGprAccess
      pure (.gpr args)
  | .ringAccess => do
      let ringname ← decodeRingAccess
      pure (.ring ringname)
  | .goodbye => pure .nothing

/-- Receive a packet, check its header and decode it, as the server does. -/
def decodeReceived (heap : Nat → Bool) (stream : List UInt8) : Option (Decoded × RumrBuffer) :=
  match tcpRx heap stream with
  | some (some (rbuf, _)) =>
      match rumrBufferReadUint32 rbuf with
      | some (header, rbuf) =>
          if headerVersion header = rumrVersion then
            match headerOpcode header with
            | some opcode => decodeCommand opcode rbuf
            | none => none
          else none
      | none => none
  | _ => none

/-! ## What agreement means -/

def BankSelect.Matches (args : RegIn) : BankSelect → Prop
  | .noBank => args.grbmIndex = 0 ∧ args.srbmIndex = 0
  | .grbm se sh instance_ => args.grbmIndex = 1 ∧ args.srbmIndex = 0 ∧
      args.seOrMe = se ∧ args.shOrPipe = sh ∧ args.instanceOrQueue = instance_
  | .srbm me pipe queue vmid => args.grbmIndex = 0 ∧ args.srbmIndex = 1 ∧
      args.seOrMe = me ∧ args.shOrPipe = pipe ∧ args.instanceOrQueue = queue ∧ args.vmid = vmid

def MemSpace.subcommand : MemSpace → UInt32
  | .vram => 0
  | .sram => 1

def ClientRequest.Matches : ClientRequest → Decoded → Prop
  | .regRead bank addr type, .reg args =>
      args.addr = addr ∧ args.access = 1 ∧ args.type = type.code ∧ bank.Matches args ∧
        args.value = none
  | .regWrite bank addr type value, .reg args =>
      args.addr = addr ∧ args.access = 0 ∧ args.type = type.code ∧ bank.Matches args ∧
        args.value = some (value, 0)
  | .memRead space addr size, .mem args =>
      args.addr = addr ∧ args.subcommand = space.subcommand ∧ args.rw = 0 ∧ args.size = size
  | .memWrite space addr size _ _, .mem args =>
      args.addr = addr ∧ args.subcommand = space.subcommand ∧ args.rw = 1 ∧ args.size = size
  | .translate addr, .mem args =>
      args.addr = addr ∧ args.subcommand = 2 ∧ args.rw = 0 ∧ args.size = 0
  | .waveStatus se sh cu simd wave, .wave args => args = ⟨se, sh, cu, simd, wave⟩
  | .sgprs family granularity wd, .gpr args =>
      args = ⟨wd.se, wd.sh, wd.cu, wd.simd, wd.wave, 0, 0, 0,
        gprsSize family granularity wd 0⟩
  | .vgprs family granularity wd thread, .gpr args =>
      args = ⟨wd.se, wd.sh, wd.cu, wd.simd, wd.wave, thread, 1, 0,
        gprsSize family granularity wd 1⟩
  | .trapSgprs wd, .gpr args =>
      args = ⟨wd.se, wd.sh, wd.cu, wd.simd, wd.wave, 0, 0, 0x6C * 4, 16 * 4⟩
  | .ring ringname, .ring name => name.takeWhile (· ≠ 0) = ringname.bytes
  | _, _ => False

def ClientRequest.inPlace : ClientRequest → List UInt8
  | .memWrite _ _ _ words _ => words.flatMap wordBytes
  | _ => []

def ClientRequest.Agrees (request : ClientRequest) : Prop :=
  ∃ buf decoded rest, request.transmit granted = some buf ∧
    decodeReceived granted (tcpTx buf) = some (decoded, rest) ∧
    request.Matches decoded ∧ rest.unread = request.inPlace

/-- The requests whose packet carries all of them: not the trap registers, no
write whose packet makes a 32-bit size wrap, no ring name that is cut off. -/
def ClientRequest.Ok : ClientRequest → Prop
  | .trapSgprs _ => False
  | .memWrite _ _ size _ _ => 4 * (size.toNat / 4) + 1048 < 2 ^ 32
  | .ring ringname => ringname.bytes.length ≤ 127
  | _ => True

/-! ## From the client's buffer to the server's decoder -/

theorem flatMap_wordBytes_length (words : List UInt32) :
    (words.flatMap wordBytes).length = 4 * words.length := by
  induction words with
  | nil => rfl
  | cons word rest ih =>
      rw [List.flatMap_cons, List.length_append, wordBytes_length, ih, List.length_cons]
      omega

theorem packetWord_flatMap (words : List UInt32) (tail : List UInt8) (k : Nat)
    (inside : k < words.length) :
    packetWord (words.flatMap wordBytes ++ tail) k = words.getD k 0 := by
  induction words generalizing k with
  | nil => exact absurd inside (Nat.not_lt_zero k)
  | cons word rest ih =>
      cases k with
      | zero =>
          have start : ((word :: rest).flatMap wordBytes ++ tail).take 4 = wordBytes word := by
            rw [List.flatMap_cons, List.append_assoc]
            exact List.take_left' rfl
          have long : 4 * 0 + 4 ≤ ((word :: rest).flatMap wordBytes ++ tail).length := by
            rw [List.length_append, flatMap_wordBytes_length, List.length_cons]
            omega
          rw [packetWord, if_pos long, Nat.mul_zero, List.drop_zero, start,
            bytesWord_wordBytes]
          rfl
      | succ k =>
          have step : packetWord ((word :: rest).flatMap wordBytes ++ tail) (k + 1) =
              packetWord (rest.flatMap wordBytes ++ tail) k := by
            have behind : ((word :: rest).flatMap wordBytes ++ tail).drop (4 * (k + 1)) =
                (rest.flatMap wordBytes ++ tail).drop (4 * k) := by
              rw [List.flatMap_cons, List.append_assoc, Nat.mul_succ, Nat.add_comm,
                ← List.drop_drop]
              rfl
            simp only [packetWord, behind]
            simp only [List.flatMap_cons, List.length_append, wordBytes_length]
            congr 1
            apply propext
            omega
          rw [step, ih k (Nat.lt_of_succ_lt_succ inside)]
          rfl

theorem decodeReceived_tcpTx (buf : RumrBuffer) (opcode : Opcode) (body : List UInt8)
    (inv : buf.Inv) (written : buf.written = wordBytes (clientHeader opcode) ++ body)
    (bound : (wordBytes (clientHeader opcode) ++ body).length + 8 < 2 ^ 32) :
    decodeReceived granted (tcpTx buf) =
      decodeCommand opcode (packetAt (wordBytes (clientHeader opcode) ++ body) 1) := by
  have length := inv.readable.written_length
  rw [written] at length
  have received := tcpRx_tcpTx granted buf [] inv.readable (by omega) (fun _ => rfl)
  rw [List.append_nil, written] at received
  have header := readUint32_packetAt (wordBytes (clientHeader opcode) ++ body) 0
    (by omega) (by omega)
  have word : packetWord (wordBytes (clientHeader opcode) ++ body) 0 = clientHeader opcode := by
    have first := packetWord_flatMap [clientHeader opcode] body 0 Nat.zero_lt_one
    rwa [List.flatMap_cons, List.flatMap_nil, List.append_nil] at first
  rw [packetAt_zero, word] at header
  simp only [decodeReceived, received, header, headerVersion_clientHeader,
    headerOpcode_clientHeader, if_true]

theorem built_packet (opcode : Opcode) (chunks : List (List UInt8))
    (fits : emittedSize 1024 4 chunks + 8 < 2 ^ 32) :
    ∃ buf, emitAll (rumrBufferAddData granted) (wordBytes (clientHeader opcode) :: chunks)
        emptyBuffer = some ((), buf) ∧ buf.Inv ∧
      buf.written = wordBytes (clientHeader opcode) ++ chunks.flatten := by
  have first : grownSize 1024 0 4 = 1024 := rfl
  have sizes : emittedSize emptyBuffer.size.toNat emptyBuffer.woffset.toNat
      (wordBytes (clientHeader opcode) :: chunks) = emittedSize 1024 4 chunks := by
    change emittedSize (grownSize 1024 0 4) (0 + 4) chunks = _
    rw [first]
  obtain ⟨buf, run, inv, written, _⟩ := emitAll_spec (fun _ => rfl)
    (wordBytes (clientHeader opcode) :: chunks) emptyBuffer emptyBuffer_inv rfl
    (by rw [sizes]; exact fits)
  refine ⟨buf, run, inv, ?_⟩
  rw [written, emptyBuffer_written, List.nil_append, List.flatten_cons]

theorem granted_init : rumrBufferInit granted = some emptyBuffer :=
  rumrBufferInit_granted fun _ => rfl

theorem sendOpcode_eq (opcode : Opcode) (params : List UInt32) :
    sendOpcode granted opcode params =
      (emitAll (rumrBufferAddData granted) (wordBytes (clientHeader opcode) ::
        params.map wordBytes) emptyBuffer).map Prod.snd := by
  have loop : writeMany (rumrBufferAddUint32 granted) params =
      emitAll (rumrBufferAddData granted) (params.map wordBytes) := by
    rw [writeMany_eq_emitAll (rumrBufferAddData granted) _ (fun param => [wordBytes param]),
      List.map_eq_flatMap]
    intro param
    simp [emitAll, rumrBufferAddUint32]
  rw [sendOpcode, granted_init, loop, emitAll]
  generalize emptyBuffer = buf
  change (rumrBufferAddData granted _ buf).bind _ =
    ((rumrBufferAddData granted _ buf).bind _).map Prod.snd
  cases rumrBufferAddData granted (wordBytes (clientHeader opcode)) buf with
  | none => rfl
  | some pair =>
      change (emitAll _ _ pair.2).bind _ = (emitAll _ _ pair.2).map Prod.snd
      cases emitAll (rumrBufferAddData granted) (params.map wordBytes) pair.2 <;> rfl

theorem sendOpcodeBuf_eq (opcode : Opcode) (pkt : List UInt8) (pktsize : UInt32) :
    sendOpcodeBuf granted opcode pkt pktsize =
      (emitAll (rumrBufferAddData granted) [wordBytes (clientHeader opcode),
        pkt.take (pktsize * 4).toNat] emptyBuffer).map Prod.snd := by
  rw [sendOpcodeBuf, granted_init]
  generalize emptyBuffer = buf
  change (rumrBufferAddData granted _ buf).bind _ =
    ((rumrBufferAddData granted _ buf).bind _).map Prod.snd
  cases rumrBufferAddData granted (wordBytes (clientHeader opcode)) buf with
  | none => rfl
  | some pair =>
      change (rumrBufferAddData granted _ pair.2).bind _ =
        ((rumrBufferAddData granted _ pair.2).bind _).map Prod.snd
      cases rumrBufferAddData granted (pkt.take (pktsize * 4).toNat) pair.2 <;> rfl

theorem sendOpcode_built (opcode : Opcode) (params : List UInt32)
    (short : params.length ≤ 255) :
    ∃ buf, sendOpcode granted opcode params = some buf ∧ buf.Inv ∧
      buf.written = (clientHeader opcode :: params).flatMap wordBytes := by
  have flat : (params.map wordBytes).flatten = params.flatMap wordBytes := rfl
  have length := flatMap_wordBytes_length params
  have fits : emittedSize 1024 4 (params.map wordBytes) = 1024 := by
    apply emittedSize_of_fits
    rw [flat, length]
    omega
  obtain ⟨buf, run, inv, written⟩ := built_packet opcode (params.map wordBytes)
    (by rw [fits]; omega)
  rw [flat, ← List.flatMap_cons] at written
  refine ⟨buf, ?_, inv, written⟩
  rw [sendOpcode_eq, run]
  rfl

theorem sendOpcode_received (opcode : Opcode) (params : List UInt32)
    (short : params.length ≤ 255) :
    ∃ buf, sendOpcode granted opcode params = some buf ∧
      decodeReceived granted (tcpTx buf) = decodeCommand opcode
        (packetAt ((clientHeader opcode :: params).flatMap wordBytes) 1) := by
  obtain ⟨buf, run, inv, written⟩ := sendOpcode_built opcode params short
  refine ⟨buf, run, ?_⟩
  rw [List.flatMap_cons] at written ⊢
  apply decodeReceived_tcpTx buf opcode _ inv written
  rw [List.length_append, wordBytes_length, flatMap_wordBytes_length]
  omega

theorem sendOpcodeBuf_built (opcode : Opcode) (pkt : List UInt8) (pktsize : UInt32)
    (fits : max 2048 ((pkt.take (pktsize * 4).toNat).length + 1024) + 8 < 2 ^ 32) :
    ∃ buf, sendOpcodeBuf granted opcode pkt pktsize = some buf ∧ buf.Inv ∧
      buf.written = wordBytes (clientHeader opcode) ++ pkt.take (pktsize * 4).toNat := by
  obtain ⟨body, bodyEq⟩ : ∃ body, pkt.take (pktsize * 4).toNat = body := ⟨_, rfl⟩
  rw [bodyEq] at fits ⊢
  have sizes : emittedSize 1024 4 [body] + 8 < 2 ^ 32 := by
    change grownSize 1024 4 body.length + 8 < 2 ^ 32
    unfold grownSize
    split <;> omega
  obtain ⟨buf, run, inv, written⟩ := built_packet opcode [body] sizes
  rw [List.flatten_singleton] at written
  refine ⟨buf, ?_, inv, written⟩
  rw [sendOpcodeBuf_eq, bodyEq, run]
  rfl

theorem sendOpcodeBuf_received (opcode : Opcode) (pkt : List UInt8) (pktsize : UInt32)
    (fits : max 2048 ((pkt.take (pktsize * 4).toNat).length + 1024) + 8 < 2 ^ 32) :
    ∃ buf, sendOpcodeBuf granted opcode pkt pktsize = some buf ∧
      decodeReceived granted (tcpTx buf) = decodeCommand opcode
        (packetAt (wordBytes (clientHeader opcode) ++ pkt.take (pktsize * 4).toNat) 1) := by
  obtain ⟨buf, run, inv, written⟩ := sendOpcodeBuf_built opcode pkt pktsize fits
  refine ⟨buf, run, ?_⟩
  apply decodeReceived_tcpTx buf opcode _ inv written
  rw [List.length_append, wordBytes_length]
  omega

/-! ## Each request -/

theorem packetAt_flatMap_unread (words : List UInt32) (k : Nat)
    (complete : words.length ≤ k) (small : 4 * k < 2 ^ 32) :
    (packetAt (words.flatMap wordBytes) k).unread = [] := by
  have length := flatMap_wordBytes_length words
  rw [packetAt_unread k (by omega) small]
  apply List.drop_eq_nil_of_le
  omega

theorem decoded_as {α : Type} {decoder : StateT RumrBuffer Option α} (build : α → Decoded)
    {buf next : RumrBuffer} {value : α} (found : decoder buf = some (value, next)) :
    (do let args ← decoder; pure (build args) : StateT RumrBuffer Option Decoded) buf =
      some (build value, next) := by
  change (decoder buf).bind (fun pair => some (build pair.1, pair.2)) = _
  rw [found]
  rfl

theorem agrees_iff_decoded {request : ClientRequest} {buf rest : RumrBuffer}
    {decoded : Decoded} (sent : request.transmit granted = some buf)
    (received : decodeReceived granted (tcpTx buf) = some (decoded, rest)) :
    request.Agrees ↔ request.Matches decoded ∧ rest.unread = request.inPlace := by
  constructor
  · rintro ⟨other, otherDecoded, otherRest, run, found, fits, consumed⟩
    have same : other = buf := Option.some.inj (run.symm.trans sent)
    rw [same, received] at found
    cases found
    exact ⟨fits, consumed⟩
  · rintro ⟨fits, consumed⟩
    exact ⟨buf, decoded, rest, sent, received, fits, consumed⟩

theorem sendOpcode_agrees_iff (request : ClientRequest) (opcode : Opcode)
    (params : List UInt32) (short : params.length ≤ 255) (decoded : Decoded) (k : Nat)
    (sent : request.transmit granted = sendOpcode granted opcode params)
    (found : decodeCommand opcode
        (packetAt ((clientHeader opcode :: params).flatMap wordBytes) 1) =
      some (decoded, packetAt ((clientHeader opcode :: params).flatMap wordBytes) k)) :
    request.Agrees ↔ request.Matches decoded ∧
      (packetAt ((clientHeader opcode :: params).flatMap wordBytes) k).unread =
        request.inPlace := by
  obtain ⟨buf, transmitted, received⟩ := sendOpcode_received opcode params short
  exact agrees_iff_decoded (sent.trans transmitted) (received.trans found)

theorem packetWord_words (words : List UInt32) (k : Nat) :
    packetWord (words.flatMap wordBytes) k = words.getD k 0 := by
  by_cases inside : k < words.length
  · have found := packetWord_flatMap words [] k inside
    rwa [List.append_nil] at found
  · have length := flatMap_wordBytes_length words
    rw [packetWord, if_neg (by omega), List.getD_eq_default _ _ (by omega)]

def accessWord (bank : BankSelect) (type : RegClass) (readEn : UInt32) : UInt32 :=
  readEn ||| (bankParams bank).1 ||| (type.code <<< 3)

theorem accessWord_access (bank : BankSelect) (type : RegClass) :
    accessWord bank type 0 &&& 1 = 0 ∧ accessWord bank type 1 &&& 1 = 1 := by
  cases bank <;> cases type <;> simp only [accessWord, bankParams] <;> decide

theorem accessWord_type (bank : BankSelect) (type : RegClass) :
    (accessWord bank type 0 >>> 3) &&& 0xFF = type.code ∧
      (accessWord bank type 1 >>> 3) &&& 0xFF = type.code := by
  cases bank <;> cases type <;> simp only [accessWord, bankParams] <;> decide

theorem bankSelect_matches (bank : BankSelect) (type : RegClass) (readEn : UInt32)
    (isFlag : readEn = 0 ∨ readEn = 1) (args : RegIn)
    (word : args.accessBank = accessWord bank type readEn)
    (fields : [args.seOrMe, args.shOrPipe, args.instanceOrQueue, args.vmid] =
      (bankParams bank).2) : bank.Matches args := by
  cases bank with
  | noBank =>
      simp only [BankSelect.Matches, RegIn.grbmIndex, RegIn.srbmIndex, word, accessWord, bankParams]
      rcases isFlag with rfl | rfl <;> cases type <;> decide
  | grbm se sh instance_ =>
      simp only [bankParams, List.cons.injEq] at fields
      obtain ⟨seEq, shEq, instanceEq, _⟩ := fields
      have bits : args.grbmIndex = 1 ∧ args.srbmIndex = 0 := by
        simp only [RegIn.grbmIndex, RegIn.srbmIndex, word, accessWord, bankParams]
        rcases isFlag with rfl | rfl <;> cases type <;> decide
      exact ⟨bits.1, bits.2, seEq, shEq, instanceEq⟩
  | srbm me pipe queue vmid =>
      simp only [bankParams, List.cons.injEq] at fields
      obtain ⟨meEq, pipeEq, queueEq, vmidEq, _⟩ := fields
      have bits : args.grbmIndex = 0 ∧ args.srbmIndex = 1 := by
        simp only [RegIn.grbmIndex, RegIn.srbmIndex, word, accessWord, bankParams]
        rcases isFlag with rfl | rfl <;> cases type <;> decide
      exact ⟨bits.1, bits.2, meEq, pipeEq, queueEq, vmidEq⟩

theorem bankParams_fields (bank : BankSelect) :
    ∃ a b c d, (bankParams bank).2 = [a, b, c, d] := by
  cases bank <;> exact ⟨_, _, _, _, rfl⟩

theorem regRead_agrees (bank : BankSelect) (addr : UInt64) (type : RegClass) :
    (ClientRequest.regRead bank addr type).Agrees := by
  obtain ⟨a, b, c, d, fields⟩ := bankParams_fields bank
  have access := (accessWord_access bank type).2
  have isRead : ¬ accessWord bank type 1 &&& 1 = 0 := by
    rw [access]
    decide
  have sent : (ClientRequest.regRead bank addr type).transmit granted =
      sendOpcode granted .regAccess
        [loWord addr, hiWord addr, accessWord bank type 1, a, b, c, d] := by
    simp only [ClientRequest.transmit, mmioRegParams, fields]
    congr 1
  have bound : ((clientHeader .regAccess ::
      [loWord addr, hiWord addr, accessWord bank type 1, a, b, c, d]).flatMap
      wordBytes).length < 2 ^ 32 := by
    simp
  have found := decodeRegAccess_packetAt _ bound
  simp only [packetWord_words, List.getD_cons_succ, List.getD_cons_zero,
    if_neg isRead] at found
  rw [sendOpcode_agrees_iff _ _ _ (by simp) _ 8 sent (decoded_as Decoded.reg found)]
  refine ⟨⟨joinWords_halves addr, access, (accessWord_type bank type).2, ?_, rfl⟩, ?_⟩
  · exact bankSelect_matches bank type 1 (Or.inr rfl) _ rfl fields.symm
  · exact packetAt_flatMap_unread _ 8 (by simp) (by decide)

theorem regWrite_agrees (bank : BankSelect) (addr : UInt64) (type : RegClass)
    (value : UInt32) : (ClientRequest.regWrite bank addr type value).Agrees := by
  obtain ⟨a, b, c, d, fields⟩ := bankParams_fields bank
  have access := (accessWord_access bank type).1
  have sent : (ClientRequest.regWrite bank addr type value).transmit granted =
      sendOpcode granted .regAccess
        [loWord addr, hiWord addr, accessWord bank type 0, a, b, c, d, value, 0] := by
    simp only [ClientRequest.transmit, mmioRegParams, fields]
    congr 1
  have bound : ((clientHeader .regAccess ::
      [loWord addr, hiWord addr, accessWord bank type 0, a, b, c, d, value, 0]).flatMap
      wordBytes).length < 2 ^ 32 := by
    simp
  have found := decodeRegAccess_packetAt _ bound
  simp only [packetWord_words, List.getD_cons_succ, List.getD_cons_zero,
    if_pos access] at found
  rw [sendOpcode_agrees_iff _ _ _ (by simp) _ 10 sent (decoded_as Decoded.reg found)]
  refine ⟨⟨joinWords_halves addr, access, (accessWord_type bank type).1, ?_, rfl⟩, ?_⟩
  · exact bankSelect_matches bank type 0 (Or.inl rfl) _ rfl fields.symm
  · exact packetAt_flatMap_unread _ 10 (by simp) (by decide)

theorem waveStatus_agrees (se sh cu simd wave : UInt32) :
    (ClientRequest.waveStatus se sh cu simd wave).Agrees := by
  have bound : ((clientHeader .waveAccess :: waveParams se sh cu simd wave).flatMap
      wordBytes).length < 2 ^ 32 := by
    rw [flatMap_wordBytes_length]
    simp [waveParams]
  have found := decodeWaveAccess_packetAt _ bound
  simp only [packetWord_words, waveParams, List.getD_cons_succ, List.getD_cons_zero] at found
  rw [sendOpcode_agrees_iff _ .waveAccess (waveParams se sh cu simd wave)
    (by simp [waveParams]) _ 6 (by rw [ClientRequest.transmit])
    (decoded_as Decoded.wave found)]
  exact ⟨rfl, packetAt_flatMap_unread _ 6 (by simp [waveParams]) (by decide)⟩

theorem gpr_agrees_iff (request : ClientRequest) (params : List UInt32)
    (short : params.length ≤ 9)
    (sent : request.transmit granted = sendOpcode granted .gprAccess params)
    (nothingInPlace : request.inPlace = []) :
    request.Agrees ↔ request.Matches (.gpr ⟨params.getD 0 0, params.getD 1 0,
      params.getD 2 0, params.getD 3 0, params.getD 4 0, params.getD 5 0,
      params.getD 6 0, params.getD 7 0, params.getD 8 0⟩) := by
  have bound : ((clientHeader .gprAccess :: params).flatMap wordBytes).length < 2 ^ 32 := by
    rw [flatMap_wordBytes_length, List.length_cons]
    omega
  have found := decodeGprAccess_packetAt _ bound
  simp only [packetWord_words, List.getD_cons_succ] at found
  have consumed := packetAt_flatMap_unread (clientHeader .gprAccess :: params) 10
    (by rw [List.length_cons]; omega) (by decide)
  rw [sendOpcode_agrees_iff request .gprAccess params (by omega) _ 10 sent
    (decoded_as Decoded.gpr found), consumed, nothingInPlace]
  exact and_iff_left rfl

theorem sgprs_agrees (family : ChipFamily) (granularity : UInt32) (wd : WaveData) :
    (ClientRequest.sgprs family granularity wd).Agrees := by
  have sent : (ClientRequest.sgprs family granularity wd).transmit granted =
      sendOpcode granted .gprAccess
        (gprsParams wd 0 0 (gprsSize family granularity wd 0)) := by
    rw [ClientRequest.transmit]
  rw [gpr_agrees_iff _ _ (by simp [gprsParams]) sent rfl]
  rfl

theorem vgprs_agrees (family : ChipFamily) (granularity : UInt32) (wd : WaveData)
    (thread : UInt32) : (ClientRequest.vgprs family granularity wd thread).Agrees := by
  have sent : (ClientRequest.vgprs family granularity wd thread).transmit granted =
      sendOpcode granted .gprAccess
        (gprsParams wd thread 1 (gprsSize family granularity wd 1)) := by
    rw [ClientRequest.transmit]
  rw [gpr_agrees_iff _ _ (by simp [gprsParams]) sent rfl]
  rfl

/-- Without the wave, the size arrives where the offset is expected. -/
theorem trapSgprs_disagrees (wd : WaveData) : ¬ (ClientRequest.trapSgprs wd).Agrees := by
  have sent : (ClientRequest.trapSgprs wd).transmit granted =
      sendOpcode granted .gprAccess (trapParams wd 0 0) := by
    rw [ClientRequest.transmit]
  rw [gpr_agrees_iff _ _ (by simp [trapParams]) sent rfl]
  intro same
  have offset : (16 * 4 : UInt32) = 0x6C * 4 := congrArg GprIn.offset same
  exact absurd offset (by decide)

/-! ### Memory requests -/

theorem pktsize_bytes (pkt : List UInt32) (bound : 4 * pkt.length < 2 ^ 32) :
    (pkt.flatMap wordBytes).take (UInt32.ofNat pkt.length * 4).toNat =
      pkt.flatMap wordBytes := by
  have four : (4 : UInt32).toNat = 4 := rfl
  have length := flatMap_wordBytes_length pkt
  have bytes : (UInt32.ofNat pkt.length * 4).toNat = 4 * pkt.length := by
    rw [UInt32.toNat_mul, ofNat_toNat_of_lt (by omega), four]
    omega
  rw [bytes, ← length, List.take_length]

theorem mem_agrees_iff (request : ClientRequest) (addrLo addrHi options size : UInt32)
    (data : List UInt32) (fits : 4 * data.length + 1048 < 2 ^ 32)
    (sent : request.transmit granted = sendOpcodeBuf granted .memAccess
      (([addrLo, addrHi, options, size] ++ data).flatMap wordBytes)
      (UInt32.ofNat ([addrLo, addrHi, options, size] ++ data).length)) :
    request.Agrees ↔ request.Matches (.mem ⟨addrLo, addrHi, options, size⟩) ∧
      data.flatMap wordBytes = request.inPlace := by
  have count : ([addrLo, addrHi, options, size] ++ data).length = 4 + data.length := by
    rw [List.length_append]
    rfl
  have whole := pktsize_bytes ([addrLo, addrHi, options, size] ++ data) (by omega)
  have length := flatMap_wordBytes_length ([addrLo, addrHi, options, size] ++ data)
  have payloadLength := flatMap_wordBytes_length
    (clientHeader .memAccess :: ([addrLo, addrHi, options, size] ++ data))
  rw [List.length_cons, count] at payloadLength
  obtain ⟨buf, transmitted, received⟩ := sendOpcodeBuf_received .memAccess
    (([addrLo, addrHi, options, size] ++ data).flatMap wordBytes)
    (UInt32.ofNat ([addrLo, addrHi, options, size] ++ data).length)
    (by rw [whole, length]; omega)
  rw [whole, ← List.flatMap_cons] at received
  have found := decodeMemAccess_packetAt ((clientHeader .memAccess ::
    ([addrLo, addrHi, options, size] ++ data)).flatMap wordBytes) (by omega)
  simp only [packetWord_words, List.cons_append, List.nil_append, List.getD_cons_succ,
    List.getD_cons_zero] at found
  have decoded := decoded_as Decoded.mem found
  have unread : (packetAt ((clientHeader .memAccess ::
      ([addrLo, addrHi, options, size] ++ data)).flatMap wordBytes) 5).unread =
      data.flatMap wordBytes := by
    rw [packetAt_unread 5 (by omega) (by decide), payloadLength]
    have five : 4 * min 5 (4 * (4 + data.length + 1) / 4) = 20 := by omega
    rw [five]
    rfl
  rw [agrees_iff_decoded (sent.trans transmitted) (received.trans decoded)]
  exact and_congr_right fun _ => Eq.congr_left unread

theorem subcommand_bits (space : MemSpace) :
    (space.subcommand &&& 3 = space.subcommand ∧ (space.subcommand >>> 2) &&& 1 = 0) ∧
      ((4 ||| space.subcommand) &&& 3 = space.subcommand ∧
        ((4 ||| space.subcommand) >>> 2) &&& 1 = 1) := by
  cases space <;> decide

theorem memRead_agrees (space : MemSpace) (addr : UInt64) (size : UInt32) :
    (ClientRequest.memRead space addr size).Agrees := by
  have sent : (ClientRequest.memRead space addr size).transmit granted =
      sendOpcodeBuf granted .memAccess
        (([loWord addr, hiWord addr, space.subcommand, size] ++ []).flatMap wordBytes)
        (UInt32.ofNat ([loWord addr, hiWord addr, space.subcommand, size] ++ []).length) := by
    cases space <;> simp only [ClientRequest.transmit, memOpRequest] <;> congr 1
  rw [mem_agrees_iff _ _ _ _ _ [] (by simp) sent]
  have bits := (subcommand_bits space).1
  exact ⟨⟨joinWords_halves addr, bits.1, bits.2, rfl⟩, rfl⟩

theorem translate_agrees (addr : UInt64) : (ClientRequest.translate addr).Agrees := by
  have sent : (ClientRequest.translate addr).transmit granted =
      sendOpcodeBuf granted .memAccess
        (([loWord addr, hiWord addr, 2, 0] ++ []).flatMap wordBytes)
        (UInt32.ofNat ([loWord addr, hiWord addr, 2, 0] ++ []).length) := by
    simp only [ClientRequest.transmit, memOpRequest]
    congr 1
  rw [mem_agrees_iff _ _ _ _ _ [] (by simp) sent]
  have bits : (2 : UInt32) &&& 3 = 2 ∧ ((2 : UInt32) >>> 2) &&& 1 = 0 := by decide
  exact ⟨⟨joinWords_halves addr, bits.1, bits.2, rfl⟩, rfl⟩

section MemWrite
variable (space : MemSpace) (addr : UInt64) (size : UInt32) (words : List UInt32)
  (filled : words.length = (size >>> 2).toNat)

theorem shiftRight_two_toNat (size : UInt32) : (size >>> 2).toNat = size.toNat / 4 := by
  rw [UInt32.toNat_shiftRight]
  exact Nat.shiftRight_eq_div_pow _ 2

theorem memWrite_sent : (ClientRequest.memWrite space addr size words filled).transmit granted =
    sendOpcodeBuf granted .memAccess
      (([loWord addr, hiWord addr, 4 ||| space.subcommand, size] ++ words).flatMap wordBytes)
      (UInt32.ofNat
        ([loWord addr, hiWord addr, 4 ||| space.subcommand, size] ++ words).length) := by
  have all : words.take (size >>> 2).toNat = words := by
    rw [← filled, List.take_length]
  have pkt : memOpWords addr size (some words) true (space = .vram) =
      [loWord addr, hiWord addr, 4 ||| space.subcommand, size] ++ words := by
    simp only [memOpWords, if_true, all]
    cases space <;> rfl
  simp only [ClientRequest.transmit, memOpRequest, pkt]

theorem memWrite_agrees (fits : 4 * (size.toNat / 4) + 1048 < 2 ^ 32) :
    (ClientRequest.memWrite space addr size words filled).Agrees := by
  have count : words.length = size.toNat / 4 := filled.trans (shiftRight_two_toNat size)
  rw [mem_agrees_iff _ _ _ _ _ words (by omega) (memWrite_sent space addr size words filled)]
  have bits := (subcommand_bits space).2
  exact ⟨⟨joinWords_halves addr, bits.1, bits.2, rfl⟩, rfl⟩

theorem header_appended (opcode : Opcode) :
    ∃ buf, rumrBufferAddData granted (wordBytes (clientHeader opcode)) emptyBuffer =
        some ((), buf) ∧ buf.Inv ∧ buf.failed = false ∧ buf.size.toNat = 1024 ∧
      buf.woffset.toNat = 4 := by
  have fits : grownSize emptyBuffer.size.toNat emptyBuffer.woffset.toNat
      (wordBytes (clientHeader opcode)).length + 8 < 2 ^ 32 := by
    change grownSize 1024 0 4 + 8 < 2 ^ 32
    decide
  obtain ⟨buf, run, inv, _, _, live, size, woffset⟩ :=
    rumrBufferAddData_spec emptyBuffer_inv rfl fits (fun _ => rfl)
  exact ⟨buf, run, inv, live, size, woffset⟩

/-- A body for which the buffer would have to grow past 32 bits is not sent. -/
theorem sendOpcodeBuf_overflow (opcode : Opcode) (pkt : List UInt8) (pktsize : UInt32)
    (bound : (pkt.take (pktsize * 4).toNat).length < 2 ^ 32)
    (large : 2 ^ 32 ≤ (pkt.take (pktsize * 4).toNat).length + 1032) :
    sendOpcodeBuf granted opcode pkt pktsize = none := by
  rw [sendOpcodeBuf_eq]
  generalize pkt.take (pktsize * 4).toNat = body at bound large ⊢
  obtain ⟨buf, run, inv, live, size, woffset⟩ := header_appended opcode
  have second : rumrBufferAddData granted body buf = none := by
    by_cases noWrap : buf.woffset.toNat + body.length < 2 ^ 32
    · exact addData_overgrown live noWrap (by omega) inv.woffset_le (by omega) rfl
    · exact addData_wraps live inv bound (by omega)
  generalize emptyBuffer = start at run ⊢
  change ((rumrBufferAddData granted _ start).bind fun pair =>
    (rumrBufferAddData granted body pair.2).bind _).map Prod.snd = none
  rw [run, Option.bind_some, second]
  rfl

theorem memWrite_disagrees (large : 2 ^ 32 ≤ 4 * (size.toNat / 4) + 1048) :
    ¬ (ClientRequest.memWrite space addr size words filled).Agrees := by
  have count : words.length = size.toNat / 4 := filled.trans (shiftRight_two_toNat size)
  have sizeBound : size.toNat < 2 ^ 32 := size.toNat_lt
  have sent := memWrite_sent space addr size words filled
  have pktCount : ([loWord addr, hiWord addr, 4 ||| space.subcommand, size] ++ words).length =
      4 + words.length := by
    rw [List.length_append]
    rfl
  generalize [loWord addr, hiWord addr, 4 ||| space.subcommand, size] ++ words = pkt
    at sent pktCount
  have length := flatMap_wordBytes_length pkt
  by_cases small : 4 * pkt.length < 2 ^ 32
  · -- the packet has its full length, and the buffer cannot take it
    have whole := pktsize_bytes pkt small
    have refused := sendOpcodeBuf_overflow .memAccess (pkt.flatMap wordBytes)
      (UInt32.ofNat pkt.length) (by rw [whole]; omega) (by rw [whole]; omega)
    rintro ⟨buf, decoded, rest, run, _⟩
    rw [sent, refused] at run
    cases run
  · -- the length wraps, and the size field is not sent any more
    have four : (4 : UInt32).toNat = 4 := rfl
    have bytes : (UInt32.ofNat pkt.length * 4).toNat = 4 * pkt.length - 2 ^ 32 := by
      rw [UInt32.toNat_mul, ofNat_toNat_of_lt (by omega), four]
      omega
    have cut : ((pkt.flatMap wordBytes).take (UInt32.ofNat pkt.length * 4).toNat).length ≤ 12 := by
      rw [bytes, List.length_take]
      omega
    obtain ⟨buf, transmitted, received⟩ := sendOpcodeBuf_received .memAccess
      (pkt.flatMap wordBytes) (UInt32.ofNat pkt.length) (by omega)
    generalize (pkt.flatMap wordBytes).take (UInt32.ofNat pkt.length * 4).toNat = body
      at cut received
    have payloadLength : (wordBytes (clientHeader .memAccess) ++ body).length ≤ 16 := by
      rw [List.length_append, wordBytes_length]
      omega
    have found := decodeMemAccess_packetAt (wordBytes (clientHeader .memAccess) ++ body) (by omega)
    have noSize : packetWord (wordBytes (clientHeader .memAccess) ++ body) 4 = 0 :=
      if_neg (by omega)
    rw [noSize] at found
    rw [agrees_iff_decoded (sent.trans transmitted)
      (received.trans (decoded_as Decoded.mem found))]
    rintro ⟨⟨_, _, _, sizeEq⟩, _⟩
    have zero : size.toNat = 0 := by
      rw [← sizeEq]
      rfl
    omega

end MemWrite

/-! ### The ring name -/

theorem ringNameField_length (ringname : CString) : (ringNameField ringname).length = 128 := by
  simp only [ringNameField, List.length_append, List.length_replicate, List.length_take]
  omega

def CString.cut (ringname : CString) : CString where
  bytes := ringname.bytes.take 127
  terminated := fun byte member => ringname.terminated byte (List.mem_of_mem_take member)

theorem takeWhile_ringNameField (ringname : CString) :
    ((ringNameField ringname).take 127 ++ [0]).takeWhile (· ≠ 0) =
      ringname.bytes.take 127 := by
  have shape : (ringNameField ringname).take 127 ++ [0] = ringname.bytes.take 127 ++
      List.replicate (127 - (ringname.bytes.take 127).length + 1) 0 := by
    have short : (ringname.bytes.take 127).length ≤ 127 := List.length_take_le _ _
    rw [ringNameField, List.take_append, List.take_of_length_le short, List.take_replicate,
      List.append_assoc, List.replicate_succ']
    congr 3
    omega
  rw [shape]
  exact (CString.cut ringname).takeWhile_padded _

theorem ring_agrees_iff (ringname : CString) :
    (ClientRequest.ring ringname).Agrees ↔ ringname.bytes.length ≤ 127 := by
  have width : ((128 / 4 : UInt32) * 4).toNat = 128 := by decide
  have length := ringNameField_length ringname
  have whole : (ringNameField ringname).take ((128 / 4 : UInt32) * 4).toNat =
      ringNameField ringname := by
    rw [width, ← length, List.take_length]
  obtain ⟨buf, transmitted, received⟩ := sendOpcodeBuf_received .ringAccess
    (ringNameField ringname) (128 / 4) (by rw [whole, length]; omega)
  rw [whole] at received
  have payloadLength : (wordBytes (clientHeader .ringAccess) ++
      ringNameField ringname).length = 132 := by
    rw [List.length_append, wordBytes_length, length]
  have found := decodeRingAccess_packetAt
    (wordBytes (clientHeader .ringAccess) ++ ringNameField ringname) (by omega)
  have name : packetRingName (wordBytes (clientHeader .ringAccess) ++ ringNameField ringname) =
      (ringNameField ringname).take 127 ++ [0] := by
    have body : (wordBytes (clientHeader .ringAccess) ++ ringNameField ringname).drop 4 =
        ringNameField ringname := rfl
    rw [packetRingName, if_pos (by omega), body, List.take_take]
    rfl
  have sent : (ClientRequest.ring ringname).transmit granted = sendOpcodeBuf granted
      .ringAccess (ringNameField ringname) (128 / 4) := by
    rw [ClientRequest.transmit]
  rw [name, if_pos (by omega)] at found
  have consumed : (packetAt (wordBytes (clientHeader .ringAccess) ++
      ringNameField ringname) 33).unread = [] := by
    rw [packetAt_unread 33 (by omega) (by decide)]
    apply List.drop_eq_nil_of_le
    omega
  rw [agrees_iff_decoded (sent.trans transmitted)
    (received.trans (decoded_as Decoded.ring found)), consumed]
  simp only [ClientRequest.Matches, takeWhile_ringNameField, ClientRequest.inPlace, and_true,
    List.take_eq_self_iff]

/-! ## All requests -/

/-- Over every request and every argument: the server decodes what the client
passed and consumes the packet exactly for the requests `Ok` describes. -/
theorem clientRequest_agrees_iff (request : ClientRequest) : request.Agrees ↔ request.Ok := by
  cases request with
  | regRead bank addr type => exact iff_of_true (regRead_agrees bank addr type) trivial
  | regWrite bank addr type value =>
      exact iff_of_true (regWrite_agrees bank addr type value) trivial
  | memRead space addr size => exact iff_of_true (memRead_agrees space addr size) trivial
  | memWrite space addr size words filled =>
      by_cases fits : 4 * (size.toNat / 4) + 1048 < 2 ^ 32
      · exact iff_of_true (memWrite_agrees space addr size words filled fits) fits
      · exact iff_of_false (memWrite_disagrees space addr size words filled (by omega)) fits
  | translate addr => exact iff_of_true (translate_agrees addr) trivial
  | waveStatus se sh cu simd wave =>
      exact iff_of_true (waveStatus_agrees se sh cu simd wave) trivial
  | sgprs family granularity wd => exact iff_of_true (sgprs_agrees family granularity wd) trivial
  | vgprs family granularity wd thread =>
      exact iff_of_true (vgprs_agrees family granularity wd thread) trivial
  | trapSgprs wd => exact iff_of_false (trapSgprs_disagrees wd) id
  | ring ringname => exact ring_agrees_iff ringname

/-- The trap registers of wave 3: the server reads 0 bytes at offset 64 of
another register kind. -/
theorem trap_request_of_wave_three_disagrees :
    ¬ (ClientRequest.trapSgprs ⟨0, 0, 1, 2, 3, 5, 7, true⟩).Agrees :=
  trapSgprs_disagrees _

end Umr.Rumr
