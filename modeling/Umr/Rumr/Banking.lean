import Umr.Lib.Fault
import Umr.Rumr.Dispatch

/-!
# Register banks across requests

`handle_op_reg_access` selects a bank through the options of the server's ASIC,
which outlive the request.  A device that keeps a record of its register
accesses shows under which selection each of them ran.
-/

set_option autoImplicit false

namespace Umr.Rumr

open Umr.Lib

def BankOptions.selected (options : BankOptions) : BankSelect :=
  if options.useBank = 1 then
    .grbm options.seOrQueue options.shOrPipe options.instanceOrMe
  else if options.useBank = 2 then
    .srbm options.instanceOrMe options.shOrPipe options.seOrQueue options.vmid
  else .noBank

def RegIn.bank (args : RegIn) : BankSelect :=
  if args.grbmIndex ≠ 0 then .grbm args.seOrMe args.shOrPipe args.instanceOrQueue
  else if args.srbmIndex ≠ 0 then
    .srbm args.seOrMe args.shOrPipe args.instanceOrQueue args.vmid
  else .noBank

/-- A register access as the device sees it; a write carries its value. -/
structure RegAccess where
  bank : BankSelect
  addr : UInt64
  type : UInt32
  value : Option UInt32
  deriving DecidableEq, Repr

section Traced
variable {σ : Type}

def untraced {α : Type} (call : StateM σ α) : StateM (σ × List RegAccess) α := fun state =>
  ((call state.1).1, (call state.1).2, state.2)

def recorded {α : Type} (access : RegAccess) (call : StateM σ α) :
    StateM (σ × List RegAccess) α := fun state =>
  ((call state.1).1, (call state.1).2, state.2 ++ [access])

def Device.traced (device : Device σ) : Device (σ × List RegAccess) where
  accessRead := fun space addr size => untraced (device.accessRead space addr size)
  accessWrite := fun space addr bytes => untraced (device.accessWrite space addr bytes)
  vmDmaToPhys := fun addr => untraced (device.vmDmaToPhys addr)
  readReg := fun bank addr type =>
    recorded ⟨bank.selected, addr, type, none⟩ (device.readReg bank addr type)
  writeReg := fun bank addr value type =>
    recorded ⟨bank.selected, addr, type, some value⟩ (device.writeReg bank addr value type)
  gprwaveIoctl := fun id => untraced (device.gprwaveIoctl id)
  gprwaveRead := fun offset size => untraced (device.gprwaveRead offset size)
  ringFile := fun ringname => untraced (device.ringFile ringname)

def Server.traced (server : Server σ) : Server (σ × List RegAccess) where
  device := server.device.traced
  asic := server.asic
  serializedAsic := server.serializedAsic
  readable := server.readable

end Traced

def packetRegIn (payload : List UInt8) : RegIn :=
  ⟨packetWord payload 1, packetWord payload 2, packetWord payload 3, packetWord payload 4,
    packetWord payload 5, packetWord payload 6, packetWord payload 7,
    if packetWord payload 3 &&& 1 = 0 then some (packetWord payload 8, packetWord payload 9)
    else none⟩

/-- The access a decoded request asks for, under the bank it names; nothing for a request
that names both kinds of bank. -/
def RegIn.asked (args : RegIn) : Option RegAccess :=
  if args.grbmIndex ≠ 0 ∧ args.srbmIndex ≠ 0 then none
  else some ⟨args.bank, args.addr, args.type, args.value.map Prod.fst⟩

/-- The access a packet is due, if the checks in front of the handler let it pass. -/
def Arrival.regAccess (arrival : Arrival) : Option RegAccess :=
  if headerVersion arrival.header = rumrVersion ∧
      arrival.heap (1024 + rumrBufferPreheader).toNat = true then
    (packetRegIn arrival.payload).asked
  else none

/-! ## One request -/

section Handler
variable {σ : Type} {heap : Nat → Bool} {device : Device σ} {session : Session σ}

def Untolerated (_ : Fault) : Prop := False

structure Ready (outbuf : RumrBuffer) (room : Nat) : Prop where
  inv : outbuf.Inv
  live : outbuf.failed = false
  room_le : outbuf.woffset.toNat + room ≤ outbuf.size.toNat

theorem rumrBufferAddUint32_ready (heap : Nat → Bool) {outbuf : RumrBuffer} {room : Nat} (value : UInt32)
    (ready : Ready outbuf (room + 4)) :
    ∃ next, rumrBufferAddUint32 heap value outbuf = some ((), next) ∧ Ready next room := by
  have space := ready.room_le
  obtain ⟨next, run, inv, _, _, size, failed, woffset⟩ :=
    copyIn_spec outbuf (wordBytes value) ready.inv (by rw [wordBytes_length]; omega)
  rw [wordBytes_length] at woffset
  refine ⟨next, ?_, inv, failed.trans ready.live, ?_⟩
  · rw [rumrBufferAddUint32, addData_inPlace ready.live]
    · exact run
    · rw [wordBytes_length]
      omega
  · rw [size, woffset]
    omega

theorem replyUint32_replies (room : Nat) (value : UInt32)
    (ready : Ready session.outbuf (room + 4)) :
    Guarded Untolerated (replyUint32 heap value) session
      (fun _ next => Ready next.outbuf room ∧ next.device = session.device ∧
        next.options = session.options) := by
  obtain ⟨next, run, kept⟩ := rumrBufferAddUint32_ready heap value ready
  have reply : replyUint32 heap value session = .ok ((), { session with outbuf := next }) := by
    simp only [replyUint32, toReply, run]
  exact Guarded.of_ok reply ⟨kept, rfl, rfl⟩

theorem fromPacket_found {α : Type} {read : StateT RumrBuffer Option α} {value : α}
    {rest : RumrBuffer} (found : read session.inbuf = some (value, rest)) :
    Guarded Untolerated (fromPacket read) session
      (fun result next => result = value ∧ next = { session with inbuf := rest }) := by
  have run : fromPacket read session = .ok (value, { session with inbuf := rest }) := by
    simp only [fromPacket, found]
  exact Guarded.of_ok run ⟨rfl, rfl⟩

theorem setOptions_sets (change : BankOptions → BankOptions) :
    Guarded Untolerated (setOptions change) session
      (fun _ next => next = { session with options := change session.options }) :=
  Guarded.of_ok rfl rfl

theorem onBank_calls {α : Type} (call : BankOptions → StateM σ α) :
    Guarded Untolerated (onBank call) session
      (fun _ next =>
        next = { session with device := (call session.options session.device).2 }) :=
  Guarded.of_ok rfl rfl

/-- The device after the access of a decoded request, made under the given options. -/
def RegIn.perform (device : Device σ) (args : RegIn) (bank : BankOptions) (state : σ) : σ :=
  match args.value with
  | some (valueLo, _) => (device.writeReg bank args.addr valueLo args.type state).2
  | none => (device.readReg bank args.addr args.type state).2

/-- Every way through the handler ends with the bank switched off; unless the request names
both kinds of bank, its access has run under the options that `selectBank` made. -/
theorem handleOpRegAccess_unbanks {args : RegIn} {rest : RumrBuffer}
    (found : decodeRegAccess session.inbuf = some (args, rest))
    (ready : Ready session.outbuf 12) (unbanked : session.options.useBank = 0) :
    Guarded Untolerated (handleOpRegAccess heap device) session
      (fun _ next => next.options.useBank = 0 ∧ next.device =
        if args.grbmIndex ≠ 0 ∧ args.srbmIndex ≠ 0 then session.device
        else args.perform device (selectBank args session.options) session.device) := by
  unfold handleOpRegAccess
  refine (fromPacket_found found).bind ?_
  rintro decoded _ ⟨same, rfl⟩
  obtain rfl := same.symm
  refine Guarded.ite ?_ ?_
  · intro both
    exact Guarded.pure ⟨unbanked, (if_pos both).symm⟩
  · intro single
    refine (setOptions_sets _).bind ?_
    rintro _ _ rfl
    rw [if_neg single, RegIn.perform]
    cases value : args.value with
    | some pair =>
        refine (onBank_calls _).bind ?_
        rintro _ _ rfl
        refine (setOptions_sets _).bind ?_
        rintro _ _ rfl
        refine Guarded.bind (replyUint32_replies 8 1 (by exact ready)) ?_
        rintro _ next ⟨_, device, options⟩
        exact Guarded.pure ⟨congrArg BankOptions.useBank options, device⟩
    | none =>
        refine (onBank_calls _).bind ?_
        rintro _ _ rfl
        refine (setOptions_sets _).bind ?_
        rintro _ _ rfl
        refine Guarded.bind (replyUint32_replies 8 1 (by exact ready)) ?_
        rintro _ first ⟨afterStatus, device, options⟩
        refine Guarded.bind (replyUint32_replies 4 _ (by exact afterStatus)) ?_
        rintro _ second ⟨afterValue, sameDevice, sameOptions⟩
        refine Guarded.bind (replyUint32_replies 0 0 (by exact afterValue)) ?_
        rintro _ third ⟨_, lastDevice, lastOptions⟩
        refine Guarded.pure ⟨?_, ?_⟩
        · rw [lastOptions, sameOptions, options]
        · rw [lastDevice, sameDevice, device]

end Handler

/-! ## Sequences of requests -/

section Sequence
variable {σ : Type}

theorem selectBank_selected {args : RegIn} {options : BankOptions}
    (unbanked : options.useBank = 0) : (selectBank args options).selected = args.bank := by
  unfold selectBank RegIn.bank
  split
  · rfl
  · split
    · rfl
    · simp [BankOptions.selected, unbanked]

theorem RegIn.perform_traced (device : Device σ) (args : RegIn) (bank : BankOptions)
    (state : σ × List RegAccess) :
    (args.perform device.traced bank state).2 =
      state.2 ++ [⟨bank.selected, args.addr, args.type, args.value.map Prod.fst⟩] := by
  unfold RegIn.perform
  cases args.value with
  | none => rfl
  | some pair => rfl

theorem decodeRegAccess_packet (payload : List UInt8) (bound : payload.length < 2 ^ 32) :
    ∃ rest, decodeRegAccess (packetAt payload 1) = some (packetRegIn payload, rest) := by
  rw [decodeRegAccess_packetAt payload bound, packetRegIn]
  split
  · exact ⟨_, rfl⟩
  · exact ⟨_, rfl⟩

theorem startReply_ready : Ready { emptyBuffer with woffset := 4 } 12 := by
  refine ⟨⟨by decide, by decide, ?_⟩, rfl, by decide⟩
  exact emptyBuffer_inv.size_eq

theorem sendReply_options (header : UInt32) (txOk : Bool) (state : ServerState σ)
    (outcome : Int × Session σ) :
    (sendReply header txOk state outcome).2.options = outcome.2.options ∧
      (sendReply header txOk state outcome).2.device = outcome.2.device := by
  unfold sendReply
  dsimp only
  split
  · exact ⟨rfl, rfl⟩
  · split
    · exact ⟨rfl, rfl⟩
    · exact ⟨rfl, rfl⟩

/-- One register request, from a state without a bank: its access, if it gets one, is
recorded under the bank it names, and no bank is selected afterwards. -/
theorem serverStep_regAccess (server : Server σ) (arrival : Arrival)
    (request : headerOpcode arrival.header = some .regAccess)
    (state : ServerState (σ × List RegAccess)) (unbanked : state.options.useBank = 0) :
    ∃ next, serverStep server.traced arrival state = some next ∧ next.options.useBank = 0 ∧
      next.device.2 = state.device.2 ++ arrival.regAccess.toList := by
  unfold serverStep
  by_cases passes : headerVersion arrival.header = rumrVersion ∧
      arrival.heap (1024 + rumrBufferPreheader).toNat = true
  · obtain ⟨rest, found⟩ := decodeRegAccess_packet arrival.payload arrival.bound
    have handled : Guarded Untolerated
        (handleOpRegAccess arrival.heap server.traced.device)
        (startSession state arrival.payload) _ :=
      handleOpRegAccess_unbanks found startReply_ready unbanked
    rw [Arrival.input, rumrServerLoop_requested arrival.payload _ _ _ _ .regAccess arrival.bound
      ⟨passes.1, request⟩ (by decide) passes.2]
    unfold Guarded at handled
    simp only [runCommand]
    cases outcome : handleOpRegAccess arrival.heap server.traced.device
        (startSession state arrival.payload) with
    | error fault =>
        rw [outcome] at handled
        exact absurd handled id
    | ok pair =>
        rw [outcome] at handled
        obtain ⟨off, device⟩ := handled
        obtain ⟨sameOptions, sameDevice⟩ :=
          sendReply_options (packetWord arrival.payload 0) arrival.txOk state pair
        refine ⟨(sendReply (packetWord arrival.payload 0) arrival.txOk state pair).2, rfl,
          by rw [sameOptions, off], ?_⟩
        rw [sameDevice, device, Arrival.regAccess, if_pos passes, RegIn.asked]
        split
        · simp [startSession]
        · have start : (startSession state arrival.payload).options = state.options := rfl
          rw [Server.traced, RegIn.perform_traced, start, selectBank_selected unbanked]
          rfl
  · have refused : headerVersion arrival.header ≠ rumrVersion ∨
        headerOpcode arrival.header = none ∨
        arrival.heap (1024 + rumrBufferPreheader).toNat = false := by
      rcases not_and_or.mp passes with version | denied
      · exact Or.inl version
      · exact Or.inr (Or.inr (Bool.eq_false_of_not_eq_true denied))
    rw [turned_away refused, Arrival.regAccess, if_neg passes]
    exact ⟨state, rfl, unbanked, by simp⟩

def serverRun (server : Server σ) : List Arrival → ServerState σ → Option (ServerState σ)
  | [], state => some state
  | arrival :: arrivals, state =>
      (serverStep server arrival state).bind (serverRun server arrivals)

/-- Every sequence of register requests, from a state without a bank: each access runs under
the bank its own request names, whatever came before, and no bank stays selected. -/
theorem serverRun_banks (server : Server σ) (arrivals : List Arrival)
    (requests : ∀ arrival ∈ arrivals, headerOpcode arrival.header = some .regAccess)
    (state : ServerState (σ × List RegAccess)) (unbanked : state.options.useBank = 0) :
    ∃ last, serverRun server.traced arrivals state = some last ∧ last.options.useBank = 0 ∧
      last.device.2 = state.device.2 ++ arrivals.filterMap Arrival.regAccess := by
  induction arrivals generalizing state with
  | nil => exact ⟨state, rfl, unbanked, by simp⟩
  | cons arrival arrivals ih =>
      obtain ⟨next, taken, nextUnbanked, record⟩ := serverStep_regAccess server arrival
        (requests arrival List.mem_cons_self) state unbanked
      obtain ⟨last, run, lastUnbanked, records⟩ := ih
        (fun later member => requests later (List.mem_cons_of_mem _ member)) next nextUnbanked
      refine ⟨last, ?_, lastUnbanked, ?_⟩
      · rw [serverRun, taken]
        exact run
      · rw [records, record, List.append_assoc]
        cases access : arrival.regAccess <;> simp [access]

end Sequence

def regRequest (params : List UInt32) (small : params.length < 1024) : Arrival where
  payload := (clientHeader .regAccess :: params).flatMap wordBytes
  bound := by
    rw [List.length_flatMap]
    simp
    omega
  heap := fun _ => true
  txOk := true

/-- A read under GRBM 1, 0, 2, a request for both kinds of bank, and a write without one. -/
def bankRequests : List Arrival :=
  [regRequest [0x8010, 0, 1 + 2, 1, 0, 2, 0] (by decide),
    regRequest [0x8010, 0, 1 + 2 + 4, 1, 0, 2, 3] (by decide),
    regRequest [0x8014, 0, 0, 0, 0, 0, 0, 7, 0] (by decide)]

theorem bankRequests_isolated :
    ∃ last, serverRun idleServer.traced bankRequests ⟨((), []), ⟨0, 0, 0, 0, 0⟩, true, []⟩ =
        some last ∧ last.options.useBank = 0 ∧
      last.device.2 = [] ++ bankRequests.filterMap Arrival.regAccess ∧
      bankRequests.filterMap Arrival.regAccess =
        [⟨.grbm 1 0 2, 0x8010, 0, none⟩, ⟨.noBank, 0x8014, 0, some 7⟩] := by
  obtain ⟨last, run, off, record⟩ := serverRun_banks idleServer bankRequests (by decide)
    ⟨((), []), ⟨0, 0, 0, 0, 0⟩, true, []⟩ rfl
  exact ⟨last, run, off, record, by decide⟩

end Umr.Rumr
