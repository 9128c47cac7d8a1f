import Umr.Lib.Fault
import Umr.Rumr.Dispatch

/-!
# Memory bounds of the request handlers

Sizes come from the packet and go through the device before any byte is stored.
For every packet the handlers keep to their local buffers and to the received
bytes except in two cases: a GPR request for more bytes than the local array
holds, and an accepted memory write from a packet of less than 1024 bytes.
-/

set_option autoImplicit false

namespace Umr.Rumr

open Umr.Lib

/-- Faults of the reply buffer are not the handlers' own. -/
def Tolerated (fault : Fault) : Prop := fault = .replyBuffer

/-- On every lawful device and from every state, serving the packet stores
inside the local buffers and reads only received or stored bytes. -/
def KeepsBounds (payload : List UInt8) : Prop :=
  ∀ (σ : Type) (server : Server σ) (heap : Nat → Bool) (txOk : Bool) (state : ServerState σ),
    server.device.Lawful → ∀ fault,
      (rumrServerLoop server ⟨heap, some (receivedBuffer payload), txOk⟩ state).finish =
        .error fault → Tolerated fault

def OversizedGpr (payload : List UInt8) : Prop :=
  Requests payload .gprAccess ∧ 4096 < (packetWord payload 9).toNat

def packetMemIn (payload : List UInt8) : MemIn :=
  ⟨packetWord payload 1, packetWord payload 2, packetWord payload 3, packetWord payload 4⟩

/-- A memory write that passes all checks while its packet is shorter than the
1024 bytes that the check assumes. -/
def ShortWrite (payload : List UInt8) : Prop :=
  Requests payload .memAccess ∧
    ((packetMemIn payload).subcommand = 0 ∨ (packetMemIn payload).subcommand = 1) ∧
    (packetMemIn payload).rw ≠ 0 ∧ (packetMemIn payload).addr &&& 3 = 0 ∧
    (packetMemIn payload).size = 1004 ∧ payload.length < 1024

/-! ## The primitives -/

section Primitives
variable {σ α : Type} {session : Session σ} {inbuf : RumrBuffer}

def SamePacket (inbuf : RumrBuffer) (_ : α) (session : Session σ) : Prop :=
  session.inbuf = inbuf

theorem toReply_guarded (write : StateT RumrBuffer Option Unit)
    (same : session.inbuf = inbuf) :
    Guarded Tolerated (toReply write) session (SamePacket inbuf) := by
  unfold Guarded toReply
  cases write session.outbuf with
  | none => exact rfl
  | some pair => exact same

theorem onDevice_guarded {call : StateM σ α} (property : α → Prop)
    (always : ∀ s, property (call s).1) (same : session.inbuf = inbuf) :
    Guarded Tolerated (onDevice call) session
      (fun value next => next.inbuf = inbuf ∧ property value) :=
  ⟨same, always session.device⟩

theorem storeLocal_guarded {capacity : Nat} {stored : List UInt8}
    (fits : stored.length ≤ capacity) (same : session.inbuf = inbuf) :
    Guarded Tolerated (storeLocal capacity stored) session (SamePacket inbuf) := by
  refine Guarded.of_ok (if_pos fits) same

theorem takeLocal_guarded {count : Nat} {stored : List UInt8} (filled : count ≤ stored.length)
    (same : session.inbuf = inbuf) :
    Guarded Tolerated (takeLocal count stored) session (SamePacket inbuf) :=
  Guarded.of_ok (if_pos filled) same

theorem fromPacket_guarded {read : StateT RumrBuffer Option α} {value : α} {next : RumrBuffer}
    (found : read session.inbuf = some (value, next)) :
    Guarded Tolerated (fromPacket read) session
      (fun result after => result = value ∧ after.inbuf = next) := by
  have run : fromPacket read session = .ok (value, { session with inbuf := next }) := by
    simp only [fromPacket, found]
  exact Guarded.of_ok run ⟨rfl, rfl⟩

end Primitives

/-! ## The handlers -/

section Handlers
variable {σ : Type} {heap : Nat → Bool} {device : Device σ} {asic : ServerAsic}
  {session : Session σ} {inbuf : RumrBuffer}

theorem bmod_toNat_le (n modulus : Nat) : (Int.bmod n modulus).toNat ≤ n := by
  have below : (n : Int) % (modulus : Int) ≤ n := by
    exact_mod_cast Nat.mod_le n modulus
  rw [Int.bmod_def]
  split <;> omega

theorem bmod_of_small (n modulus : Nat) (small : 2 * n < modulus) :
    Int.bmod n modulus = n :=
  Int.bmod_eq_of_le_mul_two (by omega) (by omega)

theorem readStatus_toNat_le (stored : List UInt8) :
    (readStatus stored).toNat ≤ stored.length :=
  bmod_toNat_le stored.length (2 ^ 32)

/-- The outcome of a read of at most `n` bytes: what was stored, and a return
value that counts no more than that. -/
def StoredAtMost (n : Nat) (outcome : Int × List UInt8) : Prop :=
  outcome.2.length ≤ n ∧ outcome.1.toNat ≤ outcome.2.length

theorem gprwaveAccess_stored (lawful : device.Lawful) (id : GprwaveIocdata)
    (offset size : UInt32) (s : σ) :
    StoredAtMost size.toNat (gprwaveAccess device id offset size s).1 := by
  rcases selection : device.gprwaveIoctl id s with ⟨selected, afterSelect⟩
  cases selected with
  | false =>
      have run : gprwaveAccess device id offset size s = ((-1, []), afterSelect) := by
        simp only [gprwaveAccess, bind, StateT.bind, selection]
        rfl
      rw [run]
      exact ⟨Nat.zero_le _, Nat.zero_le _⟩
  | true =>
      have bounded := lawful.gprwaveRead_le offset size afterSelect
      rcases read : device.gprwaveRead offset size afterSelect with ⟨_ | stored, after⟩
      · have run : gprwaveAccess device id offset size s = ((-1, []), after) := by
          simp only [gprwaveAccess, bind, StateT.bind, selection, if_true, read]
          rfl
        rw [run]
        exact ⟨Nat.zero_le _, Nat.zero_le _⟩
      · rw [read] at bounded
        have run : gprwaveAccess device id offset size s =
            ((readStatus stored, stored), after) := by
          simp only [gprwaveAccess, bind, StateT.bind, selection, if_true, read]
          rfl
        have count := readStatus_toNat_le stored
        simp only [StoredAtMost, run]
        exact ⟨bounded stored rfl, count⟩

theorem umrGetWaveStatusRaw_stored (lawful : device.Lawful) (se sh cu simd wave : UInt32)
    (s : σ) :
    StoredAtMost (64 * 4) (umrGetWaveStatusRaw device asic se sh cu simd wave s).1 := by
  unfold umrGetWaveStatusRaw
  cases asic.gprwaveOpen with
  | false => exact ⟨Nat.zero_le _, le_refl _⟩
  | true =>
      have bytes : (64 * 4 : UInt32).toNat = 64 * 4 := by decide
      rw [← bytes]
      exact gprwaveAccess_stored lawful _ _ _ s

theorem replyStored_guarded {r : Int} {stored : List UInt8} (filled : r.toNat ≤ stored.length)
    (same : session.inbuf = inbuf) :
    Guarded Tolerated (replyStored heap r stored) session (SamePacket inbuf) := by
  refine (toReply_guarded _ same).bind ?_
  intro _ _ same
  refine Guarded.ite (fun _ => ?_) (fun _ => Guarded.pure same)
  refine (toReply_guarded _ same).bind ?_
  intro _ _ same
  refine (takeLocal_guarded filled same).bind ?_
  intro _ _ same
  exact toReply_guarded _ same

theorem handleOpGprAccess_guarded {args : GprIn} {next : RumrBuffer} (lawful : device.Lawful)
    (found : decodeGprAccess session.inbuf = some (args, next)) (small : args.size.toNat ≤ 4096) :
    Guarded Tolerated (handleOpGprAccess heap device asic) session (SamePacket next) := by
  refine (fromPacket_guarded found).bind ?_
  rintro _ _ ⟨rfl, same⟩
  refine (onDevice_guarded _ (gprwaveAccess_stored lawful _ _ _) same).bind ?_
  rintro ⟨r, stored⟩ _ ⟨same, limits⟩
  refine (storeLocal_guarded (Nat.le_trans limits.1 small) same).bind ?_
  intro _ _ same
  refine (replyStored_guarded limits.2 same).bind ?_
  intro _ _ same
  exact Guarded.pure same

theorem handleOpWaveAccess_guarded {args : WaveIn} {next : RumrBuffer}
    (lawful : device.Lawful) (found : decodeWaveAccess session.inbuf = some (args, next)) :
    Guarded Tolerated (handleOpWaveAccess heap device asic) session (SamePacket next) := by
  refine (fromPacket_guarded found).bind ?_
  rintro _ _ ⟨rfl, same⟩
  refine (onDevice_guarded _ (umrGetWaveStatusRaw_stored lawful _ _ _ _ _) same).bind ?_
  rintro ⟨r, stored⟩ _ ⟨same, limits⟩
  refine (storeLocal_guarded limits.1 same).bind ?_
  intro _ _ same
  refine (replyStored_guarded limits.2 same).bind ?_
  intro _ _ same
  exact Guarded.pure same

theorem replyMemStatus_guarded (ok : Bool) (args : MemIn) (same : session.inbuf = inbuf) :
    Guarded Tolerated (replyMemStatus heap ok args) session (SamePacket inbuf) := by
  refine (toReply_guarded _ same).bind ?_
  intro _ _ same
  refine (toReply_guarded _ same).bind ?_
  intro _ _ same
  exact toReply_guarded _ same

theorem memRead_guarded (lawful : device.Lawful) (args : MemIn) (same : session.inbuf = inbuf) :
    Guarded Tolerated (memRead heap device args) session (SamePacket inbuf) := by
  refine (onDevice_guarded (fun outcome => outcome.2.length ≤ args.size.toNat)
    (lawful.accessRead_le _ _ _) same).bind ?_
  rintro ⟨ok, stored⟩ _ ⟨same, fits⟩
  refine (storeLocal_guarded fits same).bind ?_
  intro _ _ same
  refine (replyMemStatus_guarded ok args same).bind ?_
  intro _ _ same
  refine Guarded.ite (fun _ => ?_) (fun _ => Guarded.pure same)
  refine (toReply_guarded _ same).bind ?_
  intro _ _ same
  exact Guarded.pure same

/-- A write is in bounds if the packet holds what the size check lets through. -/
theorem memWrite_guarded (args : MemIn) (same : session.inbuf = inbuf)
    (holds : args.size = inbuf.size - inbuf.roffset →
      inbuf.roffset.toNat + args.size.toNat ≤ inbuf.data.length) :
    Guarded Tolerated (memWrite heap device args) session (SamePacket inbuf) := by
  have rest : Guarded Tolerated (packetRest : Handler σ UInt32) session
      (fun value next => value = inbuf.size - inbuf.roffset ∧ next.inbuf = inbuf) := by
    refine Guarded.of_ok rfl ⟨?_, same⟩
    rw [same]
  refine rest.bind ?_
  rintro _ middle ⟨rfl, same⟩
  refine Guarded.ite (fun _ => Guarded.pure same) (fun accepted => ?_)
  have slice : Guarded Tolerated (packetSlice args.size) middle (SamePacket inbuf) := by
    have inside := holds (not_not.mp accepted)
    rw [← same] at inside
    exact Guarded.of_ok (if_pos inside) same
  refine slice.bind ?_
  intro _ _ same
  refine (onDevice_guarded (fun _ => True) (fun _ => trivial) same).bind ?_
  rintro ok _ ⟨same, _⟩
  refine (replyMemStatus_guarded ok args same).bind ?_
  intro _ _ same
  exact Guarded.pure same

theorem memTranslate_guarded (args : MemIn) (same : session.inbuf = inbuf) :
    Guarded Tolerated (memTranslate heap device args) session (SamePacket inbuf) := by
  refine (onDevice_guarded (fun _ => True) (fun _ => trivial) same).bind ?_
  rintro addr _ ⟨same, _⟩
  refine (toReply_guarded _ same).bind ?_
  intro _ _ same
  refine (toReply_guarded _ same).bind ?_
  intro _ _ same
  refine (toReply_guarded _ same).bind ?_
  intro _ _ same
  exact Guarded.pure same

theorem handleOpMemAccess_guarded {args : MemIn} {next : RumrBuffer} (lawful : device.Lawful)
    (found : decodeMemAccess session.inbuf = some (args, next))
    (holds : (args.subcommand = 0 ∨ args.subcommand = 1) → args.rw ≠ 0 →
      args.addr &&& 3 = 0 → args.size = next.size - next.roffset →
      next.roffset.toNat + args.size.toNat ≤ next.data.length) :
    Guarded Tolerated (handleOpMemAccess heap device) session (SamePacket next) := by
  refine (fromPacket_guarded found).bind ?_
  rintro _ _ ⟨rfl, same⟩
  refine Guarded.ite (fun _ => Guarded.pure same) (fun _ => ?_)
  refine Guarded.ite (fun _ => Guarded.pure same) (fun _ => ?_)
  refine Guarded.ite (fun _ => Guarded.pure same) (fun aligned => ?_)
  refine Guarded.ite (fun _ => Guarded.pure same) (fun _ => ?_)
  refine Guarded.ite (fun isMemory => ?_) (fun _ => memTranslate_guarded _ same)
  refine Guarded.ite (fun _ => memRead_guarded lawful _ same) (fun isWrite => ?_)
  exact memWrite_guarded _ same (holds isMemory isWrite (not_not.mp aligned))

theorem setOptions_guarded (change : BankOptions → BankOptions)
    (same : session.inbuf = inbuf) :
    Guarded Tolerated (setOptions change) session (SamePacket inbuf) :=
  Guarded.of_ok rfl same

theorem onBank_guarded {α : Type} (call : BankOptions → StateM σ α)
    (same : session.inbuf = inbuf) :
    Guarded Tolerated (onBank call) session (SamePacket inbuf) :=
  Guarded.of_ok rfl same

theorem handleOpRegAccess_guarded {args : RegIn} {next : RumrBuffer}
    (found : decodeRegAccess session.inbuf = some (args, next)) :
    Guarded Tolerated (handleOpRegAccess heap device) session (SamePacket next) := by
  refine (fromPacket_guarded found).bind ?_
  rintro _ _ ⟨rfl, same⟩
  refine Guarded.ite (fun _ => Guarded.pure same) (fun _ => ?_)
  refine (setOptions_guarded _ same).bind ?_
  intro _ _ same
  split
  · refine (onBank_guarded _ same).bind ?_
    intro _ _ same
    refine (setOptions_guarded _ same).bind ?_
    intro _ _ same
    refine (toReply_guarded _ same).bind ?_
    intro _ _ same
    exact Guarded.pure same
  · refine (onBank_guarded _ same).bind ?_
    intro _ _ same
    refine (setOptions_guarded _ same).bind ?_
    intro _ _ same
    refine (toReply_guarded _ same).bind ?_
    intro _ _ same
    refine (toReply_guarded _ same).bind ?_
    intro _ _ same
    refine (toReply_guarded _ same).bind ?_
    intro _ _ same
    exact Guarded.pure same

theorem umrReadRingData_filled (ringname : List UInt8) (s : σ) :
    ∀ ring, (umrReadRingData device ringname s).1 = some ring →
      (ring.1 + 12).toNat ≤ ring.2.length := by
  intro ring outcome
  rcases opened : device.ringFile (ringname.takeWhile (· ≠ 0)) s with ⟨_ | file, after⟩
  · simp only [umrReadRingData, bind, StateT.bind, opened] at outcome
    cases outcome
  · simp only [umrReadRingData, bind, StateT.bind, opened] at outcome
    split at outcome
    · rename_i complete
      cases outcome
      exact complete.ge
    · cases outcome

theorem handleOpRingAccess_guarded {ringname : List UInt8} {next : RumrBuffer}
    (found : decodeRingAccess session.inbuf = some (ringname, next))
    (short : ringname.length ≤ 128) :
    Guarded Tolerated (handleOpRingAccess heap device) session (SamePacket next) := by
  refine (fromPacket_guarded found).bind ?_
  rintro _ _ ⟨rfl, same⟩
  refine (storeLocal_guarded short same).bind ?_
  intro _ _ same
  refine (onDevice_guarded (fun outcome => ∀ ring, outcome = some ring →
    (ring.1 + 12).toNat ≤ ring.2.length) (umrReadRingData_filled _) same).bind ?_
  rintro ret _ ⟨same, filled⟩
  cases ret with
  | none =>
      refine (toReply_guarded _ same).bind ?_
      intro _ _ same
      exact Guarded.pure same
  | some ring =>
      refine (toReply_guarded _ same).bind ?_
      intro _ _ same
      refine (toReply_guarded _ same).bind ?_
      intro _ _ same
      refine (takeLocal_guarded (filled ring rfl) same).bind ?_
      intro _ _ same
      refine (toReply_guarded _ same).bind ?_
      intro _ _ same
      exact Guarded.pure same

end Handlers

/-! ## Every packet -/

section Packets
variable {payload : List UInt8}

theorem packetRingName_length (payload : List UInt8) :
    (packetRingName payload).length ≤ 128 := by
  unfold packetRingName
  split
  · simp only [List.length_append, List.length_take, List.length_cons, List.length_nil]
    omega
  · simp only [List.length_append, List.length_replicate, List.length_cons, List.length_nil]
    omega

/-- The size check of a write lets 1004 bytes through, and only behind a
complete request. -/
theorem write_accepted (accepted : packetWord payload 4 =
      (packetAt payload 5).size - (packetAt payload 5).roffset) :
    packetWord payload 4 = 1004 ∧ (packetAt payload 5).roffset.toNat = 20 := by
  by_cases complete : 20 ≤ payload.length
  · obtain ⟨roffset, rest⟩ := packetAt_five payload complete
    exact ⟨accepted.trans rest, roffset⟩
  · have zero : packetWord payload 4 = 0 := if_neg (by omega)
    rw [zero] at accepted
    have roffset := packetAt_roffset payload 5 (by decide)
    have size : (packetAt payload 5).size = 1024 := rfl
    have same : (packetAt payload 5).roffset = 1024 := by
      have difference := congrArg (· + (packetAt payload 5).roffset) accepted
      simpa [size] using difference
    rw [same] at roffset
    have large : (1024 : UInt32).toNat = 1024 := rfl
    omega

theorem runCommand_guarded {σ : Type} {server : Server σ} (heap : Nat → Bool)
    (opcode : Opcode) (session : Session σ) (bound : payload.length < 2 ^ 32)
    (lawful : server.device.Lawful) (packet : session.inbuf = packetAt payload 1)
    (requested : Requests payload opcode) (notOversized : ¬ OversizedGpr payload)
    (notShort : ¬ ShortWrite payload) :
    Guarded Tolerated (runCommand heap server opcode) session (fun _ _ => True) := by
  cases opcode with
  | discover =>
      refine (toReply_guarded _ packet).bind ?_
      intro _ _ _
      exact Guarded.pure trivial
  | regAccess =>
      have found := decodeRegAccess_packetAt payload bound
      rw [← packet] at found
      split at found
      · exact (handleOpRegAccess_guarded found).weaken fun _ _ _ => trivial
      · exact (handleOpRegAccess_guarded found).weaken fun _ _ _ => trivial
  | memAccess =>
      have found := decodeMemAccess_packetAt payload bound
      rw [← packet] at found
      refine (handleOpMemAccess_guarded lawful found ?_).weaken fun _ _ _ => trivial
      intro isMemory isWrite aligned accepted
      obtain ⟨size, roffset⟩ := write_accepted accepted
      have long : 1024 ≤ payload.length := by
        by_contra short
        exact notShort ⟨requested, isMemory, isWrite, aligned, size, by omega⟩
      have count : (1004 : UInt32).toNat = 1004 := rfl
      have data : (packetAt payload 5).data = payload := rfl
      rw [size, roffset, count, data]
      exact long
  | waveAccess =>
      have found := decodeWaveAccess_packetAt payload bound
      rw [← packet] at found
      exact (handleOpWaveAccess_guarded lawful found).weaken fun _ _ _ => trivial
  | gprAccess =>
      have found := decodeGprAccess_packetAt payload bound
      rw [← packet] at found
      refine (handleOpGprAccess_guarded lawful found ?_).weaken fun _ _ _ => trivial
      by_contra large
      exact notOversized ⟨requested, Nat.lt_of_not_le large⟩
  | ringAccess =>
      have found := decodeRingAccess_packetAt payload bound
      rw [← packet] at found
      exact (handleOpRingAccess_guarded found (packetRingName_length payload)).weaken
        fun _ _ _ => trivial
  | goodbye => exact Guarded.pure trivial

theorem keepsBounds_of_not (bound : payload.length < 2 ^ 32)
    (notOversized : ¬ OversizedGpr payload) (notShort : ¬ ShortWrite payload) :
    KeepsBounds payload := by
  intro σ server heap txOk state lawful fault stopped
  obtain ⟨opcode, requested, run⟩ :=
    rumrServerLoop_fault payload server heap txOk state fault bound stopped
  exact (runCommand_guarded heap opcode (startSession state payload) bound lawful rfl
    requested notOversized notShort).tolerates run

/-! ### The two ways out of bounds -/

def zeroDevice : Device Unit where
  accessRead := fun _ _ size => pure (true, List.replicate size.toNat 0)
  accessWrite := fun _ _ _ => pure true
  vmDmaToPhys := fun addr => pure addr
  readReg := fun _ _ _ => pure 0
  writeReg := fun _ _ _ _ => pure ()
  gprwaveIoctl := fun _ => pure true
  gprwaveRead := fun _ size => pure (some (List.replicate size.toNat 0))
  ringFile := fun _ => pure none

theorem zeroDevice_lawful : zeroDevice.Lawful := by
  refine ⟨?_, ?_⟩
  · intro _ _ size _
    exact (List.length_replicate ..).le
  · intro _ size _ bytes stored
    cases stored
    exact (List.length_replicate ..).le

def zeroServer : Server Unit where
  device := zeroDevice
  asic := ⟨.ai, -1, true⟩
  serializedAsic := ⟨[], 0, 0, 0, false⟩
  readable := unallocated_readable

/-- The first steps of a handler decide when they end in a fault. -/
theorem fromPacket_bind {σ α β : Type} {read : StateT RumrBuffer Option α}
    {next : α → Handler σ β} {session : Session σ} {value : α} {rest : RumrBuffer}
    (found : read session.inbuf = some (value, rest)) :
    (fromPacket read >>= next) session = next value { session with inbuf := rest } := by
  apply bind_of_ok
  simp only [fromPacket, found]

theorem handleOpGprAccess_overruns {σ : Type} {heap : Nat → Bool} {device : Device σ}
    {asic : ServerAsic} {session : Session σ} {args : GprIn} {next : RumrBuffer}
    {outcome : (Int × List UInt8) × σ}
    (found : decodeGprAccess session.inbuf = some (args, next))
    (raw : umrLinuxReadGprGprwaveRaw device asic args.vgprOrSgpr args.thread args.se args.sh
      args.cuWgp args.wave args.simd args.offset args.size session.device = outcome)
    (large : 4096 < outcome.1.2.length) :
    handleOpGprAccess heap device asic session = .error .localStore := by
  have called : onDevice (umrLinuxReadGprGprwaveRaw device asic args.vgprOrSgpr args.thread
      args.se args.sh args.cuWgp args.wave args.simd args.offset args.size)
      { session with inbuf := next } =
        .ok (outcome.1, { session with inbuf := next, device := outcome.2 }) := by
    simp only [onDevice, raw]
  rw [handleOpGprAccess, fromPacket_bind found, bind_of_ok called]
  exact bind_of_error (if_neg (Nat.not_le.mpr large))

theorem oversizedGpr_faults (bound : payload.length < 2 ^ 32)
    (oversized : OversizedGpr payload) :
    runCommand (fun _ => true) zeroServer .gprAccess (startSession idleState payload) =
      .error .localStore := by
  have found : decodeGprAccess (startSession idleState payload).inbuf = some (_, _) :=
    decodeGprAccess_packetAt payload bound
  apply handleOpGprAccess_overruns found rfl
  change 4096 < (List.replicate (packetWord payload 9).toNat (0 : UInt8)).length
  rw [List.length_replicate]
  exact oversized.2

theorem handleOpMemAccess_write {σ : Type} {heap : Nat → Bool} {device : Device σ}
    {session : Session σ} {args : MemIn} {next : RumrBuffer}
    (found : decodeMemAccess session.inbuf = some (args, next))
    (isMemory : args.subcommand = 0 ∨ args.subcommand = 1) (isWrite : args.rw ≠ 0)
    (aligned : args.addr &&& 3 = 0) (whole : args.size &&& 3 = 0) :
    handleOpMemAccess heap device session =
      memWrite heap device args { session with inbuf := next } := by
  have notInvalid : ¬ args.subcommand = 3 := by
    rcases isMemory with is | is <;> rw [is] <;> decide
  have notTranslate : ¬ (args.rw ≠ 0 ∧ args.subcommand = 2) := by
    rintro ⟨_, translate⟩
    rcases isMemory with is | is <;> rw [is] at translate <;> exact absurd translate (by decide)
  rw [handleOpMemAccess, fromPacket_bind found, if_neg notInvalid, if_neg (not_not.mpr whole),
    if_neg (not_not.mpr aligned), if_neg notTranslate, if_pos isMemory, if_neg isWrite]

theorem shortWrite_faults (bound : payload.length < 2 ^ 32) (short : ShortWrite payload) :
    runCommand (fun _ => true) zeroServer .memAccess (startSession idleState payload) =
      .error .packetRead := by
  obtain ⟨_, isMemory, isWrite, aligned, size, length⟩ := short
  have sizeWord : packetWord payload 4 = 1004 := size
  have complete : 20 ≤ payload.length := by
    by_contra truncated
    have zero : packetWord payload 4 = 0 := if_neg (by omega)
    rw [sizeWord] at zero
    exact absurd zero (by decide)
  obtain ⟨roffset, rest⟩ := packetAt_five payload complete
  have outside : ¬ (packetAt payload 5).roffset.toNat + (1004 : UInt32).toNat ≤
      (packetAt payload 5).data.length := by
    have data : (packetAt payload 5).data = payload := rfl
    have wide : (1004 : UInt32).toNat = 1004 := rfl
    rw [roffset, data, wide]
    omega
  have command : runCommand (fun _ => true) zeroServer .memAccess =
    handleOpMemAccess (fun _ => true) zeroDevice := rfl
  have found : decodeMemAccess (startSession idleState payload).inbuf =
      some (packetMemIn payload, packetAt payload 5) := decodeMemAccess_packetAt payload bound
  rw [command, handleOpMemAccess_write found isMemory isWrite aligned (by rw [size]; decide),
    memWrite]
  change (if (packetMemIn payload).size ≠
    (packetAt payload 5).size - (packetAt payload 5).roffset then _ else _ : Handler Unit Int) _ = _
  rw [rest, if_neg (not_not.mpr size), size]
  exact bind_of_error (if_neg outside)

/-- Every packet of every length: its handler stays in bounds exactly if the
packet is neither an oversized GPR request nor a short accepted write. -/
theorem rumrServerLoop_keepsBounds_iff (payload : List UInt8) (bound : payload.length < 2 ^ 32) :
    KeepsBounds payload ↔ ¬ OversizedGpr payload ∧ ¬ ShortWrite payload := by
  constructor
  · intro keeps
    refine ⟨?_, ?_⟩
    · intro oversized
      have stopped := rumrServerLoop_requested payload zeroServer (fun _ => true) true idleState
        .gprAccess bound oversized.1 (by decide) rfl
      rw [oversizedGpr_faults bound oversized] at stopped
      have tolerated := keeps Unit zeroServer (fun _ => true) true idleState zeroDevice_lawful
        .localStore stopped
      cases tolerated
    · intro short
      have stopped := rumrServerLoop_requested payload zeroServer (fun _ => true) true idleState
        .memAccess bound short.1 (by decide) rfl
      rw [shortWrite_faults bound short] at stopped
      have tolerated := keeps Unit zeroServer (fun _ => true) true idleState zeroDevice_lawful
        .packetRead stopped
      cases tolerated
  · rintro ⟨notOversized, notShort⟩
    exact keepsBounds_of_not bound notOversized notShort

end Packets

def gprRequest4100 : List UInt8 :=
  [clientHeader .gprAccess, 0, 0, 0, 0, 0, 0, 1, 0, 4100].flatMap wordBytes

theorem gprRequest4100_out_of_bounds : ¬ KeepsBounds gprRequest4100 := by
  intro keeps
  have oversized : OversizedGpr gprRequest4100 := by
    unfold OversizedGpr Requests
    decide
  have stopped := rumrServerLoop_requested gprRequest4100 zeroServer (fun _ => true) true
    idleState .gprAccess (by decide) oversized.1 (by decide) rfl
  rw [oversizedGpr_faults (by decide) oversized] at stopped
  have tolerated := keeps Unit zeroServer (fun _ => true) true idleState zeroDevice_lawful
    .localStore stopped
  cases tolerated

theorem headerOnly_keepsBounds_iff :
    (wordBytes (clientHeader .waveAccess)).length < 2 ^ 32 ∧
      (KeepsBounds (wordBytes (clientHeader .waveAccess)) ↔
        ¬ OversizedGpr (wordBytes (clientHeader .waveAccess)) ∧
          ¬ ShortWrite (wordBytes (clientHeader .waveAccess))) :=
  ⟨by decide, rumrServerLoop_keepsBounds_iff _ (by decide)⟩

end Umr.Rumr
