import Umr.Lib.Run
import Umr.Rumr.Packet

/-!
# Which packets the server executes

The header checks of `rumr_server_loop` over arbitrary sequences of received
packets.  The version and the opcode are checked; the test of the SERVER bit is
written `header & 0` and never fires, so a reply sent back to the server is
executed like a request.
-/

set_option autoImplicit false

namespace Umr.Rumr

open Umr.Lib

/-- A packet as the loop gets it, with the allocator and the transmitter at
that moment. -/
structure Arrival where
  payload : List UInt8
  bound : payload.length < 2 ^ 32
  heap : Nat → Bool
  txOk : Bool

def Arrival.input (arrival : Arrival) : CommInput :=
  ⟨arrival.heap, some (receivedBuffer arrival.payload), arrival.txOk⟩

def Arrival.header (arrival : Arrival) : UInt32 := packetWord arrival.payload 0

def Unacceptable (header : UInt32) : Prop :=
  headerServerBit header ≠ 0 ∨ headerVersion header ≠ rumrVersion ∨
    headerOpcode header = none

section Steps
variable {σ : Type} (server : Server σ)

/-- One call of the loop: a command runs only for a good header, and a header
that has to be turned away gives a negative return and an unchanged state. -/
def DispatchesSafely (state : ServerState σ) (arrival : Arrival) : Prop :=
  (∀ opcode, (rumrServerLoop server arrival.input state).handled = some opcode →
    headerVersion arrival.header = rumrVersion ∧ headerServerBit arrival.header = 0) ∧
  (Unacceptable arrival.header →
    ∃ code, (rumrServerLoop server arrival.input state).finish = .ok (code, state) ∧ code < 0)

/-- Not a reply that would be executed: the SERVER bit is clear, or one of the
checks that do work turns the packet away. -/
def Arrival.Ok (arrival : Arrival) : Prop :=
  headerServerBit arrival.header = 0 ∨ headerVersion arrival.header ≠ rumrVersion ∨
    headerOpcode arrival.header = none ∨
    arrival.heap (1024 + rumrBufferPreheader).toNat = false

def serverStep (arrival : Arrival) (state : ServerState σ) : Option (ServerState σ) :=
  match (rumrServerLoop server arrival.input state).finish with
  | .ok (_, next) => some next
  | .error _ => none

variable {server}

theorem turned_away {state : ServerState σ} {arrival : Arrival}
    (refused : headerVersion arrival.header ≠ rumrVersion ∨
      headerOpcode arrival.header = none ∨
      arrival.heap (1024 + rumrBufferPreheader).toNat = false) :
    rumrServerLoop server arrival.input state = ⟨none, .ok (-1, state)⟩ := by
  rw [Arrival.input, rumrServerLoop_packet _ _ _ _ _ arrival.bound]
  change (if headerVersion arrival.header ≠ rumrVersion then _ else _) = _
  by_cases version : headerVersion arrival.header = rumrVersion
  · rw [if_neg (fun wrong => wrong version)]
    rcases refused with wrong | unknown | denied
    · exact absurd version wrong
    · change dispatch server _ arrival.header _ state = _
      simp only [dispatch, unknown]
      cases rumrBufferInit arrival.heap <;> rfl
    · have noBuffer : rumrBufferInit arrival.heap = none := by
        rw [rumrBufferInit, denied]
        rfl
      simp only [dispatch, noBuffer]
  · rw [if_pos version]

theorem executed {state : ServerState σ} {arrival : Arrival} {opcode : Opcode}
    (version : headerVersion arrival.header = rumrVersion)
    (known : headerOpcode arrival.header = some opcode)
    (buffer : arrival.heap (1024 + rumrBufferPreheader).toNat = true) :
    (rumrServerLoop server arrival.input state).handled = some opcode := by
  have init : rumrBufferInit arrival.heap = some emptyBuffer := if_pos buffer
  rw [Arrival.input, rumrServerLoop_packet _ _ _ _ _ arrival.bound]
  change LoopOutcome.handled (if headerVersion arrival.header ≠ rumrVersion then _
    else dispatch server _ arrival.header _ state) = _
  rw [if_neg (fun wrong => wrong version)]
  simp only [dispatch, init, known]
  cases opcode <;> rfl

theorem dispatchesSafely_iff (state : ServerState σ) (arrival : Arrival) :
    DispatchesSafely server state arrival ↔ arrival.Ok := by
  by_cases refused : headerVersion arrival.header ≠ rumrVersion ∨
      headerOpcode arrival.header = none ∨
      arrival.heap (1024 + rumrBufferPreheader).toNat = false
  · refine iff_of_true ⟨?_, ?_⟩ (Or.inr refused)
    · intro opcode handled
      rw [turned_away refused] at handled
      cases handled
    · intro _
      exact ⟨-1, by rw [turned_away refused], by decide⟩
  · simp only [not_or, not_not] at refused
    obtain ⟨version, known, buffer⟩ := refused
    obtain ⟨opcode, known⟩ := Option.ne_none_iff_exists'.mp known
    have buffer := Bool.eq_true_of_not_eq_false buffer
    constructor
    · intro safe
      exact Or.inl (safe.1 opcode (executed version known buffer)).2
    · rintro (clear | wrong | unknown | denied)
      · refine ⟨fun _ _ => ⟨version, clear⟩, ?_⟩
        rintro (serverBit | wrong | unknown)
        · exact absurd clear serverBit
        · exact absurd version wrong
        · rw [known] at unknown
          cases unknown
      · exact absurd version wrong
      · rw [known] at unknown
        cases unknown
      · rw [buffer] at denied
        cases denied

/-- Every run over every sequence of packets: each call is safe exactly when no
packet of the run is an executable reply. -/
theorem rumrServerLoop_dispatch_iff (arrivals : List Arrival) (state : ServerState σ) :
    Admitted (serverStep server) (DispatchesSafely server) arrivals state ↔
      Admitted (serverStep server) (fun _ arrival => arrival.Ok) arrivals state :=
  admitted_congr dispatchesSafely_iff arrivals state

end Steps

def idleDevice : Device Unit where
  accessRead := fun _ _ _ => pure (false, [])
  accessWrite := fun _ _ _ => pure false
  vmDmaToPhys := fun addr => pure addr
  readReg := fun _ _ _ => pure 0
  writeReg := fun _ _ _ _ => pure ()
  gprwaveIoctl := fun _ => pure false
  gprwaveRead := fun _ _ => pure none
  ringFile := fun _ => pure none

theorem unallocated_readable : (⟨[], 0, 0, 0, false⟩ : RumrBuffer).Readable :=
  ⟨Nat.le_refl _, Nat.le_refl _⟩

def idleServer : Server Unit where
  device := idleDevice
  asic := ⟨.ai, -1, false⟩
  serializedAsic := ⟨[], 0, 0, 0, false⟩
  readable := unallocated_readable

def idleState : ServerState Unit := ⟨(), ⟨0, 0, 0, 0, 0⟩, true, []⟩

/-- The header word of a reply to a register request, sent back as a packet. -/
def reflectedReply : Arrival where
  payload := wordBytes (serverHeader (clientHeader .regAccess))
  bound := by decide
  heap := fun _ => true
  txOk := true

theorem reflectedReply_not_safe :
    ¬ Admitted (serverStep idleServer) (DispatchesSafely idleServer) [reflectedReply]
      idleState := by
  rintro ⟨safe, _⟩
  have ok := (dispatchesSafely_iff idleState reflectedReply).mp safe
  revert ok
  unfold Arrival.Ok
  decide

end Umr.Rumr
