import Umr.Gui.RingComplete
import Umr.Packet.Stored
import Umr.Packet.SdmaFraming

/-!
# Ring answers of the five formats

The five opcode decoders do not agree on what they show: which packets, and
whether `nwords` counts the header.  The answer is right when they show every
packet with its own words, which the MES decoder never does.
-/

set_option autoImplicit false

namespace Umr.Gui

open Umr.Lib Umr.Packet

section Formats
variable (env : RingEnv) (behind : Nat → UInt32)

/-- Streams are only decoded with a version of the `vcn` block. -/
def vcnVersion : Nat × Nat := env.vcn.getD (0, 0)

/-- The answer to a ring request is right, and no packet has more words copied than it stores. -/
def RingAnswered : PacketStream → Prop
  | .pm4 stream =>
      AnswersStream (pm4StreamLoop env) false behind
        (umrPacketDisassembleStream env 0 0 (.pm4 stream)) stream.linked
  | .sdma stream =>
      AnswersStream (sdmaStreamLoop env) true behind
        (umrPacketDisassembleStream env 0 0 (.sdma stream)) stream.linked
  | .mes stream =>
      AnswersStream mesStreamLoop false behind
        (umrPacketDisassembleStream env 0 0 (.mes stream)) (Linked.ofList stream)
  | .vcnEnc stream =>
      AnswersStream vcnEncStreamLoop false behind
        (umrPacketDisassembleStream env 0 0 (.vcnEnc stream)) (Linked.ofList stream)
  | .vcnDec stream =>
      AnswersStream (vcnDecStreamLoop (vcnVersion env)) false behind
        (umrPacketDisassembleStream env 0 0 (.vcnDec stream)) stream.linked

/-- The packets of a format are shown, the IBs can be told from the ring and the words can be
counted. -/
def RingWhole : PacketStream → Prop
  | .pm4 stream =>
      Complete (pm4StreamLoop env)
          (fun ps => pm4Named env ps = true ∧ pm4FieldsEnd env ps ≠ .crash) stream.linked ∧
        Fit 0 (withRing (pm4StreamLoop env) (streamWords (pm4StreamLoop env)) stream.linked)
  | .sdma stream =>
      Complete (sdmaStreamLoop env)
          (fun ps => sdmaShown env ps = true ∧ env.sdmaFields ps ≠ .crash) stream.linked ∧
        Fit 0 (withRing (sdmaStreamLoop env) (streamWords (sdmaStreamLoop env)) stream.linked)
  | .mes _ => False
  | .vcnEnc stream =>
      Fit 0 (withRing vcnEncStreamLoop (streamWords vcnEncStreamLoop) (Linked.ofList stream))
  | .vcnDec stream =>
      Complete (vcnDecStreamLoop (vcnVersion env))
          (fun ps => vcnCommandFault (vcnVersion env) ps = false) stream.linked ∧
        Fit 0 (withRing (vcnDecStreamLoop (vcnVersion env))
          (streamWords (vcnDecStreamLoop (vcnVersion env))) stream.linked)

end Formats

/-! ## The packets each decoder shows -/

section Shown
variable {env : RingEnv}

theorem pm4_shownWhole {ps : Pm4Packet} (stored : ps.Stored) :
    ShownWhole (pm4StreamLoop env) false ps ↔
      pm4Named env ps = true ∧ pm4FieldsEnd env ps ≠ .crash := by
  change (pm4Named env ps && decide _) = false ∧
    (∃ nwords, (if pm4Named env ps then some ps.nWords else none) = some nwords ∧ _) ↔ _
  cases named : pm4Named env ps with
  | false => simp
  | true => simpa [copied, pm4StreamLoop] using fun _ => stored.symm

theorem sdma_shownWhole {ps : SdmaPacket} (stored : ps.Stored) :
    ShownWhole (sdmaStreamLoop env) true ps ↔
      sdmaShown env ps = true ∧ env.sdmaFields ps ≠ .crash := by
  change (sdmaShown env ps && decide _) = false ∧
    (∃ nwords, (if sdmaShown env ps then some (ps.nwords + 1) else none) = some nwords ∧ _) ↔ _
  cases shown : sdmaShown env ps with
  | false => simp
  | true => simpa [copied, sdmaStreamLoop] using fun _ => stored.symm

/-- The length passed counts the header, the words stored do not. -/
theorem mes_not_shownWhole {ms : MesPacket} (stored : ms.Stored) :
    ¬ ShownWhole mesStreamLoop false ms := by
  rintro ⟨-, nwords, call, count⟩
  change (if ms.nwords = 0 then none else some ms.nwords) = some nwords at call
  split at call
  · cases call
  · cases call
    change ms.nwords.toNat = ms.words.length at count
    rw [← stored] at count
    omega

theorem vcnDec_shownWhole {ip : Nat × Nat} {ps : Pm4Packet} (stored : ps.Stored) :
    ShownWhole (vcnDecStreamLoop ip) false ps ↔ vcnCommandFault ip ps = false :=
  ⟨And.left, fun alive => ⟨alive, ps.nWords, rfl, stored.symm⟩⟩

theorem vcnEnc_complete {stream : List VcnEncPacket} (stored : ∀ ps ∈ stream, ps.Stored) :
    Complete vcnEncStreamLoop (ShownWhole vcnEncStreamLoop false) (Linked.ofList stream) := by
  induction stream with
  | nil => trivial
  | cons ps stream ih =>
      obtain ⟨⟨counted, valid⟩, later⟩ := List.forall_mem_cons.mp stored
      refine ⟨⟨rfl, ps.nwords, rfl, counted.symm⟩, fun stops => ?_, fun enters => ?_, ih later⟩
      · change ps.invalid = true at stops
        rw [valid] at stops
        cases stops
      · cases enters

end Shown

/-! ## The answer -/

section Answer
variable {env : RingEnv} {behind : Nat → UInt32}

theorem unlessNull_ok {σ : Type} {wrap : σ → PacketStream} {null : σ → Bool}
    {decoded : Except StreamStop σ} {stream : PacketStream}
    (ran : unlessNull wrap null decoded = .ok (some stream)) :
    ∃ found, decoded = .ok found ∧ null found = false ∧ wrap found = stream := by
  cases decoded with
  | error stop => cases ran
  | ok found =>
      change Except.ok (if null found then none else some (wrap found)) = _ at ran
      cases isNull : null found with
      | true =>
          rw [isNull] at ran
          cases ran
      | false =>
          rw [isNull] at ran
          cases ran
          exact ⟨found, rfl, isNull, rfl⟩

/-- An IB that is not closed leaves the answer without a ring. -/
theorem not_answersStream_open {α : Type} {loop : StreamLoop α} {sdma : Bool} {stream : Linked α}
    (ibAddr : UInt64) (ibVmid : UInt32) :
    ¬ AnswersStream loop sdma behind (some [.startIb ibAddr ibVmid]) stream := by
  rintro ⟨shown, same, -, data, ran, answers⟩
  cases same
  cases ran
  cases answers.ring

theorem not_answersStream_nil {α : Type} {loop : StreamLoop α} {sdma : Bool} {stream : Linked α} :
    ¬ AnswersStream loop sdma behind (some []) stream := by
  rintro ⟨shown, same, -, data, ran, answers⟩
  cases same
  cases ran
  cases answers.ring

theorem pm4_answered_iff {stream : Pm4Stream} (stored : stream.linked.All Pm4Packet.Stored) :
    RingAnswered env behind (.pm4 stream) ↔ RingWhole env (.pm4 stream) := by
  change AnswersStream (pm4StreamLoop env) false behind
    (decodeStreamOpcodes (pm4StreamLoop env) 0 0 stream.linked) stream.linked ↔ _
  rw [answersStream_iff, Complete.congr (fun _ => pm4_shownWhole) stored]
  rfl

theorem sdmaKnown_outside {verMaj : Nat} (outside : ¬ (1 ≤ verMaj ∧ verMaj ≤ 7))
    (opcode sub : UInt32) : sdmaKnown verMaj opcode sub = false := by
  unfold sdmaKnown
  split
  case h_8 => rfl
  all_goals omega

theorem not_sdma_complete {stream : SdmaStream} (packet : stream ≠ .null)
    (unknown : ∀ ps, sdmaShown env ps = false) : ¬ RingWhole env (.sdma stream) := by
  rintro ⟨complete, -⟩
  cases stream with
  | null => exact packet rfl
  | node ps nextIb next =>
      have shown := complete.1.1
      rw [unknown ps] at shown
      cases shown

theorem sdma_answered_iff {stream : SdmaStream} (packet : stream ≠ .null)
    (stored : stream.linked.All SdmaPacket.Stored) :
    RingAnswered env behind (.sdma stream) ↔ RingWhole env (.sdma stream) := by
  change AnswersStream (sdmaStreamLoop env) true behind
    (umrSdmaDecodeStreamOpcodes env stream 0 0) stream.linked ↔ _
  rw [umrSdmaDecodeStreamOpcodes]
  cases version : env.sdma.ossmaj with
  | none =>
      have unknown : ∀ ps, sdmaShown env ps = false := fun ps => by rw [sdmaShown, version]
      exact iff_of_false not_answersStream_nil (not_sdma_complete packet unknown)
  | some verMaj =>
      dsimp only
      by_cases tabled : 1 ≤ verMaj ∧ verMaj ≤ 7
      · rw [if_pos (Or.inl tabled), answersStream_iff,
          Complete.congr (fun _ => sdma_shownWhole) stored]
        rfl
      · have unknown : ∀ ps, sdmaShown env ps = false := by
          intro ps
          rw [sdmaShown, version]
          dsimp only
          rw [sdmaKnown_outside tabled, Bool.false_and]
        rw [if_neg (by tauto)]
        exact iff_of_false (not_answersStream_open 0 0) (not_sdma_complete packet unknown)

theorem mes_not_answered {stream : List MesPacket} (packet : stream ≠ [])
    (stored : ∀ ms ∈ stream, ms.Stored) : ¬ RingAnswered env behind (.mes stream) := by
  change ¬ AnswersStream mesStreamLoop false behind
    (umrMesDecodeStreamOpcodes env stream 0 0) (Linked.ofList stream)
  rw [umrMesDecodeStreamOpcodes]
  cases mesVerMaj env.mesGfx with
  | none => exact not_answersStream_nil
  | some version =>
      dsimp only
      rw [answersStream_iff]
      rintro ⟨complete, -⟩
      cases stream with
      | nil => exact packet rfl
      | cons ms stream => exact mes_not_shownWhole (stored ms List.mem_cons_self) complete.1

theorem vcnDec_answered_iff {stream : Pm4Stream} {ip : Nat × Nat} (version : env.vcn = some ip)
    (stored : stream.linked.All Pm4Packet.Stored) :
    RingAnswered env behind (.vcnDec stream) ↔ RingWhole env (.vcnDec stream) := by
  have found : vcnVersion env = ip := by
    rw [vcnVersion, version]
    rfl
  change AnswersStream (vcnDecStreamLoop (vcnVersion env)) false behind
    (umrVcnDecDecodeStreamOpcodes env stream 0 0) stream.linked ↔ _
  rw [umrVcnDecDecodeStreamOpcodes, version]
  dsimp only
  rw [found, answersStream_iff, Complete.congr (fun _ => vcnDec_shownWhole) stored, RingWhole,
    found]

/-- For every ring format and every stream decoded from a non-empty buffer: the answer delimits the
words of the packets of every IB exactly when the stream is whole. -/
theorem ring_answer_iff {depth : Nat} {words : List UInt32} {format : RingFormat}
    {stream : PacketStream} (nonempty : words ≠ [])
    (decoded : umrPacketDecodeBuffer env depth 0 0 words format = .ok (some stream)) :
    RingAnswered env behind stream ↔ RingWhole env stream := by
  cases format with
  | pm4 =>
      obtain ⟨found, ran, -, rfl⟩ := unlessNull_ok decoded
      exact pm4_answered_iff (umrPm4DecodeStream_stored _ _ _ ran)
  | sdma =>
      obtain ⟨found, ran, packet, rfl⟩ := unlessNull_ok decoded
      exact sdma_answered_iff (of_decide_eq_false packet) (umrSdmaDecodeStream_stored _ _ _ _ ran)
  | mes =>
      obtain ⟨found, ran, packet, rfl⟩ := unlessNull_ok decoded
      refine iff_of_false (mes_not_answered ?_ (umrMesDecodeStream_stored nonempty ran)) id
      rintro rfl
      cases packet
  | vcnEnc =>
      obtain ⟨found, ran, -, rfl⟩ := unlessNull_ok decoded
      change AnswersStream vcnEncStreamLoop false behind
        (decodeStreamOpcodes vcnEncStreamLoop 0 0 (Linked.ofList found)) _ ↔ _
      rw [answersStream_iff]
      exact and_iff_right (vcnEnc_complete (umrVcnEncDecodeStream_stored ran))
  | vcnDec =>
      obtain ⟨found, ran, packet, rfl⟩ := unlessNull_ok decoded
      obtain ⟨ip, version⟩ := umrVcnDecDecodeStream_version ran (of_decide_eq_false packet)
      exact vcnDec_answered_iff version (umrVcnDecDecodeStream_stored _ _ _ ran)

end Answer

/-- A ring whose only packet points to an IB with a NOP packet. -/
def ibRing : List UInt32 := [0xC0023F00, 0x1000, 0, 2]

def ibRingEnv : RingEnv where
  pm4 := { plainEnv with
    noFollowIb := false
    readVram := fun _ addr _ =>
      if addr = 0x1000 then some fun k => if k = 0 then 0xC0001000 else 0xAB else none }
  sdma := plainSdma 5
  gfxMaj := 9
  mesGfx := some (11, 0)
  vcn := some (3, 0)
  pkt3Fields _ := .fine
  sdmaFields _ := .fine

def ibRingStream : Pm4Stream :=
  .node ⟨3, 0, 0x3F, 0xC0023F00, 3, [0x1000, 0, 2], 0x1000, 0, none, false⟩
    (.node ⟨3, 0, 0x10, 0xC0001000, 1, [0xAB], 0, 0, none, false⟩ .null .null) .null

theorem ib_ring_answered :
    umrPacketDecodeBuffer ibRingEnv 2 0 0 ibRing .pm4 = .ok (some (.pm4 ibRingStream)) ∧
      RingAnswered ibRingEnv (fun _ => 0) (.pm4 ibRingStream) := by
  have decoded : umrPacketDecodeBuffer ibRingEnv 2 0 0 ibRing .pm4 =
      .ok (some (.pm4 ibRingStream)) := rfl
  refine ⟨decoded, (ring_answer_iff (by decide) decoded).mpr ⟨?_, ?_⟩⟩
  · have nop : Complete (pm4StreamLoop ibRingEnv)
        (fun ps => pm4Named ibRingEnv ps = true ∧ pm4FieldsEnd ibRingEnv ps ≠ .crash)
        (Linked.node ⟨3, 0, 0x10, 0xC0001000, 1, [0xAB], 0, 0, none, false⟩ .null .null) :=
      ⟨⟨rfl, by decide⟩, fun _ => rfl, fun enters => (nomatch enters), trivial⟩
    exact ⟨⟨rfl, by decide⟩, fun _ => rfl, fun _ => ⟨by decide, nop⟩, trivial⟩
  · refine ⟨?_, by decide⟩
    decide

def mesRing : List UInt32 := [0x2071, 0xAB]

theorem mes_packet_overread :
    umrPacketDecodeBuffer ibRingEnv 1 0 0 mesRing .mes =
      .ok (some (.mes [⟨1, 7, 0x2071, 2, [0xAB]⟩])) ∧
    umrPacketDisassembleStream ibRingEnv 0 0 (.mes [⟨1, 7, 0x2071, 2, [0xAB]⟩]) =
      some [.startIb 0 0, .startOpcode 2 0x2071 [0xAB], .done] ∧
    ¬ RingAnswered ibRingEnv (fun _ => 0) (.mes [⟨1, 7, 0x2071, 2, [0xAB]⟩]) := by
  have shown : umrPacketDisassembleStream ibRingEnv 0 0 (.mes [⟨1, 7, 0x2071, 2, [0xAB]⟩]) =
      some [.startIb 0 0, .startOpcode 2 0x2071 [0xAB], .done] := rfl
  refine ⟨rfl, shown, ?_⟩
  rintro ⟨calls, same, within, -⟩
  cases shown.symm.trans same
  have tooMany : copied false 2 ≤ [(0xAB : UInt32)].length :=
    within (.startOpcode 2 0x2071 [0xAB]) (List.mem_cons_of_mem _ List.mem_cons_self)
  exact absurd tooMany (by decide)

end Umr.Gui
