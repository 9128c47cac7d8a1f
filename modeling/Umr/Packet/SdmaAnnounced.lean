import Umr.Packet.SdmaPayloads

/-!
# SDMA packets announced once

A run of `umr_sdma_decode_stream_opcodes` over a stream of the stream decoder, with the
packets it announces, the addresses it announces them at and where it ends.
-/

set_option autoImplicit false

namespace Umr.Packet.Sdma

open Umr.Lib Umr.Rumr Umr.Packet

def placed : SdmaStream → UInt64 → List (UInt64 × SdmaPacket)
  | .null, _ => []
  | .node ps _ next, ibAddr =>
      (ibAddr, ps) :: placed next (ibAddr + 4 * UInt64.ofNat (1 + ps.nwords.toNat))

inductive HeadOf (ibVmid : UInt32) (at_ : UInt64 × SdmaPacket) : Call → Prop where
  | start (name : String) : HeadOf ibVmid at_ (.startOpcode at_.1 ibVmid 0 at_.2.opcode
      at_.2.subOpcode (at_.2.nwords + 1) name at_.2.headerDw at_.2.words)
  | subop : HeadOf ibVmid at_ (.unhandledSubop at_.1 ibVmid at_.2)
  | unhandled : HeadOf ibVmid at_ (.unhandled at_.1 ibVmid at_.2)

def AnnouncedBy (ibVmid : UInt32) (at_ : UInt64 × SdmaPacket) (turn : PacketTurn) : Prop :=
  ∃ call, turn.own = [call] ∧ HeadOf ibVmid at_ call

section Condition
variable (env : SdmaEnv) (ui : OpcodeUi)

/-- Of the first `opcodes` packets each has a turn, in order, with one call at its address. -/
def EachAnnounced (follow : Bool) (stream : SdmaStream) (opcodes : UInt64) (ibAddr : UInt64)
    (ibVmid : UInt32) : Prop :=
  List.Forall₂ (AnnouncedBy ibVmid) ((placed stream ibAddr).take opcodes.toNat)
    (opcodeRun env ui follow stream opcodes.toNat ibAddr ibVmid).1

/-- A packet of a version with a decoder, that is not a broadcast copy; one that no decoder
shows needs a callback, and is no write that version 4 rejects twice. -/
def AnnouncedOnce (ps : SdmaPacket) : Prop :=
  ∃ verMaj, env.ossmaj = some verMaj ∧ (1 ≤ verMaj ∧ verMaj ≤ 7) ∧
    if sdmaKnown verMaj ps.opcode ps.subOpcode then ¬ BroadcastCopy ps
    else if ps.opcode.toNat ∈ listedOpcodes then
      ui.unhandledSubop = true ∧ ¬ (verMaj = 4 ∧ ps.opcode.toNat = 2)
    else ui.unhandled = true

/-- The fields of the packet lie in its payload, and its size in bytes has 32 bits. -/
def PassedOver (ps : SdmaPacket) : Prop :=
  (ps.opcode.toNat = 32 → ps.nwords ≠ 0) ∧
    (∀ verMaj, env.ossmaj = some verMaj → ps.opcode.toNat = 1 →
      (4 ≤ verMaj → ps.subOpcode = 1 → ChipFamily.ai.code ≤ env.family.code) ∧
      (5 ≤ verMaj → ps.subOpcode = 5 ∨ ps.subOpcode = 6 →
        ChipFamily.nv.code ≤ env.family.code)) ∧
    1 + ps.nwords.toNat < 2 ^ 30

end Condition

section Turns
variable {env : SdmaEnv} {ui : OpcodeUi} {ps : SdmaPacket}

/-- Of the packets of a stream, only writes are rejected twice. -/
theorem again_iff (sized : Sized env ps) {verMaj : Nat} (version : env.ossmaj = some verMaj)
    (unknown : sdmaKnown verMaj ps.opcode ps.subOpcode = false) :
    Again verMaj ps ↔ verMaj = 4 ∧ ps.opcode.toNat = 2 := by
  constructor
  · rintro ⟨rfl, copy | write⟩
    · have known : knownUptoAi ps.opcode ps.subOpcode = true := by
        have sub := sized.copies copy
        simp only [copySubs, List.mem_cons, List.not_mem_nil, or_false] at sub
        simp [copy, knownUptoAi, knownUptoVi, knownBy, casesUptoAi, casesUptoVi]
        grind
      exact absurd (known.symm.trans unknown) (by decide)
    · exact ⟨rfl, write⟩
  · rintro ⟨rfl, write⟩
    exact ⟨rfl, Or.inr write⟩

theorem announced_once_iff (sized : Sized env ps) {announced : List Head}
    (decoded : env.ossmaj.bind (heads ps) = some announced) (ibAddr : UInt64) (ibVmid : UInt32) :
    (∃ call, announced.flatMap (Head.calls ui ibAddr ibVmid ps) = [call] ∧
      HeadOf ibVmid (ibAddr, ps) call) ↔ AnnouncedOnce env ui ps := by
  obtain ⟨verMaj, version, decoded⟩ := Option.bind_eq_some_iff.mp decoded
  have range := (@heads_eq_some_iff ps verMaj).mp ⟨announced, decoded⟩
  have only : AnnouncedOnce env ui ps ↔
      if sdmaKnown verMaj ps.opcode ps.subOpcode then ¬ BroadcastCopy ps
      else if ps.opcode.toNat ∈ listedOpcodes then
        ui.unhandledSubop = true ∧ ¬ (verMaj = 4 ∧ ps.opcode.toNat = 2)
      else ui.unhandled = true := by
    rw [AnnouncedOnce, version]
    simp [range]
  rw [only]
  have heads := heads_announced decoded
  have again := again_iff sized version
  generalize sdmaKnown verMaj ps.opcode ps.subOpcode = known at heads again ⊢
  cases heads with
  | shown plain name takes => exact iff_of_true ⟨_, rfl, .start name⟩ plain
  | lost broadcast =>
      refine iff_of_false ?_ (not_not.mpr broadcast)
      rintro ⟨_, impossible, _⟩
      cases impossible
  | rejected listed once =>
      rw [if_neg Bool.false_ne_true, if_pos listed, ← again rfl, and_iff_left once]
      cases callback : ui.unhandledSubop with
      | true => exact iff_of_true ⟨_, by simp [Head.calls, callback], .subop⟩ rfl
      | false => exact iff_of_false (by simp [Head.calls, callback]) Bool.false_ne_true
  | rejectedTwice listed twice =>
      rw [if_neg Bool.false_ne_true, if_pos listed, ← again rfl]
      refine iff_of_false ?_ fun both => both.2 twice
      cases callback : ui.unhandledSubop <;> simp [Head.calls, callback]
  | foreign unlisted =>
      rw [if_neg Bool.false_ne_true, if_neg unlisted]
      cases callback : ui.unhandled with
      | true => exact iff_of_true ⟨_, by simp [Head.calls, callback], .unhandled⟩ rfl
      | false => exact iff_of_false (by simp [Head.calls, callback]) Bool.false_ne_true

theorem passed_over_iff (sized : Sized env ps) {announced : List Head}
    (decoded : env.ossmaj.bind (heads ps) = some announced) :
    PassedOver env ps ↔ Inside ps announced ∧ 1 + ps.nwords.toNat < 2 ^ 30 := by
  obtain ⟨verMaj, version, decoded⟩ := Option.bind_eq_some_iff.mp decoded
  rw [PassedOver, ← and_assoc, and_congr_left_iff]
  intro _
  rcases sized.version with nop | ⟨tabled, version', least, most⟩
  · have fits : Inside ps announced := by
      unfold heads at decoded
      split at decoded <;> cases decoded <;>
        simp [decodeUptoOss7, decodeUptoNv, decodeUptoAi, decodeUptoVi, nop]
    exact iff_of_true (by simp [nop]) fits
  · cases version.symm.trans version'
    unfold heads at decoded
    have windows := sized.windows
    split at decoded
    case h_7 => omega
    case h_8 => cases decoded
    case h_4 =>
      cases decoded
      rw [decodeUptoAi_inside sized.least fun copy tiled => windows copy (Or.inl tiled), version]
      simp
    case h_5 | h_6 =>
      cases decoded
      rw [decodeUptoNv_inside sized.least windows, version]
      simp
      grind
    case h_1 | h_2 | h_3 =>
      cases decoded
      rw [decodeUptoVi_inside sized.least, version]
      simp

def callAddr : Call → Option UInt64
  | .startOpcode ibAddr .. => some ibAddr
  | .unhandled ibAddr _ _ => some ibAddr
  | .unhandledSubop ibAddr _ _ => some ibAddr
  | _ => none

theorem head_calls_addr {ibAddr : UInt64} {ibVmid : UInt32} {head : Head} {call : Call}
    (member : call ∈ Head.calls ui ibAddr ibVmid ps head) : callAddr call = some ibAddr := by
  cases head with
  | start name takes =>
      rw [List.mem_singleton.mp member]
      rfl
  | subop =>
      rw [Head.calls] at member
      split at member
      · rw [List.mem_singleton.mp member]
        rfl
      · cases member
  | unhandled =>
      rw [Head.calls] at member
      split at member
      · rw [List.mem_singleton.mp member]
        rfl
      · cases member

/-- A packet is announced at no other address than that of its turn. -/
theorem announced_addr {announced : List Head} {ibAddr : UInt64} {ibVmid ibVmid' : UInt32}
    {call : Call} {at_ : UInt64 × SdmaPacket}
    (own : announced.flatMap (Head.calls ui ibAddr ibVmid ps) = [call])
    (headOf : HeadOf ibVmid' at_ call) : at_.1 = ibAddr := by
  have member : call ∈ announced.flatMap (Head.calls ui ibAddr ibVmid ps) := by
    rw [own]
    exact List.mem_singleton_self _
  obtain ⟨head, _, inHead⟩ := List.mem_flatMap.mp member
  have placedAt : callAddr call = some at_.1 := by cases headOf <;> rfl
  exact Option.some.inj (placedAt.symm.trans (head_calls_addr inHead))

theorem step_addr_iff {nwords : UInt32} {ibAddr : UInt64} :
    ibAddr + 4 * UInt64.ofNat (1 + nwords.toNat) = ibAddr + ((1 + nwords) * 4).toUInt64 ↔
      1 + nwords.toNat < 2 ^ 30 := by
  have narrow := nwords.toNat_lt
  have four : (4 : UInt64).toNat = 4 := rfl
  have four' : (4 : UInt32).toNat = 4 := rfl
  have one : (1 : UInt32).toNat = 1 := rfl
  rw [UInt64.add_right_inj, ← UInt64.toNat_inj, UInt64.toNat_mul, UInt64.toNat_ofNat',
    UInt32.toNat_toUInt64, UInt32.toNat_mul, UInt32.toNat_add, four, four', one]
  omega

/-- Whether every packet is announced and every packet but the last passed over. -/
def Complete (env : SdmaEnv) (ui : OpcodeUi) : List SdmaPacket → Prop
  | [] => True
  | ps :: behind =>
      AnnouncedOnce env ui ps ∧ (behind ≠ [] → PassedOver env ps) ∧ Complete env ui behind

theorem complete_iff {packets : List SdmaPacket} :
    Complete env ui packets ↔
      (∀ ps ∈ packets, AnnouncedOnce env ui ps) ∧ ∀ ps ∈ packets.dropLast, PassedOver env ps := by
  induction packets with
  | nil => simp [Complete]
  | cons ps behind ih =>
      rw [Complete, ih, List.forall_mem_cons]
      cases behind with
      | nil => simp
      | cons second behind =>
          rw [List.dropLast_cons_cons, @List.forall_mem_cons _ _ _ (second :: behind).dropLast]
          have some_ : second :: behind ≠ [] := List.cons_ne_nil _ _
          exact ⟨fun all => ⟨⟨all.1, all.2.2.1⟩, all.2.1 some_, all.2.2.2⟩,
            fun all => ⟨all.1.1, fun _ => all.2.1, all.1.2, all.2.2⟩⟩

end Turns

section Run
variable {env : SdmaEnv} {ui : OpcodeUi} {follow : Bool} {ibVmid : UInt32}

theorem placed_take_eq_nil_iff {stream : SdmaStream} {opcodes : Nat} {ibAddr : UInt64} :
    (placed stream ibAddr).take opcodes = [] ↔ stream.packets.take opcodes = [] := by
  cases stream with
  | null => simp [placed, SdmaStream.packets]
  | node ps nextIb next => cases opcodes <;> simp [placed, SdmaStream.packets]

theorem opcodeRun_none {stream : SdmaStream} {opcodes : Nat} {ibAddr : UInt64}
    (none_ : stream.packets.take opcodes = []) :
    (opcodeRun env ui follow stream opcodes ibAddr ibVmid).1 = [] := by
  cases stream with
  | null => rfl
  | node ps nextIb next =>
      cases opcodes with
      | zero => rfl
      | succ opcodes => cases none_

theorem opcodeRun_node {ps : SdmaPacket} {nextIb next : SdmaStream} {opcodes : Nat}
    {ibAddr : UInt64} {announced : List Head}
    (decoded : env.ossmaj.bind (heads ps) = some announced) :
    ∃ inner, (opcodeRun env ui follow (.node ps nextIb next) (opcodes + 1) ibAddr ibVmid).1 =
      ⟨ibAddr, ps, announced.flatMap (Head.calls ui ibAddr ibVmid ps), inner⟩ ::
        if announced.any (Head.invalid ps) then []
        else (opcodeRun env ui follow next opcodes
          (ibAddr + ((1 + ps.nwords) * 4).toUInt64) ibVmid).1 := by
  rw [opcodeRun, decoded]
  dsimp only
  split
  · exact ⟨_, rfl⟩
  · exact ⟨_, rfl⟩

theorem not_announced_elsewhere {stream : SdmaStream} {opcodes : Nat} {ibAddr at_ : UInt64}
    (elsewhere : at_ ≠ ibAddr) (some_ : stream.packets.take opcodes ≠ []) :
    ¬ List.Forall₂ (AnnouncedBy ibVmid) ((placed stream at_).take opcodes)
      (opcodeRun env ui follow stream opcodes ibAddr ibVmid).1 := by
  intro all
  cases stream with
  | null => exact some_ (by simp [SdmaStream.packets])
  | node ps nextIb next =>
      cases opcodes with
      | zero => exact some_ rfl
      | succ opcodes =>
          rw [placed, List.take_succ_cons] at all
          cases decoded : env.ossmaj.bind (heads ps) with
          | none =>
              rw [opcodeRun, decoded] at all
              cases all
          | some announced =>
              obtain ⟨inner, run⟩ := @opcodeRun_node env ui follow ibVmid ps nextIb next opcodes
                ibAddr announced decoded
              rw [run, List.forall₂_cons] at all
              obtain ⟨call, own, headOf⟩ := all.1
              exact elsewhere (announced_addr own headOf)

theorem opcodeRun_announced_iff {stream : SdmaStream} : ∀ {opcodes : Nat} {ibAddr : UInt64},
    stream.linked.All (Sized env) →
    (List.Forall₂ (AnnouncedBy ibVmid) ((placed stream ibAddr).take opcodes)
        (opcodeRun env ui follow stream opcodes ibAddr ibVmid).1 ↔
      Complete env ui (stream.packets.take opcodes)) := by
  induction stream with
  | null =>
      intro opcodes ibAddr _
      rw [placed, SdmaStream.packets, List.take_nil, List.take_nil]
      exact iff_of_true .nil trivial
  | node ps nextIb next _ ih =>
      intro opcodes ibAddr sized
      obtain ⟨here, _, behind⟩ := sized
      cases opcodes with
      | zero => exact iff_of_true .nil trivial
      | succ opcodes =>
          rw [placed, SdmaStream.packets, List.take_succ_cons, List.take_succ_cons, Complete]
          cases decoded : env.ossmaj.bind (heads ps) with
          | none =>
              rw [opcodeRun, decoded]
              refine iff_of_false (fun all => by cases all) ?_
              rintro ⟨⟨verMaj, version, range, _⟩, _⟩
              obtain ⟨announced, found⟩ := (@heads_eq_some_iff ps verMaj).mpr range
              rw [version, Option.bind_some, found] at decoded
              cases decoded
          | some announced =>
              obtain ⟨inner, run⟩ := @opcodeRun_node env ui follow ibVmid ps nextIb next opcodes
                ibAddr announced decoded
              rw [run, List.forall₂_cons]
              refine and_congr (announced_once_iff here decoded ibAddr ibVmid) ?_
              by_cases last : next.packets.take opcodes = []
              · rw [last, placed_take_eq_nil_iff.mpr last, opcodeRun_none last, ite_self]
                exact iff_of_true .nil ⟨fun some_ => absurd rfl some_, trivial⟩
              · have passed := passed_over_iff here decoded
                rw [Inside] at passed
                by_cases fits : announced.any (Head.invalid ps) = true
                · rw [if_pos fits]
                  refine iff_of_false (fun all => ?_) fun all => ?_
                  · exact last (placed_take_eq_nil_iff.mp (List.forall₂_nil_right_iff.mp all))
                  · rw [(passed.mp (all.1 last)).1] at fits
                    cases fits
                · rw [if_neg fits]
                  have fits := Bool.eq_false_iff.mpr fits
                  by_cases brief : 1 + ps.nwords.toNat < 2 ^ 30
                  · rw [step_addr_iff.mpr brief, ih behind]
                    exact (and_iff_right fun _ => passed.mpr ⟨fits, brief⟩).symm
                  · refine iff_of_false ?_ fun all => brief (passed.mp (all.1 last)).2
                    exact not_announced_elsewhere (mt step_addr_iff.mp brief) last

end Run

/-! ## The streams of the stream decoder -/

def nestedStreams : SdmaStream → List SdmaStream
  | .null => []
  | .node _ nextIb next => nextIb :: (nestedStreams nextIb ++ nestedStreams next)

theorem nested_all {holds : SdmaPacket → Prop} {stream : SdmaStream}
    (all : stream.linked.All holds) : ∀ nested ∈ nestedStreams stream, nested.linked.All holds := by
  induction stream with
  | null => exact fun _ member => by cases member
  | node ps nextIb next ihIb ihNext =>
      refine List.forall_mem_cons.mpr ⟨all.2.1, fun nested member => ?_⟩
      rcases List.mem_append.mp member with inIb | behind
      · exact ihIb all.2.1 nested inIb
      · exact ihNext all.2.2 nested behind

/-- A returned stream, or the one of an IB in it, is disassembled packet by packet exactly
where each packet is announced once and all but the last are passed over. -/
theorem sdma_announced_iff {env : SdmaEnv} {depth : Nat} {fromAddr : UInt64} {fromVmid : UInt32}
    {words : List UInt32} {whole stream : SdmaStream}
    (ran : umrSdmaDecodeStream env depth fromAddr fromVmid words = .ok whole)
    (part : stream ∈ whole :: nestedStreams whole) (ui : OpcodeUi) (follow : Bool)
    (opcodes ibAddr : UInt64) (ibVmid : UInt32) :
    EachAnnounced env ui follow stream opcodes ibAddr ibVmid ↔
      (∀ ps ∈ stream.packets.take opcodes.toNat, AnnouncedOnce env ui ps) ∧
        ∀ ps ∈ (stream.packets.take opcodes.toNat).dropLast, PassedOver env ps := by
  have sized := umrSdmaDecodeStream_all Sized.ofRead fromAddr fromVmid words whole ran
  rw [← complete_iff, EachAnnounced]
  refine opcodeRun_announced_iff ?_
  rcases List.mem_cons.mp part with rfl | nested
  · exact sized
  · exact nested_all sized stream nested

def sampleSdma (family : ChipFamily) (ossmaj : Nat) : SdmaEnv where
  family := family
  ossmaj := some ossmaj
  noFollowIb := true
  unhandledSize := fun _ => none
  readVram := fun _ _ _ => none

def zeroPacket (header nwords : UInt32) : SdmaPacket :=
  { sdmaHeader header with nwords := nwords, words := List.replicate nwords.toNat 0 }

theorem sdma_announced_trap :
    umrSdmaDecodeStream (sampleSdma .nv 5) 1 0 0 [6, 0, 0] =
        .ok (.node (zeroPacket 6 1) .null (.node (zeroPacket 0 0) .null .null)) ∧
      EachAnnounced (sampleSdma .nv 5) ⟨true, true⟩ true
        (.node (zeroPacket 6 1) .null (.node (zeroPacket 0 0) .null .null)) maxOpcodes
        0x1000 0 := by
  have ran : umrSdmaDecodeStream (sampleSdma .nv 5) 1 0 0 [6, 0, 0] =
      .ok (.node (zeroPacket 6 1) .null (.node (zeroPacket 0 0) .null .null)) := by decide
  refine ⟨ran, (sdma_announced_iff ran (List.mem_cons_self ..) _ _ _ _ _).mpr ⟨?_, ?_⟩⟩
  · have trap : AnnouncedOnce (sampleSdma .nv 5) ⟨true, true⟩ (zeroPacket 6 1) :=
      ⟨5, rfl, by decide, by rw [if_pos (by decide)]; exact fun copy => by cases copy.1⟩
    have nop : AnnouncedOnce (sampleSdma .nv 5) ⟨true, true⟩ (zeroPacket 0 0) :=
      ⟨5, rfl, by decide, by rw [if_pos (by decide)]; exact fun copy => by cases copy.1⟩
    exact List.forall_mem_cons.mpr ⟨trap, List.forall_mem_singleton.mpr nop⟩
  · refine List.forall_mem_singleton.mpr ⟨fun dummy => ?_, fun _ _ copy => ?_, by decide⟩
    · cases dummy
    · cases copy

/-- A broadcast copy is not announced, and in version 4 a write of sub-opcode 2 is announced
twice. -/
theorem not_sdma_announced :
    umrSdmaDecodeStream (sampleSdma .nv 5) 1 0 0 (0x08000001 :: List.replicate 8 0) =
        .ok (.node (zeroPacket 0x08000001 8) .null .null) ∧
      ¬ EachAnnounced (sampleSdma .nv 5) ⟨true, true⟩ true
        (.node (zeroPacket 0x08000001 8) .null .null) maxOpcodes 0x1000 0 ∧
      umrSdmaDecodeStream (sampleSdma .ai 4) 1 0 0 (0x00000202 :: List.replicate 9 0) =
        .ok (.node (zeroPacket 0x00000202 9) .null .null) ∧
      ¬ EachAnnounced (sampleSdma .ai 4) ⟨true, true⟩ true
        (.node (zeroPacket 0x00000202 9) .null .null) maxOpcodes 0x1000 0 := by
  refine ⟨by decide, fun all => ?_, by decide, fun all => ?_⟩
  · have run : (opcodeRun (sampleSdma .nv 5) ⟨true, true⟩ true
        (.node (zeroPacket 0x08000001 8) .null .null) maxOpcodes.toNat 0x1000 0).1 =
        [⟨0x1000, zeroPacket 0x08000001 8, [], []⟩] := by decide
    rw [EachAnnounced, run] at all
    obtain ⟨_, impossible, _⟩ := (List.forall₂_cons.mp all).1
    cases impossible
  · have run : (opcodeRun (sampleSdma .ai 4) ⟨true, true⟩ true
        (.node (zeroPacket 0x00000202 9) .null .null) maxOpcodes.toNat 0x1000 0).1 =
        [⟨0x1000, zeroPacket 0x00000202 9, [.unhandledSubop 0x1000 0 (zeroPacket 0x00000202 9),
          .unhandledSubop 0x1000 0 (zeroPacket 0x00000202 9)], []⟩] := by decide
    rw [EachAnnounced, run] at all
    obtain ⟨_, impossible, _⟩ := (List.forall₂_cons.mp all).1
    cases impossible

end Umr.Packet.Sdma
