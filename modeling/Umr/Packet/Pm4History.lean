import Umr.Packet.Pm4Opcodes

/-!
# What PM4 packets leave behind

The loop of `umr_pm4_decode_stream_opcodes` sets `opcode_name` for packets of type 0 and
3 and reads it for every packet.  Two runs with a packet at one address are compared:
where the packet sets the name it is shown alike, and where it does not the names left by
the packets in front decide.
-/

set_option autoImplicit false

namespace Umr.Packet.Pm4

open Umr.Lib Umr.Rumr Umr.Packet

section History
variable (env : OpcodeEnv)

def leftName (before : Option String) (packets : List Pm4Packet) : Option String :=
  packets.foldl (fun before ps => (opcodeName env ps).or before) before

/-- Unhandled or not, nothing is called for the packet itself. -/
def SilentEitherWay (ps : Pm4Packet) : Prop :=
  env.unhandled = false ∧ (ps.invalid = true ∨ ps.shader = none)

/-- The packet sets the name, with a comment that fits if it has one; or both times a name
is left, of a known opcode or of an unknown one. -/
def HistoryFree (ps : Pm4Packet) (first second : List Pm4Packet) : Prop :=
  if ps.pkttype = 0 ∨ ps.pkttype = 3 then CommentFits env ps
  else ∃ left left', leftName env none first = some left ∧ leftName env none second = some left' ∧
    ((left = "UNK" ↔ left' = "UNK") ∨ SilentEitherWay env ps)

end History

section Turns
variable {env : OpcodeEnv} {follow : Bool} {ibVmid : UInt32}

def ownCalls (shown : Except OpcodeStop (List Call × TurnEnd)) : Except OpcodeStop (List Call) :=
  shown.map Prod.fst

/-- The turn of a packet is the packet shown under the name left in front of it. -/
theorem opcodeRun_turn {stream : Pm4Stream} :
    ∀ {ncodes : Nat} {ibAddr : UInt64} {before : Option String} {i : Nat} {turn : PacketTurn},
      (opcodeRun env follow stream ncodes ibAddr ibVmid before).1[i]? = some turn →
      stream.packets[i]? = some turn.packet ∧
        turn.own = ownCalls (showPacket env turn.packet turn.ibAddr ibVmid
          (leftName env before (stream.packets.take i))) := by
  induction stream with
  | null =>
      intro ncodes ibAddr before i turn at_
      cases at_
  | node ps ib next _ ihNext =>
      intro ncodes ibAddr before i turn at_
      cases ncodes with
      | zero => cases at_
      | succ ncodes =>
          have first (inner : List Call) (further : List PacketTurn)
              (shown : Except OpcodeStop (List Call))
              (isShown : shown = ownCalls (showPacket env ps ibAddr ibVmid before))
              (behind : ∀ {i : Nat} {turn : PacketTurn}, further[i]? = some turn → (opcodeRun env follow next ncodes
                (ibAddr + (4 + ps.nWords * 4).toUInt64) ibVmid
                ((opcodeName env ps).or before)).1[i]? = some turn)
              (found : ((⟨ibAddr, ps, shown, inner⟩ : PacketTurn) :: further)[i]? = some turn) :
              (Pm4Stream.node ps ib next).packets[i]? = some turn.packet ∧
                turn.own = ownCalls (showPacket env turn.packet turn.ibAddr ibVmid
                  (leftName env before ((Pm4Stream.node ps ib next).packets.take i))) := by
            cases i with
            | zero =>
                cases found
                exact ⟨rfl, isShown⟩
            | succ i =>
                rw [List.getElem?_cons_succ] at found
                exact ihNext (behind found)
          have none_ : ∀ {i : Nat} {turn : PacketTurn}, ([] : List PacketTurn)[i]? = some turn →
              (opcodeRun env follow next ncodes (ibAddr + (4 + ps.nWords * 4).toUInt64) ibVmid
                ((opcodeName env ps).or before)).1[i]? = some turn := by
            intro i turn impossible
            cases impossible
          rw [opcodeRun] at at_
          cases shown : showPacket env ps ibAddr ibVmid before with
          | error stop =>
              rw [shown] at at_
              exact first _ _ _ (by rw [shown]; rfl) none_ at_
          | ok result =>
              obtain ⟨calls, ended⟩ := result
              have isShown : (.ok calls : Except OpcodeStop (List Call)) =
                  ownCalls (showPacket env ps ibAddr ibVmid before) := by
                rw [shown]
                rfl
              rw [shown] at at_
              cases ended with
              | left => exact first _ _ _ isShown none_ at_
              | unknown => exact first _ _ _ isShown id at_
              | shown =>
                  dsimp only at at_
                  split at at_
                  · split at at_
                    · exact first _ _ _ isShown none_ at_
                    · exact first _ _ _ isShown id at_
                  · exact first _ _ _ isShown id at_

end Turns

/-! ## A packet under two names -/

section Names
variable {env : OpcodeEnv} {ps : Pm4Packet} {ibAddr : UInt64} {ibVmid : UInt32}

theorem opcodeName_typed (typed : ps.pkttype = 0 ∨ ps.pkttype = 3) :
    ∃ name, opcodeName env ps = some name := by
  rcases typed with zero | three
  · exact ⟨"PKT0", by rw [opcodeName, if_pos zero]⟩
  · exact opcodeName_type3 three

/-- A packet that sets the name is shown alike behind any other. -/
theorem showPacket_named {name : String} (named : opcodeName env ps = some name)
    (before other : Option String) :
    showPacket env ps ibAddr ibVmid before = showPacket env ps ibAddr ibVmid other := by
  rw [showPacket, showPacket, named, Option.some_or, Option.some_or]

theorem named_ends_iff (stored : ps.Stored) {name : String} (named : opcodeName env ps = some name)
    (before : Option String) :
    Ends (showPacket env ps ibAddr ibVmid before) ↔ CommentFits env ps := by
  rcases showPacket_cases env ps ibAddr ibVmid before with ⟨missing, _⟩ | ⟨unknown, ends⟩ |
    ⟨other, isName, known, shown⟩
  · rw [named] at missing
    cases missing
  · rw [named, Option.some_or] at unknown
    exact iff_of_true ends (commentFits_of_unknown (named.trans unknown))
  · rw [named, Option.some_or] at isName
    have notUnknown : opcodeName env ps ≠ some "UNK" := by
      rw [named, isName]
      exact fun same => known (Option.some.inj same)
    rw [← @packetFields_ends_iff_comment env ps ibAddr ibVmid stored notUnknown]
    rcases shown with ⟨stop, stopped, shown⟩ | ⟨fields, ends⟩
    · rw [stopped, shown]
      exact iff_of_false (not_ends_error _) (not_ends_error _)
    · exact iff_of_true ends fields

theorem opcodeName_other (other : ¬ (ps.pkttype = 0 ∨ ps.pkttype = 3)) :
    opcodeName env ps = none := by
  rw [opcodeName, if_neg fun zero => other (Or.inl zero), if_neg fun three => other (Or.inr three)]

theorem showPacket_other (other : ¬ (ps.pkttype = 0 ∨ ps.pkttype = 3)) (left : String) :
    ownCalls (showPacket env ps ibAddr ibVmid (some left)) =
      .ok ((if ps.pkttype = 0xFF ∧ env.unhandledDword = true then
          [.unhandledDword ibAddr ibVmid ps.header] else []) ++
        if left = "UNK" then (if env.unhandled then [.unhandled ibAddr ibVmid ps] else [])
        else if ps.invalid then []
        else (ps.shader.map (UiCall.addShader ibAddr ibVmid)).toList) := by
  have fields : packetFields env ps ibAddr ibVmid = .ok ([], ps.invalid) := by
    rw [packetFields, if_neg fun three => other (Or.inr three),
      if_neg fun zero => other (Or.inl zero)]
  rw [showPacket, opcodeName_other other, Option.none_or, fields]
  dsimp only
  by_cases unknown : left = "UNK"
  · rw [if_pos unknown, if_pos unknown]
    rfl
  · rw [if_neg unknown, if_neg unknown, if_neg other]
    cases ps.invalid with
    | true => simp [ownCalls, Except.map, bind, Except.bind, pure, Except.pure]
    | false => simp [ownCalls, Except.map, bind, Except.bind, pure, Except.pure]

theorem showPacket_missing (other : ¬ (ps.pkttype = 0 ∨ ps.pkttype = 3)) :
    ownCalls (showPacket env ps ibAddr ibVmid none) = .error .uninitialised := by
  rw [showPacket, opcodeName_other other]
  rfl

/-- The two lists of calls are one only where both are empty. -/
theorem unhandled_eq_shader_iff :
    ((if env.unhandled then [.unhandled ibAddr ibVmid ps] else [] : List Call) =
      if ps.invalid then [] else (ps.shader.map (UiCall.addShader ibAddr ibVmid)).toList) ↔
      SilentEitherWay env ps := by
  rw [SilentEitherWay]
  cases env.unhandled with
  | true =>
      refine iff_of_false (fun same => ?_) fun silent => by cases silent.1
      cases invalid : ps.invalid with
      | true =>
          rw [invalid] at same
          cases same
      | false =>
          rw [invalid] at same
          cases shader : ps.shader <;> rw [shader] at same <;> cases same
  | false =>
      rw [and_iff_right rfl]
      cases ps.invalid with
      | true => exact iff_of_true rfl (Or.inl rfl)
      | false =>
          cases ps.shader with
          | none => exact iff_of_true rfl (Or.inr rfl)
          | some shader =>
              refine iff_of_false (fun same => by cases same) ?_
              rintro (impossible | impossible)
              · cases impossible
              · cases impossible

theorem other_alike_iff (left left' : String) (dword unhandled shader : List Call) :
    dword ++ (if left = "UNK" then unhandled else shader) =
        dword ++ (if left' = "UNK" then unhandled else shader) ↔
      (left = "UNK" ↔ left' = "UNK") ∨ unhandled = shader := by
  rw [List.append_right_inj]
  by_cases first : left = "UNK" <;> by_cases second : left' = "UNK"
  · rw [if_pos first, if_pos second]
    exact iff_of_true rfl (Or.inl (iff_of_true first second))
  · rw [if_pos first, if_neg second]
    exact ⟨Or.inr, fun either => either.resolve_left fun same => second (same.mp first)⟩
  · rw [if_neg first, if_pos second]
    exact ⟨fun same => Or.inr same.symm,
      fun either => (either.resolve_left fun same => first (same.mpr second)).symm⟩
  · rw [if_neg first, if_neg second]
    exact iff_of_true rfl (Or.inl (iff_of_false first second))

theorem shown_alike_iff (stored : ps.Stored) (before before' : Option String) :
    (∃ calls, ownCalls (showPacket env ps ibAddr ibVmid before) = .ok calls ∧
        ownCalls (showPacket env ps ibAddr ibVmid before') = .ok calls) ↔
      if ps.pkttype = 0 ∨ ps.pkttype = 3 then CommentFits env ps
      else ∃ left left', before = some left ∧ before' = some left' ∧
        ((left = "UNK" ↔ left' = "UNK") ∨ SilentEitherWay env ps) := by
  by_cases typed : ps.pkttype = 0 ∨ ps.pkttype = 3
  · obtain ⟨name, named⟩ := @opcodeName_typed env ps typed
    rw [if_pos typed, ← @named_ends_iff env ps ibAddr ibVmid stored name named before,
      showPacket_named named before' before]
    constructor
    · rintro ⟨calls, run, _⟩
      cases shown : showPacket env ps ibAddr ibVmid before with
      | error stop =>
          rw [shown] at run
          cases run
      | ok result => exact ends_ok _
    · rintro ⟨result, run⟩
      rw [run]
      exact ⟨result.1, rfl, rfl⟩
  · rw [if_neg typed]
    cases before with
    | none =>
        rw [showPacket_missing typed]
        refine iff_of_false ?_ ?_
        · rintro ⟨_, impossible, _⟩
          cases impossible
        · rintro ⟨_, _, impossible, _⟩
          cases impossible
    | some left =>
        cases before' with
        | none =>
            rw [showPacket_missing typed]
            refine iff_of_false ?_ ?_
            · rintro ⟨_, _, impossible⟩
              cases impossible
            · rintro ⟨_, _, _, impossible, _⟩
              cases impossible
        | some left' =>
            rw [showPacket_other typed, showPacket_other typed]
            rw [← @unhandled_eq_shader_iff env ps ibAddr ibVmid]
            constructor
            · rintro ⟨calls, first, second⟩
              have same := (Except.ok.inj first).trans (Except.ok.inj second).symm
              exact ⟨left, left', rfl, rfl, (other_alike_iff left left' _ _ _).mp same⟩
            · rintro ⟨_, _, ⟨⟩, ⟨⟩, either⟩
              have same := (other_alike_iff left left' (if ps.pkttype = 0xFF ∧
                env.unhandledDword = true then [.unhandledDword ibAddr ibVmid ps.header] else []) _
                _).mpr either
              exact ⟨_, rfl, congrArg Except.ok same.symm⟩

end Names

theorem linked_all_packets {holds : Pm4Packet → Prop} {stream : Pm4Stream}
    (all : stream.linked.All holds) : ∀ ps ∈ stream.packets, holds ps := by
  induction stream with
  | null => exact fun _ member => by cases member
  | node ps ib next _ ihNext => exact List.forall_mem_cons.mpr ⟨all.1, ihNext all.2.2⟩

/-- A packet that is reached in two runs at one address is shown alike exactly where it is
free of what is in front of it in the two streams. -/
theorem pm4_history_free_iff {pm4 : Pm4Env} {depth : Nat} {vmid : UInt32} {words : List UInt32}
    {stream : Pm4Stream} (ran : umrPm4DecodeStream pm4 depth vmid words = .ok stream)
    (stream' : Pm4Stream) (env : OpcodeEnv) (follow : Bool) (ibVmid : UInt32)
    {ncodes ncodes' i i' : Nat} {ibAddr ibAddr' : UInt64} {turn turn' : PacketTurn}
    (at_ : (opcodeRun env follow stream ncodes ibAddr ibVmid none).1[i]? = some turn)
    (at_' : (opcodeRun env follow stream' ncodes' ibAddr' ibVmid none).1[i']? = some turn')
    (samePacket : turn.packet = turn'.packet) (sameAddr : turn.ibAddr = turn'.ibAddr) :
    (∃ calls, turn.own = .ok calls ∧ turn'.own = .ok calls) ↔
      HistoryFree env turn.packet (stream.packets.take i) (stream'.packets.take i') := by
  obtain ⟨here, own⟩ := opcodeRun_turn at_
  obtain ⟨_, own'⟩ := opcodeRun_turn at_'
  have stored := linked_all_packets (umrPm4DecodeStream_stored vmid words stream ran) turn.packet
    (List.mem_of_getElem? here)
  rw [own, own', ← samePacket, ← sameAddr]
  exact shown_alike_iff stored _ _

def behindHeader (header : UInt32) (ps : Pm4Packet) : Pm4Stream :=
  .node { pm4Header (· = 3) header with words := [0] } .null (.node ps .null .null)

def nopPacket : Pm4Packet := { pm4Header (· = 3) 0xC0001000 with words := [5] }

def nopTurn : PacketTurn :=
  ⟨8, nopPacket, .ok [.startOpcode 8 0 3 0x10 0 1 "PKT3_NOP" 0xC0001000 [5]], []⟩

theorem pm4_history_free_nop :
    umrPm4DecodeStream plainEnv 1 0 [0xC0000000, 0, 0xC0001000, 5] =
        .ok (behindHeader 0xC0000000 nopPacket) ∧
      (opcodeRun sampleOpcodes false (behindHeader 0xC0000000 nopPacket) 9 0 0 none).1[1]? =
        some nopTurn ∧
      (opcodeRun sampleOpcodes false (behindHeader 0 nopPacket) 9 0 0 none).1[1]? =
        some nopTurn ∧
      ∃ calls, nopTurn.own = .ok calls ∧ nopTurn.own = .ok calls := by
  have ran : umrPm4DecodeStream plainEnv 1 0 [0xC0000000, 0, 0xC0001000, 5] =
      .ok (behindHeader 0xC0000000 nopPacket) := by decide
  have first : (opcodeRun sampleOpcodes false (behindHeader 0xC0000000 nopPacket) 9 0 0
      none).1[1]? = some nopTurn := by decide
  have second : (opcodeRun sampleOpcodes false (behindHeader 0 nopPacket) 9 0 0 none).1[1]? =
      some nopTurn := by decide
  refine ⟨ran, first, second, (pm4_history_free_iff ran _ _ _ _ first second rfl rfl).mpr ?_⟩
  rw [HistoryFree, if_pos (by decide)]
  intro pktlen comment
  have plain : stringComment sampleOpcodes nopPacket = none := by decide
  cases plain.symm.trans comment

def type2Packet : Pm4Packet := pm4Header (· = 3) 0xBFFF0000

/-- The name that an unknown opcode leaves makes the packet behind it an unknown one. -/
theorem not_pm4_history_free :
    umrPm4DecodeStream plainEnv 1 0 [0xC0000000, 0, 0xBFFF0000] =
        .ok (behindHeader 0xC0000000 type2Packet) ∧
      umrPm4DecodeStream plainEnv 1 0 [0, 0, 0xBFFF0000] = .ok (behindHeader 0 type2Packet) ∧
      (opcodeRun sampleOpcodes false (behindHeader 0xC0000000 type2Packet) 9 0 0 none).1[1]? =
        some ⟨8, type2Packet, .ok [.unhandled 8 0 type2Packet], []⟩ ∧
      (opcodeRun sampleOpcodes false (behindHeader 0 type2Packet) 9 0 0 none).1[1]? =
        some ⟨8, type2Packet, .ok [], []⟩ ∧
      umrPm4DecodeStream plainEnv 1 0 [0xBFFF0000] = .ok (.node type2Packet .null .null) ∧
      (opcodeRun sampleOpcodes false (.node type2Packet .null .null) 9 8 0 none).1[0]? =
        some ⟨8, type2Packet, .error .uninitialised, []⟩ := by
  refine ⟨?_, ?_, ?_, ?_, ?_, ?_⟩
  all_goals decide

end Umr.Packet.Pm4
