import Umr.Packet.Pm4

/-!
# Framing of PM4 streams

With IB following off, both PM4 decoders stay inside the word array and cut it
into packets in the one possible way.
-/

set_option autoImplicit false

namespace Umr.Packet

open Umr.Lib Umr.Rumr

/-! ## What parsing leaves alone -/

/-- The part of a packet that is read from the array. -/
def Pm4Packet.shape (ps : Pm4Packet) : UInt32 × UInt32 × UInt32 × List UInt32 :=
  (ps.pkttype, ps.header, ps.nWords, ps.words)

def KeepsShape {α : Type} (prog : StateM Pm4Packet α) : Prop :=
  ∀ ps, (prog ps).2.shape = ps.shape

section Keeps
variable {α β : Type}

theorem KeepsShape.pure (value : α) : KeepsShape (pure value : StateM Pm4Packet α) := fun _ => rfl

theorem KeepsShape.get : KeepsShape (get : StateM Pm4Packet Pm4Packet) := fun _ => rfl

theorem KeepsShape.bind {prog : StateM Pm4Packet α} {next : α → StateM Pm4Packet β}
    (first : KeepsShape prog) (second : ∀ value, KeepsShape (next value)) :
    KeepsShape (prog >>= next) := by
  intro ps
  exact (second (prog ps).1 (prog ps).2).trans (first ps)

theorem KeepsShape.ite {condition : Prop} [Decidable condition] {yes no : StateM Pm4Packet α}
    (first : KeepsShape yes) (second : KeepsShape no) :
    KeepsShape (if condition then yes else no) := by
  split
  · exact first
  · exact second

theorem KeepsShape.foldlM {step : β → α → StateM Pm4Packet β}
    (each : ∀ state value, KeepsShape (step state value)) (values : List α) :
    ∀ state, KeepsShape (values.foldlM step state) := by
  induction values with
  | nil => exact fun state => KeepsShape.pure state
  | cons value values ih =>
      intro state
      rw [List.foldlM_cons]
      exact (each state value).bind ih

theorem fetchWord_keepsShape (off : Nat) : KeepsShape (fetchWord off) := by
  intro ps
  unfold fetchWord
  split <;> rfl

end Keeps

section Parse
variable (env : Pm4Env)

theorem scanShReg_keepsShape (regAddr : UInt32) (scan : ShRegScan) (n : Nat) :
    KeepsShape (scanShReg env regAddr scan n) := by
  unfold scanShReg
  refine KeepsShape.ite ?_ (KeepsShape.ite ?_ (KeepsShape.ite ?_ (KeepsShape.ite ?_ ?_)))
  · exact (fetchWord_keepsShape n).bind fun _ => KeepsShape.pure _
  · exact (fetchWord_keepsShape n).bind fun _ => KeepsShape.pure _
  · exact (fetchWord_keepsShape n).bind fun _ => KeepsShape.pure _
  · exact (fetchWord_keepsShape n).bind fun _ => KeepsShape.pure _
  · exact KeepsShape.pure _

theorem parseSetShReg_keepsShape (vmid : UInt32) : KeepsShape (parseSetShReg env vmid) := by
  refine (fetchWord_keepsShape 0).bind fun first => ?_
  refine KeepsShape.get.bind fun ps => ?_
  refine (KeepsShape.foldlM (scanShReg_keepsShape env (first + 0x2C00)) _ _).bind fun scan => ?_
  exact KeepsShape.ite (fun _ => rfl) (KeepsShape.pure _)

theorem parseIndirectBuffer_keepsShape (vmid : UInt32) :
    KeepsShape (parseIndirectBuffer vmid) := by
  refine (fetchWord_keepsShape 0).bind fun _ => ?_
  refine (fetchWord_keepsShape 1).bind fun _ => ?_
  refine (fetchWord_keepsShape 2).bind fun _ => ?_
  refine KeepsShape.ite (KeepsShape.pure _) ?_
  exact (fetchWord_keepsShape 2).bind fun _ => KeepsShape.pure _

theorem parsePm4_keepsShape (vmid : UInt32) : KeepsShape (parsePm4 env vmid) := by
  refine KeepsShape.get.bind fun ps => ?_
  refine KeepsShape.ite ?_ (KeepsShape.ite (KeepsShape.ite ?_ ?_) ?_)
  · exact (parseSetShReg_keepsShape env vmid).bind fun _ => KeepsShape.pure _
  · exact KeepsShape.pure _
  · exact parseIndirectBuffer_keepsShape vmid
  · exact KeepsShape.pure _

theorem trackUvdIb_keepsShape (uvd : UvdIb) : KeepsShape (trackUvdIb env uvd) := by
  refine KeepsShape.get.bind fun ps => ?_
  refine KeepsShape.ite ?_ (KeepsShape.ite ?_ (KeepsShape.ite ?_ (KeepsShape.ite ?_ ?_)))
  · exact (fetchWord_keepsShape 0).bind fun _ => KeepsShape.pure _
  · exact (fetchWord_keepsShape 0).bind fun _ => KeepsShape.pure _
  · exact (fetchWord_keepsShape 0).bind fun _ => KeepsShape.pure _
  · exact (fetchWord_keepsShape 0).bind fun _ => KeepsShape.pure _
  · exact KeepsShape.pure _

theorem parsePkt0_keepsShape (uvd : UvdIb) : KeepsShape (parsePkt0 env uvd) := by
  refine (trackUvdIb_keepsShape env uvd).bind fun _ => ?_
  exact KeepsShape.ite (KeepsShape.pure _) (KeepsShape.pure _)

theorem parsePacket_shape (vmid : UInt32) (uvd : UvdIb) (ps : Pm4Packet) :
    (parsePacket env vmid uvd ps).2.shape = ps.shape := by
  unfold parsePacket
  split
  · exact parsePm4_keepsShape env vmid ps
  · split
    · exact parsePkt0_keepsShape env uvd ps
    · rfl

variable {env}

theorem parsePm4_no_request (noFollow : env.noFollowIb = true) (vmid : UInt32) (ps : Pm4Packet) :
    (parsePm4 env vmid ps).1 = none := by
  change ((if ps.opcode = 0x76 then parseSetShReg env vmid >>= fun _ => pure none
    else if ps.opcode = 0x3F ∨ ps.opcode = 0x33 then
      if env.noFollowIb then pure none else parseIndirectBuffer vmid
    else pure none : StateM Pm4Packet (Option IbRequest)) ps).1 = none
  rw [if_pos noFollow, ite_self]
  split <;> rfl

theorem parsePkt0_no_request (noFollow : env.noFollowIb = true) (uvd : UvdIb) (ps : Pm4Packet) :
    (parsePkt0 env uvd ps).1.1 = none := by
  simp only [parsePkt0, noFollow, Bool.not_true, Bool.false_and, Bool.false_eq_true, if_false]
  rfl

theorem parsePacket_no_request (noFollow : env.noFollowIb = true) (vmid : UInt32) (uvd : UvdIb)
    (ps : Pm4Packet) : (parsePacket env vmid uvd ps).1.1 = none := by
  unfold parsePacket
  split
  · exact parsePm4_no_request noFollow vmid ps
  · split
    · exact parsePkt0_no_request noFollow uvd ps
    · rfl

end Parse

/-! ## Both loops -/

def pm4Payload (header : UInt32) (_ : List UInt32) : Nat := (pm4NWords header).toNat

def Pm4Stream.frames (stream : Pm4Stream) : List (UInt32 × List UInt32) :=
  stream.packets.map fun ps => (ps.header, ps.words)

def Pm4Packet.OfHeader (ps : Pm4Packet) : Prop :=
  ps.pkttype = ps.header >>> 30 ∧ ps.nWords = pm4NWords ps.header

def Frames (words : List UInt32) (outcome : Except StreamStop Pm4Stream) : Prop :=
  ∃ stream rest, outcome = .ok stream ∧ Framed pm4Payload words stream.frames rest ∧
    ∀ ps ∈ stream.packets, ps.OfHeader

theorem frames_empty {words : List UInt32} (short : ∀ header behind, words = header :: behind →
    behind.length < pm4Payload header behind) : Frames words (.ok .null) :=
  ⟨.null, words, rfl, .done words short, fun _ member => nomatch member⟩

theorem frames_node {words tail : List UInt32} (ps : Pm4Packet) (ib : Pm4Stream)
    {further : Except StreamStop Pm4Stream} (cut : words = ps.header :: (ps.words ++ tail))
    (announced : ps.words.length = (pm4NWords ps.header).toNat) (ofHeader : ps.OfHeader)
    (behind : Frames tail further) :
    Frames words (further >>= fun next => pure (.node ps ib next)) := by
  obtain ⟨next, rest, rfl, framed, others⟩ := behind
  refine ⟨.node ps ib next, rest, rfl, ?_, ?_⟩
  · rw [cut]
    exact .packet ps.header ps.words tail next.frames rest announced framed
  · intro other member
    rcases List.mem_cons.mp member with rfl | later
    · exact ofHeader
    · exact others other later

/-- One turn of either loop: the packet is incomplete, or its payload is read. -/
theorem frames_turn {stream behind : List UInt32} {offset : Nat} {header : UInt32}
    {further : List UInt32 → Except StreamStop Pm4Stream}
    (left : stream.drop offset = header :: behind)
    (complete : ∀ body tail, behind = body ++ tail → body.length = (pm4NWords header).toNat →
      stream.drop (offset + (1 + (pm4NWords header).toNat)) = tail →
      Frames (header :: behind) (further body)) :
    Frames (header :: behind)
      (if behind.length + 1 < 1 + (pm4NWords header).toNat then .ok .null
        else orStop (readWords stream (offset + 1) (pm4NWords header).toNat) >>= further) := by
  by_cases incomplete : behind.length + 1 < 1 + (pm4NWords header).toNat
  · rw [if_pos incomplete]
    refine frames_empty ?_
    rintro _ _ ⟨⟩
    change behind.length < (pm4NWords header).toNat
    omega
  · rw [if_neg incomplete]
    have enough : (pm4NWords header).toNat ≤ behind.length := by omega
    obtain ⟨body, tail, split, count, payload, next⟩ := readWords_of_drop left enough
    rw [payload]
    exact complete body tail split count next

section Loops
variable (stream : List UInt32)

theorem pm4Loop_frames {env : Pm4Env} (noFollow : env.noFollowIb = true)
    (follow : UInt32 → List UInt32 → Except StreamStop Pm4Stream) (vmid : UInt32) (turns : Nat) :
    ∀ (offset : Nat) (uvd : UvdIb), (stream.drop offset).length ≤ turns →
      Frames (stream.drop offset)
        (pm4Loop env follow vmid stream turns offset (stream.drop offset).length uvd) := by
  induction turns with
  | zero =>
      intro offset uvd enough
      have done : stream.drop offset = [] := List.eq_nil_of_length_eq_zero (by omega)
      rw [done]
      exact frames_empty fun _ _ impossible => nomatch impossible
  | succ turns ih =>
      intro offset uvd enough
      cases left : stream.drop offset with
      | nil => exact frames_empty fun _ _ impossible => nomatch impossible
      | cons header behind =>
          rw [left, List.length_cons] at enough
          rw [pm4Loop, if_neg (by simp), readWord_of_drop left]
          refine frames_turn left ?_
          intro body tail split count next
          -- parsing changes neither the header nor the payload and asks for no IB
          have shape := parsePacket_shape env vmid uvd
            { pm4Header (· = 3) header with words := body }
          have request := parsePacket_no_request noFollow vmid uvd
            { pm4Header (· = 3) header with words := body }
          generalize parsePacket env vmid uvd
            { pm4Header (· = 3) header with words := body } = outcome at shape request ⊢
          obtain ⟨type, headerSame, number, words⟩ :
              outcome.2.pkttype = header >>> 30 ∧ outcome.2.header = header ∧
                outcome.2.nWords = pm4NWords header ∧ outcome.2.words = body := by
            simpa [Pm4Packet.shape, pm4Header] using shape
          have tailLength : (header :: behind).length - (1 + (pm4NWords header).toNat) =
              tail.length := by
            rw [split, List.length_cons, List.length_append, count]
            omega
          have nextFrames := ih (offset + (1 + (pm4NWords header).toNat)) outcome.1.2
            (by rw [next]; rw [split, List.length_append] at enough; omega)
          rw [next, ← tailLength] at nextFrames
          have cut : header :: behind = outcome.2.header :: (outcome.2.words ++ tail) := by
            rw [headerSame, words, split]
          have node := frames_node outcome.2 .null cut (by rw [words, headerSame, count])
            ⟨by rw [type, headerSame], by rw [number, headerSame]⟩ nextFrames
          simp only [request, followIb]
          exact node

theorem pm4LiteLoop_frames (turns : Nat) : ∀ offset : Nat, (stream.drop offset).length ≤ turns →
    Frames (stream.drop offset)
      (pm4LiteLoop stream turns offset (stream.drop offset).length) := by
  induction turns with
  | zero =>
      intro offset enough
      have done : stream.drop offset = [] := List.eq_nil_of_length_eq_zero (by omega)
      rw [done]
      exact frames_empty fun _ _ impossible => nomatch impossible
  | succ turns ih =>
      intro offset enough
      cases left : stream.drop offset with
      | nil => exact frames_empty fun _ _ impossible => nomatch impossible
      | cons header behind =>
          rw [left, List.length_cons] at enough
          rw [pm4LiteLoop, if_neg (by simp), readWord_of_drop left]
          refine frames_turn left ?_
          intro body tail split count next
          have tailLength : (header :: behind).length - (1 + (pm4NWords header).toNat) =
              tail.length := by
            rw [split, List.length_cons, List.length_append, count]
            omega
          have nextFrames := ih (offset + (1 + (pm4NWords header).toNat))
            (by rw [next]; rw [split, List.length_append] at enough; omega)
          rw [next, ← tailLength] at nextFrames
          have cut : header :: behind = header :: (body ++ tail) := by rw [split]
          exact frames_node { pm4Header (· ≠ 0) header with words := body } .null cut count
            ⟨rfl, rfl⟩ nextFrames

/-! ## The decoders -/

theorem umrPm4DecodeStream_frames {env : Pm4Env} (noFollow : env.noFollowIb = true) (depth : Nat)
    (vmid : UInt32) (nonempty : 1 ≤ stream.length) :
    Frames stream (umrPm4DecodeStream env (depth + 1) vmid stream) := by
  have loop := pm4Loop_frames stream noFollow (umrPm4DecodeStream env depth) vmid stream.length 0
    .zero (Nat.le_refl _)
  rw [umrPm4DecodeStream, decodeWith, if_neg (by omega)]
  exact loop

theorem umrPm4LiteDecodeStream_frames (nonempty : 1 ≤ stream.length) :
    Frames stream (umrPm4LiteDecodeStream stream) := by
  have loop := pm4LiteLoop_frames stream stream.length 0 (Nat.le_refl _)
  rw [umrPm4LiteDecodeStream, decodeWith, if_neg (by omega)]
  exact loop

end Loops

/-- A cut of the array as the decoders announce it: the packets reassemble a
prefix, and what is left is shorter than the packet its first word announces. -/
structure ReassemblesPrefix (words : List UInt32) (packets : List Pm4Packet) : Prop where
  announced : ∀ ps ∈ packets, ps.nWords = ((ps.header >>> 16) + 1) &&& 0x3FFF ∧
    ps.words.length = ps.nWords.toNat
  reassembled : ∃ rest, words = (packets.flatMap fun ps => ps.header :: ps.words) ++ rest ∧
    ∀ header behind, rest = header :: behind →
      rest.length < 1 + (((header >>> 16) + 1) &&& 0x3FFF).toNat

theorem reassemblesPrefix_of_framed {words rest : List UInt32} {stream : Pm4Stream}
    (framed : Framed pm4Payload words stream.frames rest)
    (ofHeader : ∀ ps ∈ stream.packets, ps.OfHeader) :
    ReassemblesPrefix words stream.packets := by
  refine ⟨?_, rest, ?_, ?_⟩
  · intro ps member
    have counted := framed.payload_length (ps.header, ps.words)
      (List.mem_map.mpr ⟨ps, member, rfl⟩)
    refine ⟨(ofHeader ps member).2, ?_⟩
    rw [(ofHeader ps member).2]
    exact counted
  · have whole := framed.reassembles
    rwa [reassemble, Pm4Stream.frames, List.flatMap_map] at whole
  · intro header behind cut
    have short := framed.short header behind cut
    rw [cut, List.length_cons]
    change behind.length < (pm4NWords header).toNat at short
    change behind.length + 1 < 1 + (pm4NWords header).toNat
    omega

theorem shapes_of_frames {stream : Pm4Stream} (ofHeader : ∀ ps ∈ stream.packets, ps.OfHeader) :
    stream.packets.map (fun ps => (ps.pkttype, ps.header, ps.words)) =
      stream.frames.map fun frame => (frame.1 >>> (30 : UInt32), frame.1, frame.2) := by
  rw [Pm4Stream.frames, List.map_map]
  refine List.map_congr_left ?_
  intro ps member
  rw [(ofHeader ps member).1]
  rfl

def plainEnv : Pm4Env where
  family := .ai
  noFollowIb := true
  noFollowShader := true
  shaderEnable := ⟨true, true, true, true, true, true, true, true⟩
  regName := fun _ => "mmSCRATCH_REG0"
  readVram := fun _ _ _ => none
  computeShaderSize := fun _ _ => 0

end Umr.Packet
