import Umr.Packet.Resume
import Umr.Packet.Sdma

/-!
# The SDMA opcode decoder

`umr_sdma_decode_stream_opcodes` of `sdma_decode_opcodes.c`: every version has a decoder
for the opcodes that are new or changed in it, and goes on to the decoder of the version
before it for the others.  Of the fields of a packet only the number of words they take
is kept.
-/

set_option autoImplicit false

namespace Umr.Packet.Sdma

open Umr.Lib Umr.Rumr Umr.Packet

abbrev Call := UiCall SdmaPacket

structure OpcodeUi where
  unhandled : Bool
  unhandledSubop : Bool

inductive Head where
  /-- `start_opcode`, and fields that take `takes` words of the payload with `fetch_word` -/
  | start (name : String) (takes : Nat)
  | subop
  | unhandled
  deriving DecidableEq, Repr

/-! ## The decoders -/

section Cases
variable (ps : SdmaPacket)

def bySub (cases : List (UInt32 × List Head)) (default : List Head) : List Head :=
  (cases.lookup ps.subOpcode).getD default

/-- The `switch` on the broadcast bit; a value that is neither 0 nor 1 breaks. -/
def copyLinear (plain broadcast : Nat) (older : List Head) : List Head :=
  match (ps.headerDw &&& ((1 : UInt32) <<< 27)).toNat with
  | 0 => [.start "COPY (LINEAR)" plain]
  | 1 => [.start "COPY (LINEAR BROADCAST)" broadcast]
  | _ => older

/-- A broadcast or frame-to-field copy, or a plain tiled one. -/
def copyTiled (suffix : String) (broadcast plain : Nat) : List Head :=
  if (ps.headerDw >>> 26) &&& 3 ≠ 0 then
    if (ps.headerDw >>> 26) &&& 1 ≠ 0 then
      [.start ("COPY (L2T_FRAME_TO_FIELD" ++ suffix ++ ")") broadcast]
    else [.start ("COPY (L2T_BROADCAST" ++ suffix ++ ")") broadcast]
  else [.start ("COPY (TILED" ++ suffix ++ ")") plain]

def decodeUptoVi : List Head :=
  match ps.opcode.toNat with
  | 0 => [.start "NOP" 0]
  | 1 => bySub ps [(0, copyLinear ps 6 8 []), (1, copyTiled ps "" 14 11),
      (3, [.start "COPY (STRUCT)" 7]), (4, [.start "COPY (LINEAR_SUB_WINDOW)" 12]),
      (5, [.start "COPY (TILED_SUB_WINDOW)" 13]), (6, [.start "COPY (T2T_SUB_WINDOW)" 14]),
      (7, [.start "COPY (DIRTY_PAGE)" 6]), (8, [.start "COPY (LINEAR_PHY)" 2]),
      (16, [.start "COPY (LINEAR_BC)" 6]), (17, copyTiled ps "_BC" 15 11),
      (20, [.start "COPY (LINEAR_SUB_WINDOW_BC)" 12]),
      (21, [.start "COPY (TILED_SUB_WINDOW_BC)" 13]),
      (22, [.start "COPY (T2T_SUB_WINDOW_BC)" 14]), (36, [.start "COPY (SUBWIN_LARGE)" 19])]
      [.subop]
  | 2 => bySub ps [(0, [.start "WRITE (LINEAR)" 3]), (1, [.start "WRITE (TILED)" 8]),
      (17, [.start "WRITE (TILED_BC)" 8])] [.subop]
  | 4 => [.start "INDIRECT_BUFFER" 5]
  | 5 => [.start "FENCE" 3]
  | 6 => [.start "TRAP" 1]
  | 7 => bySub ps [(0, [.start "SEM" 2]), (1, [.start "SEM (MEM_INCR)" 2])] [.subop]
  | 8 => bySub ps [(0, [.start "POLL_REGMEM" 5]), (1, [.start "POLL_REG_WRITE_MEM" 3]),
      (2, [.start "POLL_DBIT_WRITE_MEM" 4]), (3, [.start "MEM_VERIFY" 12])] [.subop]
  | 9 => [.start "COND_EXE" 4]
  | 10 => [.start "ATOMIC" 7]
  | 11 => bySub ps [(0, [.start "CONST_FILL" 4]), (1, [.start "CONST_FILL (DATA_FILL_MULTI)" 5])]
      [.subop]
  | 12 => bySub ps [(0, [.start "GEN_PTEPDE" 9]), (1, [.start "GEN_PTEPDE (COPY)" 7]),
      (2, [.start "GEN_PTEPDE (RMW)" 7])] [.subop]
  | 13 => bySub ps [(0, [.start "TIMESTAMP (SET)" 2]), (1, [.start "TIMESTAMP (GET)" 2]),
      (2, [.start "TIMESTAMP (GET_GLOBAL)" 2])] [.subop]
  | 14 => bySub ps [(0, [.start "SRBM_WRITE" 2])] [.subop]
  | 15 => [.start "PRE_EXE" 1]
  | 16 => [.start "GPUVM_INV" 3]
  | 17 => [.start "GCR" 4]
  | 32 => [.start "DUMMY_TRAP" 1]
  | _ => [.unhandled]

/-- The defaults of copies and writes break and do not return. -/
def decodeUptoAi : List Head :=
  let older := decodeUptoVi ps
  match ps.opcode.toNat with
  | 1 => bySub ps [(0, copyLinear ps 6 8 older), (1, copyTiled ps "" 15 12),
      (3, [.start "COPY (STRUCT)" 7]), (4, [.start "COPY (LINEAR_SUB_WINDOW)" 12]),
      (5, [.start "COPY (TILED_SUB_WINDOW)" 13]), (6, [.start "COPY (T2T_SUB_WINDOW)" 14]),
      (7, [.start "COPY (DIRTY_PAGE)" 6]), (8, [.start "COPY (LINEAR_PHY)" 2]), (16, older),
      (17, older), (20, older), (21, older), (22, older), (36, older)] (.subop :: older)
  | 2 => bySub ps [(0, [.start "WRITE (LINEAR)" 3]), (1, [.start "WRITE (TILED)" 8]), (17, older)]
      (.subop :: older)
  | 5 => [.start "FENCE" 3]
  | 7 => bySub ps [(0, older), (1, [.start "SEM (MEM_INCR)" 2])] [.subop]
  | 8 => bySub ps [(0, [.start "POLL_REGMEM" 5]), (1, [.start "POLL_REG_WRITE_MEM" 3]),
      (2, [.start "POLL_DBIT_WRITE_MEM" 4]), (3, [.start "MEM_VERIFY" 12]),
      (4, [.start "INVALIDATION" 3])] [.subop]
  | 9 => [.start "COND_EXE" 4]
  | 10 => [.start "ATOMIC" 7]
  | 11 => bySub ps [(0, [.start "CONST_FILL" 4]), (1, [.start "CONST_FILL (DATA_FILL_MULTI)" 5])]
      [.subop]
  | 12 => bySub ps [(0, [.start "GEN_PTEPDE" 9]), (1, [.start "GEN_PTEPDE (COPY)" 7]),
      (2, [.start "GEN_PTEPDE (RMW)" 7])] [.subop]
  | 13 => bySub ps [(0, older), (1, [.start "TIMESTAMP (GET)" 2]),
      (2, [.start "TIMESTAMP (GET_GLOBAL)" 2])] [.subop]
  | 14 => bySub ps [(0, [.start "SRBM_WRITE" 2])] [.subop]
  | _ => older

def decodeUptoNv : List Head :=
  let older := decodeUptoAi ps
  match ps.opcode.toNat with
  | 1 => bySub ps [(0, older), (1, copyTiled ps "" 15 12), (3, older), (4, older),
      (5, [.start "COPY (TILED_SUB_WINDOW)" 16]), (6, [.start "COPY (T2T_SUB_WINDOW)" 17]),
      (7, [.start "COPY (DIRTY_PAGE)" 6]), (8, [.start "COPY (LINEAR_PHY)" 2]), (16, older),
      (17, older), (20, older), (21, older), (22, older), (36, older)] [.subop]
  | 2 => bySub ps [(0, older), (1, [.start "WRITE (TILED)" 8]), (17, older)] [.subop]
  | 5 => [.start "FENCE" 3]
  | 7 => bySub ps [(0, older), (1, older)] [.subop]
  | 8 => bySub ps [(0, [.start "POLL_REGMEM" 5]), (1, [.start "POLL_REG_WRITE_MEM" 3]), (2, older),
      (3, older), (4, [.start "INVALIDATION" 3])] [.subop]
  | 11 => bySub ps [(0, older), (1, older)] [.subop]
  | 12 => bySub ps [(0, older), (1, older), (2, older)] [.subop]
  | 13 => bySub ps [(0, older), (1, older), (2, older)] [.subop]
  | 14 => bySub ps [(0, [.start "SRBM_WRITE" 2]), (1, [.start "RMW_REGISTER" 3])] [.subop]
  | _ => older

/-- The fields take the words as they are, without `fetch_word`. -/
def decodeUptoOss7 : List Head :=
  let older := decodeUptoNv ps
  match ps.opcode.toNat with
  | 1 => bySub ps [(0, copyLinear ps 0 0 older), (1, copyTiled ps "" 0 0),
      (3, [.start "COPY (STRUCT)" 0]), (4, [.start "COPY (LINEAR_SUB_WINDOW)" 0]),
      (5, [.start "COPY (TILED_SUB_WINDOW)" 0]), (6, [.start "COPY (T2T_SUB_WINDOW)" 0]),
      (8, [.start "COPY (LINEAR_PHY)" 0]), (12, [.start "PAGE TRANSFER COPY" 0]),
      (36, [.start "COPY (SUBWIN_LARGE)" 0])] [.subop]
  | 2 => bySub ps [(0, [.start "WRITE (LINEAR)" 0]), (1, [.start "WRITE (TILED)" 0])] [.subop]
  | 5 => bySub ps [(0, [.start "FENCE" 0]), (1, [.start "FENCE" 0])] [.subop]
  | 6 => [.start "TRAP" 0]
  | 7 => bySub ps [(1, [.start "SEM (MEM_INCR)" 0])] [.subop]
  | 8 => bySub ps [(0, [.start "POLL_REGMEM" 0]), (1, [.start "POLL_REG_WRITE_MEM" 0]),
      (2, [.start "POLL_DBIT_WRITE_MEM" 0]), (4, [.start "INVALIDATION" 0])] [.subop]
  | 9 => [.start "COND_EXE" 0]
  | 10 => [.start "ATOMIC" 0]
  | 11 => bySub ps [(0, [.start "CONST_FILL" 0]), (1, older)] [.subop]
  | 12 => bySub ps [(0, [.start "GEN_PTEPDE" 0]), (1, [.start "GEN_PTEPDE (COPY)" 0]),
      (2, [.start "GEN_PTEPDE (RMW)" 0])] [.subop]
  | 13 => bySub ps [(0, older), (1, [.start "TIMESTAMP (GET)" 0]),
      (2, [.start "TIMESTAMP (GET_GLOBAL)" 0])] [.subop]
  | 14 => bySub ps [(0, [.start "SRBM_WRITE" 0]), (1, [.start "RMW_REGISTER" 0])] [.subop]
  | 16 => [.start "GPUVM_INV" 0]
  | 17 => bySub ps [(0, [.start "GCR" 0]), (1, [.start "GCR USER" 0])] [.subop]
  | _ => older

def heads (verMaj : Nat) : Option (List Head) :=
  match verMaj with
  | 1 | 2 | 3 => some (decodeUptoVi ps)
  | 4 => some (decodeUptoAi ps)
  | 5 | 6 => some (decodeUptoNv ps)
  | 7 => some (decodeUptoOss7 ps)
  | _ => none

end Cases

/-! ## The loop -/

structure PacketTurn where
  ibAddr : UInt64
  packet : SdmaPacket
  own : List Call
  inner : List Call
  deriving DecidableEq

def PacketTurn.calls (turn : PacketTurn) : List Call := turn.own ++ turn.inner

section Loop
variable (env : SdmaEnv) (ui : OpcodeUi)

def Head.calls (ibAddr : UInt64) (ibVmid : UInt32) (ps : SdmaPacket) : Head → List Call
  | .start name _ => [.startOpcode ibAddr ibVmid 0 ps.opcode ps.subOpcode (ps.nwords + 1) name
      ps.headerDw ps.words]
  | .subop => if ui.unhandledSubop then [.unhandledSubop ibAddr ibVmid ps] else []
  | .unhandled => if ui.unhandled then [.unhandled ibAddr ibVmid ps] else []

/-- A `fetch_word` behind the payload makes the packet invalid. -/
def Head.invalid (ps : SdmaPacket) : Head → Bool
  | .start _ takes => decide (ps.nwords.toNat < takes)
  | .subop => false
  | .unhandled => false

def countWords (packets : List SdmaPacket) : UInt32 :=
  packets.foldl (fun n ps => n + ps.nwords) 0

/-- `done` is not called where the function gives up a stream. -/
def inStartIb (stream : SdmaStream) (ibAddr : UInt64) (ibVmid : UInt32) (fromAddr : UInt64)
    (fromVmid : UInt32) (run : List PacketTurn × Option SdmaStream) : List Call :=
  .startIb ibAddr ibVmid fromAddr fromVmid (countWords stream.packets) 0 ::
    (run.1.flatMap PacketTurn.calls ++ if run.2.isSome then [.done] else [])

/-- The turns of the packets, and the packets that are left, unless the version has no
decoder. -/
def opcodeRun (follow : Bool) : SdmaStream → Nat → UInt64 → UInt32 →
    List PacketTurn × Option SdmaStream
  | .null, _, _, _ => ([], some .null)
  | .node ps nextIb next, 0, _, _ => ([], some (.node ps nextIb next))
  | .node ps nextIb next, opcodes + 1, ibAddr, ibVmid =>
      match env.ossmaj.bind (heads ps) with
      | none => ([], none)
      | some announced =>
          let inner :=
            match nextIb.packets.head? with
            | none => []
            | some first =>
                if follow && ps.opcode = 4 then
                  inStartIb nextIb ps.ibAddr ps.ibVmid first.fromAddr first.fromVmid
                    (opcodeRun true nextIb maxOpcodes.toNat ps.ibAddr ps.ibVmid)
                else []
          let turn : PacketTurn :=
            ⟨ibAddr, ps, announced.flatMap (Head.calls ui ibAddr ibVmid ps), inner⟩
          if announced.any (Head.invalid ps) then ([turn], some (.node ps nextIb next))
          else
            let further :=
              opcodeRun follow next opcodes (ibAddr + ((1 + ps.nwords) * 4).toUInt64) ibVmid
            (turn :: further.1, further.2)

/-- The calls, with the packets that are left. -/
def umrSdmaDecodeStreamOpcodes (stream : SdmaStream) (ibAddr : UInt64) (ibVmid : UInt32)
    (fromAddr fromVmid opcodes : UInt64) (follow : Bool) : List Call × SdmaStream :=
  match env.ossmaj with
  | none => ([], .null)
  | some _ =>
      let run := opcodeRun env ui follow stream opcodes.toNat ibAddr ibVmid
      (inStartIb stream ibAddr ibVmid fromAddr fromVmid.toUInt32 run, run.2.getD .null)

end Loop

/-! ## What the decoders announce -/

def BroadcastCopy (ps : SdmaPacket) : Prop :=
  ps.opcode.toNat = 1 ∧ ps.subOpcode = 0 ∧ ps.headerDw &&& ((1 : UInt32) <<< 27) ≠ 0

def listedOpcodes : List Nat := [0, 1, 2, 4, 5, 6, 7, 8, 9, 10, 11, 12, 13, 14, 15, 16, 17, 32]

/-- The heads of a packet whose opcode and sub-opcode are known or not; `again` is where
the decoder that rejects a sub-opcode goes on to the older one. -/
inductive Announced (ps : SdmaPacket) (again : Prop) : Bool → List Head → Prop where
  | shown (plain : ¬ BroadcastCopy ps) (name : String) (takes : Nat) :
      Announced ps again true [.start name takes]
  | lost (broadcast : BroadcastCopy ps) : Announced ps again true []
  | rejected (listed : ps.opcode.toNat ∈ listedOpcodes) (once : ¬ again) :
      Announced ps again false [.subop]
  | rejectedTwice (listed : ps.opcode.toNat ∈ listedOpcodes) (twice : again) :
      Announced ps again false [.subop, .subop]
  | foreign (unlisted : ps.opcode.toNat ∉ listedOpcodes) : Announced ps again false [.unhandled]

section Announced
variable {ps : SdmaPacket}

theorem masked_ne_one (header : UInt32) : (header &&& ((1 : UInt32) <<< 27)).toNat ≠ 1 := by
  have bit : ((1 : UInt32) <<< 27).toNat = 2 ^ 27 := rfl
  rw [UInt32.toNat_and, bit, Nat.and_two_pow]
  cases header.toNat.testBit 27 <;> decide

theorem copyLinear_eq (plain broadcast : Nat) (older : List Head) :
    copyLinear ps plain broadcast older =
      if ps.headerDw &&& ((1 : UInt32) <<< 27) = 0 then [.start "COPY (LINEAR)" plain]
      else older := by
  rw [copyLinear]
  split
  · next zero => rw [if_pos (UInt32.toNat_inj.mp zero)]
  · next one => exact absurd one (masked_ne_one _)
  · next other _ => rw [if_neg fun zero => other (by rw [zero]; rfl)]

/-- A case by sub-opcode announces what its entries announce, and rejects the others. -/
theorem bySub_announced {again : Prop} {known : Bool} {cases : List (UInt32 × List Head)}
    {default : List Head} (keys : ps.subOpcode ∈ cases.map Prod.fst ↔ known = true)
    (entries : ∀ entry ∈ cases, ps.subOpcode = entry.1 → Announced ps again true entry.2)
    (otherwise : known = false → Announced ps again false default) :
    Announced ps again known (bySub ps cases default) := by
  rw [bySub]
  cases found : cases.lookup ps.subOpcode with
  | some heads =>
      obtain ⟨front, behind, split, _⟩ := List.lookup_eq_some_iff.mp found
      have member : (ps.subOpcode, heads) ∈ cases := by
        rw [split]
        exact List.mem_append_cons_self
      rw [keys.mp (List.mem_map_of_mem member)]
      exact entries _ member rfl
  | none =>
      have absent : known = false := by
        rw [Bool.eq_false_iff, ne_eq, ← keys]
        intro member
        obtain ⟨entry, isEntry, key⟩ := List.mem_map.mp member
        exact absurd key.symm (bne_iff_ne.mp (List.lookup_eq_none_iff.mp found _ isEntry))
      rw [absent]
      exact otherwise absent

theorem Announced.notCopy {again : Prop} (other : ps.opcode.toNat ≠ 1 ∨ ps.subOpcode ≠ 0)
    (name : String) (takes : Nat) : Announced ps again true [.start name takes] :=
  .shown (fun broadcast => other.elim (· broadcast.1) (· broadcast.2.1)) name takes

theorem copyTiled_announced {again : Prop} (suffix : String) (broadcast plain : Nat)
    (other : ps.opcode.toNat ≠ 1 ∨ ps.subOpcode ≠ 0) :
    Announced ps again true (copyTiled ps suffix broadcast plain) := by
  rw [copyTiled]
  split
  · split
    · exact .notCopy other _ _
    · exact .notCopy other _ _
  · exact .notCopy other _ _

theorem copyLinear_announced {again : Prop} (plain broadcast : Nat) {older : List Head}
    (copy : ps.opcode.toNat = 1 ∧ ps.subOpcode = 0) (lost : BroadcastCopy ps → older = []) :
    Announced ps again true (copyLinear ps plain broadcast older) := by
  rw [copyLinear_eq]
  split
  · next zero => exact .shown (fun all => all.2.2 zero) _ _
  · next bit =>
      rw [lost ⟨copy.1, copy.2, bit⟩]
      exact .lost ⟨copy.1, copy.2, bit⟩

@[simp] theorem announced_start_iff {again : Prop} {name : String} {takes : Nat} :
    Announced ps again true [.start name takes] ↔ ¬ BroadcastCopy ps := by
  constructor
  · rintro ⟨plain⟩
    assumption
  · exact fun plain => .shown plain name takes

theorem decodeUptoVi_announced :
    Announced ps False (knownUptoVi ps.opcode ps.subOpcode) (decodeUptoVi ps) := by
  rw [decodeUptoVi]
  split
  case h_2 opcode =>
    refine bySub_announced ?_ ?_ ?_
    · simp [opcode, knownUptoVi, knownBy, casesUptoVi]
    · refine List.forall_mem_cons.mpr ⟨fun zero => ?_, ?_⟩
      · exact copyLinear_announced _ _ ⟨opcode, zero⟩ fun _ => rfl
      · simp +contextual [copyTiled_announced, opcode, BroadcastCopy]
    · exact fun _ => .rejected (by rw [opcode]; decide) id
  case h_3 opcode | h_7 opcode | h_8 opcode | h_11 opcode | h_12 opcode | h_13 opcode |
      h_14 opcode =>
    refine bySub_announced ?_ ?_ ?_
    · simp [opcode, knownUptoVi, knownBy, casesUptoVi]
    · simp [opcode, BroadcastCopy]
    · exact fun _ => .rejected (by rw [opcode]; decide) id
  case h_19 =>
    have unknown : knownUptoVi ps.opcode ps.subOpcode = false := by
      simp_all [knownUptoVi, knownBy, casesUptoVi]
    rw [unknown]
    exact .foreign (by simp_all [listedOpcodes])
  all_goals
    next opcode => simp [opcode, knownUptoVi, knownBy, casesUptoVi, BroadcastCopy]

theorem Announced.ofKnown {again other : Prop} {known : Bool} {heads : List Head}
    (announced : Announced ps again known heads) (isKnown : known = true) :
    Announced ps other true heads := by
  cases announced with
  | shown plain name takes => exact .shown plain name takes
  | lost broadcast => exact .lost broadcast
  | rejected => cases isKnown
  | rejectedTwice => cases isKnown
  | foreign => cases isKnown

theorem Announced.ofAgain {again other : Prop} {known : Bool} {heads : List Head}
    (announced : Announced ps again known heads) (same : again ↔ other) :
    Announced ps other known heads :=
  propext same ▸ announced

theorem Announced.eq_subop {known : Bool} {heads : List Head}
    (announced : Announced ps False known heads) (unknown : known = false)
    (listed : ps.opcode.toNat ∈ listedOpcodes) : heads = [.subop] := by
  cases announced with
  | shown => cases unknown
  | lost => cases unknown
  | rejected => rfl
  | rejectedTwice _ twice => exact twice.elim
  | foreign unlisted => exact absurd listed unlisted

theorem Announced.eq_nil {again : Prop} {known : Bool} {heads : List Head}
    (announced : Announced ps again known heads) (isKnown : known = true)
    (broadcast : BroadcastCopy ps) : heads = [] := by
  cases announced with
  | shown plain => exact absurd broadcast plain
  | lost => rfl
  | rejected => cases isKnown
  | rejectedTwice => cases isKnown
  | foreign => cases isKnown

/-- The copies and writes whose rejection is announced again. -/
def AgainUptoAi (ps : SdmaPacket) : Prop := ps.opcode.toNat = 1 ∨ ps.opcode.toNat = 2

theorem rejectedTwice_upto_ai (again : AgainUptoAi ps)
    (unknown : knownUptoAi ps.opcode ps.subOpcode = false) :
    Announced ps (AgainUptoAi ps) false (.subop :: decodeUptoVi ps) := by
  have olderUnknown : knownUptoVi ps.opcode ps.subOpcode = false := by
    rcases again with opcode | opcode
    · simp [opcode, knownUptoAi, knownUptoVi, knownBy, casesUptoAi, casesUptoVi] at unknown ⊢
      grind
    · simp [opcode, knownUptoAi, knownUptoVi, knownBy, casesUptoAi, casesUptoVi] at unknown ⊢
      grind
  have listed : ps.opcode.toNat ∈ listedOpcodes := by
    rcases again with opcode | opcode <;> rw [opcode] <;> decide
  rw [decodeUptoVi_announced.eq_subop olderUnknown listed]
  exact .rejectedTwice listed again

theorem decodeUptoAi_announced :
    Announced ps (AgainUptoAi ps) (knownUptoAi ps.opcode ps.subOpcode) (decodeUptoAi ps) := by
  have older := @decodeUptoVi_announced ps
  have fromOlder := @Announced.ofKnown _ _ (AgainUptoAi ps) _ _ older
  rw [decodeUptoAi]
  split
  case h_1 opcode =>
    refine bySub_announced ?_ ?_ (rejectedTwice_upto_ai (Or.inl opcode))
    · simp [opcode, knownUptoAi, knownUptoVi, knownBy, casesUptoAi, casesUptoVi]
      grind
    · refine List.forall_mem_cons.mpr ⟨fun zero => ?_, ?_⟩
      · refine copyLinear_announced _ _ ⟨opcode, zero⟩ (older.eq_nil ?_)
        simp [opcode, zero, knownUptoVi, knownBy, casesUptoVi]
      · simp +contextual [copyTiled_announced, fromOlder, opcode, BroadcastCopy, knownUptoVi,
          knownBy, casesUptoVi]
  case h_2 opcode =>
    refine bySub_announced ?_ ?_ (rejectedTwice_upto_ai (Or.inr opcode))
    · simp [opcode, knownUptoAi, knownUptoVi, knownBy, casesUptoAi, casesUptoVi]
      grind
    · simp +contextual [fromOlder, opcode, BroadcastCopy, knownUptoVi, knownBy, casesUptoVi]
  case h_4 opcode | h_5 opcode | h_8 opcode | h_9 opcode | h_10 opcode | h_11 opcode =>
    have once : ¬ AgainUptoAi ps := by simp [AgainUptoAi, opcode]
    refine bySub_announced ?_ ?_ fun _ => .rejected (by rw [opcode]; decide) once
    · simp [opcode, knownUptoAi, knownUptoVi, knownBy, casesUptoAi, casesUptoVi] <;> grind
    · simp +contextual [fromOlder, opcode, BroadcastCopy, knownUptoVi, knownBy, casesUptoVi]
  case h_12 =>
    have once : ¬ AgainUptoAi ps := by simp_all [AgainUptoAi]
    have same : knownUptoAi ps.opcode ps.subOpcode = knownUptoVi ps.opcode ps.subOpcode := by
      simp_all [knownUptoAi, knownBy, casesUptoAi]
    rw [same]
    exact older.ofAgain (iff_of_false id once)
  case h_3 opcode | h_6 opcode | h_7 opcode =>
    simp [opcode, knownUptoAi, knownBy, casesUptoAi, BroadcastCopy]

theorem decodeUptoNv_announced :
    Announced ps False (knownUptoNv ps.opcode ps.subOpcode) (decodeUptoNv ps) := by
  have older := @decodeUptoAi_announced ps
  have fromOlder := @Announced.ofKnown _ _ False _ _ older
  rw [decodeUptoNv]
  split
  case h_1 opcode | h_2 opcode | h_4 opcode | h_5 opcode | h_6 opcode | h_7 opcode | h_8 opcode |
      h_9 opcode =>
    refine bySub_announced ?_ ?_ fun _ => .rejected (by rw [opcode]; decide) id
    · simp [opcode, knownUptoNv, knownUptoAi, knownUptoVi, knownBy, casesUptoNv, casesUptoAi,
        casesUptoVi] <;> grind
    · simp +contextual [copyTiled_announced, fromOlder, opcode, BroadcastCopy, knownUptoAi,
        knownUptoVi, knownBy, casesUptoAi, casesUptoVi]
  case h_3 opcode => simp [opcode, knownUptoNv, knownBy, casesUptoNv, BroadcastCopy]
  case h_10 =>
    have once : ¬ AgainUptoAi ps := by simp_all [AgainUptoAi]
    have same : knownUptoNv ps.opcode ps.subOpcode = knownUptoAi ps.opcode ps.subOpcode := by
      simp_all [knownUptoNv, knownBy, casesUptoNv]
    rw [same]
    exact older.ofAgain (iff_of_false once id)

theorem decodeUptoOss7_announced :
    Announced ps False (knownUptoOss7 ps.opcode ps.subOpcode) (decodeUptoOss7 ps) := by
  have older := @decodeUptoNv_announced ps
  have fromOlder := @Announced.ofKnown _ _ False _ _ older
  rw [decodeUptoOss7]
  split
  case h_1 opcode =>
    refine bySub_announced ?_ ?_ fun _ => .rejected (by rw [opcode]; decide) id
    · simp [opcode, knownUptoOss7, knownBy, casesUptoOss7]
    · refine List.forall_mem_cons.mpr ⟨fun zero => ?_, ?_⟩
      · refine copyLinear_announced _ _ ⟨opcode, zero⟩ (older.eq_nil ?_)
        simp [opcode, zero, knownUptoNv, knownUptoAi, knownBy, casesUptoNv, casesUptoAi]
      · simp +contextual [copyTiled_announced, opcode, BroadcastCopy]
  case h_2 opcode | h_3 opcode | h_5 opcode | h_6 opcode | h_9 opcode | h_10 opcode | h_11 opcode |
      h_12 opcode | h_14 opcode =>
    refine bySub_announced ?_ ?_ fun _ => .rejected (by rw [opcode]; decide) id
    · simp [opcode, knownUptoOss7, knownUptoNv, knownUptoAi, knownUptoVi, knownBy, casesUptoOss7,
        casesUptoNv, casesUptoAi, casesUptoVi] <;> grind
    · simp +contextual [fromOlder, opcode, BroadcastCopy, knownUptoNv, knownUptoAi, knownUptoVi,
        knownBy, casesUptoNv, casesUptoAi, casesUptoVi]
  case h_4 opcode | h_7 opcode | h_8 opcode | h_13 opcode =>
    simp [opcode, knownUptoOss7, knownBy, casesUptoOss7, BroadcastCopy]
  case h_15 =>
    have same : knownUptoOss7 ps.opcode ps.subOpcode = knownUptoNv ps.opcode ps.subOpcode := by
      simp_all [knownUptoOss7, knownBy, casesUptoOss7]
    rw [same]
    exact older

/-- Where a decoder of the version rejects a sub-opcode twice. -/
def Again (verMaj : Nat) (ps : SdmaPacket) : Prop := verMaj = 4 ∧ AgainUptoAi ps

theorem heads_announced {verMaj : Nat} {announced : List Head}
    (decoded : heads ps verMaj = some announced) :
    Announced ps (Again verMaj ps) (sdmaKnown verMaj ps.opcode ps.subOpcode) announced := by
  unfold heads at decoded
  split at decoded
  case h_4 =>
    cases decoded
    exact decodeUptoAi_announced.ofAgain (by simp [Again])
  case h_8 => cases decoded
  case h_7 =>
    cases decoded
    exact decodeUptoOss7_announced.ofAgain (by simp [Again])
  case h_5 | h_6 =>
    cases decoded
    exact decodeUptoNv_announced.ofAgain (by simp [Again])
  case h_1 | h_2 | h_3 =>
    cases decoded
    exact decodeUptoVi_announced.ofAgain (by simp [Again])

theorem heads_eq_some_iff {verMaj : Nat} :
    (∃ announced, heads ps verMaj = some announced) ↔ 1 ≤ verMaj ∧ verMaj ≤ 7 := by
  unfold heads
  split
  case h_8 =>
    refine iff_of_false ?_ ?_
    · rintro ⟨_, impossible⟩
      cases impossible
    · rintro ⟨least, most⟩
      interval_cases verMaj <;> simp_all
  all_goals exact iff_of_true ⟨_, rfl⟩ (by decide)

end Announced

end Umr.Packet.Sdma
