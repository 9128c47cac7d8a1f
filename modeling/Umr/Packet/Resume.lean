import Umr.Packet.Pm4Framing
import Umr.Lib.BigEndian

/-!
# Disassembly in two parts

`umr_pm4_lite_decode_stream_opcodes` of `pm4_lite.c` behind
`umr_packet_disassemble_stream`: a call shows some packets and keeps the node of the
next one, and a further call with `cont` goes on from there.  What is shown of a
packet depends on the packet and its address alone.
-/

set_option autoImplicit false

namespace Umr.Packet

open Umr.Lib Umr.Rumr

inductive Datablock where
  | mqdVi | mqdNv
  deriving DecidableEq, Repr

/-- The callbacks of the user interface with their arguments; `π` is the packet
that is handed to the callbacks for packets of unknown opcode. -/
inductive UiCall (π : Type) where
  | startIb (ibAddr : UInt64) (ibVmid : UInt32) (fromAddr : UInt64) (fromVmid size : UInt32)
      (type : Nat)
  | startOpcode (ibAddr : UInt64) (ibVmid pkttype opcode subop nwords : UInt32)
      (opcodeName : String) (header : UInt32) (rawData : List UInt32)
  | addField (ibAddr : UInt64) (ibVmid : UInt32) (fieldName : String) (value : UInt64)
      (str : Option String) (idealRadix fieldSize : Int)
  | addShader (ibAddr : UInt64) (ibVmid : UInt32) (shader : ShaderPgm)
  | addData (ibAddr : UInt64) (ibVmid : UInt32) (bufAddr : UInt64) (bufVmid : UInt32)
      (type : Datablock) (etype : UInt64)
  | unhandledDword (ibAddr : UInt64) (ibVmid dword : UInt32)
  | unhandled (ibAddr : UInt64) (ibVmid : UInt32) (stream : π)
  | unhandledSubop (ibAddr : UInt64) (ibVmid : UInt32) (stream : π)
  | done
  deriving DecidableEq, Repr

/-- All callbacks but the brackets around an IB. -/
def UiCall.ofPacket {π : Type} : UiCall π → Bool
  | .startIb .. => false
  | .done => false
  | _ => true

def packetCalls {π : Type} (calls : List (UiCall π)) : List (UiCall π) :=
  calls.filter UiCall.ofPacket

theorem packetCalls_append {π : Type} (first second : List (UiCall π)) :
    packetCalls (first ++ second) = packetCalls first ++ packetCalls second :=
  List.filter_append ..

inductive PlacedCall where
  | opcode (addr : UInt64) (header : UInt32) (rawData : List UInt32)
  | field (addr value : UInt64)
  deriving DecidableEq, Repr

def UiCall.placed {π : Type} : UiCall π → Option PlacedCall
  | .startOpcode ibAddr _ _ _ _ _ _ header rawData => some (.opcode ibAddr header rawData)
  | .addField ibAddr _ _ value _ _ _ => some (.field ibAddr value)
  | _ => none

def Pm4Stream.nodes : Pm4Stream → List (Pm4Packet × Pm4Stream)
  | .null => []
  | .node packet ib next => (packet, ib) :: next.nodes

def Pm4Stream.isNull : Pm4Stream → Bool
  | .null => true
  | .node .. => false

/-! ## The opcode decoder -/

/-- `unhandled` tells whether the user interface has that callback. -/
structure LiteEnv where
  regName : UInt64 → String
  unhandled : Bool

section Lite
variable (env : LiteEnv) (follow : Bool)

/-- The names of opcodes end with a newline. -/
def liteOpcodeName (ps : Pm4Packet) : String :=
  if ps.pkttype ≠ 3 then "PKT0"
  else String.ofList ("PKT3=0x".toList ++ printPadded 2 ps.opcode.toNat ++ ['\n'])

def litePkt0 (ps : Pm4Packet) (ibAddr : UInt64) (ibVmid : UInt32) : List (UiCall Pm4Packet) :=
  (List.range ps.nWords.toNat).map fun n =>
    .addField (ibAddr + (4 * (UInt32.ofNat n + 1)).toUInt64) ibVmid
      (env.regName (ps.pkt0off + UInt32.ofNat n).toUInt64) (ps.words.getD n 0).toUInt64 none 16 32

/-- `decode_pkt3` knows no opcode. -/
def litePkt3 (ps : Pm4Packet) (ibAddr : UInt64) (ibVmid : UInt32) : List (UiCall Pm4Packet) :=
  if env.unhandled then [.unhandled ibAddr ibVmid ps] else []

def litePacket (ps : Pm4Packet) (ibAddr : UInt64) (ibVmid : UInt32) : List (UiCall Pm4Packet) :=
  .startOpcode ibAddr ibVmid ps.pkttype ps.opcode 0 ps.nWords (liteOpcodeName ps) ps.header
      ps.words ::
    ((if ps.pkttype = 3 then litePkt3 env ps ibAddr ibVmid else litePkt0 env ps ibAddr ibVmid) ++
      (ps.shader.map (UiCall.addShader ibAddr ibVmid)).toList)

def countWords (nodes : List (Pm4Packet × Pm4Stream)) : UInt32 :=
  nodes.foldl (fun nwords node => nwords + (1 + node.1.nWords)) 0

/-- `~0UL`, cut to the width of the counter. -/
def maxOpcodes : UInt64 := 0xFFFFFFFFFFFFFFFF

/-- The counter of opcodes has 32 bits. -/
def countedOpcodes (opcodes : UInt64) : Nat := opcodes.toUInt32.toNat

def inStartIb (stream : Pm4Stream) (ibAddr : UInt64) (ibVmid : UInt32) (fromAddr : UInt64)
    (fromVmid : UInt32) (ncodes : Nat) (calls : List (UiCall Pm4Packet)) :
    List (UiCall Pm4Packet) :=
  .startIb ibAddr ibVmid fromAddr fromVmid (countWords (stream.nodes.take ncodes)) 4 ::
    (calls ++ [.done])

/-- The second `while` loop; it returns the packets that are left. -/
def liteLoop : Pm4Stream → Nat → UInt64 → UInt32 → List (UiCall Pm4Packet) × Pm4Stream
  | .null, _, _, _ => ([], .null)
  | .node ps ib next, 0, _, _ => ([], .node ps ib next)
  | .node ps ib next, ncodes + 1, ibAddr, ibVmid =>
      let inner :=
        if follow && !ib.isNull then
          inStartIb ib ps.ibAddr ps.ibVmid ibAddr ibVmid (countedOpcodes maxOpcodes)
            (liteLoop ib (countedOpcodes maxOpcodes) ps.ibAddr ps.ibVmid).1
        else []
      let further := liteLoop next ncodes (ibAddr + (4 + ps.nWords * 4).toUInt64) ibVmid
      (litePacket env ps ibAddr ibVmid ++ inner ++ further.1, further.2)

def umrPm4LiteDecodeStreamOpcodes (stream : Pm4Stream) (ibAddr : UInt64) (ibVmid : UInt32)
    (fromAddr fromVmid opcodes : UInt64) : List (UiCall Pm4Packet) × Pm4Stream :=
  let run := liteLoop env follow stream (countedOpcodes opcodes) ibAddr ibVmid
  (inStartIb stream ibAddr ibVmid fromAddr fromVmid.toUInt32 (countedOpcodes opcodes) run.1, run.2)

end Lite

structure LitePacketStream where
  stream : Pm4Stream
  cont : Pm4Stream

def disassembleLite (env : LiteEnv) (follow : Bool) (str : LitePacketStream) (ibAddr : UInt64)
    (ibVmid : UInt32) (fromAddr fromVmid opcodes : UInt64) (cont : Bool) :
    List (UiCall Pm4Packet) × LitePacketStream :=
  let run := umrPm4LiteDecodeStreamOpcodes env follow (if cont then str.cont else str.stream) ibAddr
    ibVmid fromAddr fromVmid opcodes
  (run.1, { str with cont := run.2 })

/-! ## Addresses -/

def liteAddr (ibAddr : UInt64) (nodes : List (Pm4Packet × Pm4Stream)) : UInt64 :=
  ibAddr + 4 * UInt64.ofNat (nodes.map fun node => 1 + node.1.nWords.toNat).sum

theorem liteAddr_cons {ibAddr : UInt64} {node : Pm4Packet × Pm4Stream}
    {nodes : List (Pm4Packet × Pm4Stream)} (small : node.1.nWords.toNat < 2 ^ 29) :
    liteAddr ibAddr (node :: nodes) =
      liteAddr (ibAddr + (4 + node.1.nWords * 4).toUInt64) nodes := by
  have four : (4 : UInt32).toNat = 4 := rfl
  have four' : (4 : UInt64).toNat = 4 := rfl
  have step : (4 + node.1.nWords * 4).toUInt64 =
      4 * UInt64.ofNat (1 + node.1.nWords.toNat) := by
    apply UInt64.toNat_inj.mp
    rw [UInt32.toNat_toUInt64, UInt32.toNat_add, UInt32.toNat_mul, UInt64.toNat_mul,
      UInt64.toNat_ofNat', four, four']
    omega
  rw [liteAddr, liteAddr, step, List.map_cons, List.sum_cons, UInt64.ofNat_add, UInt64.mul_add,
    UInt64.add_assoc]

section Resume
variable {env : LiteEnv} {follow : Bool}

/-- What is shown of a node at an address: its packet and the whole IB it points to. -/
def shownAt (env : LiteEnv) (follow : Bool) (ibVmid : UInt32) (ibAddr : UInt64)
    (node : Pm4Packet × Pm4Stream) : List (UiCall Pm4Packet) :=
  litePacket env node.1 ibAddr ibVmid ++
    if follow && !node.2.isNull then
      inStartIb node.2 node.1.ibAddr node.1.ibVmid ibAddr ibVmid (countedOpcodes maxOpcodes)
        (liteLoop env follow node.2 (countedOpcodes maxOpcodes) node.1.ibAddr node.1.ibVmid).1
    else []

/-- Packet after packet, each at the address behind the packets in front of it. -/
def shownFrom (env : LiteEnv) (follow : Bool) (ibVmid : UInt32) (ibAddr : UInt64)
    (nodes : List (Pm4Packet × Pm4Stream)) : List (UiCall Pm4Packet) :=
  (List.range nodes.length).flatMap fun i =>
    (nodes[i]?.map fun node =>
      shownAt env follow ibVmid (liteAddr ibAddr (nodes.take i)) node).getD []

theorem shownFrom_cons {ibVmid : UInt32} {ibAddr : UInt64} {node : Pm4Packet × Pm4Stream}
    {nodes : List (Pm4Packet × Pm4Stream)} (small : node.1.nWords.toNat < 2 ^ 29) :
    shownFrom env follow ibVmid ibAddr (node :: nodes) =
      shownAt env follow ibVmid ibAddr node ++
        shownFrom env follow ibVmid (ibAddr + (4 + node.1.nWords * 4).toUInt64) nodes := by
  have start : liteAddr ibAddr [] = ibAddr := by
    simp [liteAddr]
  rw [shownFrom, List.length_cons, List.range_succ_eq_map, List.flatMap_cons, List.flatMap_map]
  simp only [List.getElem?_cons_zero, List.take_zero, Option.map_some, Option.getD_some, start,
    List.getElem?_cons_succ, List.take_succ_cons, Nat.succ_eq_add_one, liteAddr_cons small]
  rfl

/-- Packets whose size counts in 32 bits. -/
def Addressed (nodes : List (Pm4Packet × Pm4Stream)) : Prop :=
  ∀ node ∈ nodes, node.1.nWords.toNat < 2 ^ 29

theorem liteLoop_shows {ibVmid : UInt32} {stream : Pm4Stream} :
    ∀ {ncodes : Nat} {ibAddr : UInt64}, Addressed stream.nodes →
      (liteLoop env follow stream ncodes ibAddr ibVmid).1 =
          shownFrom env follow ibVmid ibAddr (stream.nodes.take ncodes) ∧
        (liteLoop env follow stream ncodes ibAddr ibVmid).2.nodes = stream.nodes.drop ncodes := by
  induction stream with
  | null =>
      intro ncodes ibAddr _
      rw [Pm4Stream.nodes, List.take_nil, List.drop_nil]
      exact ⟨rfl, rfl⟩
  | node packet ib next _ ihNext =>
      intro ncodes ibAddr addressed
      cases ncodes with
      | zero => exact ⟨rfl, rfl⟩
      | succ ncodes =>
          obtain ⟨small, behind⟩ := List.forall_mem_cons.mp addressed
          obtain ⟨shown, left⟩ :=
            @ihNext ncodes (ibAddr + (4 + packet.nWords * 4).toUInt64) behind
          refine ⟨?_, left⟩
          rw [Pm4Stream.nodes, List.take_succ_cons, shownFrom_cons small, ← shown]
          rfl

theorem shownFrom_append {ibVmid : UInt32} {first second : List (Pm4Packet × Pm4Stream)} :
    ∀ {ibAddr : UInt64}, Addressed first →
      shownFrom env follow ibVmid ibAddr (first ++ second) =
        shownFrom env follow ibVmid ibAddr first ++
          shownFrom env follow ibVmid (liteAddr ibAddr first) second := by
  induction first with
  | nil =>
      intro ibAddr _
      have start : liteAddr ibAddr [] = ibAddr := by
        simp [liteAddr]
      rw [start]
      rfl
  | cons node first ih =>
      intro ibAddr addressed
      obtain ⟨small, behind⟩ := List.forall_mem_cons.mp addressed
      rw [List.cons_append, shownFrom_cons small, shownFrom_cons small, ih behind,
        liteAddr_cons small, List.append_assoc]

theorem packetCalls_inStartIb {stream : Pm4Stream} {ibAddr fromAddr : UInt64}
    {ibVmid fromVmid : UInt32} {ncodes : Nat} {calls : List (UiCall Pm4Packet)} :
    packetCalls (inStartIb stream ibAddr ibVmid fromAddr fromVmid ncodes calls) =
      packetCalls calls := by
  have done_ : packetCalls [(.done : UiCall Pm4Packet)] = [] := rfl
  change packetCalls (calls ++ [.done]) = packetCalls calls
  rw [packetCalls_append, done_, List.append_nil]

end Resume

/-! ## What is placed where -/

/-- A packet at its address, and each word that is a register's, one word further on. -/
def placedPacket (addr : UInt64) (ps : Pm4Packet) : List PlacedCall :=
  .opcode addr ps.header ps.words ::
    if ps.pkttype = 3 then []
    else ps.words.zipIdx.map fun entry =>
      .field (addr + 4 * (UInt64.ofNat entry.2 + 1)) entry.1.toUInt64

/-- All packets of an IB, each behind the ones in front of it. -/
def placedFrom (ibAddr : UInt64) (nodes : List (Pm4Packet × Pm4Stream)) : List PlacedCall :=
  (nodes.mapIdx fun i node => placedPacket (liteAddr ibAddr (nodes.take i)) node.1).flatten

structure LiteNode (node : Pm4Packet × Pm4Stream) : Prop where
  counted : node.1.nWords.toNat < 2 ^ 14
  stored : node.1.words.length = node.1.nWords.toNat
  plain : node.2 = .null

theorem addressed_of_lite {nodes : List (Pm4Packet × Pm4Stream)}
    (made : ∀ node ∈ nodes, LiteNode node) : Addressed nodes :=
  fun node member => Nat.lt_trans (made node member).counted (by decide)

theorem placed_litePkt0 (env : LiteEnv) {ps : Pm4Packet} (counted : ps.nWords.toNat < 2 ^ 14)
    (stored : ps.words.length = ps.nWords.toNat) (ibAddr : UInt64) (ibVmid : UInt32) :
    (litePkt0 env ps ibAddr ibVmid).filterMap UiCall.placed =
      ps.words.zipIdx.map fun entry =>
        .field (ibAddr + 4 * (UInt64.ofNat entry.2 + 1)) entry.1.toUInt64 := by
  have fields : (litePkt0 env ps ibAddr ibVmid).filterMap UiCall.placed =
      (List.range ps.nWords.toNat).map fun n =>
        .field (ibAddr + (4 * (UInt32.ofNat n + 1)).toUInt64) (ps.words.getD n 0).toUInt64 := by
    rw [litePkt0, List.filterMap_map]
    exact congrFun List.filterMap_eq_map _
  rw [fields, ← stored]
  refine List.ext_getElem? fun n => ?_
  by_cases inside : n < ps.words.length
  · have short : n < 2 ^ 14 := by omega
    have address : (4 * (UInt32.ofNat n + 1)).toUInt64 = 4 * (UInt64.ofNat n + 1) := by
      apply UInt64.toNat_inj.mp
      simp only [UInt32.toNat_toUInt64, UInt32.toNat_mul, UInt32.toNat_add, UInt32.toNat_ofNat',
        UInt64.toNat_mul, UInt64.toNat_add, UInt64.toNat_ofNat', UInt32.reduceToNat,
        UInt64.reduceToNat]
      omega
    rw [List.getElem?_map, List.getElem?_range inside, List.getElem?_map, List.getElem?_zipIdx,
      List.getElem?_eq_getElem inside]
    simp only [Option.map_some, address, List.getD_eq_getElem?_getD, List.getElem?_eq_getElem inside,
      Option.getD_some, Nat.zero_add]
  · simp [inside]

theorem placed_litePacket (env : LiteEnv) {ps : Pm4Packet} (counted : ps.nWords.toNat < 2 ^ 14)
    (stored : ps.words.length = ps.nWords.toNat) (ibAddr : UInt64) (ibVmid : UInt32) :
    (litePacket env ps ibAddr ibVmid).filterMap UiCall.placed = placedPacket ibAddr ps := by
  have shader : (ps.shader.map (UiCall.addShader (π := Pm4Packet) ibAddr ibVmid)).toList.filterMap
      UiCall.placed = [] := by
    cases ps.shader <;> rfl
  rw [litePacket, List.filterMap_cons]
  dsimp only [UiCall.placed]
  rw [List.filterMap_append, shader, List.append_nil, placedPacket]
  by_cases three : ps.pkttype = 3
  · rw [if_pos three, if_pos three, litePkt3]
    cases env.unhandled <;> rfl
  · rw [if_neg three, if_neg three, placed_litePkt0 env counted stored]

/-- What is shown of the nodes the decoder makes stands in its place. -/
theorem placed_shownFrom (env : LiteEnv) (follow : Bool) (ibVmid : UInt32) (ibAddr : UInt64)
    {nodes : List (Pm4Packet × Pm4Stream)} (made : ∀ node ∈ nodes, LiteNode node) :
    (shownFrom env follow ibVmid ibAddr nodes).filterMap UiCall.placed = placedFrom ibAddr nodes := by
  rw [shownFrom, placedFrom, List.filterMap_flatMap, List.flatMap_def]
  refine congrArg List.flatten (List.ext_getElem? fun i => ?_)
  rw [List.getElem?_map, List.getElem?_mapIdx]
  by_cases inside : i < nodes.length
  · obtain ⟨counted, stored, plain⟩ := made _ (List.getElem_mem inside)
    rw [List.getElem?_range inside, List.getElem?_eq_getElem inside, Option.map_some,
      Option.map_some, List.getElem?_eq_getElem inside, Option.map_some, Option.getD_some, shownAt,
      plain]
    simp only [Pm4Stream.isNull, Bool.not_true, Bool.and_false, Bool.false_eq_true, if_false,
      List.append_nil, placed_litePacket env counted stored]
  · rw [List.getElem?_eq_none (by rw [List.length_range]; omega),
      List.getElem?_eq_none (Nat.le_of_not_lt inside)]
    rfl

/-! ## Decoded streams -/

theorem pm4NWords_lt (header : UInt32) : (pm4NWords header).toNat < 2 ^ 14 := by
  have mask : (0x3FFF : UInt32).toNat = 2 ^ 14 - 1 := rfl
  rw [pm4NWords, UInt32.toNat_and, mask, Nat.and_two_pow_sub_one_eq_mod]
  exact Nat.mod_lt _ (by decide)

theorem nodes_packets (stream : Pm4Stream) :
    stream.nodes.map Prod.fst = stream.packets := by
  induction stream with
  | null => rfl
  | node packet ib next _ ih => exact congrArg (packet :: ·) ih

theorem pm4LiteLoop_plain {words : List UInt32} {turns : Nat} :
    ∀ {offset nwords : Nat} {found : Pm4Stream}, pm4LiteLoop words turns offset nwords = .ok found →
      ∀ node ∈ found.nodes, node.2 = .null := by
  induction turns with
  | zero =>
      intro offset nwords found run
      cases run
      exact fun node member => absurd member List.not_mem_nil
  | succ turns ih =>
      intro offset nwords found run
      rw [pm4LiteLoop] at run
      split at run
      · cases run
        exact fun node member => absurd member List.not_mem_nil
      · cases isHeader : orStop (readWord words offset) with
        | error stop =>
            rw [isHeader] at run
            cases run
        | ok header =>
            rw [isHeader] at run
            dsimp only [bind, Except.bind] at run
            split at run
            · cases run
              exact fun node member => absurd member List.not_mem_nil
            · split at run
              · cases run
              · split at run
                · cases run
                · rename_i payload _ next isNext
                  cases run
                  exact List.forall_mem_cons.mpr ⟨rfl, ih isNext⟩

/-- The nodes of a PM4-lite stream can be counted and addressed, and there are no IBs in it. -/
theorem umrPm4LiteDecodeStream_nodes {words : List UInt32} {stream : Pm4Stream}
    (run : umrPm4LiteDecodeStream words = .ok stream) (counted : words.length < 2 ^ 32) :
    (∀ node ∈ stream.nodes, LiteNode node) ∧ stream.nodes.length < 2 ^ 32 := by
  by_cases empty : words.length = 0
  · rw [umrPm4LiteDecodeStream, decodeWith, if_pos empty] at run
    cases run
    exact ⟨List.forall_mem_singleton.mpr ⟨by decide, rfl, rfl⟩, by decide⟩
  · obtain ⟨found, rest, ran, framed, ofHeader⟩ := umrPm4LiteDecodeStream_frames words (by omega)
    rw [run] at ran
    cases ran
    have plain := run
    rw [umrPm4LiteDecodeStream, decodeWith, if_neg empty] at plain
    refine ⟨?_, ?_⟩
    · intro node member
      have packet : node.1 ∈ stream.packets := by
        rw [← nodes_packets]
        exact List.mem_map_of_mem member
      have announced := (reassemblesPrefix_of_framed framed ofHeader).announced node.1 packet
      refine ⟨?_, announced.2, pm4LiteLoop_plain plain node member⟩
      rw [(ofHeader node.1 packet).2]
      exact pm4NWords_lt _
    · have few := framed.length_le
      rw [Pm4Stream.frames, List.length_map, ← nodes_packets, List.length_map] at few
      omega

theorem filterMap_packetCalls {π : Type} (calls : List (UiCall π)) :
    (packetCalls calls).filterMap UiCall.placed = calls.filterMap UiCall.placed := by
  rw [packetCalls, List.filterMap_filter]
  refine List.filterMap_congr fun call _ => ?_
  cases call <;> rfl

/-- Disassembling some packets and going on from the node that was kept, at the
address behind them, shows what disassembling the whole stream shows; each packet and
each register it writes is shown at its place in the IB. -/
theorem disassembleLite_resumes {words : List UInt32} {stream : Pm4Stream}
    (run : umrPm4LiteDecodeStream words = .ok stream) (counted : words.length < 2 ^ 32)
    (env : LiteEnv) (follow : Bool) (ibAddr : UInt64) (ibVmid : UInt32)
    (fromAddr fromVmid k : UInt64) :
    let consumed := stream.nodes.take (countedOpcodes k)
    let first := disassembleLite env follow ⟨stream, .null⟩ ibAddr ibVmid fromAddr fromVmid k false
    let rest := disassembleLite env follow first.2 (liteAddr ibAddr consumed) ibVmid fromAddr
      fromVmid maxOpcodes true
    let whole := disassembleLite env follow ⟨stream, .null⟩ ibAddr ibVmid fromAddr fromVmid
      maxOpcodes false
    first.2.cont.nodes = stream.nodes.drop (countedOpcodes k) ∧
      packetCalls first.1 = packetCalls (shownFrom env follow ibVmid ibAddr consumed) ∧
      packetCalls first.1 ++ packetCalls rest.1 = packetCalls whole.1 ∧
      packetCalls whole.1 = packetCalls (shownFrom env follow ibVmid ibAddr stream.nodes) ∧
      first.1.filterMap UiCall.placed ++ rest.1.filterMap UiCall.placed =
        placedFrom ibAddr stream.nodes ∧
      whole.1.filterMap UiCall.placed = placedFrom ibAddr stream.nodes := by
  obtain ⟨made, few⟩ := umrPm4LiteDecodeStream_nodes run counted
  have addressed := addressed_of_lite made
  have all : ∀ nodes : List (Pm4Packet × Pm4Stream), nodes.length ≤ stream.nodes.length →
      nodes.take (countedOpcodes maxOpcodes) = nodes := by
    intro nodes le
    have max : countedOpcodes maxOpcodes = 2 ^ 32 - 1 := by decide
    rw [max]
    exact List.take_of_length_le (by omega)
  intro consumed first rest whole
  obtain ⟨shownFirst, left⟩ :=
    @liteLoop_shows env follow ibVmid stream (countedOpcodes k) ibAddr addressed
  obtain ⟨shownWhole, -⟩ :=
    @liteLoop_shows env follow ibVmid stream (countedOpcodes maxOpcodes) ibAddr addressed
  have cont : first.2.cont.nodes = stream.nodes.drop (countedOpcodes k) := left
  have addressedRest : Addressed first.2.cont.nodes := by
    rw [cont]
    exact fun node member => addressed node (List.mem_of_mem_drop member)
  have addressedConsumed : Addressed consumed :=
    fun node member => addressed node (List.mem_of_mem_take member)
  obtain ⟨shownRest, -⟩ := @liteLoop_shows env follow ibVmid first.2.cont
    (countedOpcodes maxOpcodes) (liteAddr ibAddr consumed) addressedRest
  have isFirst : packetCalls first.1 = packetCalls (shownFrom env follow ibVmid ibAddr consumed) := by
    rw [← shownFirst]
    exact packetCalls_inStartIb
  have isRest : packetCalls rest.1 =
      packetCalls (shownFrom env follow ibVmid (liteAddr ibAddr consumed) first.2.cont.nodes) := by
    rw [all first.2.cont.nodes (by rw [cont, List.length_drop]; omega)] at shownRest
    rw [← shownRest]
    exact packetCalls_inStartIb
  have isWhole : packetCalls whole.1 =
      packetCalls (shownFrom env follow ibVmid ibAddr stream.nodes) := by
    rw [all stream.nodes (Nat.le_refl _)] at shownWhole
    rw [← shownWhole]
    exact packetCalls_inStartIb
  have parts : packetCalls first.1 ++ packetCalls rest.1 = packetCalls whole.1 := by
    rw [isFirst, isRest, isWhole, ← packetCalls_append, cont, ← shownFrom_append addressedConsumed,
      List.take_append_drop]
  have placed : whole.1.filterMap UiCall.placed = placedFrom ibAddr stream.nodes := by
    rw [← filterMap_packetCalls, isWhole, filterMap_packetCalls,
      placed_shownFrom env follow ibVmid ibAddr made]
  refine ⟨cont, isFirst, parts, isWhole, ?_, placed⟩
  rw [← placed, ← filterMap_packetCalls whole.1, ← parts, List.filterMap_append,
    filterMap_packetCalls, filterMap_packetCalls]

def resumeSample : Pm4Stream :=
  .node { pm4Header (· ≠ 0) 0xC0001000 with words := [7] } .null
    (.node { pm4Header (· ≠ 0) 0x00000005 with words := [8] } .null .null)

def resumeEnv : LiteEnv where
  regName := fun _ => "mmGRBM_STATUS"
  unhandled := true

theorem disassembleLite_resumes_behind_first :
    umrPm4LiteDecodeStream [0xC0001000, 7, 0x00000005, 8] = .ok resumeSample ∧
      [0xC0001000, 7, 0x00000005, 8].length < 2 ^ 32 ∧
      packetCalls (disassembleLite resumeEnv true ⟨resumeSample, .null⟩ 0x100 0 0 0 1 false).1 ++
          packetCalls (disassembleLite resumeEnv true
            (disassembleLite resumeEnv true ⟨resumeSample, .null⟩ 0x100 0 0 0 1 false).2
            (liteAddr 0x100 (resumeSample.nodes.take 1)) 0 0 0 maxOpcodes true).1 =
        packetCalls (disassembleLite resumeEnv true ⟨resumeSample, .null⟩ 0x100 0 0 0 maxOpcodes
          false).1 ∧
      (disassembleLite resumeEnv true ⟨resumeSample, .null⟩ 0x100 0 0 0 maxOpcodes
          false).1.filterMap UiCall.placed =
        [.opcode 0x100 0xC0001000 [7], .opcode 0x108 0x00000005 [8], .field 0x10C 8] := by
  have run : umrPm4LiteDecodeStream [0xC0001000, 7, 0x00000005, 8] = .ok resumeSample := by decide
  have counted : [(0xC0001000 : UInt32), 7, 0x00000005, 8].length < 2 ^ 32 := by decide
  obtain ⟨-, -, parts, -, -, placed⟩ :=
    disassembleLite_resumes run counted resumeEnv true 0x100 0 0 0 1
  exact ⟨run, counted, parts, placed.trans (by decide)⟩

end Umr.Packet
