import Umr.Lib.Fetching
import Umr.Lib.Hex
import Umr.Packet.Resume
import Umr.Packet.Stored

/-!
# The PM4 opcode decoder

`umr_pm4_decode_stream_opcodes` of `pm4_decode_opcodes.c`.  Registers written by type 0
packets, the NOP packet with its comments, the LOAD packets and MAP_QUEUES with its data
blocks are decoded here; the other opcodes have the payload through `fetch_word` alone and
show nothing but fields, and are a parameter.
-/

set_option autoImplicit false

namespace Umr.Packet.Pm4

open Umr.Lib Umr.Rumr Umr.Packet

abbrev Call := UiCall Pm4Packet

abbrev Fetch (α : Type) := Fetching UInt32 α

/-- The version of the `gfx` block, `pm4_pkt_names`, the callbacks there are, and what
registers and memory are read through; `pkt3Fields` is the other opcodes of a version,
and nothing where there is no case for one. -/
structure OpcodeEnv where
  maj : Nat
  min : Nat
  pktNames : UInt32 → String × Nat × Nat
  unhandled : Bool
  unhandledDword : Bool
  addData : Bool
  regName : UInt64 → String
  noFollowLoadx : Bool
  readVram : UInt32 → UInt64 → UInt32 → Option (List UInt32)
  pkt3Fields : (opcode nWords : UInt32) → (ibAddr : UInt64) → (ibVmid : UInt32) →
    Option (Fetch (List Call))

inductive OpcodeStop where
  /-- a word outside the payload is read -/
  | outOfBounds
  /-- a size computed from the payload is not that of what it is for -/
  | sizeWraps
  /-- `opcode_name` is read and was not set -/
  | uninitialised
  deriving DecidableEq, Repr

def orOutside {α : Type} : Option α → Except OpcodeStop α
  | some value => .ok value
  | none => .error .outOfBounds

def bits (x : UInt32) (a b : Nat) : UInt64 :=
  UInt64.ofNat (x.toNat / 2 ^ a % 2 ^ (b - a))

def field (ibAddr : UInt64) (ibVmid : UInt32) (name : String) (value : UInt64)
    (str : Option String) (radix : Int) : Call :=
  .addField ibAddr ibVmid name value str radix 32

section Fields
variable (env : OpcodeEnv) (ps : Pm4Packet) (ibAddr : UInt64) (ibVmid : UInt32)

def fetched (prog : Fetch (List Call)) : Except OpcodeStop (List Call × Bool) :=
  orOutside (prog.run ps.nWords.toNat ps.words 0 ps.invalid)

def decodePkt0 : Fetch (List Call) :=
  (List.range ps.nWords.toNat).mapM fun n => do
    let value ← Fetching.word n
    pure (field (ibAddr + (4 * (UInt32.ofNat n + 1)).toUInt64) ibVmid
      (env.regName (ps.pkt0off + UInt32.ofNat n).toUInt64) value.toUInt64 none 16)

/-! ## Packets 0x5E, 0x5F, 0x60 and 0x61 -/

def loadRegBase (opcode : UInt32) : UInt32 :=
  match opcode.toNat with
  | 0x5E => 0xC000
  | 0x5F => 0x2C00
  | 0x60 => 0x2000
  | _ => 0xA000

/-- A line has at most 255 characters. -/
def loadLine (offset regBase value : UInt32) : List Char :=
  let number := printHex offset.toNat
  (['#'] ++ List.replicate (4 - number.length) ' ' ++ number ++ [':'] ++
    (env.regName (regBase + offset).toUInt64).toList ++ " <= 0x".toList ++ printHex value.toNat ++
    ['\n']).take 255

def loadText (regBase k m : UInt32) (baseAddr : UInt64) : String :=
  let lines := match env.readVram ibVmid (baseAddr + (4 * k).toUInt64) (4 * m) with
    | none => []
    | some data => (List.range m.toNat).flatMap fun j =>
        loadLine env (k + UInt32.ofNat j) regBase (data.getD j 0)
  String.ofList ('\n' :: lines)

def loadXReg (opcode nWords : UInt32) : Fetch (List Call) := do
  let regBase := loadRegBase opcode
  let low ← Fetching.word 0
  let high ← Fetching.word 1
  let baseAddr := (low.toUInt64 &&& ~~~(2 : UInt64)) ||| (high.toUInt64 <<< 32)
  let loads ← (List.range ((nWords.toNat - 1) / 2)).mapM fun turn => do
    let n := 2 + 2 * turn
    let k := (bits (← Fetching.word n) 0 16).toUInt32
    let m := (bits (← Fetching.word (n + 1)) 0 14).toUInt32
    let str := if env.noFollowLoadx then none else some (loadText env ibVmid regBase k m baseAddr)
    let at_ := UInt64.ofNat ((n - 2) * 4)
    pure [field (ibAddr + 12 + at_) ibVmid "REG_OFFSET" k.toUInt64
        (some (env.regName (regBase + k).toUInt64)) 16,
      field (ibAddr + 16 + at_) ibVmid "NUM_DWORD" m.toUInt64 str 10]
  pure ([field (ibAddr + 4) ibVmid "BASE_ADDR_LO" (bits low 2 32 <<< 2) none 16,
    field (ibAddr + 8) ibVmid "BASE_ADDR_HI" high.toUInt64 none 16] ++ loads.flatten)

/-! ## Packet 0xA2 -/

structure BitsField where
  name : String
  first : Nat
  behind : Nat
  radix : Int

def BitsField.call (ibAddr : UInt64) (ibVmid value : UInt32) (shown : BitsField) : Call :=
  field ibAddr ibVmid shown.name (bits value shown.first shown.behind) none shown.radix

/-- What a version of the block has in a MAP_QUEUES packet: the fields of its first two words, and
what its data blocks are. -/
structure MapQueues where
  queueFields : List BitsField
  doorbellFields : List BitsField
  type : Datablock
  etype : UInt32 → UInt64

def engineSel (select : UInt32) : UInt64 := bits select 26 29

/-- `SDMA0` stands for every extended engine. -/
def extEngineSel (select : UInt32) : UInt64 := if bits select 2 4 = 0 then engineSel select else 2

def checkedDoorbell : List BitsField :=
  [⟨"CHECK_DISABLE", 1, 2, 16⟩, ⟨"DOORBELL_OFFSET", 2, 28, 16⟩]

def mapQueuesGfx8 : MapQueues where
  queueFields := [⟨"QUEUE_SEL", 4, 6, 10⟩, ⟨"VMID", 8, 12, 10⟩, ⟨"VIDMEM", 16, 18, 10⟩,
    ⟨"ALLOC_FORMAT", 24, 26, 10⟩, ⟨"ENGINE_SEL", 26, 29, 10⟩, ⟨"NUM_QUEUES", 29, 32, 10⟩]
  doorbellFields := [⟨"DOORBELL_OFFSET", 2, 23, 16⟩, ⟨"QUEUE", 26, 32, 10⟩]
  type := .mqdVi
  etype := engineSel

def mapQueuesGfx9 : MapQueues where
  queueFields := [⟨"QUEUE_SEL", 4, 6, 10⟩, ⟨"VMID", 8, 12, 10⟩, ⟨"QUEUE", 13, 21, 10⟩,
    ⟨"QUEUE_TYPE", 21, 24, 10⟩, ⟨"STATIC_QUEUE_GROUP", 24, 26, 10⟩, ⟨"ENGINE_SEL", 26, 29, 10⟩,
    ⟨"NUM_QUEUES", 29, 32, 10⟩]
  doorbellFields := checkedDoorbell
  type := .mqdNv
  etype := engineSel

def mapQueuesGfx10 : MapQueues where
  queueFields := [⟨"QUEUE_SEL", 4, 6, 10⟩, ⟨"GANG_SHED_MODE", 7, 8, 10⟩, ⟨"VMID", 8, 12, 10⟩,
    ⟨"GWS_ENABLED", 12, 13, 10⟩, ⟨"QUEUE", 13, 21, 10⟩, ⟨"QUEUE_TYPE", 21, 24, 10⟩,
    ⟨"STATIC_QUEUE_GROUP", 24, 26, 10⟩, ⟨"ENGINE_SEL", 26, 29, 10⟩, ⟨"NUM_QUEUES", 29, 32, 10⟩]
  doorbellFields := checkedDoorbell
  type := .mqdNv
  etype := engineSel

def mapQueuesGfx11 : MapQueues where
  queueFields := [⟨"EXTENDED_ENGINE_SEL", 2, 4, 10⟩, ⟨"QUEUE_SEL", 4, 6, 10⟩, ⟨"VMID", 8, 12, 10⟩,
    ⟨"QUEUE", 13, 21, 10⟩, ⟨"QUEUE_TYPE", 21, 24, 10⟩, ⟨"STATIC_QUEUE_GROUP", 24, 26, 10⟩,
    ⟨"ENGINE_SEL", 26, 29, 10⟩, ⟨"NUM_QUEUES", 29, 32, 10⟩]
  doorbellFields := checkedDoorbell
  type := .mqdNv
  etype := extEngineSel

def mapQueuesGfx12 : MapQueues where
  queueFields := [⟨"EXT_ENGINE_SEL", 2, 4, 10⟩, ⟨"QUEUE_SEL", 4, 6, 10⟩, ⟨"VMID", 8, 12, 10⟩,
    ⟨"GWS_ENABLED", 12, 13, 10⟩, ⟨"QUEUE_ID", 13, 16, 10⟩, ⟨"PIPE_ID", 16, 18, 10⟩,
    ⟨"ME_ID", 18, 20, 10⟩, ⟨"QUEUE_TYPE", 21, 24, 10⟩, ⟨"STATIC_QUEUE_GROUP", 24, 26, 10⟩,
    ⟨"ENGINE_SEL", 26, 29, 10⟩, ⟨"NUM_QUEUES", 29, 32, 10⟩]
  doorbellFields := checkedDoorbell
  type := .mqdNv
  etype := extEngineSel

def mapQueuesOf (maj : Nat) : MapQueues :=
  match maj with
  | 9 => mapQueuesGfx9
  | 10 => mapQueuesGfx10
  | 11 => mapQueuesGfx11
  | 12 => mapQueuesGfx12
  | _ => mapQueuesGfx8

/-- One queue: where its MQD and its write pointer are, and the MQD as a data block. -/
def mapQueue (layout : MapQueues) (select : UInt32) (turn : Nat) : Fetch (List Call) := do
  let n := 2 + 4 * turn
  let at_ := UInt64.ofNat (16 * turn)
  let mqdLo ← Fetching.word n
  let mqdHi ← Fetching.word (n + 1)
  let wptrLo ← Fetching.word (n + 2)
  let wptrHi ← Fetching.word (n + 3)
  let data : List Call :=
    if env.addData then
      [.addData (ibAddr + 12 + at_) ibVmid (mqdLo.toUInt64 ||| (mqdHi.toUInt64 <<< 32))
        (bits select 8 12).toUInt32 layout.type (layout.etype select)]
    else []
  pure ([field (ibAddr + 12 + at_) ibVmid "MQD_ADDR_LO" mqdLo.toUInt64 none 16,
    field (ibAddr + 16 + at_) ibVmid "MQD_ADDR_HI" mqdHi.toUInt64 none 16,
    field (ibAddr + 20 + at_) ibVmid "WPTR_ADDR_LO" wptrLo.toUInt64 none 16,
    field (ibAddr + 24 + at_) ibVmid "WPTR_ADDR_HI" wptrHi.toUInt64 none 16] ++ data)

def mapQueues (layout : MapQueues) (nWords : UInt32) : Fetch (List Call) := do
  let select ← Fetching.word 0
  let doorbell ← Fetching.word 1
  let queues ← (List.range ((nWords.toNat - 2) / 4)).mapM (mapQueue env ibAddr ibVmid layout select)
  pure (layout.queueFields.map (BitsField.call (ibAddr + 4) ibVmid select) ++
    layout.doorbellFields.map (BitsField.call (ibAddr + 8) ibVmid doorbell) ++ queues.flatten)

/-! ## NOP packets -/

def commentMagic : UInt32 := 0x1337F77D
def binaryMagic : UInt32 := 0x3337F77D

/-- The fields, and with a string comment its `pktlen`. -/
def nopFields (nWords : UInt32) : Fetch (List Call × Option UInt32) := do
  if nWords = 0 then pure ([], none)
  else do
    let magic ← Fetching.word 0
    if magic = commentMagic then do
      let pktlen := (← Fetching.word 1) - 1
      let pkttype ← Fetching.word 2
      pure ([field (ibAddr + 4) ibVmid "COMMENT_PACKET_LEN" pktlen.toUInt64 none 10,
          field (ibAddr + 8) ibVmid "COMMENT_PACKET_TYPE" pkttype.toUInt64 none 10],
        if pkttype = 7 then some pktlen else none)
    else if magic = binaryMagic then do
      let fields ← (List.range' 1 (nWords.toNat - 1)).mapM fun n => do
        let value ← Fetching.word n
        pure (field (ibAddr + 4 + UInt64.ofNat (4 * n)) ibVmid "BINARY DATA" value.toUInt64 none 16)
      pure (fields, none)
    else pure ([], none)

/-- The argument of `calloc`. -/
def commentSize (pktlen : UInt32) : UInt32 := 1 + pktlen * 4 - 12

/-- The bytes up to the first 0. -/
def commentText (words : List UInt32) : String :=
  let bytes : List Nat := words.flatMap fun word =>
    [0, 8, 16, 24].map fun shift => word.toNat / 2 ^ shift % 256
  String.ofList ((bytes.takeWhile (· ≠ 0)).map Char.ofNat)

/-- What is copied is taken from the array itself. -/
def commentString (pktlen : UInt32) : Except OpcodeStop String :=
  if ((commentSize pktlen).toNat : Int) ≠ 1 + (4 * (pktlen.toNat : Int) - 12) then .error .sizeWraps
  else do
    let copied ← orOutside (readWords ps.words 3 ((pktlen * 4 - 12).toNat / 4))
    pure (commentText copied)

def decodeNop : Except OpcodeStop (List Call × Bool) := do
  let ((fields, comment), invalid) ←
    orOutside ((nopFields ibAddr ibVmid ps.nWords).run ps.nWords.toNat ps.words 0 ps.invalid)
  match comment with
  | none => pure (fields, invalid)
  | some pktlen => do
      let text ← commentString ps pktlen
      pure (fields ++ [.addField (ibAddr + 12) ibVmid "COMMENT_STRING" 0 (some text) 0 0], invalid)

/-! ## A packet -/

def decodePkt3 : Except OpcodeStop (List Call × Bool) :=
  if 6 ≤ env.maj ∧ env.maj ≤ 12 then
    if ps.opcode = 0x10 then decodeNop ps ibAddr ibVmid
    else if ps.opcode ∈ [0x5E, 0x5F, 0x60, 0x61] then
      fetched ps (loadXReg env ibAddr ibVmid ps.opcode ps.nWords)
    else if ps.opcode = 0xA2 then
      fetched ps (mapQueues env ibAddr ibVmid (mapQueuesOf env.maj) ps.nWords)
    else
      match env.pkt3Fields ps.opcode ps.nWords ibAddr ibVmid with
      | some prog => fetched ps prog
      | none => .ok (if env.unhandled then [.unhandled ibAddr ibVmid ps] else [], ps.invalid)
  else .ok ([], ps.invalid)

def packetFields : Except OpcodeStop (List Call × Bool) :=
  if ps.pkttype = 3 then decodePkt3 env ps ibAddr ibVmid
  else if ps.pkttype = 0 then fetched ps (decodePkt0 env ps ibAddr ibVmid)
  else .ok ([], ps.invalid)

def opcodeName : Option String :=
  if ps.pkttype = 0 then some "PKT0"
  else if ps.pkttype = 3 then
    let (name, maj, min) := env.pktNames ps.opcode
    if env.maj < maj ∨ env.min < min then some "UNK"
    else if ps.opcode = 0x33 then
      some (if ps.nWords = 3 then "PKT3_INDIRECT_BUFFER_CONST" else "PKT3_COND_INDIRECT_BUFFER_CONST")
    else if ps.opcode = 0x3F then
      some (if ps.nWords = 3 then "PKT3_INDIRECT_BUFFER" else "PKT3_COND_INDIRECT_BUFFER")
    else some name
  else none

/-- How the turn of a packet ends: with an unknown name, with the loop left, or with a
look at the IB. -/
inductive TurnEnd where
  | unknown | left | shown
  deriving DecidableEq, Repr

/-- The calls for a packet itself; `before` is the name the packets in front left. -/
def showPacket (before : Option String) : Except OpcodeStop (List Call × TurnEnd) :=
  let dword : List Call :=
    if ps.pkttype = 0xFF ∧ env.unhandledDword = true then [.unhandledDword ibAddr ibVmid ps.header]
    else []
  match (opcodeName env ps).or before with
  | none => .error .uninitialised
  | some name =>
      if name = "UNK" then
        .ok (dword ++ if env.unhandled then [.unhandled ibAddr ibVmid ps] else [], .unknown)
      else do
        let start : List Call :=
          if ps.pkttype = 0 ∨ ps.pkttype = 3 then
            [.startOpcode ibAddr ibVmid ps.pkttype ps.opcode 0 ps.nWords name ps.header ps.words]
          else []
        let (fields, invalid) ← packetFields env ps ibAddr ibVmid
        if invalid then pure (dword ++ start ++ fields, .left)
        else pure (dword ++ start ++ fields ++
          (ps.shader.map (UiCall.addShader ibAddr ibVmid)).toList, .shown)

end Fields

/-! ## Payloads -/

def nopComment (ps : Pm4Packet) : Option UInt32 :=
  if 3 ≤ ps.nWords ∧ ps.words.getD 0 0 = commentMagic ∧ ps.words.getD 2 0 = 7 then
    some (ps.words.getD 1 0 - 1)
  else none

/-- Where the packet is a NOP with a string comment, the length of the comment. -/
def stringComment (env : OpcodeEnv) (ps : Pm4Packet) : Option UInt32 :=
  if ps.pkttype = 3 ∧ opcodeName env ps ≠ some "UNK" ∧ (6 ≤ env.maj ∧ env.maj ≤ 12) ∧
      ps.opcode = 0x10 then nopComment ps
  else none

/-- A string comment whose length takes in the three words in front of the string and
ends in the packet. -/
def CommentFits (env : OpcodeEnv) (ps : Pm4Packet) : Prop :=
  ∀ pktlen, stringComment env ps = some pktlen →
    3 ≤ pktlen ∧ pktlen ≤ ps.nWords ∧ 4 * pktlen.toNat < 2 ^ 32 + 11

/-- Whatever name is left, the packet is decoded inside its payload. -/
def PayloadInside (env : OpcodeEnv) (ps : Pm4Packet) : Prop :=
  ∀ ibAddr ibVmid before stop, showPacket env ps ibAddr ibVmid before = .error stop →
    stop = .uninitialised

section Payload
variable {env : OpcodeEnv} {ps : Pm4Packet} {ibAddr : UInt64} {ibVmid : UInt32}

theorem fetched_ends (stored : ps.Stored) (prog : Fetch (List Call)) : Ends (fetched ps prog) := by
  have whole : ps.nWords.toNat ≤ ps.words.length := Nat.le_of_eq stored.symm
  obtain ⟨result, run⟩ := @Fetching.run_inside _ _ _ _ 0 whole prog ps.invalid
  exact ⟨result, by rw [fetched, run]; rfl⟩

theorem commentString_ends_iff (stored : ps.Stored) (three : 3 ≤ ps.nWords) (pktlen : UInt32) :
    Ends (commentString ps pktlen) ↔
      3 ≤ pktlen ∧ pktlen ≤ ps.nWords ∧ 4 * pktlen.toNat < 2 ^ 32 + 11 := by
  have isThree : (3 : UInt32).toNat = 3 := rfl
  have three : 3 ≤ ps.nWords.toNat := three
  have whole : ps.words.length = ps.nWords.toNat := stored
  have narrow := pktlen.toNat_lt
  have size : (commentSize pktlen).toNat = (2 ^ 32 - 12 + (1 + pktlen.toNat * 4 % 2 ^ 32) % 2 ^ 32) %
      2 ^ 32 := by
    rw [commentSize, UInt32.toNat_sub, UInt32.toNat_add, UInt32.toNat_mul]
    rfl
  have copied : (pktlen * 4 - 12).toNat = (2 ^ 32 - 12 + pktlen.toNat * 4 % 2 ^ 32) % 2 ^ 32 := by
    rw [UInt32.toNat_sub, UInt32.toNat_mul]
    rfl
  rw [commentString]
  split
  · next wraps =>
      refine iff_of_false (not_ends_error _) ?_
      rintro ⟨least, _, most⟩
      have least : 3 ≤ pktlen.toNat := least
      omega
  · next fits =>
      have fits : ((commentSize pktlen).toNat : Int) = 1 + (4 * (pktlen.toNat : Int) - 12) :=
        not_not.mp fits
      have least : 3 ≤ pktlen.toNat := by omega
      have most : 4 * pktlen.toNat < 2 ^ 32 + 11 := by omega
      have count : (pktlen * 4 - 12).toNat / 4 = pktlen.toNat - 3 := by omega
      rw [count, readWords]
      split
      · next inside =>
          refine iff_of_true ⟨_, rfl⟩ ⟨least, ?_, most⟩
          change pktlen.toNat ≤ ps.nWords.toNat
          omega
      · next outside =>
          refine iff_of_false (not_ends_error _) fun fine => outside ?_
          have le : pktlen.toNat ≤ ps.nWords.toNat := fine.2.1
          omega

theorem word_run (stored : ps.Stored) (off : Nat) (flag : Bool) :
    ∃ flagged, (Fetching.word off : Fetch UInt32).run ps.nWords.toNat ps.words 0 flag =
      some (ps.words.getD off 0, flagged) := by
  have whole : ps.words.length = ps.nWords.toNat := stored
  rw [List.getD_eq_getElem?_getD]
  by_cases below : off < ps.nWords.toNat
  · have at_ := List.getElem?_eq_getElem (whole.symm ▸ below : off < ps.words.length)
    rw [at_]
    exact ⟨flag, Fetching.run_word below at_ flag⟩
  · rw [List.getElem?_eq_none (by omega)]
    exact ⟨true, Fetching.run_word_past (Nat.le_of_not_lt below) flag⟩

theorem nopFields_run (stored : ps.Stored) : ∃ fields invalid,
    (nopFields ibAddr ibVmid ps.nWords).run ps.nWords.toNat ps.words 0 ps.invalid =
      some ((fields, nopComment ps), invalid) := by
  have whole : ps.words.length = ps.nWords.toNat := stored
  have three : 3 ≤ ps.nWords ↔ 3 ≤ ps.nWords.toNat := Iff.rfl
  rw [nopFields, nopComment]
  by_cases empty : ps.nWords = 0
  · rw [if_pos empty, empty, if_neg (fun both => absurd both.1 (by decide))]
    exact ⟨_, _, rfl⟩
  · rw [if_neg empty]
    obtain ⟨flag, first⟩ := @word_run ps stored 0 ps.invalid
    rw [Fetching.run_bind, first, Option.bind_some]
    by_cases comment : ps.words.getD 0 0 = commentMagic
    · obtain ⟨flag', second⟩ := @word_run ps stored 1 flag
      obtain ⟨flag'', third⟩ := @word_run ps stored 2 flag'
      dsimp only
      rw [if_pos comment, Fetching.run_bind, second, Option.bind_some, Fetching.run_bind, third,
        Option.bind_some]
      have typed : ps.words.getD 2 0 = 7 → 3 ≤ ps.nWords := by
        intro seven
        by_contra short
        rw [List.getD_eq_getElem?_getD, List.getElem?_eq_none (by rw [three] at short; omega)] at seven
        exact absurd seven (by decide)
      have same : (3 ≤ ps.nWords ∧ ps.words.getD 0 0 = commentMagic ∧ ps.words.getD 2 0 = 7) ↔
          ps.words.getD 2 0 = 7 := ⟨fun all => all.2.2, fun seven => ⟨typed seven, comment, seven⟩⟩
      simp only [same]
      exact ⟨_, _, rfl⟩
    · dsimp only
      have other : ¬ (3 ≤ ps.nWords ∧ ps.words.getD 0 0 = commentMagic ∧ ps.words.getD 2 0 = 7) :=
        fun all => comment all.2.1
      rw [if_neg comment, if_neg other]
      by_cases binary : ps.words.getD 0 0 = binaryMagic
      · rw [if_pos binary, Fetching.run_bind]
        obtain ⟨⟨fields, invalid⟩, run⟩ := @Fetching.run_inside _ _ ps.nWords.toNat ps.words 0
          (Nat.le_of_eq whole.symm) ((List.range' 1 (ps.nWords.toNat - 1)).mapM fun n => do
            let value ← Fetching.word n
            pure (field (ibAddr + 4 + UInt64.ofNat (4 * n)) ibVmid "BINARY DATA" value.toUInt64
              none 16)) flag
        rw [run]
        exact ⟨_, _, rfl⟩
      · rw [if_neg binary]
        exact ⟨_, _, rfl⟩

theorem decodeNop_ends_iff (stored : ps.Stored) :
    Ends (decodeNop ps ibAddr ibVmid) ↔ ∀ pktlen, nopComment ps = some pktlen →
      3 ≤ pktlen ∧ pktlen ≤ ps.nWords ∧ 4 * pktlen.toNat < 2 ^ 32 + 11 := by
  obtain ⟨fields, invalid, run⟩ := @nopFields_run ps ibAddr ibVmid stored
  rw [decodeNop, run]
  dsimp only [orOutside, bind, Except.bind]
  cases comment : nopComment ps with
  | none => exact iff_of_true (ends_pure _) fun _ impossible => by cases impossible
  | some pktlen =>
      have three : 3 ≤ ps.nWords := by
        rw [nopComment] at comment
        split at comment
        · next all => exact all.1
        · cases comment
      have string_ := commentString_ends_iff stored three pktlen
      refine Iff.trans ends_bind ?_
      constructor
      · rintro ⟨text, ran, _⟩ other ⟨⟩
        exact string_.mp ⟨text, ran⟩
      · intro fits
        obtain ⟨text, ran⟩ := string_.mpr (fits pktlen rfl)
        exact ⟨text, ran, ends_pure _⟩

theorem packetFields_ends_iff (stored : ps.Stored) :
    Ends (packetFields env ps ibAddr ibVmid) ↔
      (ps.pkttype = 3 ∧ (6 ≤ env.maj ∧ env.maj ≤ 12) ∧ ps.opcode = 0x10 →
        Ends (decodeNop ps ibAddr ibVmid)) := by
  rw [packetFields]
  by_cases three : ps.pkttype = 3
  · rw [if_pos three, decodePkt3]
    by_cases known : 6 ≤ env.maj ∧ env.maj ≤ 12
    · rw [if_pos known]
      by_cases nop : ps.opcode = 0x10
      · rw [if_pos nop]
        exact ⟨fun ends _ => ends, fun all => all ⟨three, known, nop⟩⟩
      · rw [if_neg nop]
        refine iff_of_true ?_ fun all => absurd all.2.2 nop
        split
        · exact fetched_ends stored _
        · split
          · exact fetched_ends stored _
          · split
            · exact fetched_ends stored _
            · exact ends_ok _
    · rw [if_neg known]
      exact iff_of_true (ends_ok _) fun all => absurd all.2.1 known
  · rw [if_neg three]
    refine iff_of_true ?_ fun all => absurd all.1 three
    split
    · exact fetched_ends stored _
    · exact ends_ok _

theorem packetFields_ends_iff_comment (stored : ps.Stored)
    (known : opcodeName env ps ≠ some "UNK") :
    Ends (packetFields env ps ibAddr ibVmid) ↔ CommentFits env ps := by
  rw [packetFields_ends_iff stored, CommentFits, stringComment]
  by_cases nop : ps.pkttype = 3 ∧ opcodeName env ps ≠ some "UNK" ∧
      (6 ≤ env.maj ∧ env.maj ≤ 12) ∧ ps.opcode = 0x10
  · rw [if_pos nop, decodeNop_ends_iff stored]
    exact ⟨fun fits => fits ⟨nop.1, nop.2.2.1, nop.2.2.2⟩, fun fits _ => fits⟩
  · rw [if_neg nop]
    refine iff_of_true (fun all => absurd ⟨all.1, known, all.2.1, all.2.2⟩ nop) ?_
    exact fun _ impossible => by cases impossible

theorem commentFits_of_unknown (unknown : opcodeName env ps = some "UNK") : CommentFits env ps := by
  intro pktlen comment
  rw [stringComment, if_neg fun all => all.2.1 unknown] at comment
  cases comment

theorem decodeNop_stop {stop : OpcodeStop} (stored : ps.Stored)
    (stopped : decodeNop ps ibAddr ibVmid = .error stop) : stop ≠ .uninitialised := by
  obtain ⟨fields, invalid, run⟩ := @nopFields_run ps ibAddr ibVmid stored
  rw [decodeNop, run] at stopped
  dsimp only [orOutside, bind, Except.bind] at stopped
  cases comment : nopComment ps with
  | none =>
      rw [comment] at stopped
      cases stopped
  | some pktlen =>
      rw [comment] at stopped
      dsimp only at stopped
      rw [commentString] at stopped
      rintro rfl
      split at stopped
      · next wrapped =>
          split at wrapped
          · cases stopped
            cases wrapped
          · cases found : readWords ps.words 3 ((pktlen * 4 - 12).toNat / 4) with
            | none =>
                rw [found] at wrapped
                cases stopped
                cases wrapped
            | some copied =>
                rw [found] at wrapped
                cases wrapped
      · cases stopped

theorem packetFields_stop {stop : OpcodeStop} (stored : ps.Stored)
    (stopped : packetFields env ps ibAddr ibVmid = .error stop) : stop ≠ .uninitialised := by
  by_cases nop : ps.pkttype = 3 ∧ (6 ≤ env.maj ∧ env.maj ≤ 12) ∧ ps.opcode = 0x10
  · rw [packetFields, if_pos nop.1, decodePkt3, if_pos nop.2.1, if_pos nop.2.2] at stopped
    exact decodeNop_stop stored stopped
  · obtain ⟨result, run⟩ := (@packetFields_ends_iff env ps ibAddr ibVmid stored).mpr
      fun all => absurd all nop
    rw [run] at stopped
    cases stopped

/-- A packet is shown, or its fields stop. -/
theorem showPacket_cases (env : OpcodeEnv) (ps : Pm4Packet) (ibAddr : UInt64) (ibVmid : UInt32)
    (before : Option String) :
    ((opcodeName env ps).or before = none ∧
        showPacket env ps ibAddr ibVmid before = .error .uninitialised) ∨
      ((opcodeName env ps).or before = some "UNK" ∧ Ends (showPacket env ps ibAddr ibVmid before)) ∨
      ∃ name, (opcodeName env ps).or before = some name ∧ name ≠ "UNK" ∧
        ((∃ stop, packetFields env ps ibAddr ibVmid = .error stop ∧
            showPacket env ps ibAddr ibVmid before = .error stop) ∨
          Ends (packetFields env ps ibAddr ibVmid) ∧
            Ends (showPacket env ps ibAddr ibVmid before)) := by
  rw [showPacket]
  cases named : (opcodeName env ps).or before with
  | none => exact Or.inl ⟨rfl, rfl⟩
  | some name =>
      refine Or.inr ?_
      by_cases unknown : name = "UNK"
      · subst unknown
        exact Or.inl ⟨rfl, ends_ok _⟩
      · refine Or.inr ⟨name, rfl, unknown, ?_⟩
        dsimp only
        rw [if_neg unknown]
        cases fields : packetFields env ps ibAddr ibVmid with
        | error stop => exact Or.inl ⟨stop, rfl, rfl⟩
        | ok result =>
            refine Or.inr ⟨ends_ok _, ?_⟩
            obtain ⟨calls, invalid⟩ := result
            cases invalid
            · exact ends_pure _
            · exact ends_pure _

end Payload

theorem opcodeName_type3 {env : OpcodeEnv} {ps : Pm4Packet} (three : ps.pkttype = 3) :
    ∃ name, opcodeName env ps = some name := by
  rw [opcodeName, if_neg (by rw [three]; decide), if_pos three]
  dsimp only
  split
  · exact ⟨_, rfl⟩
  · split
    · exact ⟨_, rfl⟩
    · split
      · exact ⟨_, rfl⟩
      · exact ⟨_, rfl⟩

/-- The payload of a packet is read inside its words, and no size computed from it wraps,
exactly where a string comment fits. -/
theorem payloadInside_iff (env : OpcodeEnv) {ps : Pm4Packet} (stored : ps.Stored) :
    PayloadInside env ps ↔ CommentFits env ps := by
  by_cases unknown : opcodeName env ps = some "UNK"
  · refine iff_of_true (fun ibAddr ibVmid before stop shown => ?_) (commentFits_of_unknown unknown)
    rw [showPacket, unknown] at shown
    cases shown
  · constructor
    · intro inside
      refine (@packetFields_ends_iff_comment env ps 0 0 stored unknown).mp ?_
      -- A packet of another type is shown under a name that was left.
      rcases showPacket_cases env ps 0 0 (some "PKT0") with ⟨missing, _⟩ | ⟨isUnknown, _⟩ |
        ⟨_, _, _, ⟨stop, stopped, shown⟩ | ⟨fields, _⟩⟩
      · cases named : opcodeName env ps <;> rw [named] at missing <;> cases missing
      · cases named : opcodeName env ps with
        | none =>
            rw [named] at isUnknown
            exact absurd isUnknown (by decide)
        | some name =>
            rw [named, Option.some_or] at isUnknown
            exact absurd (named.trans isUnknown) unknown
      · exact absurd (inside 0 0 _ stop shown) (packetFields_stop stored stopped)
      · exact fields
    · intro fits ibAddr ibVmid before stop shown
      obtain ⟨result, run⟩ :=
        (@packetFields_ends_iff_comment env ps ibAddr ibVmid stored unknown).mpr fits
      rcases showPacket_cases env ps ibAddr ibVmid before with ⟨_, same⟩ | ⟨_, ⟨_, same⟩⟩ |
        ⟨_, _, _, ⟨_, stopped, _⟩ | ⟨_, ⟨_, same⟩⟩⟩
      · rw [shown] at same
        exact Except.error.inj same
      · rw [shown] at same
        cases same
      · rw [run] at stopped
        cases stopped
      · rw [shown] at same
        cases same

/-! ## The loop -/

structure PacketTurn where
  ibAddr : UInt64
  packet : Pm4Packet
  own : Except OpcodeStop (List Call)
  inner : List Call
  deriving DecidableEq

def PacketTurn.calls (turn : PacketTurn) : List Call :=
  (match turn.own with
    | .ok calls => calls
    | .error _ => []) ++ turn.inner

section Loop
variable (env : OpcodeEnv) (follow : Bool)

/-- The turns of the packets, and the packets that are left or why the run stopped;
`before` is `opcode_name`, which each call of the function starts without. -/
def opcodeRun : Pm4Stream → Nat → UInt64 → UInt32 → Option String →
    List PacketTurn × Except OpcodeStop Pm4Stream
  | .null, _, _, _, _ => ([], .ok .null)
  | .node ps ib next, 0, _, _, _ => ([], .ok (.node ps ib next))
  | .node ps ib next, ncodes + 1, ibAddr, ibVmid, before =>
      let further := opcodeRun next ncodes (ibAddr + (4 + ps.nWords * 4).toUInt64) ibVmid
        ((opcodeName env ps).or before)
      match showPacket env ps ibAddr ibVmid before with
      | .error stop => ([⟨ibAddr, ps, .error stop, []⟩], .error stop)
      | .ok (calls, .left) => ([⟨ibAddr, ps, .ok calls, []⟩], .ok (.node ps ib next))
      | .ok (calls, .unknown) => (⟨ibAddr, ps, .ok calls, []⟩ :: further.1, further.2)
      | .ok (calls, .shown) =>
          if follow && !ib.isNull then
            let inner := opcodeRun ib (countedOpcodes maxOpcodes) ps.ibAddr ps.ibVmid none
            let turn : PacketTurn := ⟨ibAddr, ps, .ok calls,
              inStartIb ib ps.ibAddr ps.ibVmid ibAddr ibVmid (countedOpcodes maxOpcodes)
                (inner.1.flatMap PacketTurn.calls)⟩
            match inner.2 with
            | .error stop => ([turn], .error stop)
            | .ok _ => (turn :: further.1, further.2)
          else (⟨ibAddr, ps, .ok calls, []⟩ :: further.1, further.2)

/-- The calls, with the packets that are left. -/
def umrPm4DecodeStreamOpcodes (stream : Pm4Stream) (ibAddr : UInt64) (ibVmid : UInt32)
    (fromAddr fromVmid opcodes : UInt64) : Except OpcodeStop (List Call × Pm4Stream) :=
  let run := opcodeRun env follow stream (countedOpcodes opcodes) ibAddr ibVmid none
  run.2.map fun left =>
    (inStartIb stream ibAddr ibVmid fromAddr fromVmid.toUInt32 (countedOpcodes opcodes)
      (run.1.flatMap PacketTurn.calls), left)

end Loop

/-- A run over packets that are decoded inside their payloads stops for no payload. -/
theorem opcodeRun_inside {env : OpcodeEnv} {follow : Bool} {stream : Pm4Stream} :
    ∀ {ncodes : Nat} {ibAddr : UInt64} {ibVmid : UInt32} {before : Option String} {stop : OpcodeStop},
      stream.linked.All (PayloadInside env) →
      (opcodeRun env follow stream ncodes ibAddr ibVmid before).2 = .error stop →
      stop = .uninitialised := by
  induction stream with
  | null =>
      intro ncodes ibAddr ibVmid before stop _ stopped
      cases stopped
  | node ps ib next ihIb ihNext =>
      intro ncodes ibAddr ibVmid before stop inside stopped
      obtain ⟨here, inner, behind⟩ := inside
      cases ncodes with
      | zero => cases stopped
      | succ ncodes =>
          rw [opcodeRun] at stopped
          cases shown : showPacket env ps ibAddr ibVmid before with
          | error fault =>
              rw [shown] at stopped
              cases stopped
              exact here _ _ _ _ shown
          | ok result =>
              obtain ⟨calls, ended⟩ := result
              rw [shown] at stopped
              cases ended with
              | left => cases stopped
              | unknown => exact ihNext behind stopped
              | shown =>
                  dsimp only at stopped
                  split at stopped
                  · split at stopped
                    · next fault nested =>
                        cases stopped
                        exact ihIb inner nested
                    · exact ihNext behind stopped
                  · exact ihNext behind stopped

theorem linked_all_congr {first second : Pm4Packet → Prop} {stored : Pm4Packet → Prop}
    (same : ∀ ps, stored ps → (first ps ↔ second ps)) {stream : Linked Pm4Packet}
    (all : stream.All stored) : stream.All first ↔ stream.All second := by
  induction stream with
  | null => exact Iff.rfl
  | node ps ib next ihIb ihNext =>
      exact and_congr (same ps all.1) (and_congr (ihIb all.2.1) (ihNext all.2.2))

/-- Of all packets of a stream and of the IBs in it, the payload is read inside exactly
where the string comments fit. -/
theorem pm4_payloads_inside_iff {pm4 : Pm4Env} {depth : Nat} {vmid : UInt32} {words : List UInt32}
    {stream : Pm4Stream} (ran : umrPm4DecodeStream pm4 depth vmid words = .ok stream)
    (env : OpcodeEnv) :
    stream.linked.All (PayloadInside env) ↔ stream.linked.All (CommentFits env) :=
  linked_all_congr (fun _ stored => payloadInside_iff env stored)
    (umrPm4DecodeStream_stored vmid words stream ran)

def sampleOpcodes : OpcodeEnv where
  maj := 10
  min := 3
  pktNames := fun opcode => if opcode = 0x10 then ("PKT3_NOP", 8, 0) else ("UNK", 0, 0)
  unhandled := true
  unhandledDword := true
  addData := true
  regName := fun _ => "mmGRBM_STATUS"
  noFollowLoadx := true
  readVram := fun _ _ _ => none
  pkt3Fields := fun _ _ _ _ => none

def commentWords (length : UInt32) : List UInt32 := [0xC0031000, 0x1337F77D, length, 7, 0x00687542]

def commentPacket (length : UInt32) : Pm4Packet :=
  { pm4Header (· = 3) 0xC0031000 with words := [0x1337F77D, length, 7, 0x00687542] }

theorem pm4_payloads_inside_comment :
    umrPm4DecodeStream plainEnv 1 0 (commentWords 5) = .ok (.node (commentPacket 5) .null .null) ∧
      (Pm4Stream.node (commentPacket 5) .null .null).linked.All (PayloadInside sampleOpcodes) := by
  have ran : umrPm4DecodeStream plainEnv 1 0 (commentWords 5) =
      .ok (.node (commentPacket 5) .null .null) := by decide
  refine ⟨ran, (pm4_payloads_inside_iff ran sampleOpcodes).mpr ⟨?_, trivial, trivial⟩⟩
  intro pktlen comment
  have four : pktlen = 4 := by
    have known : stringComment sampleOpcodes (commentPacket 5) = some 4 := by decide
    exact Option.some.inj (comment.symm.trans known)
  rw [four]
  decide

/-- With a length of 3 the size of the string is -3. -/
theorem not_pm4_payloads_inside :
    umrPm4DecodeStream plainEnv 1 0 (commentWords 3) = .ok (.node (commentPacket 3) .null .null) ∧
      ¬ (Pm4Stream.node (commentPacket 3) .null .null).linked.All (PayloadInside sampleOpcodes) ∧
      umrPm4DecodeStream plainEnv 1 0 (commentWords 100) =
        .ok (.node (commentPacket 100) .null .null) ∧
      ¬ (Pm4Stream.node (commentPacket 100) .null .null).linked.All (PayloadInside sampleOpcodes) := by
  refine ⟨by decide, fun inside => ?_, by decide, fun inside => ?_⟩
  · have stopped : showPacket sampleOpcodes (commentPacket 3) 0 0 none = .error .sizeWraps := by decide
    cases inside.1 0 0 none _ stopped
  · have stopped : showPacket sampleOpcodes (commentPacket 100) 0 0 none = .error .outOfBounds := by
      decide
    cases inside.1 0 0 none _ stopped

end Umr.Packet.Pm4
