import Umr.Packet.Hsa
import Umr.Packet.Stored

/-!
# MES streams and their opcode decoder

`umr_mes_decode_stream` and `umr_mes_decode_stream_opcodes` of `read_mes_stream.c`.
A layout says which words of a packet are fetched, in the order of the source; the
names and values of the fields are left out.
-/

set_option autoImplicit false

namespace Umr.Packet.Mes

open Umr.Lib Umr.Rumr Umr.Packet

/-! ## Layouts -/

/-- Fields of one word, bit fields of a word among them, and of two words; alignment to
eight bytes where structures are packed so; and `j = i`, `i = j + size`. -/
inductive MesItem where
  | words (count : Nat)
  | wides (count : Nat)
  | pad8
  | mark
  | behindMark (size : Nat)
  deriving DecidableEq, Repr

open MesItem

def maxComputePipes : Nat := 8
def maxGfxPipes : Nat := 2
def maxSdmaPipes : Nat := 2
def priorityNumLevels : Nat := 5
def miscDataMaxSizeInDwords : Nat := 20
def maxHwipSegment (ver : Nat) : Nat := if ver = 10 then 6 else 8

def since (condition : Bool) (items : List MesItem) : List MesItem :=
  if condition then items else []

def fence : MesItem := wides 2

def miscItems (ver misc : Nat) : List MesItem :=
  match ver, misc with
  | 10, 0 => [words 3]
  | 10, 1 | 11, 1 | 12, 1 => [pad8, wides 2]
  | 10, 2 | 11, 2 | 12, 2 => [words 1]
  | 11, 0 | 12, 0 => [words 2]
  | 11, 3 => [words 1, pad8, wides 1]
  | 12, 3 => [words 1, pad8, wides 1, words 2]
  | 11, 4 | 12, 4 => [words 5]
  | 11, 5 | 12, 5 => [pad8, wides 1, words 7]
  | 11, 8 | 12, 9 => [words 4]
  | _, _ => []

def queryItems : Nat → List MesItem
  | 0 => [pad8, wides 2]
  | 1 => [pad8, wides 1]
  | _ => []

def mesItems (ver opcode selector : Nat) : List MesItem :=
  match opcode with
  | 0 =>
      [words 4, words maxComputePipes, words maxGfxPipes, words maxSdmaPipes,
        words priorityNumLevels, pad8, wides 2, words (maxHwipSegment ver),
        words (maxHwipSegment ver), words (maxHwipSegment ver), pad8, fence, words 1] ++
      since (11 ≤ ver) [words 1, pad8, wides 2] ++
      since (11 ≤ ver) [pad8, wides 1, words 1]
  | 1 =>
      [pad8, wides priorityNumLevels, wides priorityNumLevels, wides priorityNumLevels, words 1,
        pad8, fence] ++
      since (ver = 12) [wides 1]
  | 2 =>
      [words 1, pad8, wides 7, words 3, pad8, wides 4, words 6, pad8, wides 1, words 2, pad8,
        fence] ++
      since (11 ≤ ver) [pad8, wides 1, words 1, pad8, wides 1, words 5, pad8, wides 1]
  | 3 =>
      [words 1, pad8, wides 1, words 1, pad8, fence, words 2, pad8, wides 1, words 1] ++
      since (11 ≤ ver) [words 1] ++
      since (ver = 12) [pad8, wides 1, words 1]
  | 4 => [words 1, pad8, fence] ++ since (ver = 12) [wides 1]
  | 6 =>
      [words 1, pad8, wides 2, words 1, pad8, fence] ++
      since (ver = 12) [words 2, pad8, wides 1, words 3]
  | 7 =>
      [words 1, pad8, wides 1, fence] ++
      since (ver = 12) [words 1, pad8, wides 1, words 1]
  | 8 =>
      [words 1, pad8, wides 1, words 1, pad8, wides 1, words 4, pad8, wides 1, words 1, pad8,
        wides 1, words 3, pad8, wides 1, words 1, pad8, wides 1, fence] ++
      since (ver = 12) [words 1, pad8, wides 1, words 3]
  | 9 =>
      [words 1, pad8, wides 1, words 2, pad8, fence] ++ since (ver = 12) [wides 1, words 1]
  | 10 =>
      [words 2, pad8, wides 2, fence] ++ since (ver = 12) [words 1, pad8, wides 1, words 2]
  | 11 => [words 1, pad8, fence] ++ since (ver = 12) (wides 1 :: queryItems selector)
  | 12 => [pad8, wides 1, words 5, pad8, fence]
  | 13 =>
      [pad8, fence, words 3, pad8, wides 4, words 5] ++
      since (11 ≤ ver) [pad8, wides 1] ++
      since (ver = 12) [pad8, wides 1, words 4]
  | 14 =>
      [words 1, pad8, fence] ++
      if ver = 12 then
        mark :: miscItems ver selector ++
          [behindMark miscDataMaxSizeInDwords, pad8, wides 1, words 2]
      else miscItems ver selector
  | 15 => [pad8, wides 2, fence] ++ since (ver = 12) [wides 1, words 1]
  | 16 => [pad8, wides 2, fence] ++ since (ver = 12) [wides 1]
  | 17 => [words 1, pad8, wides 1, words 2, pad8, fence]
  | 18 => [pad8, fence, wides 2, words 2]
  | 19 =>
      [pad8, fence, wides 1, words 1, pad8, wides 1, words 1] ++
      since (ver = 12) [words 1] ++
      [pad8, wides 2]
  | _ => []

def mesOffsets (pack8 : Bool) : List MesItem → Nat → Nat → List Nat
  | [], _, _ => []
  | .words count :: items, i, j => List.range' i count ++ mesOffsets pack8 items (i + count) j
  | .wides count :: items, i, j =>
      List.range' i (2 * count) ++ mesOffsets pack8 items (i + 2 * count) j
  | .pad8 :: items, i, j =>
      mesOffsets pack8 items (if pack8 && i % 2 = 0 then i + 1 else i) j
  | .mark :: items, i, _ => mesOffsets pack8 items i i
  | .behindMark size :: items, _, j => mesOffsets pack8 items (j + size) j

/-- The first word of these packets decides on the fields. -/
def mesSelects (ver opcode : Nat) : Bool := opcode = 14 || (opcode = 11 && ver = 12)

def mesFieldOffsets (ver : Nat) (ms : MesPacket) (selector : UInt32) : List Nat :=
  mesOffsets (ver = 12) (mesItems ver ms.opcode.toNat selector.toNat) 0 0

/-! ## The opcode decoder -/

/-- The state is `invalid`; a word that is not stored is a stop. -/
def fetchWord (ms : MesPacket) (off : Nat) : StateT Bool (Except StreamStop) UInt32 := fun invalid =>
  if ms.nwords.toNat ≤ off then .ok (0, true)
  else do
    let word ← orStop ms.words[off]?
    pure (word, invalid)

def fetchAll (ms : MesPacket) : List Nat → StateT Bool (Except StreamStop) Unit
  | [] => pure ()
  | off :: offs => do
      let _ ← fetchWord ms off
      fetchAll ms offs

def fetchFields (ver : Nat) (ms : MesPacket) : StateT Bool (Except StreamStop) Unit := do
  let selector ← if mesSelects ver ms.opcode.toNat then fetchWord ms 0 else pure 0
  fetchAll ms (mesFieldOffsets ver ms selector)

def mesOpcodeName (opcode : UInt32) : String :=
  ["MES_SCH_API_SET_HW_RSRC", "MES_SCH_API_SET_SCHEDULING_CONFIG", "MES_SCH_API_ADD_QUEUE",
    "MES_SCH_API_REMOVE_QUEUE", "MES_SCH_API_PERFORM_YIELD", "MES_SCH_API_SET_GANG_PRIORITY_LEVEL",
    "MES_SCH_API_SUSPEND", "MES_SCH_API_RESUME", "MES_SCH_API_RESET", "MES_SCH_API_SET_LOG_BUFFER",
    "MES_SCH_API_CHANGE_GANG_PRORITY", "MES_SCH_API_QUERY_SCHEDULER_STATUS",
    "MES_SCH_API_PROGRAM_GDS", "MES_SCH_API_SET_DEBUG_VMID", "MES_SCH_API_MISC",
    "MES_SCH_API_UPDATE_ROOT_PAGE_TABLE", "MES_SCH_API_AMD_LOG", "MES_SCH_API_SET_SE_MODE",
    "MES_SCH_API_SET_GANG_SUBMIT", "MES_SCH_API_SET_HW_RSRC_1"].getD opcode.toNat "MES_UNK"

/-- The calls but those for fields, and the packets from the first that was not
decoded. -/
def opcodeLoop (ver : Nat) (ibVmid : UInt32) :
    List MesPacket → Nat → UInt64 → Except StreamStop (List (UiCall MesPacket) × List MesPacket)
  | [], _, _ => .ok ([], [])
  | ms :: next, 0, _ => .ok ([], ms :: next)
  | ms :: next, opcodes + 1, ibAddr =>
      if ms.nwords = 0 then .ok ([], ms :: next)
      else do
        let start := .startOpcode ibAddr ibVmid ms.type ms.opcode 0 ms.nwords
          (mesOpcodeName ms.opcode) ms.header ms.words
        let (_, invalid) ← fetchFields ver ms false
        if invalid then pure ([start], ms :: next)
        else do
          let (further, left) ← opcodeLoop ver ibVmid next opcodes
            (ibAddr + 4 + (4 * (ms.nwords - 1)).toUInt64)
          pure (start :: further, left)

def umrMesDecodeStreamOpcodes (gfx : Option (Nat × Nat)) (stream : List MesPacket) (ibAddr : UInt64)
    (ibVmid : UInt32) (opcodes : UInt64) :
    Except StreamStop (List (UiCall MesPacket) × List MesPacket) :=
  match mesVerMaj gfx with
  | none => .ok ([], [])
  | some ver => do
      let (calls, left) ← opcodeLoop ver ibVmid stream opcodes.toNat ibAddr
      pure (.startIb ibAddr ibVmid 0 0 0 0 :: (calls ++ [.done]), left)

/-! ## What is fetched of a packet -/

/-- The header is counted, but not stored. -/
def FetchesStored (ver : Nat) (ms : MesPacket) : Prop :=
  ms.nwords.toNat - 1 ∉ mesFieldOffsets ver ms (ms.words.getD 0 0)

/-- A field lies behind the words that are counted. -/
def pastEnd (ver : Nat) (ms : MesPacket) : Bool :=
  (mesFieldOffsets ver ms (ms.words.getD 0 0)).any fun off => decide (ms.nwords.toNat ≤ off)

theorem mesItems_plain {ver opcode : Nat} (plain : mesSelects ver opcode = false)
    (selector other : Nat) : mesItems ver opcode selector = mesItems ver opcode other := by
  obtain ⟨notMisc, notQuery⟩ := Bool.or_eq_false_iff.mp plain
  unfold mesItems
  split
  case h_11 =>
    have older : decide (ver = 12) = false := notQuery
    rw [older]
    rfl
  case h_14 => cases notMisc
  all_goals rfl

theorem first_word_fetched {ver opcode : Nat} (selects : mesSelects ver opcode = true)
    (pack8 : Bool) (selector : Nat) :
    0 ∈ mesOffsets pack8 (mesItems ver opcode selector) 0 0 := by
  rcases Bool.or_eq_true_iff.mp selects with misc | query
  · rw [of_decide_eq_true misc]
    exact List.mem_cons_self
  · rw [of_decide_eq_true (Bool.and_eq_true_iff.mp query).1]
    exact List.mem_cons_self

section Fetch
variable {ver : Nat} {ms : MesPacket} (stored : ms.Stored)
include stored

theorem fetchWord_stored {off : Nat} (inside : off + 1 < ms.nwords.toNat) (invalid : Bool) :
    fetchWord ms off invalid = .ok (ms.words.getD off 0, invalid) := by
  have whole : ms.words.length + 1 = ms.nwords.toNat := stored
  have below : off < ms.words.length := by omega
  rw [fetchWord, if_neg (by omega), List.getD_eq_getElem?_getD, List.getElem?_eq_getElem below]
  rfl

theorem fetchWord_last {off : Nat} (last : off + 1 = ms.nwords.toNat) (invalid : Bool) :
    fetchWord ms off invalid = .error .outOfBounds := by
  have whole : ms.words.length + 1 = ms.nwords.toNat := stored
  rw [fetchWord, if_neg (by omega), List.getElem?_eq_none (by omega)]
  rfl

omit stored in
theorem fetchWord_past {off : Nat} (past : ms.nwords.toNat ≤ off) (invalid : Bool) :
    fetchWord ms off invalid = .ok (0, true) := by
  rw [fetchWord, if_pos past]

theorem fetchAll_run {offs : List Nat} : ∀ invalid : Bool,
    fetchAll ms offs invalid =
      if ms.nwords.toNat - 1 ∈ offs then .error .outOfBounds
      else .ok ((), invalid || offs.any fun off => decide (ms.nwords.toNat ≤ off)) := by
  have whole : ms.words.length + 1 = ms.nwords.toNat := stored
  induction offs with
  | nil =>
      intro invalid
      rw [if_neg List.not_mem_nil, List.any_nil, Bool.or_false]
      rfl
  | cons off offs ih =>
      intro invalid
      have other (differs : off + 1 ≠ ms.nwords.toNat) :
          ms.nwords.toNat - 1 ∈ off :: offs ↔ ms.nwords.toNat - 1 ∈ offs := by
        rw [List.mem_cons, or_iff_right (by omega)]
      rw [fetchAll, List.any_cons]
      rcases Nat.lt_trichotomy (off + 1) ms.nwords.toNat with before | last | behind
      · rw [bind_of_ok (fetchWord_stored stored before invalid), ih,
          decide_eq_false (by omega), Bool.false_or]
        simp only [other (Nat.ne_of_lt before)]
      · rw [bind_of_error (fetchWord_last stored last invalid),
          if_pos (List.mem_cons.mpr (Or.inl (by omega)))]
      · rw [bind_of_ok (fetchWord_past (by omega) invalid), ih, decide_eq_true (by omega),
          Bool.true_or, Bool.or_true]
        simp only [other (Nat.ne_of_gt behind)]

theorem fetchFields_run : fetchFields ver ms false =
    if ms.nwords.toNat - 1 ∈ mesFieldOffsets ver ms (ms.words.getD 0 0) then .error .outOfBounds
    else .ok ((), pastEnd ver ms) := by
  have whole : ms.words.length + 1 = ms.nwords.toNat := stored
  rw [fetchFields]
  cases selects : mesSelects ver ms.opcode.toNat with
  | true =>
      rw [if_pos rfl]
      by_cases single : ms.nwords.toNat = 1
      · have fetched : ms.nwords.toNat - 1 ∈ mesFieldOffsets ver ms (ms.words.getD 0 0) := by
          rw [single]
          exact first_word_fetched selects _ _
        rw [if_pos fetched]
        exact bind_of_error (fetchWord_last stored single.symm false)
      · rw [bind_of_ok (fetchWord_stored stored (by omega) false)]
        exact fetchAll_run stored false
  | false =>
      have same : mesFieldOffsets ver ms 0 = mesFieldOffsets ver ms (ms.words.getD 0 0) := by
        rw [mesFieldOffsets, mesFieldOffsets, mesItems_plain selects]
      rw [if_neg Bool.false_ne_true, pastEnd, ← same]
      change fetchAll ms (mesFieldOffsets ver ms 0) false = _
      rw [fetchAll_run stored, Bool.false_or]

end Fetch

/-- The packets up to the first in which a field lies behind the end. -/
def reached (ver : Nat) : List MesPacket → List MesPacket
  | [] => []
  | ms :: next => ms :: if pastEnd ver ms then [] else reached ver next

section Loop
variable {ver : Nat} {ibVmid : UInt32} {ms : MesPacket} {next : List MesPacket}

theorem nwords_ne_zero (stored : ms.Stored) : ms.nwords ≠ 0 := by
  intro zero
  have whole : ms.words.length + 1 = ms.nwords.toNat := stored
  rw [zero] at whole
  exact absurd whole (Nat.succ_ne_zero _)

theorem opcodeLoop_step (stored : ms.Stored) (fetched : FetchesStored ver ms) (opcodes : Nat)
    (ibAddr : UInt64) :
    Ends (opcodeLoop ver ibVmid (ms :: next) (opcodes + 1) ibAddr) ↔
      (pastEnd ver ms = false →
        Ends (opcodeLoop ver ibVmid next opcodes
          (ibAddr + 4 + (4 * (ms.nwords - 1)).toUInt64))) := by
  have run := @fetchFields_run ver ms stored
  rw [if_neg fetched] at run
  rw [opcodeLoop, if_neg (nwords_ne_zero stored), run]
  cases pastEnd ver ms with
  | true => exact iff_of_true (ends_pure _) fun impossible => by cases impossible
  | false =>
      change Ends (opcodeLoop ver ibVmid next opcodes _ >>= _) ↔ _
      refine Iff.trans ends_bind ⟨?_, ?_⟩
      · rintro ⟨further, ran, _⟩ _
        exact ⟨further, ran⟩
      · intro ends
        obtain ⟨further, ran⟩ := ends rfl
        exact ⟨further, ran, ends_pure _⟩

theorem not_ends_opcodeLoop (stored : ms.Stored) (fetched : ¬ FetchesStored ver ms)
    (opcodes : Nat) (ibAddr : UInt64) :
    ¬ Ends (opcodeLoop ver ibVmid (ms :: next) (opcodes + 1) ibAddr) := by
  have run := @fetchFields_run ver ms stored
  rw [if_pos (not_not.mp fetched)] at run
  rw [opcodeLoop, if_neg (nwords_ne_zero stored), run]
  exact not_ends_error _

/-- The decoder reads stored words alone exactly if it does so in each packet it comes
to. -/
theorem opcodeLoop_ends_iff {stream : List MesPacket} : ∀ {count : Nat} {ibAddr : UInt64},
    stream.length ≤ count → (∀ ms ∈ stream, ms.Stored) →
      ((∀ opcodes, opcodes ≤ count → Ends (opcodeLoop ver ibVmid stream opcodes ibAddr)) ↔
        ∀ ms ∈ reached ver stream, FetchesStored ver ms) := by
  induction stream with
  | nil => exact fun _ _ => iff_of_true (fun _ _ => ends_ok _) fun _ member => by cases member
  | cons ms next ih =>
      intro count ibAddr few stored
      obtain ⟨here, behind⟩ := List.forall_mem_cons.mp stored
      rw [List.length_cons] at few
      obtain ⟨count, rfl⟩ : ∃ more, count = more + 1 := ⟨count - 1, by omega⟩
      rw [reached, List.forall_mem_cons]
      by_cases fetched : FetchesStored ver ms
      · rw [and_iff_right fetched]
        have steps : (∀ opcodes, opcodes ≤ count + 1 →
              Ends (opcodeLoop ver ibVmid (ms :: next) opcodes ibAddr)) ↔
            (pastEnd ver ms = false → ∀ opcodes, opcodes ≤ count →
              Ends (opcodeLoop ver ibVmid next opcodes
                (ibAddr + 4 + (4 * (ms.nwords - 1)).toUInt64))) := by
          constructor
          · intro all inside opcodes le
            exact (opcodeLoop_step here fetched opcodes ibAddr).mp (all _ (by omega)) inside
          · intro further opcodes le
            cases opcodes with
            | zero => exact ends_ok _
            | succ opcodes =>
                refine (opcodeLoop_step here fetched opcodes ibAddr).mpr fun inside => ?_
                exact further inside opcodes (by omega)
        rw [steps]
        cases pastEnd ver ms with
        | true => exact iff_of_true (fun impossible => by cases impossible) fun _ member => by cases member
        | false => exact ⟨fun all => (ih (by omega) behind).mp (all rfl),
            fun all _ => (ih (by omega) behind).mpr all⟩
      · refine iff_of_false (fun all => ?_) fun both => fetched both.1
        exact not_ends_opcodeLoop here fetched count ibAddr (all _ (Nat.le_refl _))

end Loop

/-! ## The cut into packets -/

def mesSize (header : UInt32) : Nat := (mesHeader header).nwords.toNat

/-- A header without a size announces more than there is. -/
abbrev mesPayload : UInt32 → List UInt32 → Nat := sizedPayload mesSize

def mesPacket (packet : UInt32 × List UInt32) : MesPacket :=
  { mesHeader packet.1 with words := packet.2 }

def mesFrames (stream : List MesPacket) : List (UInt32 × List UInt32) :=
  (stream.filter fun ms => ms.nwords ≠ 0).map fun ms => (ms.header, ms.words)

theorem mesLoop_cuts {stream : List UInt32} {turns : Nat} : ∀ {offset nwords : Nat},
    mesLoop stream turns offset nwords =
      orStop ((cutPackets mesSize stream turns offset nwords).map (List.map mesPacket)) := by
  induction turns with
  | zero => exact rfl
  | succ turns ih =>
      intro offset nwords
      rw [mesLoop, cutPackets]
      split
      · rfl
      · cases readWord stream offset with
        | none => rfl
        | some header =>
            have zero : (mesHeader header).nwords = 0 ↔ mesSize header = 0 := UInt32.toNat_inj.symm
            change (if nwords < mesSize header ∨ (mesHeader header).nwords = 0 then _ else _) =
              orStop (Option.map _ (if nwords < mesSize header ∨ mesSize header = 0 then _ else _))
            by_cases stop : nwords < mesSize header ∨ mesSize header = 0
            · rw [if_pos stop, if_pos (stop.imp_right zero.mpr)]
              rfl
            · rw [if_neg stop, if_neg fun same => stop (same.imp_right zero.mp)]
              change (orStop (readWords stream (offset + 1) (mesSize header - 1)) >>= fun words =>
                mesLoop stream turns (offset + mesSize header) (nwords - mesSize header) >>= _) = _
              rw [ih]
              cases readWords stream (offset + 1) (mesSize header - 1) with
              | none => rfl
              | some words =>
                  change (orStop ((cutPackets mesSize stream turns (offset + mesSize header)
                    (nwords - mesSize header)).map _) >>= _) = _
                  cases further : cutPackets mesSize stream turns (offset + mesSize header)
                    (nwords - mesSize header) with
                  | none => rfl
                  | some next => rfl

theorem mesPacket_stored {packet : UInt32 × List UInt32}
    (size : packet.2.length + 1 = mesSize packet.1) : (mesPacket packet).Stored := size

theorem mesFrames_packets {packets : List (UInt32 × List UInt32)}
    (sizes : ∀ packet ∈ packets, packet.2.length + 1 = mesSize packet.1) :
    mesFrames (packets.map mesPacket) = packets := by
  have some_ : ∀ ms ∈ packets.map mesPacket, decide (ms.nwords ≠ 0) = true := by
    intro ms member
    obtain ⟨packet, among, rfl⟩ := List.mem_map.mp member
    exact decide_eq_true (nwords_ne_zero (mesPacket_stored (sizes packet among)))
  rw [mesFrames, List.filter_eq_self.mpr some_, List.map_map]
  exact List.map_id _

/-- The packets are the cut of the stream, and of each the opcode decoder reads
stored words alone. -/
def MesDecodes (gfx : Option (Nat × Nat)) (stream : List UInt32) : Prop :=
  ∃ decoded, umrMesDecodeStream gfx stream = .ok decoded ∧
    (∃ rest, Framed mesPayload stream (mesFrames decoded) rest) ∧
    ∀ ibAddr ibVmid opcodes, Ends (umrMesDecodeStreamOpcodes gfx decoded ibAddr ibVmid opcodes)

section Result
variable {gfx : Option (Nat × Nat)} {ver : Nat} (supported : mesVerMaj gfx = some ver)
  {stream : List UInt32}
include supported

theorem umrMesDecodeStream_frames : ∃ decoded packets rest,
    umrMesDecodeStream gfx stream = .ok decoded ∧
      Framed mesPayload stream packets rest ∧ mesFrames decoded = packets ∧
      (decoded = packets.map mesPacket ∨ packets = [] ∧ decoded = [zeroMes]) ∧
      ∀ ms ∈ packets.map mesPacket, ms.Stored := by
  rw [umrMesDecodeStream, supported]
  dsimp only
  by_cases empty : stream.length = 0
  · rw [if_pos empty, List.length_eq_zero_iff.mp empty]
    exact ⟨_, [], [], rfl, framed_nil, rfl, Or.inr ⟨rfl, rfl⟩, fun _ member => by cases member⟩
  · rw [if_neg empty]
    obtain ⟨packets, rest, run, framed, sizes⟩ :=
      @cutPackets_frames _ mesSize stream stream.length 0 stream.length (Nat.le_refl _) (Nat.le_refl _)
    rw [List.drop_zero, List.take_length] at framed
    refine ⟨packets.map mesPacket, packets, rest, ?_, framed, mesFrames_packets sizes, Or.inl rfl, ?_⟩
    · rw [mesLoop_cuts, run]
      rfl
    · intro ms member
      obtain ⟨packet, among, rfl⟩ := List.mem_map.mp member
      exact mesPacket_stored (sizes packet among)

theorem opcodes_end_iff {decoded : List MesPacket} (few : decoded.length < 2 ^ 64)
    (stored : ∀ ms ∈ decoded, ms.Stored) :
    (∀ ibAddr ibVmid opcodes, Ends (umrMesDecodeStreamOpcodes gfx decoded ibAddr ibVmid opcodes)) ↔
      ∀ ms ∈ reached ver decoded, FetchesStored ver ms := by
  have ends_iff (ibAddr : UInt64) (ibVmid : UInt32) (opcodes : UInt64) :
      Ends (umrMesDecodeStreamOpcodes gfx decoded ibAddr ibVmid opcodes) ↔
        Ends (opcodeLoop ver ibVmid decoded opcodes.toNat ibAddr) := by
    rw [umrMesDecodeStreamOpcodes, supported]
    refine Iff.trans ends_bind ⟨?_, ?_⟩
    · rintro ⟨run, ran, _⟩
      exact ⟨run, ran⟩
    · rintro ⟨run, ran⟩
      exact ⟨run, ran, ends_pure _⟩
  have bound : decoded.length ≤ 2 ^ 64 - 1 := by omega
  constructor
  · intro all
    refine (@opcodeLoop_ends_iff ver 0 decoded (2 ^ 64 - 1) 0 bound stored).mp fun opcodes le => ?_
    have same : (UInt64.ofNat opcodes).toNat = opcodes := by
      rw [UInt64.toNat_ofNat']
      omega
    rw [← same]
    exact (ends_iff 0 0 _).mp (all 0 0 _)
  · intro all ibAddr ibVmid opcodes
    refine (ends_iff ibAddr ibVmid opcodes).mpr ?_
    refine (opcodeLoop_ends_iff bound stored).mpr all opcodes.toNat ?_
    have narrow := opcodes.toNat_lt
    omega

/-- A packet that is cut off behind the words its fields begin with has the field at
its end fetched. -/
theorem mesDecodes_iff (counted : stream.length < 2 ^ 32) :
    MesDecodes gfx stream ↔
      ∃ packets rest, Framed mesPayload stream packets rest ∧
        ∀ ms ∈ reached ver (packets.map mesPacket), FetchesStored ver ms := by
  obtain ⟨decoded, packets, rest, run, framed, isCut, nodes, stored⟩ :=
    @umrMesDecodeStream_frames gfx ver supported stream
  have few : (packets.map mesPacket).length < 2 ^ 64 := by
    have le := framed.length_le
    rw [List.length_map]
    omega
  have decodes : MesDecodes gfx stream ↔ ∀ ms ∈ reached ver (packets.map mesPacket),
      FetchesStored ver ms := by
    rcases nodes with rfl | ⟨rfl, rfl⟩
    · rw [← opcodes_end_iff supported few stored]
      constructor
      · rintro ⟨others, ran, _, ends⟩
        rw [run] at ran
        cases ran
        exact ends
      · exact fun ends => ⟨_, run, ⟨rest, isCut.symm ▸ framed⟩, ends⟩
    · refine iff_of_true ⟨_, run, ⟨rest, isCut.symm ▸ framed⟩, fun ibAddr ibVmid opcodes => ?_⟩
        fun _ member => by cases member
      rw [umrMesDecodeStreamOpcodes, supported]
      cases opcodes.toNat <;> exact ends_pure _
  rw [decodes]
  constructor
  · exact fun all => ⟨packets, rest, framed, all⟩
  · rintro ⟨others, left, again, all⟩
    rw [(framed.unique again).1]
    exact all

end Result

/-- `MESAPI__PERFORM_YIELD` with all its words, and with the last cut off. -/
def yieldWhole : List UInt32 := [0x6041, 0, 1, 2, 3, 4]

def yieldCut : List UInt32 := [0x5041, 0, 1, 2, 3]

theorem mesDecodes_yieldWhole : mesVerMaj (some (11, 0)) = some 11 ∧ yieldWhole.length < 2 ^ 32 ∧
    MesDecodes (some (11, 0)) yieldWhole := by
  have framed : Framed mesPayload yieldWhole [(0x6041, [0, 1, 2, 3, 4])] [] :=
    .packet 0x6041 [0, 1, 2, 3, 4] [] [] [] (by decide) framed_nil
  refine ⟨rfl, by decide, (mesDecodes_iff rfl (by decide)).mpr ⟨_, _, framed, ?_⟩⟩
  unfold FetchesStored
  decide

/-- The fifth word fetched is the size of the packet away from its header, and what
is stored has four words. -/
theorem not_mesDecodes_yieldCut : ¬ MesDecodes (some (11, 0)) yieldCut := by
  rintro ⟨decoded, run, _, ends⟩
  have packets : umrMesDecodeStream (some (11, 0)) yieldCut =
      .ok [⟨1, 4, 0x5041, 5, [0, 1, 2, 3]⟩] := by decide
  rw [packets] at run
  cases run
  have stopped : umrMesDecodeStreamOpcodes (some (11, 0)) [⟨1, 4, 0x5041, 5, [0, 1, 2, 3]⟩] 0 0 1 =
      .error .outOfBounds := by decide
  have ended := ends 0 0 1
  rw [stopped] at ended
  exact not_ends_error _ ended

end Umr.Packet.Mes
