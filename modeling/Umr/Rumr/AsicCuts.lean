import Umr.Rumr.AsicOverread

/-!
# Which cuts a serialized ASIC survives

What `rumr_parse_serialized_asic` may make of a strict prefix of a serialized
ASIC, and the exact cuts for which it does.
-/

set_option autoImplicit false

namespace Umr.Rumr

open Umr.Lib

/-! ## What may become of an item -/

def KeptOr {α : Type} (blank full part : α) : Prop := part = full ∨ part = blank

/-- A list whose count was lost is empty, any other has all its items. -/
def ListCutTo {α : Type} (itemCutTo : α → α → Prop) (full part : List α) : Prop :=
  part = [] ∨ List.Forall₂ itemCutTo full part

def Bitfield.blank : Bitfield := ⟨emptyName, 0, 0⟩

def Reg.blank : Reg := ⟨emptyName, 0, 0, 0, []⟩

def IpBlock.blank : IpBlock := ⟨emptyName, ⟨0, 0, 0, 0, 0, 0⟩, []⟩

/-- The register is the full one or blank, and so is each of its bit-fields. -/
structure Reg.CutTo (full part : Reg) : Prop where
  whole : KeptOr Reg.blank full part
  bits : ListCutTo (KeptOr Bitfield.blank) full.bits part.bits

structure IpBlock.CutTo (full part : IpBlock) : Prop where
  whole : KeptOr IpBlock.blank full part
  regs : ListCutTo Reg.CutTo full.regs part.regs

structure SerializedAs (buf : RumrBuffer) (asic : AsicModel) : Prop where
  readable : buf.Readable
  unreadYet : buf.roffset = 0
  bytes : buf.written = asic.chunks.flatten

/-- A buffer with fewer of the same bytes, whose allocation has a 32-bit size. -/
structure StrictPrefix (cut buf : RumrBuffer) : Prop where
  readable : cut.Readable
  unreadYet : cut.roffset = 0
  allocated : cut.data.length < 2 ^ 32
  bytes : cut.written <+: buf.written
  shorter : cut.written.length < buf.written.length

/-- The parser returns `NULL`, or an ASIC of which every block, register and
bit-field is that of the full parse or blank.  A field is read whole or not at all,
so a byte of the field that is cut can have gone into another field only: what is
left of that field is left unread. -/
def SurvivesCut (asic : AsicModel) (buf cut : RumrBuffer) : Prop :=
  match rumrParseSerializedAsic cut with
  | none => False
  | some (none, _) => True
  | some (some part, rest) =>
      (∃ full after, rumrParseSerializedAsic buf = some (some full, after) ∧
        ListCutTo IpBlock.CutTo full.model.blocks part.model.blocks) ∧
      rest.unread.length = leftover asic.chunks cut.written.length

def Zeros (chunk : List UInt8) : Prop := ∀ byte ∈ chunk, byte = 0

/-- Of every block nothing but zeros is kept, or nothing but zeros is lost. -/
def BlocksWhole (n : Nat) : Nat → List IpBlock → Prop
  | _, [] => True
  | start, block :: blocks =>
      (KeptBlank Zeros n start block.chunks ∨ LostBlank Zeros n start block.chunks) ∧
        BlocksWhole n (start + block.bytes.length) blocks

/-! ## Fields of zeros -/

section Zeros

theorem zeros_wordBytes_iff (value : UInt32) : Zeros (wordBytes value) ↔ value = 0 := by
  constructor
  · intro zeros
    have bytes : wordBytes value = [0, 0, 0, 0] := List.eq_replicate_of_mem zeros
    rw [← bytesWord_wordBytes value, bytes]
    rfl
  · rintro rfl
    have bytes : wordBytes 0 = List.replicate 4 0 := by decide
    rw [bytes]
    exact fun byte member => List.eq_of_mem_replicate member

theorem zeros_nameField_iff {width : Nat} (name : CString) (small : width ≤ 256)
    (fits : name.bytes.length ≤ width) : Zeros (nameField width name) ↔ name = emptyName := by
  rw [nameField_eq width name small fits]
  constructor
  · intro zeros
    obtain ⟨bytes, noNul⟩ := name
    rw [emptyName, CString.mk.injEq]
    refine List.eq_nil_iff_forall_not_mem.mpr fun byte member => ?_
    exact noNul byte member (zeros byte (List.mem_append_left _ member))
  · rintro rfl
    exact fun byte member => List.eq_of_mem_replicate member

theorem joinWords_eq_iff (lo hi : UInt32) (value : UInt64) :
    joinWords lo hi = value ↔ lo = loWord value ∧ hi = hiWord value := by
  rw [← UInt64.toNat_inj, ← UInt32.toNat_inj, ← UInt32.toNat_inj, joinWords_toNat, loWord_toNat,
    hiWord_toNat]
  have low : lo.toNat < 2 ^ 32 := lo.toNat_lt
  omega

theorem uint8_eq_zero_iff (value : UInt8) : value.toUInt32 = 0 ↔ value = 0 :=
  @UInt8.toUInt32_inj value 0

theorem bit64_eq_zero_iff {value : UInt64} (small : value.toNat < 2 ^ 32) :
    value.toUInt32 = 0 ↔ value = 0 := by
  rw [← UInt32.toNat_inj, ← UInt64.toNat_inj, UInt64.toNat_toUInt32, Nat.mod_eq_of_lt small]
  rfl

theorem count_eq_zero_iff {α : Type} {items : List α} (few : items.length < 2 ^ 31) :
    UInt32.ofNat items.length = 0 ↔ items = [] := by
  rw [← UInt32.toNat_inj, ofNat_toNat_of_lt (by omega)]
  exact List.length_eq_zero_iff

end Zeros

/-! ## Whole items -/

section Items
variable {n start : Nat}

theorem held_keptOr {α : Type} (blank value : α) (stop n : Nat) :
    KeptOr blank value (held blank value stop n) := by
  unfold held
  split
  · exact Or.inl rfl
  · exact Or.inr rfl

theorem Bitfield.cutAt_eq_self_iff (bit : Bitfield) (fits : bit.Fits) (start : Nat) :
    bit.cutAt n start = bit ↔ LostBlank Zeros n start bit.chunks := by
  obtain ⟨regname, first, last⟩ := bit
  have name := zeros_nameField_iff regname (show 128 ≤ 256 by decide) fits
  have nameLength := nameField_length (show 128 ≤ 256 by decide) regname
  simp only [Bitfield.cutAt, Bitfield.chunks, LostBlank, BlankWhere, Bitfield.mk.injEq,
    held_eq_value_iff, zeros_wordBytes_iff, name, nameLength, wordBytes_length, Nat.add_assoc,
    Nat.reduceAdd, and_true, uint8_eq_zero_iff]

theorem Reg.cutAt_eq_self_iff (reg : Reg) (fits : reg.Fits) (start : Nat) :
    reg.cutAt n start = reg ↔ LostBlank Zeros n start reg.chunks := by
  have bits : (reg.cutAt n start).bits = reg.bits ↔ _ :=
    counted_eq_self_iff fun bit member => bit.cutAt_eq_self_iff (fits.bits bit member)
  have flag := bit64_eq_zero_iff fits.bit64
  have count := count_eq_zero_iff fits.count
  obtain ⟨regname, type, addr, bit64, items⟩ := reg
  have name := zeros_nameField_iff regname (show 128 ≤ 256 by decide) fits.regname
  have nameLength := nameField_length (show 128 ≤ 256 by decide) regname
  simp only [Reg.cutAt] at bits
  simp only [Reg.cutAt, Reg.chunks, Reg.mk.injEq, bits]
  simp only [LostBlank, BlankWhere, held_eq_value_iff, joinWords_eq_iff, zeros_wordBytes_iff, name,
    nameLength, wordBytes_length, flag, count, Nat.add_assoc, Nat.reduceAdd, and_assoc]

theorem IpBlock.cutAt_eq_self_iff (block : IpBlock) (fits : block.Fits) (start : Nat) :
    block.cutAt n start = block ↔ LostBlank Zeros n start block.chunks := by
  have regs : (block.cutAt n start).regs = block.regs ↔ _ :=
    counted_eq_self_iff fun reg member => reg.cutAt_eq_self_iff (fits.regs reg member)
  have count := count_eq_zero_iff fits.count
  obtain ⟨ipname, ⟨die, maj, min, rev, instance_, logicalInst⟩, items⟩ := block
  have name := zeros_nameField_iff ipname (show 64 ≤ 256 by decide) fits.ipname
  have nameLength := nameField_length (show 64 ≤ 256 by decide) ipname
  simp only [IpBlock.cutAt] at regs
  simp only [IpBlock.cutAt, IpBlock.chunks, IpBlock.mk.injEq, regs, Discoverable.cutAt,
    Discoverable.mk.injEq, Discoverable.chunks, List.cons_append, List.nil_append]
  simp only [LostBlank, BlankWhere, held_eq_value_iff, zeros_wordBytes_iff, name,
    nameLength, wordBytes_length, count, Nat.add_assoc, Nat.reduceAdd, and_assoc, and_left_comm]

theorem IpBlock.cutAt_eq_blank_iff (block : IpBlock) (fits : block.Fits) (start : Nat) :
    block.cutAt n start = IpBlock.blank ↔ KeptBlank Zeros n start block.chunks := by
  have regs : (block.cutAt n start).regs = [] ↔ (start + 68 ≤ n → block.regs = []) ∧
      KeptBlank Zeros n (start + 92) (block.regs.flatMap Reg.chunks) :=
    counted_eq_nil_iff (by omega)
  have count := count_eq_zero_iff fits.count
  obtain ⟨ipname, ⟨die, maj, min, rev, instance_, logicalInst⟩, items⟩ := block
  have name := zeros_nameField_iff ipname (show 64 ≤ 256 by decide) fits.ipname
  have nameLength := nameField_length (show 64 ≤ 256 by decide) ipname
  simp only [IpBlock.cutAt] at regs
  simp only [IpBlock.cutAt, IpBlock.chunks, IpBlock.blank, IpBlock.mk.injEq, regs,
    Discoverable.cutAt, Discoverable.mk.injEq, Discoverable.chunks, List.cons_append,
    List.nil_append]
  simp only [KeptBlank, BlankWhere, held_eq_blank_iff, zeros_wordBytes_iff, name,
    nameLength, wordBytes_length, count, Nat.add_assoc, Nat.reduceAdd, and_assoc, and_left_comm]

theorem Reg.cutTo_self (reg : Reg) : reg.CutTo reg :=
  ⟨Or.inl rfl, Or.inr (List.forall₂_same.mpr fun _ _ => Or.inl rfl)⟩

theorem IpBlock.cutTo_iff (full part : IpBlock) :
    full.CutTo part ↔ KeptOr IpBlock.blank full part := by
  refine ⟨IpBlock.CutTo.whole, fun whole => ⟨whole, ?_⟩⟩
  rcases whole with rfl | rfl
  · exact Or.inr (List.forall₂_same.mpr fun reg _ => reg.cutTo_self)
  · exact Or.inl rfl

theorem IpBlock.cutAt_cutTo_iff (block : IpBlock) (fits : block.Fits) (start : Nat) :
    block.CutTo (block.cutAt n start) ↔
      KeptBlank Zeros n start block.chunks ∨ LostBlank Zeros n start block.chunks := by
  rw [block.cutTo_iff, KeptOr, block.cutAt_eq_self_iff fits, block.cutAt_eq_blank_iff fits]
  exact or_comm

theorem blocks_forall₂_iff (blocks : List IpBlock) : (∀ block ∈ blocks, block.Fits) → ∀ start,
    (List.Forall₂ IpBlock.CutTo blocks
      (cutMany (fun block => block.bytes.length) (IpBlock.cutAt n) start blocks) ↔
    BlocksWhole n start blocks) := by
  induction blocks with
  | nil => exact fun _ start => iff_of_true .nil trivial
  | cons block blocks ih =>
      intro fits start
      rw [cutMany, BlocksWhole, List.forall₂_cons,
        block.cutAt_cutTo_iff (fits block (List.mem_cons_self ..)),
        ih fun block member => fits block (List.mem_cons_of_mem _ member)]

theorem blocksWhole_behind (blocks : List IpBlock) : ∀ start, n < start →
    BlocksWhole n start blocks := by
  induction blocks with
  | nil => exact fun _ _ => trivial
  | cons block blocks ih =>
      exact fun start behind => ⟨Or.inl (keptBlank_behind behind), ih _ (by omega)⟩

theorem AsicModel.cutAt_blocks_iff (asic : AsicModel) (fits : asic.Fits) :
    ListCutTo IpBlock.CutTo asic.blocks (asic.cutAt n).blocks ↔
      BlocksWhole n 2160 asic.blocks := by
  unfold AsicModel.cutAt
  dsimp only
  split
  · rw [← blocks_forall₂_iff asic.blocks fits.blocks]
    refine ⟨?_, Or.inr⟩
    rintro (none | all)
    · rw [cutMany_eq_nil_iff.mp none]
      exact .nil
    · exact all
  · exact iff_of_true (Or.inl rfl) (blocksWhole_behind _ _ (by omega))

theorem blankConfig_revision : blankConfig.word 0 = 0 := by decide

end Items

/-! ## A cut inside the name of the ASIC -/

section Name
variable {origin buf : RumrBuffer}

def firstWord (bytes : List UInt8) : UInt32 :=
  if 4 ≤ bytes.length then bytesWord (bytes.take 4) else 0

def behindWord (bytes : List UInt8) : List UInt8 :=
  if 4 ≤ bytes.length then bytes.drop 4 else bytes

def announcedSize (bytes : List UInt8) : UInt32 :=
  if 16 ≤ bytes.length then bytesWord ((bytes.drop 12).take 4) else 0

theorem behindWord_length_le (bytes : List UInt8) :
    (behindWord bytes).length ≤ bytes.length := by
  unfold behindWord
  split
  · rw [List.length_drop]
    omega
  · exact Nat.le_refl _

theorem behindWord_length_lt {bytes : List UInt8} {bound : Nat} (wide : 4 ≤ bound)
    (short : bytes.length < bound + 4) : (behindWord bytes).length < bound := by
  unfold behindWord
  split
  · rw [List.length_drop]
    omega
  · omega

theorem firstWord_thrice (bytes : List UInt8) :
    firstWord (behindWord (behindWord (behindWord bytes))) = announcedSize bytes := by
  by_cases long : 12 ≤ bytes.length
  · have once : behindWord bytes = bytes.drop 4 := if_pos (by omega)
    have twice : behindWord (bytes.drop 4) = bytes.drop 8 := by
      rw [behindWord, if_pos (by rw [List.length_drop]; omega), List.drop_drop]
    have thrice : behindWord (bytes.drop 8) = bytes.drop 12 := by
      rw [behindWord, if_pos (by rw [List.length_drop]; omega), List.drop_drop]
    rw [once, twice, thrice, firstWord, announcedSize, List.length_drop]
    by_cases there : 16 ≤ bytes.length
    · rw [if_pos there, if_pos (by omega)]
    · rw [if_neg there, if_neg (by omega)]
  · have once : (behindWord bytes).length < 8 := behindWord_length_lt (by decide) (by omega)
    have twice : (behindWord (behindWord bytes)).length < 4 :=
      behindWord_length_lt (Nat.le_refl 4) once
    have thrice := behindWord_length_le (behindWord (behindWord bytes))
    have short : ¬4 ≤ (behindWord (behindWord (behindWord bytes))).length := by omega
    rw [firstWord, announcedSize, if_neg short, if_neg (by omega)]

theorem rumrBufferReadUint32_run (from_ : origin.ReadFrom buf)
    (room : 4 < origin.input.slack) :
    ∃ next, rumrBufferReadUint32 buf = some (firstWord buf.unread, next) ∧ origin.ReadFrom next ∧
      next.unread = behindWord buf.unread := by
  unfold firstWord behindWord
  by_cases enough : 4 ≤ buf.unread.length
  · have length : (buf.unread.take 4).length = (4 : UInt32).toNat := by
      rw [List.length_take, Nat.min_eq_left enough]
      rfl
    have reads := (rumrBufferReadData_reads origin 4 (buf.unread.take 4) length).map bytesWord
    rw [if_pos enough, if_pos enough]
    exact reads buf (buf.unread.drop 4) from_ (List.take_append_drop 4 buf.unread).symm
  · have short : (origin.input.unread buf).length < 4 := Nat.lt_of_not_le enough
    rw [if_neg enough, if_neg enough]
    exact ⟨buf, rumrBufferReadUint32_refuses buf from_ short (by omega), from_, rfl⟩

theorem parseHead_run (from_ : origin.ReadFrom buf) (room : 4 < origin.input.slack)
    (asicname : CString) :
    ∃ did family vgprGranularity middle, parseHead asicname buf =
        parseConfig asicname did family vgprGranularity (announcedSize buf.unread) middle ∧
      origin.ReadFrom middle ∧
      (4 ≤ buf.unread.length → middle.unread.length < buf.unread.length) := by
  obtain ⟨first, runFirst, fromFirst, unreadFirst⟩ := rumrBufferReadUint32_run from_ room
  obtain ⟨second, runSecond, fromSecond, unreadSecond⟩ := rumrBufferReadUint32_run fromFirst room
  obtain ⟨third, runThird, fromThird, unreadThird⟩ := rumrBufferReadUint32_run fromSecond room
  obtain ⟨fourth, runFourth, fromFourth, unreadFourth⟩ := rumrBufferReadUint32_run fromThird room
  rw [unreadThird, unreadSecond, unreadFirst, firstWord_thrice] at runFourth
  refine ⟨firstWord buf.unread, firstWord first.unread, firstWord second.unread, fourth, ?_,
    fromFourth, ?_⟩
  · change (rumrBufferReadUint32 buf).bind _ = _
    rw [runFirst]
    change (rumrBufferReadUint32 first).bind _ = _
    rw [runSecond]
    change (rumrBufferReadUint32 second).bind _ = _
    rw [runThird]
    change (rumrBufferReadUint32 third).bind _ = _
    rw [runFourth]
    rfl
  · intro enough
    have taken : first.unread.length < buf.unread.length := by
      rw [unreadFirst, behindWord, if_pos enough, List.length_drop]
      omega
    have secondLe := behindWord_length_le first.unread
    have thirdLe := behindWord_length_le second.unread
    have fourthLe := behindWord_length_le third.unread
    rw [← unreadSecond] at secondLe
    rw [← unreadThird] at thirdLe
    rw [← unreadFourth] at fourthLe
    omega

end Name

/-! ## Every cut -/

theorem parseConfig_some {asicname : CString} {did family vgprGranularity v : UInt32}
    {buf rest : RumrBuffer} {result : Option AsicModel} (known : v ≤ 2048)
    (run : parseConfig asicname did family vgprGranularity v buf = some (result, rest)) :
    ∃ model, result = some model := by
  rw [parseConfig, if_pos known] at run
  obtain ⟨data, middle, _, tailRun⟩ := bind_eq_some run
  obtain ⟨model, last, _, pureRun⟩ := bind_eq_some tailRun
  cases pureRun
  exact ⟨model, rfl⟩

/-- Nothing comes of a parse that took bytes of the field that is cut. -/
theorem not_survivesCut {asic : AsicModel} {buf cut : RumrBuffer}
    (took : ∀ result rest, parseFields cut = some (result, rest) →
      (∃ model, result = some model) ∧
        rest.unread.length < leftover asic.chunks cut.written.length) :
    ¬SurvivesCut asic buf cut := by
  unfold SurvivesCut rumrParseSerializedAsic
  cases fields : parseFields cut with
  | none => exact fun impossible => impossible
  | some pair =>
      obtain ⟨result, rest⟩ := pair
      obtain ⟨⟨model, rfl⟩, shorter⟩ := took result rest fields
      dsimp only
      cases umrScanConfigGcaData (ParsedAsic.fresh model) with
      | none => exact fun impossible => impossible
      | some part =>
          rintro ⟨_, untouched⟩
          omega

section Cut
variable {asic : AsicModel} {buf cut : RumrBuffer}

theorem StrictPrefix.unread_eq (isPrefix : StrictPrefix cut buf) : cut.unread = cut.written := by
  rw [RumrBuffer.unread, isPrefix.unreadYet]
  rfl

theorem cut_written (serialized : SerializedAs buf asic) (isPrefix : StrictPrefix cut buf) :
    cut.written = asic.chunks.flatten.take cut.written.length := by
  rw [← serialized.bytes]
  exact List.prefix_iff_eq_take.mp isPrefix.bytes

theorem cut_shorter (serialized : SerializedAs buf asic) (isPrefix : StrictPrefix cut buf) :
    cut.written.length < asic.chunks.flatten.length := by
  rw [← serialized.bytes]
  exact isPrefix.shorter

theorem cut_room (serialized : SerializedAs buf asic) (isPrefix : StrictPrefix cut buf) :
    asic.chunks.flatten.length < cut.written.length + cut.input.slack := by
  have length := isPrefix.readable.written_length
  have total := serialized.readable.written_length
  have bound : buf.woffset.toNat < 2 ^ 32 := buf.woffset.toNat_lt
  have cutBound : cut.woffset.toNat < 2 ^ 32 := cut.woffset.toNat_lt
  rw [serialized.bytes] at total
  change _ < _ + (2 ^ 32 - cut.woffset.toNat)
  omega

/-- The serializer returns such buffers. -/
theorem rumrSerializeAsic_serializedAs {heap : Nat → Bool}
    (granted : ∀ request, heap request = true) (able : asic.Serializable) :
    ∃ buf, rumrSerializeAsic heap asic = some (some buf) ∧ SerializedAs buf asic := by
  obtain ⟨buf, serialized, inv, roffset, written⟩ := rumrSerializeAsic_written granted asic able
  exact ⟨buf, serialized, inv.readable, roffset, written⟩

theorem parse_serialized (able : asic.Serializable) (serialized : SerializedAs buf asic) :
    ∃ full after, rumrParseSerializedAsic buf = some (some full, after) ∧
      full.model = { asic with isApu := asic.parsedApu } := by
  have unread : buf.unread = asic.chunks.flatten ++ [] := by
    rw [RumrBuffer.unread, serialized.unreadYet, serialized.bytes, List.append_nil]
    rfl
  obtain ⟨after, read, _, _⟩ := parseFields_reads buf asic able.fits buf []
    serialized.readable.readFrom unread
  obtain ⟨full, scanned, model⟩ := umrScanConfigGcaData_model asic able.version
  refine ⟨full, after, ?_, model⟩
  simp only [rumrParseSerializedAsic, read, scanned]

theorem parse_harmless (able : asic.Serializable) (serialized : SerializedAs buf asic)
    (isPrefix : StrictPrefix cut buf) (harmless : leftover asic.chunks cut.written.length < 4) :
    ∃ part rest, rumrParseSerializedAsic cut = some (some part, rest) ∧
      part.model = { asic.cutAt cut.written.length with
        isApu := (asic.cutAt cut.written.length).parsedApu } ∧
      rest.unread.length = leftover asic.chunks cut.written.length := by
  have standing : Standing cut.input (leftover asic.chunks cut.written.length) cut
      (asic.chunks ++ []) (cut.written.length - 0) := by
    rw [List.append_nil]
    refine ⟨isPrefix.readable.readFrom, Or.inl ⟨?_, cut_shorter serialized isPrefix, rfl⟩, ?_⟩
    · exact isPrefix.unread_eq.trans (cut_written serialized isPrefix)
    · change _ < cut.unread.length + _
      rw [isPrefix.unread_eq]
      exact cut_room serialized isPrefix
  obtain ⟨rest, read, behind⟩ := parseFields_takes harmless asic able.fits cut [] standing
  have known : (asic.cutAt cut.written.length).configData.word 0 ≤ 5 := by
    rcases held_keptOr blankConfig asic.configData 2128 cut.written.length with same | lost
    · change (held blankConfig asic.configData 2128 cut.written.length).word 0 ≤ 5
      rw [same]
      exact able.version
    · change (held blankConfig asic.configData 2128 cut.written.length).word 0 ≤ 5
      rw [lost, blankConfig_revision]
      decide
  obtain ⟨part, scanned, model⟩ := umrScanConfigGcaData_model _ known
  refine ⟨part, rest, ?_, model, ?_⟩
  · simp only [rumrParseSerializedAsic, read, scanned]
  · rcases behind.ahead with ⟨_, inside, _⟩ | ⟨_, remains⟩
    · exact absurd inside (Nat.not_lt_zero _)
    · exact remains

theorem parse_named (isPrefix : StrictPrefix cut buf) (enough : 4 ≤ cut.written.length)
    (inside : cut.written.length < 64) :
    ∃ did family vgprGranularity middle, parseFields cut =
        parseConfig emptyName did family vgprGranularity (announcedSize cut.written) middle ∧
      cut.ReadFrom middle ∧ middle.unread.length < cut.written.length := by
  have from_ := isPrefix.readable.readFrom
  have length := isPrefix.readable.written_length
  have room : 64 < cut.input.slack := by
    change 64 < 2 ^ 32 - cut.woffset.toNat
    omega
  have short : (cut.input.unread cut).length < (64 : UInt32).toNat := by
    change cut.unread.length < 64
    rw [isPrefix.unread_eq]
    exact inside
  have refused : parseName 64 cut = some (emptyName, cut) := by
    refine parseName_refuses 64 cut from_ short ?_
    change 64 < _ + _
    omega
  obtain ⟨did, family, vgprGranularity, middle, run, fromMiddle, taken⟩ :=
    parseHead_run from_ (by omega) emptyName
  rw [isPrefix.unread_eq] at run taken
  refine ⟨did, family, vgprGranularity, middle, ?_, fromMiddle, taken enough⟩
  rw [parseFields_eq, ← run]
  change (parseName 64 cut).bind _ = _
  rw [refused]
  rfl

def AsicModel.leadChunks (asic : AsicModel) : List (List UInt8) :=
  [nameField 64 asic.asicname, wordBytes asic.did, wordBytes asic.family,
    wordBytes asic.vgprGranularity, wordBytes 2048]

theorem leadChunks_length (asic : AsicModel) : asic.leadChunks.flatten.length = 80 := by
  simp only [AsicModel.leadChunks, List.flatten_cons, List.flatten_nil, List.length_append,
    List.length_nil, wordBytes_length, nameField_length (by decide : 64 ≤ 256)]

theorem chunks_eq_lead (asic : AsicModel) :
    asic.chunks = asic.leadChunks ++ (asic.configData.bytes :: asic.tailChunks) := rfl

/-- Behind the name a cut that leaves a word lies behind the words that follow. -/
theorem deep_behind_words (behindName : 64 ≤ cut.written.length)
    (deep : 4 ≤ leftover asic.chunks cut.written.length) : 80 ≤ cut.written.length := by
  have nameLength : (nameField 64 asic.asicname).length = 64 := nameField_length (by decide) _
  have lead := leadChunks_length asic
  by_contra inside
  rw [chunks_eq_lead, leftover_append_left _ (by omega), AsicModel.leadChunks,
    leftover_behind (by omega), nameLength] at deep
  have few : leftover [wordBytes asic.did, wordBytes asic.family,
      wordBytes asic.vgprGranularity, wordBytes 2048] (cut.written.length - 64) < 4 :=
    leftover_lt_grain (words_short [_, _, _, _]) (by
      change _ < 16
      omega)
  exact absurd few (Nat.not_lt.mpr deep)

theorem parse_behindLead (able : asic.Serializable) (serialized : SerializedAs buf asic)
    (isPrefix : StrictPrefix cut buf) (behind : 80 ≤ cut.written.length) :
    ∃ middle, parseFields cut = parseConfig asic.asicname asic.did asic.family
        asic.vgprGranularity 2048 middle ∧ cut.ReadFrom middle ∧
      middle.unread =
        (asic.configData.bytes :: asic.tailChunks).flatten.take (cut.written.length - 80) := by
  have word := rumrBufferReadUint32_reads cut
  have lead := leadChunks_length asic
  have unread : cut.unread = nameField 64 asic.asicname ++ (wordBytes asic.did ++
      (wordBytes asic.family ++ (wordBytes asic.vgprGranularity ++ (wordBytes 2048 ++
        (asic.configData.bytes :: asic.tailChunks).flatten.take (cut.written.length - 80))))) := by
    have split := cut_written serialized isPrefix
    rw [chunks_eq_lead, take_flatten_append_right _ (by omega), lead] at split
    rw [isPrefix.unread_eq]
    refine split.trans ?_
    simp only [AsicModel.leadChunks, List.flatten_cons, List.flatten_nil, List.append_nil,
      List.append_assoc]
  obtain ⟨named, runName, fromName, unreadName⟩ := parseName_reads cut 64 asic.asicname (by decide)
    able.fits.asicname cut _ isPrefix.readable.readFrom unread
  obtain ⟨first, runFirst, fromFirst, unreadFirst⟩ := word asic.did named _ fromName unreadName
  obtain ⟨second, runSecond, fromSecond, unreadSecond⟩ :=
    word asic.family first _ fromFirst unreadFirst
  obtain ⟨third, runThird, fromThird, unreadThird⟩ :=
    word asic.vgprGranularity second _ fromSecond unreadSecond
  obtain ⟨middle, runFourth, fromMiddle, unreadMiddle⟩ := word 2048 third _ fromThird unreadThird
  refine ⟨middle, ?_, fromMiddle, unreadMiddle⟩
  rw [parseFields_eq]
  change (parseName 64 cut).bind _ = _
  rw [runName]
  change (rumrBufferReadUint32 named).bind _ = _
  rw [runFirst]
  change (rumrBufferReadUint32 first).bind _ = _
  rw [runSecond]
  change (rumrBufferReadUint32 second).bind _ = _
  rw [runThird]
  change (rumrBufferReadUint32 third).bind _ = _
  rw [runFourth]
  rfl

theorem deep_not_survives (able : asic.Serializable) (serialized : SerializedAs buf asic)
    (isPrefix : StrictPrefix cut buf) (behindName : 64 ≤ cut.written.length)
    (deep : 4 ≤ leftover asic.chunks cut.written.length) : ¬SurvivesCut asic buf cut := by
  have behind := deep_behind_words behindName deep
  obtain ⟨middle, run, fromMiddle, unread⟩ := parse_behindLead able serialized isPrefix behind
  have lead := leadChunks_length asic
  have shorter := cut_shorter serialized isPrefix
  have room := cut_room serialized isPrefix
  rw [chunks_eq_lead, List.flatten_append, List.length_append, lead] at shorter room
  apply not_survivesCut
  intro result rest fields
  rw [run] at fields
  refine ⟨parseConfig_some (by decide) fields, ?_⟩
  rw [chunks_eq_lead, leftover_append_right _ (by omega), lead] at deep ⊢
  exact (parseConfig_overreads isPrefix.allocated asic able.fits _ _ _ _ middle result rest _
    fromMiddle unread (by omega) deep (by omega) fields).2

theorem named_survives_iff (isPrefix : StrictPrefix cut buf) (enough : 4 ≤ cut.written.length)
    (inside : cut.written.length < 64) :
    SurvivesCut asic buf cut ↔ 2048 < announcedSize cut.written := by
  obtain ⟨did, family, vgprGranularity, middle, run, fromMiddle, taken⟩ :=
    parse_named isPrefix enough inside
  by_cases known : announcedSize cut.written ≤ 2048
  · have nameLength : (nameField 64 asic.asicname).length = 64 := nameField_length (by decide) _
    refine ⟨fun survives => absurd survives (not_survivesCut ?_), fun large => ?_⟩
    · intro result rest fields
      rw [run] at fields
      have moved := (parseConfig_forward isPrefix.allocated _ _ _ _ _ middle result rest fromMiddle
        fields).2
      change rest.unread.length ≤ middle.unread.length at moved
      refine ⟨parseConfig_some known fields, ?_⟩
      rw [chunks_eq, leftover_here (by omega)]
      omega
    · exact absurd known (UInt32.not_le.mpr large)
  · refine ⟨fun _ => UInt32.not_le.mp known, fun _ => ?_⟩
    have refused : parseFields cut = some (none, middle) := by
      rw [run, parseConfig, if_neg known]
      rfl
    simp only [SurvivesCut, rumrParseSerializedAsic, refused]

/-- Every block comes through as it was or blank if the cut leaves less than a word
of its field and of every block takes or leaves nothing but zeros, and a size that is
too large is noticed if the cut lies in the first name.  No other cut does. -/
theorem survivesCut_iff (able : asic.Serializable) (serialized : SerializedAs buf asic)
    (isPrefix : StrictPrefix cut buf) :
    SurvivesCut asic buf cut ↔
      (leftover asic.chunks cut.written.length < 4 ∧
        BlocksWhole cut.written.length 2160 asic.blocks) ∨
      (cut.written.length < 64 ∧ 2048 < announcedSize cut.written) := by
  by_cases harmless : leftover asic.chunks cut.written.length < 4
  · obtain ⟨part, rest, run, partModel, untouched⟩ :=
      parse_harmless able serialized isPrefix harmless
    obtain ⟨full, after, runFull, fullModel⟩ := parse_serialized able serialized
    have survives : SurvivesCut asic buf cut ↔
        ListCutTo IpBlock.CutTo full.model.blocks part.model.blocks := by
      simp only [SurvivesCut, run, runFull, untouched, and_true, Option.some.injEq, Prod.mk.injEq]
      constructor
      · rintro ⟨other, _, ⟨rfl, rfl⟩, cutTo⟩
        exact cutTo
      · exact fun cutTo => ⟨full, after, ⟨rfl, rfl⟩, cutTo⟩
    have unnamed : ¬(cut.written.length < 64 ∧ 2048 < announcedSize cut.written) := by
      rintro ⟨inside, large⟩
      have nameLength : (nameField 64 asic.asicname).length = 64 := nameField_length (by decide) _
      rw [chunks_eq, leftover_here (by omega)] at harmless
      rw [announcedSize, if_neg (by omega)] at large
      exact absurd large (by decide)
    rw [survives, fullModel, partModel, asic.cutAt_blocks_iff able.fits]
    exact ⟨fun whole => Or.inl ⟨harmless, whole⟩,
      fun condition => (condition.resolve_right unnamed).2⟩
  · by_cases inside : cut.written.length < 64
    · have nameLength : (nameField 64 asic.asicname).length = 64 := nameField_length (by decide) _
      have enough : 4 ≤ cut.written.length := by
        rw [chunks_eq, leftover_here (by omega)] at harmless
        omega
      rw [named_survives_iff isPrefix enough inside]
      exact ⟨fun large => Or.inr ⟨inside, large⟩,
        fun condition => (condition.resolve_left fun shallow => harmless shallow.1).2⟩
    · have dead := deep_not_survives able serialized isPrefix (by omega) (by omega)
      refine ⟨fun survives => absurd survives dead, ?_⟩
      rintro (shallow | named)
      · exact absurd shallow.1 harmless
      · exact absurd named.1 inside

end Cut

/-! ## Buffers of given bytes -/

/-- A buffer as `rumr_buffer_load_file` fills it. -/
def loaded (bytes : List UInt8) : RumrBuffer :=
  ⟨bytes, UInt32.ofNat bytes.length, 0, UInt32.ofNat bytes.length, false⟩

section Loaded
variable {bytes : List UInt8}

theorem loaded_readable (small : bytes.length < 2 ^ 32) : (loaded bytes).Readable := by
  refine ⟨?_, ?_⟩
  · rw [UInt32.le_iff_toNat_le]
    exact Nat.zero_le _
  · change (UInt32.ofNat bytes.length).toNat ≤ bytes.length
    rw [ofNat_toNat_of_lt small]

theorem loaded_written (small : bytes.length < 2 ^ 32) : (loaded bytes).written = bytes := by
  change bytes.take (UInt32.ofNat bytes.length).toNat = bytes
  rw [ofNat_toNat_of_lt small, List.take_length]

theorem loaded_serializedAs {asic : AsicModel} (small : asic.chunks.flatten.length < 2 ^ 32) :
    SerializedAs (loaded asic.chunks.flatten) asic :=
  ⟨loaded_readable small, rfl, loaded_written small⟩

theorem loaded_strictPrefix (small : bytes.length < 2 ^ 32) {n : Nat} (shorter : n < bytes.length) :
    StrictPrefix (loaded (bytes.take n)) (loaded bytes) := by
  have length : (bytes.take n).length = n := by
    rw [List.length_take]
    omega
  have cutSmall : (bytes.take n).length < 2 ^ 32 := by omega
  refine ⟨loaded_readable cutSmall, rfl, cutSmall, ?_, ?_⟩
  · rw [loaded_written cutSmall, loaded_written small]
    exact List.take_prefix n bytes
  · rw [loaded_written cutSmall, loaded_written small, length]
    exact shorter

theorem loaded_take_length (small : bytes.length < 2 ^ 32) {n : Nat} (shorter : n < bytes.length) :
    (loaded (bytes.take n)).written.length = n := by
  have length : (bytes.take n).length = n := by
    rw [List.length_take]
    omega
  rw [loaded_written (by omega), length]

end Loaded

theorem apuSample_length : apuSample.chunks.flatten.length = 2536 := by decide +kernel

theorem apuSample_serializedAs : SerializedAs (loaded apuSample.chunks.flatten) apuSample :=
  loaded_serializedAs (by rw [apuSample_length]; decide)

theorem apuSample_strictPrefix {n : Nat} (shorter : n < 2536) :
    StrictPrefix (loaded (apuSample.chunks.flatten.take n)) (loaded apuSample.chunks.flatten) := by
  have length := apuSample_length
  exact loaded_strictPrefix (by omega) (by omega)

theorem apuSample_take_length {n : Nat} (shorter : n < 2536) :
    (loaded (apuSample.chunks.flatten.take n)).written.length = n := by
  have length := apuSample_length
  exact loaded_take_length (by omega) (by omega)

/-- Three bytes into the name of the block. -/
theorem apuSample_survives_2163 :
    SurvivesCut apuSample (loaded apuSample.chunks.flatten)
      (loaded (apuSample.chunks.flatten.take 2163)) := by
  rw [survivesCut_iff apuSample_serializable apuSample_serializedAs
    (apuSample_strictPrefix (by decide)), apuSample_take_length (by decide)]
  refine Or.inl ⟨by decide +kernel, Or.inl ?_, trivial⟩
  exact ⟨fun inside => absurd inside (by decide +kernel), keptBlank_behind (by decide +kernel)⟩

/-- Six bytes into the name of the register, the name becomes its type. -/
theorem apuSample_cut_2258 :
    ¬SurvivesCut apuSample (loaded apuSample.chunks.flatten)
      (loaded (apuSample.chunks.flatten.take 2258)) ∧
    (rumrParseSerializedAsic (loaded (apuSample.chunks.flatten.take 2258))).map
        (fun result => result.1.map fun part =>
          part.model.blocks.map fun block => block.regs.map Reg.type) =
      some (some [[0x00416D6D]]) := by
  have length := apuSample_take_length (show 2258 < 2536 by decide)
  refine ⟨?_, by decide +kernel⟩
  refine deep_not_survives apuSample_serializable apuSample_serializedAs
    (apuSample_strictPrefix (by decide)) (by omega) ?_
  rw [length]
  decide +kernel

end Umr.Rumr
