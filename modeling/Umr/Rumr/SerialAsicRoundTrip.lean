import Umr.Rumr.SerialAsic

/-!
# The serialized ASIC is read back

The writer is a sequence of appends, one for each field; the reader consumes
the same fields in the same order.  Both sides are described by the list of
chunks an object is written as, level by level, and the two descriptions meet
in the buffer.
-/

set_option autoImplicit false

namespace Umr.Rumr

open Umr.Lib

/-! ## The chunks of each level -/

def Bitfield.chunks (bit : Bitfield) : List (List UInt8) :=
  [nameField 128 bit.regname, wordBytes bit.start.toUInt32, wordBytes bit.stop.toUInt32]

def Reg.chunks (reg : Reg) : List (List UInt8) :=
  nameField 128 reg.regname :: wordBytes reg.type :: wordBytes (loWord reg.addr) ::
    wordBytes (hiWord reg.addr) :: wordBytes reg.bit64.toUInt32 ::
    wordBytes (UInt32.ofNat reg.bits.length) :: reg.bits.flatMap Bitfield.chunks

def Discoverable.chunks (discoverable : Discoverable) : List (List UInt8) :=
  [wordBytes discoverable.die, wordBytes discoverable.maj, wordBytes discoverable.min,
    wordBytes discoverable.rev, wordBytes discoverable.instance_,
    wordBytes discoverable.logicalInst]

def IpBlock.chunks (block : IpBlock) : List (List UInt8) :=
  nameField 64 block.ipname :: wordBytes (UInt32.ofNat block.regs.length) ::
    (block.discoverable.chunks ++ block.regs.flatMap Reg.chunks)

def AsicModel.chunks (asic : AsicModel) : List (List UInt8) :=
  nameField 64 asic.asicname :: wordBytes asic.did :: wordBytes asic.family ::
    wordBytes asic.vgprGranularity :: wordBytes 2048 :: asic.configData.bytes ::
    wordBytes (loWord asic.vramSize) :: wordBytes (hiWord asic.vramSize) ::
    wordBytes (loWord asic.visVramSize) :: wordBytes (hiWord asic.visVramSize) ::
    wordBytes (loWord asic.gttSize) :: wordBytes (hiWord asic.gttSize) ::
    wordBytes asic.isApu :: wordBytes (UInt32.ofNat asic.blocks.length) ::
    asic.blocks.flatMap IpBlock.chunks

section Write
variable (heap : Nat → Bool)

theorem serializeBitfield_eq (bit : Bitfield) :
    serializeBitfield heap bit = emitAll (rumrBufferAddData heap) bit.chunks := by
  simp [serializeBitfield, Bitfield.chunks, emitAll, rumrBufferAddUint32]

theorem serializeReg_eq (reg : Reg) :
    serializeReg heap reg = emitAll (rumrBufferAddData heap) reg.chunks := by
  have loop := writeMany_eq_emitAll (rumrBufferAddData heap) (serializeBitfield heap)
    Bitfield.chunks (serializeBitfield_eq heap) reg.bits
  rw [serializeReg, loop]
  rfl

theorem serializeBlock_eq (block : IpBlock) :
    serializeBlock heap block = emitAll (rumrBufferAddData heap) block.chunks := by
  have loop := writeMany_eq_emitAll (rumrBufferAddData heap) (serializeReg heap)
    Reg.chunks (serializeReg_eq heap) block.regs
  rw [serializeBlock, loop]
  rfl

theorem serializeFields_eq (asic : AsicModel) :
    serializeFields heap asic = emitAll (rumrBufferAddData heap) asic.chunks := by
  have loop := writeMany_eq_emitAll (rumrBufferAddData heap) (serializeBlock heap)
    IpBlock.chunks (serializeBlock_eq heap) asic.blocks
  rw [serializeFields, loop]
  rfl

end Write

/-! ## What the format can carry -/

def Bitfield.Fits (bit : Bitfield) : Prop := bit.regname.bytes.length ≤ 128

/-- The flag `bit64` travels in 32 bits. -/
structure Reg.Fits (reg : Reg) : Prop where
  regname : reg.regname.bytes.length ≤ 128
  bit64 : reg.bit64.toNat < 2 ^ 32
  count : reg.bits.length < 2 ^ 31
  bits : ∀ bit ∈ reg.bits, bit.Fits

structure IpBlock.Fits (block : IpBlock) : Prop where
  ipname : block.ipname.bytes.length ≤ 64
  count : block.regs.length < 2 ^ 31
  regs : ∀ reg ∈ block.regs, reg.Fits

structure AsicModel.Fits (asic : AsicModel) : Prop where
  asicname : asic.asicname.bytes.length ≤ 64
  count : asic.blocks.length < 2 ^ 31
  blocks : ∀ block ∈ asic.blocks, block.Fits

/-! ## Reading each level -/

section Read
variable (origin : RumrBuffer)

theorem nameField_eq (width : Nat) (name : CString) (small : width ≤ 256)
    (fits : name.bytes.length ≤ width) :
    nameField width name = name.bytes ++ List.replicate (width - name.bytes.length) 0 := by
  rw [nameField, List.take_append, List.take_of_length_le fits, List.take_replicate]
  congr 2
  omega

theorem parseName_reads (width : UInt32) (name : CString) (small : width.toNat ≤ 256)
    (fits : name.bytes.length ≤ width.toNat) :
    Reads origin.ReadFrom RumrBuffer.unread (parseName width)
      (nameField width.toNat name) name := by
  have shape := nameField_eq width.toNat name small fits
  have length : (nameField width.toNat name).length = width.toNat := by
    rw [shape, List.length_append, List.length_replicate]
    omega
  have data := (rumrBufferReadData_reads origin width _ length).map CString.ofBuffer
  rwa [shape, CString.ofBuffer_padded, ← shape] at data

theorem parseUint64_reads (value : UInt64) :
    Reads origin.ReadFrom RumrBuffer.unread parseUint64
      (wordBytes (loWord value) ++ wordBytes (hiWord value)) value := by
  have halves : Reads origin.ReadFrom RumrBuffer.unread parseUint64
      (wordBytes (loWord value) ++ wordBytes (hiWord value))
      (joinWords (loWord value) (hiWord value)) :=
    (rumrBufferReadUint32_reads origin _).bind ((rumrBufferReadUint32_reads origin _).map _)
  rwa [joinWords_halves] at halves

theorem parseBitfield_reads (bit : Bitfield) (fits : bit.Fits) :
    Reads origin.ReadFrom RumrBuffer.unread parseBitfield bit.chunks.flatten bit := by
  have word := rumrBufferReadUint32_reads origin
  simp only [Bitfield.chunks, List.flatten_cons, List.flatten_nil, List.append_nil]
  refine (parseName_reads origin 128 bit.regname (by decide) fits).bind ?_
  refine (word bit.start.toUInt32).bind ?_
  rw [UInt8.toUInt8_toUInt32]
  have last := (word bit.stop.toUInt32).map fun stop => { bit with stop := stop.toUInt8 }
  rwa [UInt8.toUInt8_toUInt32] at last

theorem readMany_reads {α : Type} {reader : StateT RumrBuffer Option α} (items : List α)
    (chunks : α → List (List UInt8)) (small : items.length < 2 ^ 31)
    (each : ∀ item ∈ items,
      Reads origin.ReadFrom RumrBuffer.unread reader (chunks item).flatten item) :
    Reads origin.ReadFrom RumrBuffer.unread
      (readMany reader (loopRounds (UInt32.ofNat items.length)))
      (items.flatMap chunks).flatten items := by
  have rounds : loopRounds (UInt32.ofNat items.length) = items.length := by
    rw [loopRounds, ofNat_toNat_of_lt (by omega), if_pos small]
  have loop := Reads.readMany (fun item => (chunks item).flatten) id items each
  rwa [List.map_id, ← flatten_flatMap, ← rounds] at loop

theorem toUInt64_toUInt32 (value : UInt64) (small : value.toNat < 2 ^ 32) :
    value.toUInt32.toUInt64 = value := by
  apply UInt64.toNat_inj.mp
  rw [UInt32.toNat_toUInt64, UInt64.toNat_toUInt32]
  exact Nat.mod_eq_of_lt small

theorem parseReg_reads (reg : Reg) (fits : reg.Fits) :
    Reads origin.ReadFrom RumrBuffer.unread parseReg reg.chunks.flatten reg := by
  have word := rumrBufferReadUint32_reads origin
  simp only [Reg.chunks, List.flatten_cons]
  refine (parseName_reads origin 128 reg.regname (by decide) fits.regname).bind ?_
  refine (word reg.type).bind ?_
  rw [← List.append_assoc]
  refine (parseUint64_reads origin reg.addr).bind ?_
  refine (word reg.bit64.toUInt32).bind ?_
  refine (word (UInt32.ofNat reg.bits.length)).bind ?_
  have loop := readMany_reads origin reg.bits Bitfield.chunks fits.count
    (fun bit member => parseBitfield_reads origin bit (fits.bits bit member))
  rw [toUInt64_toUInt32 reg.bit64 fits.bit64]
  exact loop.map fun bits => { reg with bits := bits }

theorem parseDiscoverable_reads (discoverable : Discoverable) :
    Reads origin.ReadFrom RumrBuffer.unread parseDiscoverable discoverable.chunks.flatten
      discoverable := by
  have word := rumrBufferReadUint32_reads origin
  simp only [Discoverable.chunks, List.flatten_cons, List.flatten_nil, List.append_nil]
  refine (word _).bind ?_
  refine (word _).bind ?_
  refine (word _).bind ?_
  refine (word _).bind ?_
  refine (word _).bind ?_
  exact (word discoverable.logicalInst).map fun logicalInst =>
    { discoverable with logicalInst := logicalInst }

theorem parseBlock_reads (block : IpBlock) (fits : block.Fits) :
    Reads origin.ReadFrom RumrBuffer.unread parseBlock block.chunks.flatten block := by
  have word := rumrBufferReadUint32_reads origin
  simp only [IpBlock.chunks, List.flatten_cons, List.flatten_append]
  refine (parseName_reads origin 64 block.ipname (by decide) fits.ipname).bind ?_
  refine (word (UInt32.ofNat block.regs.length)).bind ?_
  refine (parseDiscoverable_reads origin block.discoverable).bind ?_
  have loop := readMany_reads origin block.regs Reg.chunks fits.count
    (fun reg member => parseReg_reads origin reg (fits.regs reg member))
  exact loop.map fun regs => { block with regs := regs }

theorem configData_ofBytes (data : ConfigData) : ConfigData.ofBytes data.bytes = data := by
  obtain ⟨bytes, length⟩ := data
  simp only [ConfigData.ofBytes, ConfigData.mk.injEq]
  exact List.take_left' length

theorem parseFields_reads (asic : AsicModel) (fits : asic.Fits) :
    Reads origin.ReadFrom RumrBuffer.unread parseFields asic.chunks.flatten (some asic) := by
  have word := rumrBufferReadUint32_reads origin
  simp only [AsicModel.chunks, List.flatten_cons]
  refine (parseName_reads origin 64 asic.asicname (by decide) fits.asicname).bind ?_
  refine (word asic.did).bind ?_
  refine (word asic.family).bind ?_
  refine (word asic.vgprGranularity).bind ?_
  refine (word 2048).bind ?_
  rw [if_pos (by decide)]
  refine (rumrBufferReadData_reads origin 2048 asic.configData.bytes
    asic.configData.length).bind ?_
  rw [configData_ofBytes]
  refine Reads.map some ?_
  rw [← List.append_assoc]
  refine (parseUint64_reads origin asic.vramSize).bind ?_
  rw [← List.append_assoc]
  refine (parseUint64_reads origin asic.visVramSize).bind ?_
  rw [← List.append_assoc]
  refine (parseUint64_reads origin asic.gttSize).bind ?_
  refine (word asic.isApu).bind ?_
  refine (word (UInt32.ofNat asic.blocks.length)).bind ?_
  have loop := readMany_reads origin asic.blocks IpBlock.chunks fits.count
    (fun block member => parseBlock_reads origin block (fits.blocks block member))
  exact loop.map fun blocks => { asic with blocks := blocks }

end Read

/-! ## The round trip -/

/-- What the format can carry: names that fit their fields, a `bit64` that is a
32-bit value, GCA data of a known revision, and a buffer whose last block has a
32-bit size. -/
structure AsicModel.Serializable (asic : AsicModel) : Prop where
  asicname : asic.asicname.bytes.length ≤ 64
  ipnames : ∀ block ∈ asic.blocks, block.ipname.bytes.length ≤ 64
  regnames : ∀ block ∈ asic.blocks, ∀ reg ∈ block.regs, reg.regname.bytes.length ≤ 128
  bitnames : ∀ block ∈ asic.blocks, ∀ reg ∈ block.regs, ∀ bit ∈ reg.bits,
    bit.regname.bytes.length ≤ 128
  bit64 : ∀ block ∈ asic.blocks, ∀ reg ∈ block.regs, reg.bit64.toNat < 2 ^ 32
  version : asic.configData.word 0 ≤ 5
  room : emittedSize 1024 0 asic.chunks + 8 < 2 ^ 32

section Counts
variable {α : Type} (items : List α) (encode : α → List UInt8)

theorem encoded_le {item : α} (member : item ∈ items) :
    (encode item).length ≤ (items.flatMap encode).length := by
  induction items with
  | nil => cases member
  | cons head tail ih =>
      rw [List.flatMap_cons, List.length_append]
      rcases List.mem_cons.mp member with rfl | inTail
      · exact Nat.le_add_right _ _
      · exact Nat.le_trans (ih inTail) (Nat.le_add_left _ _)

theorem count_le_encoded (nonempty : ∀ item, 4 ≤ (encode item).length) :
    4 * items.length ≤ (items.flatMap encode).length := by
  induction items with
  | nil => exact le_refl _
  | cons head tail ih =>
      have first := nonempty head
      rw [List.flatMap_cons, List.length_append, List.length_cons]
      omega

end Counts

def Bitfield.bytes (bit : Bitfield) : List UInt8 := bit.chunks.flatten

def Reg.bytes (reg : Reg) : List UInt8 := reg.chunks.flatten

def IpBlock.bytes (block : IpBlock) : List UInt8 := block.chunks.flatten

theorem Bitfield.four_le (bit : Bitfield) : 4 ≤ bit.bytes.length := by
  simp only [Bitfield.bytes, Bitfield.chunks, List.flatten_cons, List.length_append,
    wordBytes_length]
  omega

theorem Reg.bits_le (reg : Reg) :
    (reg.bits.flatMap Bitfield.bytes).length + 4 ≤ reg.bytes.length := by
  have body := congrArg List.length (flatten_flatMap reg.bits Bitfield.chunks)
  change _ = (reg.bits.flatMap Bitfield.bytes).length at body
  simp only [Reg.bytes, Reg.chunks, List.flatten_cons, List.length_append, wordBytes_length,
    body]
  omega

theorem IpBlock.regs_le (block : IpBlock) :
    (block.regs.flatMap Reg.bytes).length + 4 ≤ block.bytes.length := by
  have body := congrArg List.length (flatten_flatMap block.regs Reg.chunks)
  change _ = (block.regs.flatMap Reg.bytes).length at body
  simp only [IpBlock.bytes, IpBlock.chunks, List.flatten_cons, List.flatten_append,
    List.length_append, wordBytes_length, body]
  omega

theorem AsicModel.blocks_le (asic : AsicModel) :
    (asic.blocks.flatMap IpBlock.bytes).length ≤ asic.chunks.flatten.length := by
  have body := congrArg List.length (flatten_flatMap asic.blocks IpBlock.chunks)
  change _ = (asic.blocks.flatMap IpBlock.bytes).length at body
  simp only [AsicModel.chunks, List.flatten_cons, List.length_append, body]
  omega

/-- In a buffer of 32-bit size every count stays below the `int` limit. -/
theorem AsicModel.Serializable.fits {asic : AsicModel} (able : asic.Serializable) :
    asic.Fits := by
  have room := able.room
  have written := written_le_emittedSize asic.chunks 1024 0 (by decide)
  have blocks := asic.blocks_le
  have total : (asic.blocks.flatMap IpBlock.bytes).length < 2 ^ 32 := by omega
  refine ⟨able.asicname, ?_, ?_⟩
  · have count := count_le_encoded asic.blocks IpBlock.bytes (fun block => by
      have := block.regs_le
      omega)
    omega
  · intro block blockIn
    have blockBytes := encoded_le asic.blocks IpBlock.bytes blockIn
    have regs := block.regs_le
    refine ⟨able.ipnames block blockIn, ?_, ?_⟩
    · have count := count_le_encoded block.regs Reg.bytes (fun reg => by
        have := reg.bits_le
        omega)
      omega
    · intro reg regIn
      have regBytes := encoded_le block.regs Reg.bytes regIn
      have bits := reg.bits_le
      have count := count_le_encoded reg.bits Bitfield.bytes Bitfield.four_le
      exact ⟨able.regnames block blockIn reg regIn, able.bit64 block blockIn reg regIn, by omega,
        able.bitnames block blockIn reg regIn⟩

/-- The `is_apu` flag of a parsed ASIC: from revision 4 on it is taken from the
GCA data. -/
def AsicModel.parsedApu (asic : AsicModel) : UInt32 :=
  if 4 ≤ asic.configData.word 0 then asic.configData.word 33 else asic.isApu

theorem parsedApu_old {asic : AsicModel} (old : ¬ 4 ≤ asic.configData.word 0) :
    { asic with isApu := asic.parsedApu } = asic := by
  rw [AsicModel.parsedApu, if_neg old]

theorem parsedApu_new {asic : AsicModel} (new : 4 ≤ asic.configData.word 0) :
    { asic with isApu := asic.parsedApu } =
      { asic with isApu := asic.configData.word 33 } := by
  rw [AsicModel.parsedApu, if_pos new]

/-- Every known revision is decoded, and of the serialized fields only the flag
can change. -/
theorem umrScanConfigGcaData_model (asic : AsicModel) (version : asic.configData.word 0 ≤ 5) :
    ∃ parsed, umrScanConfigGcaData (ParsedAsic.fresh asic) = some parsed ∧
      parsed.model = { asic with isApu := asic.parsedApu } := by
  have word : (ParsedAsic.fresh asic).model.configData.word 0 = asic.configData.word 0 := rfl
  by_cases rev0 : asic.configData.word 0 = 0
  · refine ⟨parseRev0 (ParsedAsic.fresh asic), ?_, ?_⟩
    · rw [umrScanConfigGcaData, word, if_pos rev0]
    · rw [parsedApu_old (by rw [rev0]; decide)]
      rfl
  by_cases rev1 : asic.configData.word 0 = 1
  · refine ⟨parseRev1 (ParsedAsic.fresh asic), ?_, ?_⟩
    · rw [umrScanConfigGcaData, word, if_neg rev0, if_pos rev1]
    · rw [parsedApu_old (by rw [rev1]; decide)]
      rfl
  by_cases rev2 : asic.configData.word 0 = 2
  · refine ⟨parseRev2 (ParsedAsic.fresh asic), ?_, ?_⟩
    · rw [umrScanConfigGcaData, word, if_neg rev0, if_neg rev1, if_pos rev2]
    · rw [parsedApu_old (by rw [rev2]; decide)]
      rfl
  by_cases rev3 : asic.configData.word 0 = 3
  · refine ⟨parseRev3 (ParsedAsic.fresh asic), ?_, ?_⟩
    · rw [umrScanConfigGcaData, word, if_neg rev0, if_neg rev1, if_neg rev2, if_pos rev3]
    · rw [parsedApu_old (by rw [rev3]; decide)]
      rfl
  by_cases rev4 : asic.configData.word 0 = 4
  · refine ⟨parseRev4 (ParsedAsic.fresh asic), ?_, ?_⟩
    · rw [umrScanConfigGcaData, word, if_neg rev0, if_neg rev1, if_neg rev2, if_neg rev3,
        if_pos rev4]
    · rw [parsedApu_new (by rw [rev4]; decide)]
      rfl
  · have rev5 : asic.configData.word 0 = 5 := by
      simp only [← UInt32.toNat_inj] at rev0 rev1 rev2 rev3 rev4 ⊢
      rw [UInt32.le_iff_toNat_le] at version
      simp only [UInt32.toNat_ofNat] at *
      omega
    refine ⟨parseRev5 (ParsedAsic.fresh asic), ?_, ?_⟩
    · rw [umrScanConfigGcaData, word, if_neg rev0, if_neg rev1, if_neg rev2, if_neg rev3,
        if_neg rev4, if_pos rev5]
    · rw [parsedApu_new (by rw [rev5]; decide)]
      rfl

theorem rumrSerializeAsic_written {heap : Nat → Bool} (granted : ∀ request, heap request = true)
    (asic : AsicModel) (able : asic.Serializable) :
    ∃ buf, rumrSerializeAsic heap asic = some (some buf) ∧ buf.Inv ∧ buf.roffset = 0 ∧
      buf.written = asic.chunks.flatten := by
  obtain ⟨buf, run, inv, written, roffset, live⟩ := emitAll_spec granted asic.chunks emptyBuffer
    emptyBuffer_inv rfl able.room
  rw [emptyBuffer_written, List.nil_append] at written
  refine ⟨buf, ?_, inv, roffset, written⟩
  rw [rumrSerializeAsic, rumrBufferInit_granted granted]
  simp only [serializeFields_eq, run, live, Bool.false_eq_true, if_false]

theorem rumrSerializeAsic_parsed {heap : Nat → Bool} (granted : ∀ request, heap request = true)
    (asic : AsicModel) (able : asic.Serializable) :
    ∃ buf parsed rest, rumrSerializeAsic heap asic = some (some buf) ∧
      rumrParseSerializedAsic buf = some (some parsed, rest) ∧ rest.unread = [] ∧
      umrScanConfigGcaData (ParsedAsic.fresh asic) = some parsed := by
  obtain ⟨buf, serialized, inv, roffset, written⟩ := rumrSerializeAsic_written granted asic able
  have unread : buf.unread = asic.chunks.flatten ++ [] := by
    rw [RumrBuffer.unread, roffset, written, List.append_nil]
    rfl
  obtain ⟨rest, read, _, consumed⟩ := parseFields_reads buf asic able.fits buf []
    inv.readable.readFrom unread
  obtain ⟨parsed, scanned, _⟩ := umrScanConfigGcaData_model asic able.version
  refine ⟨buf, parsed, rest, serialized, ?_, consumed, scanned⟩
  simp only [rumrParseSerializedAsic, read, scanned]

/-- Serializing and parsing succeed, consume the whole buffer and yield an ASIC
with the given serialized fields. -/
def RoundTripsTo (heap : Nat → Bool) (asic result : AsicModel) : Prop :=
  ∃ buf parsed rest, rumrSerializeAsic heap asic = some (some buf) ∧
    rumrParseSerializedAsic buf = some (some parsed, rest) ∧ rest.unread = [] ∧
    parsed.model = result

/-- Every ASIC the format can carry comes back with all its serialized fields,
the flag of an APU read from the GCA data where that has one. -/
theorem rumrSerializeAsic_roundTrip (heap : Nat → Bool) (asic : AsicModel)
    (granted : ∀ request, heap request = true) (able : asic.Serializable) :
    RoundTripsTo heap asic { asic with isApu := asic.parsedApu } := by
  obtain ⟨buf, parsed, rest, serialized, read, consumed, scanned⟩ :=
    rumrSerializeAsic_parsed granted asic able
  obtain ⟨other, otherScanned, model⟩ := umrScanConfigGcaData_model asic able.version
  have same : other = parsed := Option.some.inj (otherScanned.symm.trans scanned)
  exact ⟨buf, parsed, rest, serialized, read, consumed, same ▸ model⟩

/-- An APU by its GCA data (revision 4), serialized without the flag. -/
def apuSample : AsicModel where
  asicname := ⟨[0x76, 0x67, 0x31, 0x30], by simp⟩
  did := 0x6860
  family := 3
  vgprGranularity := 2
  configData := ConfigData.ofBytes (wordBytes 4 ++ List.replicate 128 0 ++ wordBytes 1)
  vramSize := 0x3FF000000
  visVramSize := 0x10000000
  gttSize := 0x200000000
  isApu := 0
  blocks := [⟨⟨[0x67, 0x66, 0x78], by simp⟩, ⟨0, 9, 0, 0, 0, 0⟩,
    [⟨⟨[0x6D, 0x6D, 0x41], by simp⟩, 0, 0x8010, 0, [⟨⟨[0x42], by simp⟩, 0, 31⟩]⟩]⟩]

theorem apuSample_revision : apuSample.configData.word 0 = 4 ∧ apuSample.configData.word 33 = 1 := by
  decide

theorem apuSample_serializable : apuSample.Serializable := by
  refine ⟨by decide, by decide, by decide, by decide, by decide, ?_, ?_⟩
  · rw [apuSample_revision.1]
    decide
  · have bound := emittedSize_le apuSample.chunks 1024 0
    have chunks : apuSample.chunks.length = 31 := by decide
    have bytes : apuSample.chunks.flatten.length ≤ 4096 := by decide +kernel
    omega

theorem apuSample_roundTrip : apuSample.Serializable ∧
    RoundTripsTo (fun _ => true) apuSample { apuSample with isApu := apuSample.parsedApu } :=
  ⟨apuSample_serializable, rumrSerializeAsic_roundTrip _ apuSample (fun _ => rfl)
    apuSample_serializable⟩

theorem apuSample_flag_replaced : ¬ RoundTripsTo (fun _ => true) apuSample apuSample := by
  rintro ⟨buf, parsed, rest, serialized, read, _, model⟩
  obtain ⟨otherBuf, other, _, otherSerialized, otherRead, _, scanned⟩ :=
    rumrSerializeAsic_parsed (fun _ => rfl) apuSample apuSample_serializable
  obtain ⟨final, finalScanned, finalModel⟩ :=
    umrScanConfigGcaData_model apuSample apuSample_serializable.version
  have sameBuf : otherBuf = buf := by
    rw [otherSerialized] at serialized
    exact Option.some.inj (Option.some.inj serialized)
  have sameParsed : other = parsed := by
    rw [sameBuf, read] at otherRead
    exact (Option.some.inj (Prod.mk.inj (Option.some.inj otherRead)).1).symm
  have sameFinal : final = other := Option.some.inj (finalScanned.symm.trans scanned)
  rw [sameFinal, sameParsed, model] at finalModel
  have flag : (0 : UInt32) = apuSample.parsedApu := congrArg AsicModel.isApu finalModel
  rw [AsicModel.parsedApu, apuSample_revision.1, apuSample_revision.2] at flag
  exact absurd flag (by decide)

end Umr.Rumr
