import Umr.Lib.Truncation
import Umr.Rumr.SerialAsicRoundTrip

/-!
# A serialized ASIC that was cut off

`rumr_parse_serialized_asic` on a strict prefix of a serialized ASIC.  As long as
the cut leaves less than a word of the field it falls into, the parser returns
the fields that are there as a whole and zeros for the others.
-/

set_option autoImplicit false

namespace Umr.Rumr

open Umr.Lib

/-! ## The fields in front of a cut -/

def emptyName : CString := ⟨[], fun _ member => nomatch member⟩

def blankConfig : ConfigData := ConfigData.ofBytes []

def Bitfield.cutAt (n start : Nat) (bit : Bitfield) : Bitfield where
  regname := held emptyName bit.regname (start + 128) n
  start := held 0 bit.start (start + 132) n
  stop := held 0 bit.stop (start + 136) n

def Reg.cutAt (n start : Nat) (reg : Reg) : Reg where
  regname := held emptyName reg.regname (start + 128) n
  type := held 0 reg.type (start + 132) n
  addr := joinWords (held 0 (loWord reg.addr) (start + 136) n)
    (held 0 (hiWord reg.addr) (start + 140) n)
  bit64 := held 0 reg.bit64 (start + 144) n
  bits := if start + 148 ≤ n then
      cutMany (fun bit => bit.bytes.length) (Bitfield.cutAt n) (start + 148) reg.bits
    else []

def Discoverable.cutAt (n start : Nat) (discoverable : Discoverable) : Discoverable where
  die := held 0 discoverable.die (start + 4) n
  maj := held 0 discoverable.maj (start + 8) n
  min := held 0 discoverable.min (start + 12) n
  rev := held 0 discoverable.rev (start + 16) n
  instance_ := held 0 discoverable.instance_ (start + 20) n
  logicalInst := held 0 discoverable.logicalInst (start + 24) n

def IpBlock.cutAt (n start : Nat) (block : IpBlock) : IpBlock where
  ipname := held emptyName block.ipname (start + 64) n
  discoverable := block.discoverable.cutAt n (start + 68)
  regs := if start + 68 ≤ n then
      cutMany (fun reg => reg.bytes.length) (Reg.cutAt n) (start + 92) block.regs
    else []

def cutUint64 (n start : Nat) (value : UInt64) : UInt64 :=
  joinWords (held 0 (loWord value) (start + 4) n) (held 0 (hiWord value) (start + 8) n)

def AsicModel.cutAt (n : Nat) (asic : AsicModel) : AsicModel where
  asicname := held emptyName asic.asicname 64 n
  did := held 0 asic.did 68 n
  family := held 0 asic.family 72 n
  vgprGranularity := held 0 asic.vgprGranularity 76 n
  configData := held blankConfig asic.configData 2128 n
  vramSize := cutUint64 n 2128 asic.vramSize
  visVramSize := cutUint64 n 2136 asic.visVramSize
  gttSize := cutUint64 n 2144 asic.gttSize
  isApu := held 0 asic.isApu 2156 n
  blocks := if 2160 ≤ n then
      cutMany (fun block => block.bytes.length) (IpBlock.cutAt n) 2160 asic.blocks
    else []

/-! ## Reading them -/

def RumrBuffer.input (origin : RumrBuffer) : Input RumrBuffer UInt8 where
  good := origin.ReadFrom
  unread := RumrBuffer.unread
  slack := 2 ^ 32 - origin.woffset.toNat

section Reads
variable {origin : RumrBuffer}

theorem rumrBufferReadData_refuses (size : UInt32) :
    Refuses origin.input (rumrBufferReadData size) size.toNat (List.replicate size.toNat 0) := by
  intro buf from_ short room
  have readable := from_.readable
  have length := readable.unread_length
  have rLe := UInt32.le_iff_toNat_le.mp readable.roffset_le
  have same : buf.woffset = origin.woffset := by rw [from_.same]
  change buf.unread.length < _ at short
  change _ < buf.unread.length + (2 ^ 32 - origin.woffset.toNat) at room
  have wBound : origin.woffset.toNat < 2 ^ 32 := origin.woffset.toNat_lt
  rw [← same] at room wBound
  exact rumrBufferReadData_short buf size (by omega) (by omega)

theorem rumrBufferReadUint32_refuses :
    Refuses origin.input rumrBufferReadUint32 4 0 :=
  (rumrBufferReadData_refuses 4).map bytesWord

theorem ofBuffer_zeros (width : Nat) : CString.ofBuffer (List.replicate width 0) = emptyName :=
  CString.ofBuffer_padded emptyName width

theorem parseName_refuses (width : UInt32) :
    Refuses origin.input (parseName width) width.toNat emptyName := by
  have data : Refuses origin.input (rumrBufferReadData width) width.toNat _ :=
    rumrBufferReadData_refuses width
  have named := data.map CString.ofBuffer
  rwa [ofBuffer_zeros] at named

theorem rumrBufferReadData_nothing {buf : RumrBuffer} (from_ : origin.ReadFrom buf) :
    rumrBufferReadData 0 buf = some ([], buf) := by
  have still : buf.roffset + 0 = buf.roffset := UInt32.add_zero _
  have nothing : (0 : UInt32).toNat = 0 := rfl
  unfold rumrBufferReadData
  rw [still, if_pos from_.readable.roffset_le, nothing, if_pos (Or.inl rfl)]
  rfl

theorem ofBytes_zeros :
    ConfigData.ofBytes (List.replicate (2048 : UInt32).toNat 0) = blankConfig := by
  have width : (2048 : UInt32).toNat = 2048 := rfl
  simp only [blankConfig, ConfigData.ofBytes, ConfigData.mk.injEq]
  rw [width, List.take_left' List.length_replicate, List.nil_append,
    List.take_of_length_le (Nat.le_of_eq List.length_replicate)]

theorem nameField_length {width : Nat} (small : width ≤ 256) (name : CString) :
    (nameField width name).length = width := by
  rw [nameField, List.length_take, List.length_append, List.length_replicate]
  omega

end Reads

/-! ## A harmless cut -/

section Harmless
variable {origin : RumrBuffer} {left n start : Nat} {β : Type}

theorem takes_word (harmless : left < 4) (value : UInt32) :
    Takes origin.input left n start rumrBufferReadUint32 [wordBytes value]
      (held 0 value (start + 4) n) :=
  Takes.read (rumrBufferReadUint32_reads origin value) rumrBufferReadUint32_refuses harmless

theorem takes_word_bind (harmless : left < 4) (value : UInt32)
    {next : UInt32 → StateT RumrBuffer Option β} {more : List (List UInt8)} {result : β}
    (there : Takes origin.input left n (start + 4) (next (held 0 value (start + 4) n)) more
      result) :
    Takes origin.input left n start (rumrBufferReadUint32 >>= next) (wordBytes value :: more)
      result :=
  (takes_word harmless value).bind there

theorem takes_name_bind (harmless : left < 4) (width : UInt32) (name : CString)
    (wide : 4 ≤ width.toNat) (small : width.toNat ≤ 256) (fits : name.bytes.length ≤ width.toNat)
    {next : CString → StateT RumrBuffer Option β} {more : List (List UInt8)} {result : β}
    (there : Takes origin.input left n (start + width.toNat)
      (next (held emptyName name (start + width.toNat) n)) more result) :
    Takes origin.input left n start (parseName width >>= next)
      (nameField width.toNat name :: more) result := by
  have length := nameField_length small name
  have refuses : Refuses origin.input (parseName width) width.toNat emptyName :=
    parseName_refuses width
  rw [← length] at there refuses wide
  have taken : Takes origin.input left n start (parseName width) [nameField width.toNat name] _ :=
    Takes.read (parseName_reads origin width name small fits) refuses
      (Nat.lt_of_lt_of_le harmless wide)
  refine taken.bind ?_
  rw [List.flatten_singleton]
  exact there

theorem takes_uint64 (harmless : left < 4) (value : UInt64) :
    Takes origin.input left n start parseUint64 [wordBytes (loWord value), wordBytes (hiWord value)]
      (cutUint64 n start value) :=
  takes_word_bind harmless (loWord value) ((takes_word harmless (hiWord value)).map _)

theorem takes_uint64_bind (harmless : left < 4) (value : UInt64)
    {next : UInt64 → StateT RumrBuffer Option β} {more : List (List UInt8)} {result : β}
    (there : Takes origin.input left n (start + 8) (next (cutUint64 n start value)) more result) :
    Takes origin.input left n start (parseUint64 >>= next)
      (wordBytes (loWord value) :: wordBytes (hiWord value) :: more) result :=
  (takes_uint64 harmless value).bind there

theorem takes_loop {α γ : Type} {reader : StateT RumrBuffer Option α} (items : List γ)
    (chunks : γ → List (List UInt8)) (cutAt : Nat → γ → α) (small : items.length < 2 ^ 31)
    (counted : Nat) (before : counted ≤ start)
    (each : ∀ item ∈ items, ∀ start,
      Takes origin.input left n start reader (chunks item) (cutAt start item)) :
    Takes origin.input left n start
      (readMany reader (loopRounds (held 0 (UInt32.ofNat items.length) counted n)))
      (items.flatMap chunks)
      (if counted ≤ n then
        cutMany (fun item => (chunks item).flatten.length) cutAt start items else []) := by
  by_cases there : counted ≤ n
  · have rounds : loopRounds (UInt32.ofNat items.length) = items.length := by
      rw [loopRounds, ofNat_toNat_of_lt (by omega), if_pos small]
    rw [held, if_pos there, if_pos there, rounds]
    exact Takes.readMany chunks cutAt items start each
  · rw [held, if_neg there, if_neg there]
    exact Takes.pure_behind (by omega) _ []

theorem parseBitfield_takes (harmless : left < 4) (bit : Bitfield) (fits : bit.Fits) :
    Takes origin.input left n start parseBitfield bit.chunks (bit.cutAt n start) := by
  have built : bit.cutAt n start = ⟨held emptyName bit.regname (start + 128) n,
      (held 0 bit.start.toUInt32 (start + 132) n).toUInt8,
      (held 0 bit.stop.toUInt32 (start + 136) n).toUInt8⟩ := by
    rw [held_map UInt32.toUInt8, held_map UInt32.toUInt8, UInt8.toUInt8_toUInt32,
      UInt8.toUInt8_toUInt32]
    rfl
  rw [built]
  refine takes_name_bind harmless 128 bit.regname (by decide) (by decide) fits ?_
  refine takes_word_bind harmless bit.start.toUInt32 ?_
  exact (takes_word harmless bit.stop.toUInt32).map _

theorem parseReg_takes (harmless : left < 4) (reg : Reg) (fits : reg.Fits) :
    Takes origin.input left n start parseReg reg.chunks (reg.cutAt n start) := by
  have wide : held 0 reg.bit64 (start + 144) n =
      (held 0 reg.bit64.toUInt32 (start + 144) n).toUInt64 := by
    rw [held_map UInt32.toUInt64, toUInt64_toUInt32 reg.bit64 fits.bit64]
    rfl
  rw [Reg.cutAt, wide]
  refine takes_name_bind harmless 128 reg.regname (by decide) (by decide) fits.regname ?_
  refine takes_word_bind harmless reg.type ?_
  refine takes_uint64_bind harmless reg.addr ?_
  refine takes_word_bind harmless reg.bit64.toUInt32 ?_
  refine takes_word_bind harmless (UInt32.ofNat reg.bits.length) ?_
  exact (takes_loop reg.bits Bitfield.chunks (Bitfield.cutAt n) fits.count _ (Nat.le_refl _)
    fun bit member start => parseBitfield_takes harmless bit (fits.bits bit member)).map _

theorem parseDiscoverable_takes (harmless : left < 4) (discoverable : Discoverable) :
    Takes origin.input left n start parseDiscoverable discoverable.chunks
      (discoverable.cutAt n start) := by
  refine takes_word_bind harmless _ ?_
  refine takes_word_bind harmless _ ?_
  refine takes_word_bind harmless _ ?_
  refine takes_word_bind harmless _ ?_
  refine takes_word_bind harmless _ ?_
  exact (takes_word harmless discoverable.logicalInst).map _

theorem parseBlock_takes (harmless : left < 4) (block : IpBlock) (fits : block.Fits) :
    Takes origin.input left n start parseBlock block.chunks (block.cutAt n start) := by
  refine takes_name_bind harmless 64 block.ipname (by decide) (by decide) fits.ipname ?_
  refine takes_word_bind harmless (UInt32.ofNat block.regs.length) ?_
  refine (parseDiscoverable_takes harmless block.discoverable).bind ?_
  exact (takes_loop block.regs Reg.chunks (Reg.cutAt n) fits.count _ (by omega)
    fun reg member start => parseReg_takes harmless reg (fits.regs reg member)).map _

theorem parseTail_takes (harmless : left < 4) (asic : AsicModel) (fits : asic.Fits)
    (asicname : CString) (did family vgprGranularity : UInt32) (configData : ConfigData) :
    Takes origin.input left n 2128 (parseTail asicname did family vgprGranularity configData)
      (wordBytes (loWord asic.vramSize) :: wordBytes (hiWord asic.vramSize) ::
        wordBytes (loWord asic.visVramSize) :: wordBytes (hiWord asic.visVramSize) ::
        wordBytes (loWord asic.gttSize) :: wordBytes (hiWord asic.gttSize) ::
        wordBytes asic.isApu :: wordBytes (UInt32.ofNat asic.blocks.length) ::
        asic.blocks.flatMap IpBlock.chunks)
      { asic.cutAt n with
        asicname := asicname
        did := did
        family := family
        vgprGranularity := vgprGranularity
        configData := configData } := by
  refine takes_uint64_bind harmless asic.vramSize ?_
  refine takes_uint64_bind harmless asic.visVramSize ?_
  refine takes_uint64_bind harmless asic.gttSize ?_
  refine takes_word_bind harmless asic.isApu ?_
  refine takes_word_bind harmless (UInt32.ofNat asic.blocks.length) ?_
  exact (takes_loop asic.blocks IpBlock.chunks (IpBlock.cutAt n) fits.count _ (Nat.le_refl _)
    fun block member start => parseBlock_takes harmless block (fits.blocks block member)).map _

/-- The size of the GCA data is read as zero if it lies behind the cut, and so
nothing is read for the data. -/
theorem takes_config_bind (harmless : left < 4) (data : ConfigData)
    {next : List UInt8 → StateT RumrBuffer Option β} {more : List (List UInt8)} {result : β}
    (there : ∀ bytes, ConfigData.ofBytes bytes = held blankConfig data 2128 n →
      Takes origin.input left n 2128 (next bytes) more result) :
    Takes origin.input left n 80 (rumrBufferReadData (held 0 2048 80 n) >>= next)
      (data.bytes :: more) result := by
  have length : data.bytes.length = 2048 := data.length
  by_cases sized : 80 ≤ n
  · have refuses : Refuses origin.input (rumrBufferReadData 2048) (2048 : UInt32).toNat _ :=
      rumrBufferReadData_refuses 2048
    change Refuses _ _ 2048 _ at refuses
    rw [← length] at refuses
    have taken : Takes origin.input left n 80 (rumrBufferReadData 2048) [data.bytes] _ :=
      Takes.read (rumrBufferReadData_reads origin 2048 data.bytes length) refuses (by omega)
    rw [held, if_pos sized]
    refine taken.bind ?_
    rw [List.flatten_singleton, length]
    refine there _ ?_
    rw [held_map ConfigData.ofBytes, configData_ofBytes, ofBytes_zeros]
  · have skipped : Takes origin.input left n 80 (rumrBufferReadData 0) [data.bytes] [] := by
      intro state behind standing
      obtain ⟨next, run, nextStanding⟩ :=
        Takes.pure_behind (by omega) [data.bytes] ([] : List UInt8) state behind standing
      cases run
      exact ⟨state, rumrBufferReadData_nothing standing.good, nextStanding⟩
    rw [held, if_neg sized]
    refine skipped.bind ?_
    rw [List.flatten_singleton, length]
    refine there [] ?_
    rw [held, if_neg (by omega)]
    rfl

theorem parseFields_takes (harmless : left < 4) (asic : AsicModel) (fits : asic.Fits) :
    Takes origin.input left n 0 parseFields asic.chunks (some (asic.cutAt n)) := by
  refine takes_name_bind harmless 64 asic.asicname (by decide) (by decide) fits.asicname ?_
  refine takes_word_bind harmless asic.did ?_
  refine takes_word_bind harmless asic.family ?_
  refine takes_word_bind harmless asic.vgprGranularity ?_
  refine takes_word_bind harmless 2048 ?_
  have known : held 0 2048 80 n ≤ (2048 : UInt32) := by
    unfold held
    split <;> decide
  change Takes origin.input left n 80 (if held 0 2048 80 n ≤ 2048 then _ else _) _ _
  rw [if_pos known]
  refine takes_config_bind harmless asic.configData ?_
  intro bytes data
  rw [data]
  exact (parseTail_takes harmless asic fits _ _ _ _ _).map some

end Harmless

end Umr.Rumr
