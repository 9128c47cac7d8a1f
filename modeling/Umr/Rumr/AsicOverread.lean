import Umr.Rumr.TruncatedAsic

/-!
# A cut that leaves a word of a name

A read of a name or of the GCA data that fails leaves what there is of it in the
buffer.  Where that is a word or more, the next field takes it.
-/

set_option autoImplicit false

namespace Umr.Rumr

open Umr.Lib

/-! ## The stages of the parser -/

def parseConfig (asicname : CString) (did family vgprGranularity v : UInt32) :
    StateT RumrBuffer Option (Option AsicModel) :=
  if v ≤ 2048 then do
    let data ← rumrBufferReadData v
    let model ← parseTail asicname did family vgprGranularity (ConfigData.ofBytes data)
    pure (some model)
  else pure none

def parseHead (asicname : CString) : StateT RumrBuffer Option (Option AsicModel) := do
  let did ← rumrBufferReadUint32
  let family ← rumrBufferReadUint32
  let vgprGranularity ← rumrBufferReadUint32
  let v ← rumrBufferReadUint32
  parseConfig asicname did family vgprGranularity v

theorem parseFields_eq : parseFields = parseName 64 >>= parseHead := rfl

def AsicModel.tailChunks (asic : AsicModel) : List (List UInt8) :=
  wordBytes (loWord asic.vramSize) :: wordBytes (hiWord asic.vramSize) ::
    wordBytes (loWord asic.visVramSize) :: wordBytes (hiWord asic.visVramSize) ::
    wordBytes (loWord asic.gttSize) :: wordBytes (hiWord asic.gttSize) ::
    wordBytes asic.isApu :: wordBytes (UInt32.ofNat asic.blocks.length) ::
    asic.blocks.flatMap IpBlock.chunks

def AsicModel.headChunks (asic : AsicModel) : List (List UInt8) :=
  wordBytes asic.did :: wordBytes asic.family :: wordBytes asic.vgprGranularity ::
    wordBytes 2048 :: asic.configData.bytes :: asic.tailChunks

theorem chunks_eq (asic : AsicModel) :
    asic.chunks = nameField 64 asic.asicname :: asic.headChunks := rfl

/-! ## Moving on -/

section Forward
variable {origin : RumrBuffer} (allocated : origin.data.length < 2 ^ 32)
include allocated

/-- A read that would wrap the offset reaches beyond the allocation. -/
theorem rumrBufferReadData_forward (size : UInt32) :
    Forward origin.input (rumrBufferReadData size) := by
  intro buf data next from_ run
  have readable := from_.readable
  have sameData : buf.data = origin.data := by rw [from_.same]
  unfold rumrBufferReadData at run
  split at run
  · rename_i inside
    split at run
    · rename_i addressed
      cases run
      have moved : (buf.roffset + size).toNat = buf.roffset.toNat + size.toNat := by
        apply add_toNat_of_lt
        have rBound : buf.roffset.toNat < 2 ^ 32 := buf.roffset.toNat_lt
        rw [sameData] at addressed
        omega
      refine ⟨⟨⟨inside, readable.woffset_le⟩, by rw [from_.same]⟩, ?_⟩
      change (buf.written.drop (buf.roffset + size).toNat).length ≤
        (buf.written.drop buf.roffset.toNat).length
      rw [List.length_drop, List.length_drop, moved]
      omega
    · cases run
  · cases run
    exact ⟨from_, Nat.le_refl _⟩

theorem rumrBufferReadUint32_forward : Forward origin.input rumrBufferReadUint32 :=
  (rumrBufferReadData_forward allocated 4).bind fun _ => Forward.pure _

theorem parseName_forward (width : UInt32) : Forward origin.input (parseName width) :=
  (rumrBufferReadData_forward allocated width).bind fun _ => Forward.pure _

theorem parseUint64_forward : Forward origin.input parseUint64 := by
  have word := rumrBufferReadUint32_forward allocated
  exact word.bind fun _ => word.bind fun _ => Forward.pure _

theorem parseBitfield_forward : Forward origin.input parseBitfield := by
  have word := rumrBufferReadUint32_forward allocated
  refine (parseName_forward allocated 128).bind fun _ => ?_
  exact word.bind fun _ => word.bind fun _ => Forward.pure _

theorem parseReg_forward : Forward origin.input parseReg := by
  have word := rumrBufferReadUint32_forward allocated
  refine (parseName_forward allocated 128).bind fun _ => ?_
  refine word.bind fun _ => (parseUint64_forward allocated).bind fun _ => ?_
  refine word.bind fun _ => word.bind fun _ => ?_
  exact ((parseBitfield_forward allocated).readMany _).bind fun _ => Forward.pure _

theorem parseDiscoverable_forward : Forward origin.input parseDiscoverable := by
  have word := rumrBufferReadUint32_forward allocated
  refine word.bind fun _ => word.bind fun _ => word.bind fun _ => ?_
  exact word.bind fun _ => word.bind fun _ => word.bind fun _ => Forward.pure _

theorem parseBlock_forward : Forward origin.input parseBlock := by
  refine (parseName_forward allocated 64).bind fun _ => ?_
  refine (rumrBufferReadUint32_forward allocated).bind fun _ => ?_
  refine (parseDiscoverable_forward allocated).bind fun _ => ?_
  exact ((parseReg_forward allocated).readMany _).bind fun _ => Forward.pure _

end Forward

/-! ## Taking what is left of a name -/

section Overread
variable {origin : RumrBuffer} {β : Type}

theorem rumrBufferReadUint32_greedy : Greedy origin.input 4 rumrBufferReadUint32 := by
  intro buf value next from_ enough run
  change 4 ≤ buf.unread.length at enough
  have length : (buf.unread.take 4).length = (4 : UInt32).toNat := by
    rw [List.length_take, Nat.min_eq_left enough]
    rfl
  have reads := (rumrBufferReadData_reads origin 4 (buf.unread.take 4) length).map bytesWord
  obtain ⟨after, read, afterGood, afterUnread⟩ := reads buf (buf.unread.drop 4) from_
    (List.take_append_drop 4 buf.unread).symm
  have same := read.symm.trans run
  cases same
  refine ⟨afterGood, ?_⟩
  change next.unread.length < buf.unread.length
  rw [afterUnread, List.length_drop]
  omega

theorem words_short (words : List UInt32) : ∀ chunk ∈ words.map wordBytes, chunk.length ≤ 4 := by
  intro chunk member
  obtain ⟨word, _, rfl⟩ := List.mem_map.mp member
  exact Nat.le_refl 4

theorem overreads_word_bind (value : UInt32) {next : UInt32 → StateT RumrBuffer Option β}
    {more : List (List UInt8)} (there : Overreads origin.input 4 (next value) more) :
    Overreads origin.input 4 (rumrBufferReadUint32 >>= next) (wordBytes value :: more) := by
  have reads : Reads origin.input.good origin.input.unread rumrBufferReadUint32
      [wordBytes value].flatten value := rumrBufferReadUint32_reads origin value
  exact Overreads.behind reads (words_short [value]) there

theorem overreads_uint64_bind (value : UInt64) {next : UInt64 → StateT RumrBuffer Option β}
    {more : List (List UInt8)} (there : Overreads origin.input 4 (next value) more) :
    Overreads origin.input 4 (parseUint64 >>= next)
      (wordBytes (loWord value) :: wordBytes (hiWord value) :: more) :=
  Overreads.behind (parseUint64_reads origin value) (words_short [loWord value, hiWord value]) there

theorem overreads_name_bind (width : UInt32) (name : CString) (small : width.toNat ≤ 256)
    (fits : name.bytes.length ≤ width.toNat) {next : CString → StateT RumrBuffer Option β}
    {more : List (List UInt8)} (greedy : Greedy origin.input 4 (next emptyName))
    (there : Overreads origin.input 4 (next name) more) :
    Overreads origin.input 4 (parseName width >>= next)
      (nameField width.toNat name :: more) := by
  have refuses : Refuses origin.input (parseName width) width.toNat emptyName :=
    parseName_refuses width
  rw [← nameField_length small name] at refuses
  exact Overreads.wide (parseName_reads origin width name small fits) refuses greedy there

theorem overreads_loop {α : Type} {reader : StateT RumrBuffer Option α} (items : List α)
    (chunks : α → List (List UInt8)) (small : items.length < 2 ^ 31)
    (forward : Forward origin.input reader)
    (reads : ∀ item ∈ items,
      Reads origin.ReadFrom RumrBuffer.unread reader (chunks item).flatten item)
    (each : ∀ item ∈ items, Overreads origin.input 4 reader (chunks item)) (build : List α → β) :
    Overreads origin.input 4
      (readMany reader (loopRounds (UInt32.ofNat items.length)) >>= fun x => pure (build x))
      (items.flatMap chunks) := by
  have rounds : loopRounds (UInt32.ofNat items.length) = items.length := by
    rw [loopRounds, ofNat_toNat_of_lt (by omega), if_pos small]
  rw [rounds]
  exact (Overreads.readMany chunks id forward items reads each).andThen fun _ => Forward.pure _

variable (allocated : origin.data.length < 2 ^ 32)
include allocated

theorem parseBitfield_overreads (bit : Bitfield) (fits : bit.Fits) :
    Overreads origin.input 4 parseBitfield bit.chunks := by
  have word := rumrBufferReadUint32_forward allocated
  refine overreads_name_bind 128 bit.regname (by decide) fits ?_ ?_
  · exact rumrBufferReadUint32_greedy.bind fun _ => word.bind fun _ => Forward.pure _
  · refine overreads_word_bind bit.start.toUInt32 ?_
    exact overreads_word_bind bit.stop.toUInt32 (Overreads.nil _)

theorem parseReg_overreads (reg : Reg) (fits : reg.Fits) :
    Overreads origin.input 4 parseReg reg.chunks := by
  have word := rumrBufferReadUint32_forward allocated
  refine overreads_name_bind 128 reg.regname (by decide) fits.regname ?_ ?_
  · refine rumrBufferReadUint32_greedy.bind fun _ => ?_
    refine (parseUint64_forward allocated).bind fun _ => word.bind fun _ => word.bind fun _ => ?_
    exact ((parseBitfield_forward allocated).readMany _).bind fun _ => Forward.pure _
  · refine overreads_word_bind reg.type (overreads_uint64_bind reg.addr ?_)
    refine overreads_word_bind reg.bit64.toUInt32 ?_
    refine overreads_word_bind (UInt32.ofNat reg.bits.length) ?_
    exact overreads_loop reg.bits Bitfield.chunks fits.count (parseBitfield_forward allocated)
      (fun bit member => parseBitfield_reads origin bit (fits.bits bit member))
      (fun bit member => parseBitfield_overreads allocated bit (fits.bits bit member)) _

theorem parseBlock_overreads (block : IpBlock) (fits : block.Fits) :
    Overreads origin.input 4 parseBlock block.chunks := by
  refine overreads_name_bind 64 block.ipname (by decide) fits.ipname ?_ ?_
  · refine rumrBufferReadUint32_greedy.bind fun _ => ?_
    refine (parseDiscoverable_forward allocated).bind fun _ => ?_
    exact ((parseReg_forward allocated).readMany _).bind fun _ => Forward.pure _
  · refine overreads_word_bind (UInt32.ofNat block.regs.length) ?_
    refine Overreads.behind (parseDiscoverable_reads origin block.discoverable)
      (words_short [_, _, _, _, _, _]) ?_
    exact overreads_loop block.regs Reg.chunks fits.count (parseReg_forward allocated)
      (fun reg member => parseReg_reads origin reg (fits.regs reg member))
      (fun reg member => parseReg_overreads allocated reg (fits.regs reg member)) _

theorem parseSizes_forward (asicname : CString) (did family vgprGranularity : UInt32)
    (configData : ConfigData) (vramSize : UInt64) :
    Forward origin.input (do
      let visVramSize ← parseUint64
      let gttSize ← parseUint64
      let isApu ← rumrBufferReadUint32
      let noBlocks ← rumrBufferReadUint32
      let blocks ← readMany parseBlock (loopRounds noBlocks)
      pure (⟨asicname, did, family, vgprGranularity, configData, vramSize, visVramSize, gttSize,
        isApu, blocks⟩ : AsicModel)) := by
  have word := rumrBufferReadUint32_forward allocated
  have wide := parseUint64_forward allocated
  refine wide.bind fun _ => wide.bind fun _ => word.bind fun _ => word.bind fun _ => ?_
  exact ((parseBlock_forward allocated).readMany _).bind fun _ => Forward.pure _

theorem parseTail_forward (asicname : CString) (did family vgprGranularity : UInt32)
    (configData : ConfigData) :
    Forward origin.input (parseTail asicname did family vgprGranularity configData) :=
  (parseUint64_forward allocated).bind fun _ => parseSizes_forward allocated _ _ _ _ _ _

theorem parseUint64_greedy : Greedy origin.input 4 parseUint64 :=
  rumrBufferReadUint32_greedy.bind fun _ =>
    (rumrBufferReadUint32_forward allocated).bind fun _ => Forward.pure _

theorem parseTail_greedy (asicname : CString) (did family vgprGranularity : UInt32)
    (configData : ConfigData) :
    Greedy origin.input 4 (parseTail asicname did family vgprGranularity configData) :=
  (parseUint64_greedy allocated).bind fun _ => parseSizes_forward allocated _ _ _ _ _ _

theorem parseTail_overreads (asic : AsicModel) (fits : asic.Fits) (asicname : CString)
    (did family vgprGranularity : UInt32) (configData : ConfigData) :
    Overreads origin.input 4 (parseTail asicname did family vgprGranularity configData)
      asic.tailChunks := by
  refine overreads_uint64_bind asic.vramSize (overreads_uint64_bind asic.visVramSize ?_)
  refine overreads_uint64_bind asic.gttSize (overreads_word_bind asic.isApu ?_)
  refine overreads_word_bind (UInt32.ofNat asic.blocks.length) ?_
  exact overreads_loop asic.blocks IpBlock.chunks fits.count (parseBlock_forward allocated)
    (fun block member => parseBlock_reads origin block (fits.blocks block member))
    (fun block member => parseBlock_overreads allocated block (fits.blocks block member)) _

theorem parseConfig_overreads (asic : AsicModel) (fits : asic.Fits) (asicname : CString)
    (did family vgprGranularity : UInt32) :
    Overreads origin.input 4 (parseConfig asicname did family vgprGranularity 2048)
      (asic.configData.bytes :: asic.tailChunks) := by
  have refuses : Refuses origin.input (rumrBufferReadData 2048) asic.configData.bytes.length
      (List.replicate (2048 : UInt32).toNat 0) := by
    rw [asic.configData.length]
    exact rumrBufferReadData_refuses 2048
  have reads := rumrBufferReadData_reads origin 2048 asic.configData.bytes asic.configData.length
  rw [parseConfig, if_pos (by decide)]
  refine Overreads.wide reads refuses ?_ ?_
  · exact (parseTail_greedy allocated _ _ _ _ _).bind fun _ => Forward.pure _
  · exact (parseTail_overreads allocated asic fits _ _ _ _ _).andThen fun _ => Forward.pure _

theorem parseConfig_forward (asicname : CString) (did family vgprGranularity v : UInt32) :
    Forward origin.input (parseConfig asicname did family vgprGranularity v) := by
  unfold parseConfig
  split
  · refine (rumrBufferReadData_forward allocated v).bind fun _ => ?_
    exact (parseTail_forward allocated _ _ _ _ _).bind fun _ => Forward.pure _
  · exact Forward.pure none

end Overread

end Umr.Rumr
