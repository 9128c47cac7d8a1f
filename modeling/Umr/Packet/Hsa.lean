import Umr.Packet.Resume
import Umr.Lib.Fault

/-!
# HSA streams

`umr_hsa_decode_stream` and `umr_hsa_decode_stream_opcodes` of `read_hsa_stream.c`.
The stream is taken in units of 16 bits, of which a packet has 1 or 32.
-/

set_option autoImplicit false

namespace Umr.Packet

open Umr.Lib Umr.Rumr

/-- The halves of the words, the lower in front. -/
def hsaUnits (stream : List UInt32) : List UInt32 :=
  stream.flatMap fun word => [word &&& 0xFFFF, word >>> 16]

structure HsaPacket where
  words : List UInt32
  nwords : UInt32
  header : UInt32
  type : UInt32
  barrier : UInt32
  acquireFenceScope : UInt32
  releaseFenceScope : UInt32
  invalid : Bool
  deriving DecidableEq, Repr

def zeroHsa : HsaPacket := ⟨[], 0, 0, 0, 0, 0, 0, false⟩

def hsaNwords (type : UInt32) : UInt32 :=
  match type.toNat with
  | 0 | 1 => 1
  | 2 | 3 | 4 | 5 => 32
  | _ => 0

def hsaHeader (t16 : UInt32) : HsaPacket where
  words := []
  nwords := hsaNwords (t16 &&& 0xFF)
  header := t16
  type := t16 &&& 0xFF
  barrier := (t16 >>> 8) &&& 1
  acquireFenceScope := (t16 >>> 9) &&& 3
  releaseFenceScope := (t16 >>> 11) &&& 3
  invalid := false

def hsaLoop (units : List UInt32) : Nat → Nat → Nat → Except StreamStop (List HsaPacket)
  | 0, _, _ => .ok []
  | turns + 1, offset, nwords =>
      if nwords = 0 then .ok []
      else do
        let t16 ← orStop (readWord units offset)
        let ms := hsaHeader t16
        if nwords < ms.nwords.toNat ∨ ms.nwords = 0 then .ok []
        else do
          let words ← orStop (readWords units (offset + 1) (ms.nwords.toNat - 1))
          let next ← hsaLoop units turns (offset + ms.nwords.toNat) (nwords - ms.nwords.toNat)
          pure ({ ms with words := words } :: next)

/-- The number of units has 32 bits. -/
def umrHsaDecodeStream (stream : List UInt32) (nwords : UInt32) :
    Except StreamStop (List HsaPacket) :=
  let units := nwords * 2
  if units = 0 then .ok [zeroHsa] else hsaLoop (hsaUnits stream) units.toNat 0 units.toNat

/-! ## The opcode decoder -/

/-- A word that is not stored is a stop. -/
def hsaFetchWord (off : UInt32) : StateT HsaPacket (Except StreamStop) UInt32 := fun ps =>
  if ps.nwords ≤ off then .ok (0, { ps with invalid := true })
  else do
    let word ← orStop ps.words[off.toNat]?
    pure (word, ps)

structure HsaItem where
  name : String
  units : Nat
  mask : UInt64

def hsaItem (units : Nat) (name : String) : HsaItem := ⟨name, units, 0xFFFFFFFFFFFFFFFF⟩

def hsaLayout (type : UInt32) : List HsaItem :=
  match type.toNat with
  | 2 =>
      ⟨"setup_dimensions", 1, 3⟩ ::
        (["workgroup_size_x", "workgroup_size_y", "workgroup_size_z", "reserved0"].map (hsaItem 1) ++
          ["grid_size_x", "grid_size_y", "grid_size_z", "private_segment_size",
            "group_segment_size"].map (hsaItem 2) ++
          ["kernel_object", "kernarg_address", "reserved2", "completion_signal"].map (hsaItem 4))
  | 4 =>
      [hsaItem 1 "type", hsaItem 2 "reserved0"] ++
        ["return_address", "arg[0]", "arg[1]", "arg[2]", "arg[3]", "reserved2",
          "completion_signal"].map (hsaItem 4)
  | 3 | 5 =>
      [hsaItem 1 "reserved0", hsaItem 2 "reserved1"] ++
        ["dep_signal[0]", "dep_signal[1]", "dep_signal[2]", "dep_signal[3]", "dep_signal[4]",
          "reserved2", "completion_signal"].map (hsaItem 4)
  | _ => []

def hsaValue (words : List UInt32) : UInt64 :=
  words.foldr (fun word value => word.toUInt64 ||| (value <<< 16)) 0

def hsaTypeName (type : UInt32) : String :=
  ["HSA_VENDOR_SPECIFIC", "HSA_INVALID", "HSA_KERNEL_DISPATCH", "HSA_BARRIER_AND",
    "HSA_AGENT_DISPATCH", "HSA_BARRIER_OR"].getD type.toNat "HSA_UNK"

section Opcodes
variable (ibVmid : UInt32)

/-- Field sizes are negative where they count the bits of several words. -/
def hsaField (ibAddr : UInt64) (i : UInt32) (item : HsaItem) :
    StateT HsaPacket (Except StreamStop) (UiCall HsaPacket) := do
  let words ← ((List.range item.units).map fun k => i + UInt32.ofNat k).mapM hsaFetchWord
  pure (.addField (ibAddr + (2 * i).toUInt64) ibVmid item.name (hsaValue words &&& item.mask) none
    (if item.units = 4 then 16 else 10) (-16 * (item.units : Int)))

def hsaFields (ibAddr : UInt64) :
    List HsaItem → UInt32 → StateT HsaPacket (Except StreamStop) (List (UiCall HsaPacket))
  | [], _ => pure []
  | item :: items, i => do
      let call ← hsaField ibVmid ibAddr i item
      let further ← hsaFields ibAddr items (i + UInt32.ofNat item.units)
      pure (call :: further)

def hsaOpcodeLoop :
    List HsaPacket → Nat → UInt64 → Except StreamStop (List (UiCall HsaPacket) × List HsaPacket)
  | [], _, _ => .ok ([], [])
  | ps :: next, 0, _ => .ok ([], ps :: next)
  | ps :: next, opcodes + 1, ibAddr =>
      if ps.nwords = 0 then .ok ([], ps :: next)
      else do
        let start := .startOpcode ibAddr ibVmid 0 ps.type 0 ps.nwords (hsaTypeName ps.type) ps.header
          ps.words
        let (fields, ps) ← hsaFields ibVmid (ibAddr + 2) (hsaLayout ps.type) 0 ps
        if ps.invalid then pure (start :: fields, ps :: next)
        else do
          let (further, left) ← hsaOpcodeLoop next opcodes
            (ibAddr + 2 + (2 * (ps.nwords - 1)).toUInt64)
          pure (start :: (fields ++ further), left)

def umrHsaDecodeStreamOpcodes (stream : List HsaPacket) (ibAddr : UInt64) (opcodes : UInt64) :
    Except StreamStop (List (UiCall HsaPacket) × List HsaPacket) := do
  let (calls, left) ← hsaOpcodeLoop ibVmid stream opcodes.toNat ibAddr
  pure (.startIb ibAddr ibVmid 0 0 0 0 :: (calls ++ [.done]), left)

end Opcodes

/-! ## What is read -/

def HsaPacket.Stored (ps : HsaPacket) : Prop :=
  ps.nwords = 0 ∨
    ps.nwords = hsaNwords ps.type ∧ ps.words.length + 1 = ps.nwords.toNat

/-- From the packet the program ends, reads stored words alone, and leaves the packet. -/
def ReadsStored {α : Type} (ps : HsaPacket) (prog : StateT HsaPacket (Except StreamStop) α) : Prop :=
  Guarded (fun _ => False) prog ps fun _ after => after = ps

section Reads
variable {ps : HsaPacket}

theorem ReadsStored.bind {α β : Type} {prog : StateT HsaPacket (Except StreamStop) α}
    {next : α → StateT HsaPacket (Except StreamStop) β} (first : ReadsStored ps prog)
    (second : ∀ value, ReadsStored ps (next value)) : ReadsStored ps (prog >>= next) := by
  refine Guarded.bind first ?_
  rintro value after rfl
  exact second value

theorem ReadsStored.ok {α : Type} {prog : StateT HsaPacket (Except StreamStop) α}
    (reads : ReadsStored ps prog) : ∃ value, prog ps = .ok (value, ps) := by
  rw [ReadsStored, Guarded] at reads
  cases run : prog ps with
  | error fault =>
      rw [run] at reads
      cases reads
  | ok pair =>
      obtain ⟨value, after⟩ := pair
      rw [run] at reads
      change after = ps at reads
      exact ⟨value, by rw [reads]⟩

variable (whole : ps.words.length + 1 = ps.nwords.toNat)
include whole

theorem hsaFetchWord_reads {off : UInt32} (inside : off.toNat < ps.words.length) :
    ReadsStored ps (hsaFetchWord off) := by
  have below : ¬ ps.nwords ≤ off := by
    intro past
    have past : ps.nwords.toNat ≤ off.toNat := past
    omega
  have run : hsaFetchWord off ps = .ok (ps.words[off.toNat], ps) := by
    rw [hsaFetchWord, if_neg below, List.getElem?_eq_getElem inside]
    rfl
  exact Guarded.of_ok run rfl

theorem fetchAll_reads {offs : List UInt32} (inside : ∀ off ∈ offs, off.toNat < ps.words.length) :
    ReadsStored ps (offs.mapM hsaFetchWord) := by
  induction offs with
  | nil =>
      rw [List.mapM_nil]
      exact Guarded.pure rfl
  | cons off offs ih =>
      obtain ⟨here, behind⟩ := List.forall_mem_cons.mp inside
      rw [List.mapM_cons]
      refine (hsaFetchWord_reads whole here).bind fun word => ?_
      refine (ih behind).bind fun words => ?_
      exact Guarded.pure rfl

/-- The units of the fields are at most the words. -/
theorem hsaFields_reads (ibVmid : UInt32) (ibAddr : UInt64) {items : List HsaItem} :
    ∀ {i : UInt32}, i.toNat + (items.map HsaItem.units).sum ≤ ps.words.length →
      ReadsStored ps (hsaFields ibVmid ibAddr items i) := by
  have narrow := ps.nwords.toNat_lt
  induction items with
  | nil => exact fun _ => Guarded.pure rfl
  | cons item items ih =>
      intro i fits
      rw [List.map_cons, List.sum_cons] at fits
      have at_ (k : Nat) (le : k ≤ item.units) : (i + UInt32.ofNat k).toNat = i.toNat + k := by
        rw [UInt32.toNat_add, UInt32.toNat_ofNat']
        omega
      refine ReadsStored.bind (ReadsStored.bind ?_ fun words => Guarded.pure rfl) fun call => ?_
      · refine fetchAll_reads whole fun off member => ?_
        obtain ⟨k, among, rfl⟩ := List.mem_map.mp member
        have below := List.mem_range.mp among
        rw [at_ k (by omega)]
        omega
      · refine ReadsStored.bind (ih ?_) fun further => Guarded.pure rfl
        rw [at_ item.units (Nat.le_refl _)]
        omega

end Reads

theorem hsaLayout_units (type : UInt32) :
    ((hsaLayout type).map HsaItem.units).sum + 1 ≤ (hsaNwords type).toNat ∨ hsaNwords type = 0 := by
  rw [hsaLayout, hsaNwords]
  generalize type.toNat = kind
  match kind with
  | 0 | 1 => exact Or.inl (by decide)
  | 2 | 3 | 4 | 5 => exact Or.inl (by decide)
  | _ + 6 => exact Or.inr rfl

theorem hsaOpcodeLoop_ends (ibVmid : UInt32) {stream : List HsaPacket} :
    ∀ {opcodes : Nat} {ibAddr : UInt64}, (∀ ps ∈ stream, ps.Stored) →
      Ends (hsaOpcodeLoop ibVmid stream opcodes ibAddr) := by
  induction stream with
  | nil => exact fun _ => ends_ok _
  | cons ps next ih =>
      intro opcodes ibAddr stored
      obtain ⟨here, behind⟩ := List.forall_mem_cons.mp stored
      cases opcodes with
      | zero => exact ends_ok _
      | succ opcodes =>
          rw [hsaOpcodeLoop]
          refine ends_ite.mpr ⟨fun _ => ends_ok _, fun some_ => ?_⟩
          obtain ⟨sized, whole⟩ := here.resolve_left some_
          have fits : (0 : UInt32).toNat + ((hsaLayout ps.type).map HsaItem.units).sum ≤
              ps.words.length := by
            have units := (hsaLayout_units ps.type).resolve_right (sized ▸ some_)
            have zero : (0 : UInt32).toNat = 0 := rfl
            rw [← sized] at units
            omega
          obtain ⟨fields, run⟩ := (hsaFields_reads whole ibVmid (ibAddr + 2) fits).ok
          refine ends_bind.mpr ⟨_, run, ?_⟩
          refine ends_ite.mpr ⟨fun _ => ends_pure _, fun _ => ?_⟩
          obtain ⟨further, ran⟩ := @ih opcodes (ibAddr + 2 + (2 * (ps.nwords - 1)).toUInt64) behind
          exact ends_bind.mpr ⟨further, ran, ends_pure _⟩

theorem umrHsaDecodeStreamOpcodes_ends {stream : List HsaPacket} (stored : ∀ ps ∈ stream, ps.Stored)
    (ibVmid : UInt32) (ibAddr opcodes : UInt64) :
    Ends (umrHsaDecodeStreamOpcodes ibVmid stream ibAddr opcodes) := by
  obtain ⟨run, ran⟩ := @hsaOpcodeLoop_ends ibVmid stream opcodes.toNat ibAddr stored
  exact ends_bind.mpr ⟨run, ran, ends_pure _⟩

/-! ## The cut into packets -/

def hsaSize (header : UInt32) : Nat := (hsaNwords (header &&& 0xFF)).toNat

/-- A unit of an unknown type announces more than is there. -/
abbrev hsaPayload : UInt32 → List UInt32 → Nat := sizedPayload hsaSize

def hsaPacket (packet : UInt32 × List UInt32) : HsaPacket :=
  { hsaHeader packet.1 with words := packet.2 }

/-- The units of the packets; the node of an empty stream has none. -/
def hsaFrames (stream : List HsaPacket) : List (UInt32 × List UInt32) :=
  (stream.filter fun ps => ps.nwords ≠ 0).map fun ps => (ps.header, ps.words)

theorem hsaLoop_cuts {units : List UInt32} {turns : Nat} : ∀ {offset nwords : Nat},
    hsaLoop units turns offset nwords =
      orStop ((cutPackets hsaSize units turns offset nwords).map (List.map hsaPacket)) := by
  induction turns with
  | zero => exact rfl
  | succ turns ih =>
      intro offset nwords
      rw [hsaLoop, cutPackets]
      split
      · rfl
      · cases readWord units offset with
        | none => rfl
        | some t16 =>
            have zero : (hsaHeader t16).nwords = 0 ↔ hsaSize t16 = 0 := UInt32.toNat_inj.symm
            change (if nwords < hsaSize t16 ∨ (hsaHeader t16).nwords = 0 then _ else _) =
              orStop (Option.map _ (if nwords < hsaSize t16 ∨ hsaSize t16 = 0 then _ else _))
            by_cases stop : nwords < hsaSize t16 ∨ hsaSize t16 = 0
            · rw [if_pos stop, if_pos (stop.imp_right zero.mpr)]
              rfl
            · rw [if_neg stop, if_neg fun same => stop (same.imp_right zero.mp)]
              change (orStop (readWords units (offset + 1) (hsaSize t16 - 1)) >>= fun words =>
                hsaLoop units turns (offset + hsaSize t16) (nwords - hsaSize t16) >>= _) = _
              rw [ih]
              cases readWords units (offset + 1) (hsaSize t16 - 1) with
              | none => rfl
              | some words =>
                  change (orStop ((cutPackets hsaSize units turns (offset + hsaSize t16)
                    (nwords - hsaSize t16)).map _) >>= _) = _
                  cases further : cutPackets hsaSize units turns (offset + hsaSize t16)
                    (nwords - hsaSize t16) with
                  | none =>
                      rfl
                  | some next => rfl

theorem hsaFrames_packets {packets : List (UInt32 × List UInt32)}
    (sizes : ∀ packet ∈ packets, packet.2.length + 1 = hsaSize packet.1) :
    hsaFrames (packets.map hsaPacket) = packets := by
  have some_ : ∀ ps ∈ packets.map hsaPacket, decide (ps.nwords ≠ 0) = true := by
    intro ps member
    obtain ⟨packet, among, rfl⟩ := List.mem_map.mp member
    refine decide_eq_true fun zero => ?_
    have size : hsaSize packet.1 = 0 := UInt32.toNat_inj.mpr zero
    have counted := sizes packet among
    omega
  rw [hsaFrames, List.filter_eq_self.mpr some_, List.map_map]
  exact List.map_id _

theorem hsaUnits_length (stream : List UInt32) : (hsaUnits stream).length = 2 * stream.length := by
  induction stream with
  | nil => rfl
  | cons word stream ih =>
      rw [hsaUnits, List.flatMap_cons, ← hsaUnits, List.length_append, ih, List.length_cons]
      change 2 + 2 * stream.length = 2 * (stream.length + 1)
      omega

section Decode
variable {stream : List UInt32} {nwords : UInt32}

/-- What is decoded is the cut of as many units as are counted. -/
theorem umrHsaDecodeStream_frames (counted : stream.length = nwords.toNat) :
    ∃ decoded rest, umrHsaDecodeStream stream nwords = .ok decoded ∧
      Framed hsaPayload ((hsaUnits stream).take (nwords * 2).toNat) (hsaFrames decoded) rest ∧
      ∀ ps ∈ decoded, ps.Stored := by
  rw [umrHsaDecodeStream]
  by_cases none_ : nwords * 2 = 0
  · rw [if_pos none_, none_]
    exact ⟨[zeroHsa], [], rfl, framed_nil, List.forall_mem_singleton.mpr (Or.inl rfl)⟩
  · rw [if_neg none_]
    have two : (2 : UInt32).toNat = 2 := rfl
    have doubled : (nwords * 2).toNat ≤ ((hsaUnits stream).drop 0).length := by
      rw [List.drop_zero, hsaUnits_length, counted, UInt32.toNat_mul, two]
      have le := Nat.mod_le (nwords.toNat * 2) (2 ^ 32)
      omega
    obtain ⟨packets, rest, run, framed, sizes⟩ :=
      @cutPackets_frames _ hsaSize (hsaUnits stream) _ _ _ (Nat.le_refl _) doubled
    refine ⟨packets.map hsaPacket, rest, ?_, ?_, ?_⟩
    · rw [hsaLoop_cuts, run]
      rfl
    · rw [hsaFrames_packets sizes]
      exact framed
    · intro ps member
      obtain ⟨packet, among, rfl⟩ := List.mem_map.mp member
      exact Or.inr ⟨rfl, sizes packet among⟩

end Decode

/-- The packets are the cut of the units of the stream, and what the opcode decoder
reads of them is stored. -/
def HsaDecodes (stream : List UInt32) (nwords : UInt32) : Prop :=
  ∃ decoded, umrHsaDecodeStream stream nwords = .ok decoded ∧
    (∃ rest, Framed hsaPayload (hsaUnits stream) (hsaFrames decoded) rest) ∧
    ∀ ibVmid ibAddr opcodes, Ends (umrHsaDecodeStreamOpcodes ibVmid decoded ibAddr opcodes)

/-- Twice the number of words is counted in 32 bits. -/
theorem hsaDecodes_iff {stream : List UInt32} {nwords : UInt32}
    (counted : stream.length = nwords.toNat) :
    HsaDecodes stream nwords ↔
      ∃ packets rest, Framed hsaPayload (hsaUnits stream) packets rest ∧
        (reassemble packets).length ≤ (nwords * 2).toNat := by
  obtain ⟨decoded, rest, run, framed, stored⟩ := umrHsaDecodeStream_frames counted
  constructor
  · rintro ⟨others, ran, ⟨left, whole⟩, _⟩
    rw [run] at ran
    cases ran
    refine ⟨_, left, whole, ?_⟩
    have length := congrArg List.length framed.reassembles
    rw [List.length_append] at length
    have le := List.length_take_le (nwords * 2).toNat (hsaUnits stream)
    omega
  · rintro ⟨packets, left, whole, enough⟩
    obtain ⟨short, again⟩ := whole.take_sized enough
    rw [← (framed.unique again).1] at whole
    exact ⟨decoded, run, ⟨left, whole⟩, umrHsaDecodeStreamOpcodes_ends stored⟩

def dispatchSample : List UInt32 := 2 :: List.replicate 15 7

theorem hsaDecodes_dispatch : dispatchSample.length = (16 : UInt32).toNat ∧
    HsaDecodes dispatchSample 16 := by
  have cut : hsaUnits dispatchSample = 2 :: ((hsaUnits dispatchSample).tail ++ []) := by decide
  have framed : Framed hsaPayload (hsaUnits dispatchSample)
      [(2, (hsaUnits dispatchSample).tail)] [] := by
    rw [cut]
    exact .packet 2 _ [] [] [] (by decide) framed_nil
  exact ⟨by decide, (hsaDecodes_iff (by decide)).mpr ⟨_, _, framed, by decide⟩⟩

/-- The number of units of 2^31 words is 0 in 32 bits, and no packet is returned. -/
theorem not_hsaDecodes_wrapped : ¬ HsaDecodes (List.replicate (2 ^ 31) 0) 0x80000000 := by
  rintro ⟨decoded, run, ⟨rest, framed⟩, _⟩
  have empty : decoded = [zeroHsa] := (Except.ok.inj run).symm
  have units : hsaUnits (List.replicate (2 ^ 31) 0) =
      0 :: 0 :: hsaUnits (List.replicate (2 ^ 31 - 1) 0) := by
    have some_ : 2 ^ 31 = (2 ^ 31 - 1) + 1 := rfl
    rw [some_, List.replicate_succ]
    rfl
  have none_ : hsaFrames [zeroHsa] = [] := rfl
  rw [empty, none_] at framed
  have all : hsaUnits (List.replicate (2 ^ 31) 0) = rest := framed.reassembles
  have incomplete := framed.short 0 _ (all.symm.trans units)
  exact Nat.not_lt_zero _ incomplete

end Umr.Packet
