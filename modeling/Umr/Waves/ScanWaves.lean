import Umr.Waves.WaveOps
import Mathlib.Data.List.Pairwise

/-!
# The list of waves

`umr_scan_wave_data` of `scan_waves.c`: the units of all shader engines are asked
one after the other whether they are busy, the slots of the busy ones whether they
hold a wave.  The list is filled through its last node, which is allocated before it
is known whether there is a wave for it.
-/

set_option autoImplicit false

namespace Umr.Waves

open Umr.Lib
open Umr.Rumr (ChipFamily)

/-- What the loops are bounded by; `gfxip` is the version of the `gfx` block of the
partition. -/
structure ScanConfig where
  maxShaderEngines : UInt32
  maxShPerSe : UInt32
  maxCuPerSh : UInt32
  gfxip : Nat × Nat
  deriving DecidableEq, Repr

def counters (limit : UInt32) : List UInt32 := (List.range limit.toNat).map UInt32.ofNat

def waveLimit (config : ScanConfig) : UInt32 :=
  if config.gfxip.1 ≤ 9 then 10
  else if config.gfxip.1 = 10 ∧ config.gfxip.2 ≠ 3 then 20
  else 16

def manyToInstance (wgp simd : UInt32) : UInt32 := (simd &&& 3) ||| (wgp <<< (2 : UInt32))

/-- What is asked whether it is busy, and the SIMDs that are scanned then. -/
structure WaveUnit where
  se : UInt32
  sh : UInt32
  cu : UInt32
  instance_ : UInt32
  simds : List UInt32
  deriving DecidableEq, Repr

/-- The units in the order of the loops: CUs, and from NV on the SIMDs of WGPs. -/
def waveUnits (family : ChipFamily) (config : ScanConfig) : List WaveUnit :=
  (counters config.maxShaderEngines).flatMap fun se =>
    (counters config.maxShPerSe).flatMap fun sh =>
      if family.code ≤ ChipFamily.ai.code then
        (counters config.maxCuPerSh).map fun cu => ⟨se, sh, cu, cu, counters 4⟩
      else
        (counters (config.maxCuPerSh / 2)).flatMap fun wgp =>
          (counters 4).map fun simd => ⟨se, sh, wgp, manyToInstance wgp simd, [simd]⟩

/-- The list under construction: the nodes that are filled, and the one that is not.
`sqInfo` is that of the last node. -/
structure WaveList (ω : Type) where
  filled : List (WaveData ω)
  last : WaveData ω
  sqInfo : SqInfo

section Scan
variable {σ ω : Type} (device : WaveDevice σ ω)

/-- A part of the scan; `none` is the jump to `error`. -/
abbrev Scan (σ ω : Type) :=
  WaveList ω → AsicState σ → Except WaveFault (Option (WaveList ω) × AsicState σ)

def Scan.skip : Scan σ ω := fun list state => pure (some list, state)

def Scan.andThen (first second : Scan σ ω) : Scan σ ω := fun list state => do
  match ← first list state with
  | (none, state) => pure (none, state)
  | (some list, state) => second list state

def forEach {α : Type} (body : α → Scan σ ω) : List α → Scan σ ω
  | [] => Scan.skip
  | value :: values => (body value).andThen (forEach body values)

/-- The node that `calloc` gives, with the names of the one before it. -/
def nextWave (pwd : WaveData ω) : WaveData ω :=
  { se := 0, sh := 0, cu := 0, simd := 0, wave := 0, regNames := pwd.regNames,
    ws := device.emptyStatus }

/-- One turn of `umr_scan_wave_simd`. -/
def scanSlot (se sh cu simd wave : UInt32) : Scan σ ω := fun list state => do
  let ((r, pwd), state) ← umrScanWaveSlot device se sh cu simd wave list.last state
  if r = 1 then pure (some ⟨list.filled ++ [pwd], nextWave device pwd, ⟨0, 0⟩⟩, state)
  else if r = -1 then pure (none, state)
  else pure (some { list with last := pwd }, state)

def umrScanWaveSimd (config : ScanConfig) (se sh cu simd : UInt32) : Scan σ ω :=
  forEach (scanSlot device se sh cu simd) (counters (waveLimit config))

/-- What `umr_get_wave_sq_info` returns is not looked at. -/
def scanUnit (config : ScanConfig) (unit : WaveUnit) : Scan σ ω := fun list state =>
  let ((_, info), state) := umrGetWaveSqInfoVi device unit.se unit.sh unit.instance_ state
  let list := { list with sqInfo := info.getD list.sqInfo }
  if list.sqInfo.busy ≠ 0 then
    forEach (umrScanWaveSimd device config unit.se unit.sh unit.cu) unit.simds list state
  else Scan.skip list state

/-- `NULL` is the empty list. -/
def umrScanWaveData (config : ScanConfig) (state : AsicState σ) :
    Except WaveFault (List (WaveData ω) × AsicState σ) :=
  let (r, ohead) := umrWaveDataInit device
  if r < 0 then pure ([], state)
  else do
    match ← forEach (scanUnit device config) (waveUnits device.family config) ⟨[], ohead, ⟨0, 0⟩⟩
        state with
    | (some list, state) => pure (list.filled, state)
    | (none, state) => pure ([], state)

end Scan

/-! ## The hardware -/

structure WaveSlot where
  se : UInt32
  sh : UInt32
  cu : UInt32
  simd : UInt32
  wave : UInt32
  deriving DecidableEq, Repr

def WaveData.slot {ω : Type} (wd : WaveData ω) : WaveSlot :=
  ⟨wd.se, wd.sh, wd.cu, wd.simd, wd.wave⟩

/-- The order of shader engine, array, CU or WGP, SIMD and slot number. -/
def WaveSlot.Before (first second : WaveSlot) : Prop :=
  first.se < second.se ∨ first.se = second.se ∧ (first.sh < second.sh ∨ first.sh = second.sh ∧
    (first.cu < second.cu ∨ first.cu = second.cu ∧ (first.simd < second.simd ∨
      first.simd = second.simd ∧ first.wave < second.wave)))

/-- Which units are busy and what status a slot has; `none` where it cannot be read. -/
structure WaveHardware (ω : Type) where
  busy : UInt32 → UInt32 → UInt32 → Bool
  status : UInt32 → UInt32 → UInt32 → UInt32 → UInt32 → Option ω

section Hardware
variable {σ ω : Type}

def unitInstance (family : ChipFamily) (slot : WaveSlot) : UInt32 :=
  if family.code ≤ ChipFamily.ai.code then slot.cu else manyToInstance slot.cu slot.simd

def slotStatus (family : ChipFamily) (hw : WaveHardware ω) (slot : WaveSlot) : Option ω :=
  hw.status slot.se slot.sh (unitInstance family slot)
    (if family.code ≤ ChipFamily.ai.code then slot.simd else 0) slot.wave

/-- The device says what the hardware is like, and asking it changes nothing of that. -/
structure Reports (device : WaveDevice σ ω) (hw : WaveHardware ω) : Prop where
  sqInfo : ∀ se sh cu state, ∃ info dev,
    umrGetWaveSqInfoVi device se sh cu state =
      ((0, some info), { options := state.options, dev := dev }) ∧
      (info.busy ≠ 0 ↔ hw.busy se sh cu = true)
  status : ∀ options se sh cu simd wave dev ws, hw.status se sh cu simd wave = some ws →
    (device.getWaveStatus options se sh cu simd wave dev).1 = (0, ws)
  unreadable : ∀ options se sh cu simd wave dev, hw.status se sh cu simd wave = none →
    (device.getWaveStatus options se sh cu simd wave dev).1.1 ≠ 0

structure BusySlot (family : ChipFamily) (config : ScanConfig) (hw : WaveHardware ω)
    (slot : WaveSlot) : Prop where
  se : slot.se < config.maxShaderEngines
  sh : slot.sh < config.maxShPerSe
  cu : slot.cu < if family.code ≤ ChipFamily.ai.code then config.maxCuPerSh
    else config.maxCuPerSh / 2
  simd : slot.simd < 4
  wave : slot.wave < waveLimit config
  busy : hw.busy slot.se slot.sh (unitInstance family slot) = true

/-- A bit of a status register; a register that reads `0xDEADBEEF` has all of them. -/
def BitSet (device : WaveDevice σ ω) (options : Options) (ws : ω) (reg : WaveReg)
    (bits : WaveBits) : Prop :=
  device.bitslice options.vmPartition reg bits (device.waveValue ws reg) ≠ 0 ∨
    device.waveValue ws reg = 0xDEADBEEF

/-- VALID or HALT, where a status of `0xBEBEBEEF` is none; HALT is a bit of STATE_PRIV on gfx 12. -/
def HoldsWave (device : WaveDevice σ ω) (options : Options) (ws : ω) : Prop :=
  BitSet device options ws .status .valid ∨
    BitSet device options ws (if device.gfxMaj = 12 then .statePriv else .status) .halt ∧
      device.waveValue ws .status ≠ 0xBEBEBEEF

instance (device : WaveDevice σ ω) (options : Options) (ws : ω) (reg : WaveReg) (bits : WaveBits) :
    Decidable (BitSet device options ws reg bits) :=
  inferInstanceAs (Decidable (_ ∨ _))

instance (device : WaveDevice σ ω) (options : Options) (ws : ω) :
    Decidable (HoldsWave device options ws) :=
  inferInstanceAs (Decidable (_ ∨ _ ∧ _))

theorem waveBits_ne_zero {device : WaveDevice σ ω} {options : Options} {ws : ω} {reg : WaveReg}
    {bits : WaveBits} :
    waveBits device options ws reg bits ≠ 0 ↔ BitSet device options ws reg bits := by
  unfold waveBits BitSet
  by_cases sentinel : device.waveValue ws reg = 0xDEADBEEF
  · rw [if_pos sentinel]
    exact iff_of_true (by decide) (Or.inr sentinel)
  · rw [if_neg sentinel]
    exact (or_iff_left sentinel).symm

theorem holdsWave_iff {device : WaveDevice σ ω} {options : Options} {ws : ω} :
    HoldsWave device options ws ↔ ¬ EmptySlot device options ws := by
  unfold HoldsWave EmptySlot
  rw [not_and_or, not_or, ← ne_eq, ← ne_eq, waveBits_ne_zero, waveBits_ne_zero]
  rfl

end Hardware

/-! ## What is scanned -/

section Scanned
variable {σ ω : Type} {device : WaveDevice σ ω} {hw : WaveHardware ω} {options : Options}

def inUse (device : WaveDevice σ ω) (hw : WaveHardware ω) (options : Options) (slot : WaveSlot) :
    Bool :=
  (slotStatus device.family hw slot).any fun ws => decide (HoldsWave device options ws)

/-- A part of the scan over `slots`, from any list whose last node has names: it appends those in
use, unless one of them cannot be read. -/
def Scans (device : WaveDevice σ ω) (hw : WaveHardware ω) (options : Options) (prog : Scan σ ω)
    (slots : List WaveSlot) : Prop :=
  ∀ list state, state.options = options → list.last.regNames = true →
    ∃ outcome next, prog list state = .ok (outcome, next) ∧ next.options = options ∧
      ((∀ slot ∈ slots, slotStatus device.family hw slot ≠ none) → ∃ after,
        outcome = some after ∧ after.last.regNames = true ∧
        after.filled.map WaveData.slot =
          list.filled.map WaveData.slot ++ slots.filter (inUse device hw options)) ∧
      ((∃ slot ∈ slots, slotStatus device.family hw slot = none) → outcome = none)

theorem Scans.skip : Scans device hw options Scan.skip [] := by
  intro list state same named
  refine ⟨some list, state, rfl, same, fun _ => ⟨list, rfl, named, (List.append_nil _).symm⟩, ?_⟩
  rintro ⟨slot, member, _⟩
  cases member

theorem Scans.andThen {first second : Scan σ ω} {front behind : List WaveSlot}
    (firstScans : Scans device hw options first front)
    (secondScans : Scans device hw options second behind) :
    Scans device hw options (first.andThen second) (front ++ behind) := by
  intro list state same named
  obtain ⟨outcome, middle, ran, kept, readable, unreadable⟩ := firstScans list state same named
  rw [Scan.andThen, ran, ok_bind]
  cases outcome with
  | none =>
      refine ⟨none, middle, rfl, kept, fun all => ?_, fun _ => rfl⟩
      obtain ⟨after, impossible, _⟩ :=
        readable fun slot member => all slot (List.mem_append_left _ member)
      cases impossible
  | some after =>
      have allFront : ∀ slot ∈ front, slotStatus device.family hw slot ≠ none := by
        intro slot member cannot
        cases unreadable ⟨slot, member, cannot⟩
      obtain ⟨_, isAfter, stillNamed, filled⟩ := readable allFront
      cases isAfter
      obtain ⟨outcome, last, ranBehind, keptBehind, readableBehind, unreadableBehind⟩ :=
        secondScans after middle kept stillNamed
      refine ⟨outcome, last, ranBehind, keptBehind, fun all => ?_, fun cannot => ?_⟩
      · obtain ⟨final, isFinal, finalNamed, filledBehind⟩ :=
          readableBehind fun slot member => all slot (List.mem_append_right _ member)
        refine ⟨final, isFinal, finalNamed, ?_⟩
        rw [filledBehind, filled, List.filter_append, List.append_assoc]
      · obtain ⟨slot, member, missing⟩ := cannot
        rcases List.mem_append.mp member with here | later
        · exact absurd missing (allFront slot here)
        · exact unreadableBehind ⟨slot, later, missing⟩

theorem Scans.forEach {α : Type} {body : α → Scan σ ω} {slots : α → List WaveSlot}
    {values : List α} (scans : ∀ value ∈ values, Scans device hw options (body value) (slots value)) :
    Scans device hw options (forEach body values) (values.flatMap slots) := by
  induction values with
  | nil => exact Scans.skip
  | cons value values ih =>
      obtain ⟨here, behind⟩ := List.forall_mem_cons.mp scans
      exact here.andThen (ih behind)

/-! ### One slot -/

section Slot
variable (reports : Reports device hw) {slot : WaveSlot}

include reports

theorem getSlotStatus_reports (dev : σ) :
    (slotStatus device.family hw slot = none →
      (getSlotStatus device options slot.se slot.sh slot.cu slot.simd slot.wave dev).1.1 ≠ 0) ∧
    ∀ ws, slotStatus device.family hw slot = some ws →
      (getSlotStatus device options slot.se slot.sh slot.cu slot.simd slot.wave dev).1 = (0, ws) := by
  unfold slotStatus unitInstance getSlotStatus
  by_cases old : device.family.code ≤ ChipFamily.ai.code
  · simp only [if_pos old]
    exact ⟨reports.unreadable _ _ _ _ _ _ _, reports.status _ _ _ _ _ _ _⟩
  · simp only [if_neg old]
    exact ⟨reports.unreadable _ _ _ _ _ _ _, reports.status _ _ _ _ _ _ _⟩

theorem scanSlot_scans (known : KnownGfx device) :
    Scans device hw options (scanSlot device slot.se slot.sh slot.cu slot.simd slot.wave) [slot] := by
  rintro list state rfl named
  obtain ⟨pwd, dev, scanned, stillNamed, filled⟩ := umrScanWaveSlot_named known slot.se slot.sh
    slot.cu slot.simd slot.wave named state
  obtain ⟨unreadable, status⟩ :=
    @getSlotStatus_reports _ _ _ _ state.options reports slot state.dev
  rw [scanSlot, scanned, ok_bind]
  generalize (getSlotStatus device state.options slot.se slot.sh slot.cu slot.simd slot.wave
    state.dev).1 = answer at unreadable status filled
  cases isStatus : slotStatus device.family hw slot with
  | none =>
      have isError : slotResult device state.options answer = -1 := if_pos (unreadable isStatus)
      simp only [isError]
      refine ⟨none, _, rfl, rfl, fun all => ?_, fun _ => rfl⟩
      exact absurd isStatus (all slot List.mem_cons_self)
  | some ws =>
      have readable : ¬ ∃ other ∈ [slot], slotStatus device.family hw other = none := by
        rintro ⟨other, member, missing⟩
        rw [List.mem_singleton.mp member, isStatus] at missing
        cases missing
      have isInUse : inUse device hw state.options slot =
          decide (HoldsWave device state.options ws) := by
        rw [inUse, isStatus, Option.any_some]
      rw [status ws isStatus] at filled ⊢
      by_cases wave : HoldsWave device state.options ws
      · have isOne : slotResult device state.options (0, ws) = 1 :=
          (if_neg (not_not.mpr rfl)).trans (if_neg (holdsWave_iff.mp wave))
        obtain ⟨se, sh, cu, simd, number⟩ := filled isOne
        simp only [isOne]
        refine ⟨some _, _, rfl, rfl, fun _ => ⟨_, rfl, stillNamed, ?_⟩, fun missing =>
          absurd missing readable⟩
        rw [List.filter_cons, isInUse, if_pos (decide_eq_true wave), List.filter_nil,
          List.map_append, List.map_singleton, WaveData.slot, se, sh, cu, simd, number]
      · have isZero : slotResult device state.options (0, ws) = 0 :=
          (if_neg (not_not.mpr rfl)).trans (if_pos (not_not.mp (mt holdsWave_iff.mpr wave)))
        simp only [isZero]
        refine ⟨some _, _, rfl, rfl, fun _ => ⟨_, rfl, stillNamed, ?_⟩, fun missing =>
          absurd missing readable⟩
        rw [List.filter_cons, isInUse, decide_eq_false wave, List.filter_nil,
          if_neg Bool.false_ne_true, List.append_nil]

end Slot

/-! ### All slots -/

theorem mem_counters {limit value : UInt32} : value ∈ counters limit ↔ value < limit := by
  rw [counters, List.mem_map, UInt32.lt_iff_toNat_lt]
  constructor
  · rintro ⟨n, member, rfl⟩
    have below := List.mem_range.mp member
    rw [UInt32.toNat_ofNat', Nat.mod_eq_of_lt (Nat.lt_trans below limit.toNat_lt)]
    exact below
  · exact fun below => ⟨value.toNat, List.mem_range.mpr below, UInt32.ofNat_toNat⟩

theorem counters_pairwise (limit : UInt32) : (counters limit).Pairwise (· < ·) := by
  rw [counters, List.pairwise_map]
  refine List.Pairwise.imp_of_mem ?_ List.pairwise_lt_range
  intro first second isFirst isSecond lt
  have below := List.mem_range.mp isSecond
  have bound := limit.toNat_lt
  rw [UInt32.lt_iff_toNat_lt, UInt32.toNat_ofNat', UInt32.toNat_ofNat',
    Nat.mod_eq_of_lt (by omega), Nat.mod_eq_of_lt (by omega)]
  exact lt

def cuLimit (family : ChipFamily) (config : ScanConfig) : UInt32 :=
  if family.code ≤ ChipFamily.ai.code then config.maxCuPerSh else config.maxCuPerSh / 2

def allSlots (family : ChipFamily) (config : ScanConfig) : List WaveSlot :=
  (counters config.maxShaderEngines).flatMap fun se =>
    (counters config.maxShPerSe).flatMap fun sh =>
      (counters (cuLimit family config)).flatMap fun cu =>
        (counters 4).flatMap fun simd =>
          (counters (waveLimit config)).map fun wave => ⟨se, sh, cu, simd, wave⟩

theorem mem_allSlots {family : ChipFamily} {config : ScanConfig} {slot : WaveSlot} :
    slot ∈ allSlots family config ↔
      slot.se < config.maxShaderEngines ∧ slot.sh < config.maxShPerSe ∧
        slot.cu < cuLimit family config ∧ slot.simd < 4 ∧ slot.wave < waveLimit config := by
  simp only [allSlots, List.mem_flatMap, List.mem_map, mem_counters]
  constructor
  · rintro ⟨se, seIn, sh, shIn, cu, cuIn, simd, simdIn, wave, waveIn, rfl⟩
    exact ⟨seIn, shIn, cuIn, simdIn, waveIn⟩
  · rintro ⟨seIn, shIn, cuIn, simdIn, waveIn⟩
    exact ⟨_, seIn, _, shIn, _, cuIn, _, simdIn, _, waveIn, rfl⟩

theorem pairwise_counters {limit : UInt32} {slots : UInt32 → List WaveSlot}
    (inner : ∀ value, (slots value).Pairwise WaveSlot.Before)
    (outer : ∀ first second, first < second → ∀ x ∈ slots first, ∀ y ∈ slots second, x.Before y) :
    ((counters limit).flatMap slots).Pairwise WaveSlot.Before := by
  rw [List.pairwise_flatMap]
  exact ⟨fun value _ => inner value,
    (counters_pairwise limit).imp fun lt x isX y isY => outer _ _ lt x isX y isY⟩

theorem allSlots_pairwise (family : ChipFamily) (config : ScanConfig) :
    (allSlots family config).Pairwise WaveSlot.Before := by
  refine pairwise_counters (fun se => pairwise_counters (fun sh => pairwise_counters (fun cu =>
    pairwise_counters (fun simd => ?_) ?_) ?_) ?_) ?_
  · rw [List.pairwise_map]
    exact (counters_pairwise _).imp fun lt =>
      Or.inr ⟨rfl, Or.inr ⟨rfl, Or.inr ⟨rfl, Or.inr ⟨rfl, lt⟩⟩⟩⟩
  all_goals
    intro first second lt x isX y isY
    simp only [List.mem_flatMap, List.mem_map] at isX isY
  · obtain ⟨wave, _, rfl⟩ := isX
    obtain ⟨wave', _, rfl⟩ := isY
    exact Or.inr ⟨rfl, Or.inr ⟨rfl, Or.inr ⟨rfl, Or.inl lt⟩⟩⟩
  · obtain ⟨simd, _, wave, _, rfl⟩ := isX
    obtain ⟨simd', _, wave', _, rfl⟩ := isY
    exact Or.inr ⟨rfl, Or.inr ⟨rfl, Or.inl lt⟩⟩
  · obtain ⟨cu, _, simd, _, wave, _, rfl⟩ := isX
    obtain ⟨cu', _, simd', _, wave', _, rfl⟩ := isY
    exact Or.inr ⟨rfl, Or.inl lt⟩
  · obtain ⟨sh, _, cu, _, simd, _, wave, _, rfl⟩ := isX
    obtain ⟨sh', _, cu', _, simd', _, wave', _, rfl⟩ := isY
    exact Or.inl lt

/-! ### The units -/

def unitBusy (family : ChipFamily) (hw : WaveHardware ω) (slot : WaveSlot) : Bool :=
  hw.busy slot.se slot.sh (unitInstance family slot)

def unitSlots (config : ScanConfig) (unit : WaveUnit) : List WaveSlot :=
  unit.simds.flatMap fun simd =>
    (counters (waveLimit config)).map fun wave => ⟨unit.se, unit.sh, unit.cu, simd, wave⟩

def busyUnitSlots (config : ScanConfig) (hw : WaveHardware ω) (unit : WaveUnit) : List WaveSlot :=
  if hw.busy unit.se unit.sh unit.instance_ then unitSlots config unit else []

theorem filter_unit {family : ChipFamily} {slots : List WaveSlot} {busy : Bool}
    (same : ∀ slot ∈ slots, unitBusy family hw slot = busy) :
    (if busy = true then slots else []) = slots.filter (unitBusy family hw) := by
  cases busy with
  | true => exact (List.filter_eq_self.mpr same).symm
  | false =>
      refine (List.filter_eq_nil_iff.mpr fun slot member => ?_).symm
      rw [same slot member]
      exact Bool.false_ne_true

theorem busyUnitSlots_eq (family : ChipFamily) (config : ScanConfig) :
    (waveUnits family config).flatMap (busyUnitSlots config hw) =
      (allSlots family config).filter (unitBusy family hw) := by
  rw [waveUnits, allSlots, List.flatMap_assoc, List.filter_flatMap]
  refine List.flatMap_congr fun se _ => ?_
  rw [List.flatMap_assoc, List.filter_flatMap]
  refine List.flatMap_congr fun sh _ => ?_
  rw [cuLimit]
  by_cases old : family.code ≤ ChipFamily.ai.code
  · rw [if_pos old, if_pos old, List.flatMap_map, List.filter_flatMap]
    refine List.flatMap_congr fun cu _ => filter_unit fun slot member => ?_
    obtain ⟨simd, _, wave, _, rfl⟩ : ∃ simd ∈ counters 4, ∃ wave ∈ counters (waveLimit config),
        ⟨se, sh, cu, simd, wave⟩ = slot := by
      simpa [unitSlots, List.mem_flatMap] using member
    rw [unitBusy, unitInstance, if_pos old]
  · rw [if_neg old, if_neg old, List.flatMap_assoc, List.filter_flatMap]
    refine List.flatMap_congr fun cu _ => ?_
    rw [List.flatMap_map, List.filter_flatMap]
    refine List.flatMap_congr fun simd _ => ?_
    have only : unitSlots config ⟨se, sh, cu, manyToInstance cu simd, [simd]⟩ =
        (counters (waveLimit config)).map fun wave => ⟨se, sh, cu, simd, wave⟩ :=
      List.append_nil _
    rw [busyUnitSlots, only]
    refine filter_unit fun slot member => ?_
    obtain ⟨wave, _, rfl⟩ := List.mem_map.mp member
    rw [unitBusy, unitInstance, if_neg old]

theorem scanUnit_scans (reports : Reports device hw) (known : KnownGfx device)
    (config : ScanConfig) (unit : WaveUnit) :
    Scans device hw options (scanUnit device config unit) (busyUnitSlots config hw unit) := by
  intro list state same named
  obtain ⟨info, dev, asked, busy⟩ := reports.sqInfo unit.se unit.sh unit.instance_ state
  have scans : Scans device hw options
      (forEach (umrScanWaveSimd device config unit.se unit.sh unit.cu) unit.simds)
      (unitSlots config unit) := by
    refine Scans.forEach fun simd _ => ?_
    rw [List.map_eq_flatMap]
    exact Scans.forEach fun wave _ =>
      @scanSlot_scans _ _ _ _ options reports ⟨unit.se, unit.sh, unit.cu, simd, wave⟩ known
  rw [scanUnit, asked, busyUnitSlots]
  by_cases isBusy : hw.busy unit.se unit.sh unit.instance_ = true
  · rw [if_pos isBusy]
    dsimp only
    rw [Option.getD_some, if_pos (busy.mpr isBusy)]
    exact scans { list with sqInfo := info } ⟨state.options, dev⟩ same named
  · rw [if_neg isBusy]
    dsimp only
    rw [Option.getD_some, if_neg (mt busy.mp isBusy)]
    exact Scans.skip { list with sqInfo := info } ⟨state.options, dev⟩ same named

end Scanned

section Result
variable {σ ω : Type} {device : WaveDevice σ ω} {hw : WaveHardware ω}

/-- What `umr_scan_wave_data` lists: exactly the slots of busy units that hold a wave,
in increasing order; nothing at all if one of the slots cannot be read. -/
theorem umrScanWaveData_lists (reports : Reports device hw)
    (supported : 8 ≤ device.gfxMaj ∧ device.gfxMaj ≤ 12) (config : ScanConfig)
    (state : AsicState σ) :
    ∃ waves after, umrScanWaveData device config state = .ok (waves, after) ∧
      ((∀ slot, BusySlot device.family config hw slot →
          slotStatus device.family hw slot ≠ none) →
        (∀ slot, slot ∈ waves.map WaveData.slot ↔ BusySlot device.family config hw slot ∧
          ∃ ws, slotStatus device.family hw slot = some ws ∧
            HoldsWave device state.options ws) ∧
        (waves.map WaveData.slot).Pairwise WaveSlot.Before) ∧
      ((∃ slot, BusySlot device.family config hw slot ∧
          slotStatus device.family hw slot = none) →
        waves = []) := by
  have named : NamedGfx device := supported
  have scans : Scans device hw state.options
      (forEach (scanUnit device config) (waveUnits device.family config))
      ((allSlots device.family config).filter (unitBusy device.family hw)) := by
    rw [← busyUnitSlots_eq]
    exact Scans.forEach fun unit _ => scanUnit_scans reports named.known config unit
  obtain ⟨outcome, after, ran, _, readable, unreadable⟩ :=
    scans ⟨[], (umrWaveDataInit device).2, ⟨0, 0⟩⟩ state rfl (umrWaveDataInit_named named)
  have isBusy (slot : WaveSlot) :
      slot ∈ (allSlots device.family config).filter (unitBusy device.family hw) ↔
        BusySlot device.family config hw slot := by
    rw [List.mem_filter, mem_allSlots]
    constructor
    · rintro ⟨⟨se, sh, cu, simd, wave⟩, busy⟩
      exact ⟨se, sh, cu, simd, wave, busy⟩
    · exact fun busy => ⟨⟨busy.se, busy.sh, busy.cu, busy.simd, busy.wave⟩, busy.busy⟩
  have initialised : ¬ (umrWaveDataInit device).1 < 0 := by
    have isZero : (umrWaveDataInit device).1 = 0 := if_pos (decide_eq_true named)
    rw [isZero]
    decide
  have isResult : umrScanWaveData device config state =
      .ok ((outcome.map WaveList.filled).getD [], after) := by
    rw [umrScanWaveData]
    generalize umrWaveDataInit device = started at ran initialised
    obtain ⟨r, ohead⟩ := started
    dsimp only at ran initialised ⊢
    rw [if_neg initialised, ran, ok_bind]
    cases outcome <;> rfl
  refine ⟨_, after, isResult, fun all => ?_, fun missing => ?_⟩
  · obtain ⟨list, rfl, _, filled⟩ := readable fun slot member => all slot ((isBusy slot).mp member)
    have same : list.filled.map WaveData.slot =
        ((allSlots device.family config).filter (unitBusy device.family hw)).filter
          (inUse device hw state.options) := filled
    rw [Option.map_some, Option.getD_some, same]
    refine ⟨fun slot => ?_, ((allSlots_pairwise _ _).filter _).filter _⟩
    rw [List.mem_filter, isBusy, inUse, Option.any_eq_true]
    simp only [decide_eq_true_eq]
  · obtain ⟨slot, busy, cannot⟩ := missing
    rw [unreadable ⟨slot, (isBusy slot).mpr busy, cannot⟩]
    rfl

end Result

/-- One busy CU or WGP, whose first SIMD has a valid wave in its first slot, a halted one whose
status cannot be told from a failed read in the second, and in the third neither, with a STATE_PRIV
that looks like a register that was not found. -/
def oneUnit : WaveHardware (UInt32 × UInt32) where
  busy := fun _ _ _ => true
  status := fun _ _ unit simd wave =>
    some (if unit ≠ 0 ∨ simd ≠ 0 then (0, 0)
      else if wave = 0 then (0x10000, 0)
      else if wave = 1 then (0xBEBEBEEF, 0x4000)
      else if wave = 2 then (0, 0xDEADBEEF)
      else (0, 0))

def oneUnitDevice (family : ChipFamily) (gfxMaj : Nat) : WaveDevice Unit (UInt32 × UInt32) where
  family := family
  gfxMaj := gfxMaj
  findReg := fun _ _ => some ⟨0x2378, .mmio⟩
  composeValue := fun _ _ value => value
  waveValue := fun ws reg =>
    match reg with
    | .status => ws.1
    | .statePriv => ws.2
    | _ => 0
  bitslice := fun _ reg bits value =>
    match reg, bits with
    | .status, .valid => (value >>> 16) &&& 1
    | .status, .halt => (value >>> 13) &&& 1
    | .statePriv, .halt => (value >>> 14) &&& 1
    | _, _ => 0
  emptyStatus := (0, 0)
  readReg := fun _ _ _ dev => (1, dev)
  writeReg := fun _ _ _ _ dev => dev
  readRingData := fun _ _ dev => (none, dev)
  getWaveStatus := fun _ se sh cu simd wave dev =>
    ((0, (oneUnit.status se sh cu simd wave).getD (0, 0)), dev)
  readSgprs := fun _ _ dev => ([], dev)
  readVgprs := fun _ _ _ dev => (some [], dev)

def oneUnitConfig (gfxip : Nat × Nat) : ScanConfig := ⟨1, 1, 2, gfxip⟩

theorem oneUnit_reports (family : ChipFamily) (gfxMaj : Nat) :
    Reports (oneUnitDevice family gfxMaj) oneUnit where
  sqInfo se sh cu state := ⟨⟨1, 0⟩, state.dev, rfl, iff_of_true (by decide) rfl⟩
  status _ se sh cu simd wave _ ws isWs := by
    change ((0, (oneUnit.status se sh cu simd wave).getD (0, 0)) : Int × UInt32 × UInt32) = (0, ws)
    rw [isWs]
    rfl
  unreadable _ se sh cu simd wave _ none_ := by cases none_

theorem umrScanWaveData_lists_oneUnit :
    Reports (oneUnitDevice .ai 9) oneUnit ∧
      ∃ waves after, umrScanWaveData (oneUnitDevice .ai 9) (oneUnitConfig (9, 0))
          ⟨userOptions, ()⟩ = .ok (waves, after) ∧
        (waves.map WaveData.slot).Pairwise WaveSlot.Before := by
  have readable : ∀ slot, BusySlot (oneUnitDevice .ai 9).family (oneUnitConfig (9, 0)) oneUnit slot →
      slotStatus (oneUnitDevice .ai 9).family oneUnit slot ≠ none :=
    fun _ _ => Option.some_ne_none _
  obtain ⟨waves, after, ran, lists, _⟩ := umrScanWaveData_lists (oneUnit_reports .ai 9)
    ⟨by decide, by decide⟩ (oneUnitConfig (9, 0)) ⟨userOptions, ()⟩
  exact ⟨oneUnit_reports .ai 9, waves, after, ran, (lists readable).2⟩

/-- The HALT bit or the VALID bit, read by the letter. -/
def validOrHalted (device : WaveDevice Unit (UInt32 × UInt32)) (ws : UInt32 × UInt32) : Prop :=
  device.bitslice (-1) .status .valid (device.waveValue ws .status) ≠ 0 ∨
    device.bitslice (-1) .statePriv .halt (device.waveValue ws .statePriv) ≠ 0

def oneUnitListed : List WaveSlot := [⟨0, 0, 0, 0, 0⟩, ⟨0, 0, 0, 0, 2⟩]

/-- On gfx 12 the second slot has the HALT bit and is not listed, and the third has neither bit and
is. -/
theorem umrScanWaveData_misses_halted :
    (umrScanWaveData (oneUnitDevice .gfx12 12) (oneUnitConfig (12, 0)) ⟨userOptions, ()⟩).map
        (fun scanned => scanned.1.map WaveData.slot) = .ok oneUnitListed ∧
      (¬ ∀ slot, (BusySlot .gfx12 (oneUnitConfig (12, 0)) oneUnit slot ∧
          ∃ ws, slotStatus .gfx12 oneUnit slot = some ws ∧
            validOrHalted (oneUnitDevice .gfx12 12) ws) → slot ∈ oneUnitListed) ∧
      ¬ ∀ slot ∈ oneUnitListed, ∃ ws, slotStatus .gfx12 oneUnit slot = some ws ∧
        validOrHalted (oneUnitDevice .gfx12 12) ws := by
  refine ⟨by decide +kernel, fun claim => ?_, fun claim => ?_⟩
  · have listed := claim ⟨0, 0, 0, 0, 1⟩ ⟨⟨by decide, by decide, by decide, by decide, by decide, rfl⟩,
      (0xBEBEBEEF, 0x4000), rfl, Or.inr (by decide)⟩
    exact absurd listed (by decide)
  · obtain ⟨ws, isWs, either⟩ := claim ⟨0, 0, 0, 0, 2⟩ (by decide)
    cases isWs
    exact either.elim (absurd rfl) (absurd rfl)

end Umr.Waves
