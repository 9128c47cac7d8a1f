import Umr.Lib.Fault
import Umr.Rumr.Protocol

/-!
# Wave operations and the options they borrow

`umr_get_wave_sq_info_vi`, `umr_sq_cmd_halt_waves`, `umr_sq_cmd_singlestep` and
`umr_singlestep_wave`.  Each of them writes its own values over options of the ASIC, does its
work, and puts the caller's values back.  The accesses go through the callbacks of the ASIC, which
see the options but do not change them.
-/

set_option autoImplicit false

namespace Umr.Waves

open Umr.Lib
open Umr.Rumr (ChipFamily)

/-- The union `options.bank`: `grbm` is `instance`, `se`, `sh`, and `srbm` is `me`, `queue`,
`pipe`, `vmid`, in the order of the words. -/
structure BankWords where
  word0 : UInt32
  word1 : UInt32
  word2 : UInt32
  word3 : UInt32
  deriving DecidableEq, Repr

structure Options where
  useBank : UInt32
  bank : BankWords
  skipGprs : Int
  verbose : Int
  vmPartition : Int
  ringName : String
  deriving DecidableEq, Repr

structure Grbm where
  useGrbm : UInt32
  se : UInt32
  sh : UInt32
  instance_ : UInt32
  deriving DecidableEq, Repr

def Options.grbm (options : Options) : Grbm :=
  { useGrbm := options.useBank
    se := options.bank.word1
    sh := options.bank.word2
    instance_ := options.bank.word0 }

def Options.selectGrbm (options : Options) (grbm : Grbm) : Options :=
  { options with
    useBank := grbm.useGrbm
    bank := { options.bank with word0 := grbm.instance_, word1 := grbm.se, word2 := grbm.sh } }

inductive RegClass where
  | mmio | didt | smc | pcie | smn | indirect
  deriving DecidableEq, Repr

structure SqReg where
  addr : UInt64
  type : RegClass
  deriving DecidableEq, Repr

inductive SqRegName where
  | mmSqIndIndex | mmSqIndData | mmSqCmd | regSqCmd
  deriving DecidableEq, Repr

inductive SqCmdField where
  | cmd | data | mode | waveId
  deriving DecidableEq, Repr

inductive WaveReg where
  | status | statePriv | ibSts2 | pcLo | pcHi | hwId | hwId2
  deriving DecidableEq, Repr

inductive WaveBits where
  | valid | halt | wave64 | vmId
  deriving DecidableEq, Repr

inductive HaltResume where
  | halt | resume
  deriving DecidableEq, Repr

/-- The wave data that the operations use; `ws` holds the status registers, and `regNames` says
whether `reg_names` points to their names or is `NULL`. -/
structure WaveData (ω : Type) where
  se : UInt32
  sh : UInt32
  cu : UInt32
  simd : UInt32
  wave : UInt32
  regNames : Bool
  ws : ω
  sgprs : List UInt32 := []
  vgprs : List (List UInt32) := []
  haveVgprs : Bool := false
  numThreads : Nat := 0

/-- The database and the callbacks of an ASIC, over the state `σ` of the device. -/
structure WaveDevice (σ ω : Type) where
  family : ChipFamily
  gfxMaj : Nat
  findReg : Int → SqRegName → Option SqReg
  composeValue : SqReg → SqCmdField → UInt32 → UInt32
  waveValue : ω → WaveReg → UInt32
  bitslice : Int → WaveReg → WaveBits → UInt32 → UInt32
  emptyStatus : ω
  readReg : Options → UInt64 → RegClass → σ → UInt32 × σ
  writeReg : Options → UInt64 → UInt32 → RegClass → σ → σ
  /-- The read and write pointer and the size of a ring in bytes. -/
  readRingData : Options → String → σ → Option (UInt32 × UInt32 × UInt32) × σ
  getWaveStatus : Options → UInt32 → UInt32 → UInt32 → UInt32 → UInt32 → σ → (Int × ω) × σ
  readSgprs : Options → WaveData ω → σ → List UInt32 × σ
  readVgprs : Options → WaveData ω → Nat → σ → Option (List UInt32) × σ

structure AsicState (σ : Type) where
  options : Options
  dev : σ

/-- The names of the status registers are looked up through `NULL`. -/
inductive WaveFault where
  | nullNames
  deriving DecidableEq, Repr

section Ops
variable {σ ω : Type} (device : WaveDevice σ ω)

/-! ## Ring state and status flags -/

/-- The reads of `umr_ring_is_halted`: a ring that is caught up with is not halted. -/
def ringReads (options : Options) (ringName : String) : Nat → σ → Bool × σ
  | 0, dev => (true, dev)
  | reads + 1, dev =>
      match device.readRingData options ringName dev with
      | (none, dev) => (false, dev)
      | (some (rptr, wptr, ringsize), dev) =>
          if rptr % (ringsize / 4) = wptr % (ringsize / 4) then (false, dev)
          else ringReads options ringName reads dev

def umrRingIsHalted (ringName : String) (state : AsicState σ) : Bool × AsicState σ :=
  if ringName = "none" then (true, state)
  else
    let (halted, dev) := ringReads device state.options ringName 100 state.dev
    (halted, { state with dev := dev })

/-- The names are those of gfx 8 to 12, and for the others an error that no single step looks
at. -/
def umrWaveDataInit : Int × WaveData ω :=
  let named := decide (8 ≤ device.gfxMaj ∧ device.gfxMaj ≤ 12)
  (if named then 0 else -1,
    { se := 0, sh := 0, cu := 0, simd := 0, wave := 0, regNames := named,
      ws := device.emptyStatus })

def umrWaveDataGetValue (wd : WaveData ω) (reg : WaveReg) : Except WaveFault UInt32 :=
  if wd.regNames then .ok (device.waveValue wd.ws reg) else .error .nullNames

def umrWaveDataGetBits (options : Options) (wd : WaveData ω) (reg : WaveReg) (bits : WaveBits) :
    Except WaveFault UInt32 := do
  let value ← umrWaveDataGetValue device wd reg
  if value = 0xDEADBEEF then pure 0xDEADBEEF
  else pure (device.bitslice options.vmPartition reg bits value)

def getFlag (options : Options) (wd : WaveData ω) (reg : WaveReg) (bits : WaveBits) :
    Except WaveFault Int := do
  let value ← umrWaveDataGetBits device options wd reg bits
  pure value.toInt32.toInt

/-- The flags are `-1`, which counts as set, on a gfx version that is not known. -/
def umrWaveDataGetFlagValid (options : Options) (wd : WaveData ω) : Except WaveFault Int :=
  if 6 ≤ device.gfxMaj ∧ device.gfxMaj ≤ 12 then getFlag device options wd .status .valid
  else pure (-1)

def umrWaveDataGetFlagHalt (options : Options) (wd : WaveData ω) : Except WaveFault Int :=
  if 6 ≤ device.gfxMaj ∧ device.gfxMaj ≤ 11 then getFlag device options wd .status .halt
  else if device.gfxMaj = 12 then getFlag device options wd .statePriv .halt
  else pure (-1)

def umrWaveDataGetFlagWave64 (options : Options) (wd : WaveData ω) : Except WaveFault Int :=
  if 6 ≤ device.gfxMaj ∧ device.gfxMaj ≤ 11 then getFlag device options wd .ibSts2 .wave64
  else if device.gfxMaj = 12 then getFlag device options wd .status .wave64
  else pure (-1)

def getPcVmid (options : Options) (wd : WaveData ω) (idReg : WaveReg) :
    Except WaveFault (Option (UInt32 × UInt64)) := do
  let pcLo ← umrWaveDataGetValue device wd .pcLo
  let pcHi ← umrWaveDataGetValue device wd .pcHi
  let vmid ← umrWaveDataGetBits device options wd idReg .vmId
  pure (some (vmid, pcLo.toUInt64 ||| (pcHi.toUInt64 <<< 32)))

/-- `umr_wave_data_get_shader_pc_vmid`: the VMID and the PC, or `none` for the error return. -/
def umrWaveDataGetShaderPcVmid (options : Options) (wd : WaveData ω) :
    Except WaveFault (Option (UInt32 × UInt64)) :=
  if 6 ≤ device.gfxMaj ∧ device.gfxMaj ≤ 9 then getPcVmid device options wd .hwId
  else if 10 ≤ device.gfxMaj ∧ device.gfxMaj ≤ 12 then getPcVmid device options wd .hwId2
  else pure none

/-! ## SQ information -/

structure SqInfo where
  busy : UInt32
  waveLevel : UInt32
  deriving DecidableEq, Repr

def umrGetWaveSqInfoVi (se sh cu : UInt32) (state : AsicState σ) :
    (Int × Option SqInfo) × AsicState σ :=
  let partition := state.options.vmPartition
  match device.findReg partition .mmSqIndIndex, device.findReg partition .mmSqIndData with
  | some indIndex, some indData =>
      let index := indIndex.addr * 4
      let data := indData.addr * 4
      let grbm := state.options.grbm
      let state := { state with options := state.options.selectGrbm ⟨1, se, sh, cu⟩ }
      -- `[BUG]: Cannot find SQ indirect registers on this asic!`
      if index = 0 ∨ data = 0 then ((-1, none), state)
      else
        let dev := device.writeReg state.options index ((8 : UInt32) <<< (16 : UInt32)) .mmio state.dev
        let (value, dev) := device.readReg state.options data .mmio dev
        let value := if value = 0xBEBEBEEF then 0 else value
        ((0, some ⟨value &&& 1, (value >>> (4 : UInt32)) &&& 0x3F⟩),
          { options := state.options.selectGrbm grbm, dev := dev })
  | _, _ => ((-1, none), state)

/-! ## SQ commands -/

def findSqCmd (options : Options) : Option SqReg :=
  if device.family = .si then none
  else
    device.findReg options.vmPartition
      (if ChipFamily.gfx11.code ≤ device.family.code then .regSqCmd else .mmSqCmd)

/-- Runs a command with its own bank selection and restores what the user had picked. -/
def underGrbm {α : Type} (grbm : Grbm) (command : AsicState σ → α × AsicState σ)
    (state : AsicState σ) : α × AsicState σ :=
  let saved := state.options.grbm
  let (result, state) := command { state with options := state.options.selectGrbm grbm }
  (result, { state with options := state.options.selectGrbm saved })

def writeSqCmd (reg : SqReg) (value : UInt32) (state : AsicState σ) : AsicState σ :=
  { state with dev := device.writeReg state.options (reg.addr * 4) value reg.type state.dev }

/-- `send_cmd`, with the retries that are left. -/
def sendHaltCmd (reg : SqReg) (value : UInt32) (mode : HaltResume) :
    Nat → AsicState σ → Unit × AsicState σ
  | 0, state => ((), writeSqCmd device reg value state)
  | retries + 1, state =>
      let state := writeSqCmd device reg value state
      match mode with
      | .resume => ((), state)
      | .halt =>
          let (halted, state) := umrRingIsHalted device state.options.ringName state
          if halted then ((), state) else sendHaltCmd reg value mode retries state

def umrSqCmdHaltWaves (mode : HaltResume) (maxRetries : Int) (state : AsicState σ) :
    Int × AsicState σ :=
  match findSqCmd device state.options with
  | none => (-1, state)
  | some reg =>
      let command :=
        if device.family = .cik then
          device.composeValue reg .cmd (if mode = .halt then 1 else 2)
        else
          device.composeValue reg .cmd 1 |||
            device.composeValue reg .data (if mode = .halt then 1 else 0)
      let value := command ||| device.composeValue reg .mode 1
      let (_, state) :=
        underGrbm ⟨1, 0xFFFFFFFF, 0xFFFFFFFF, 0xFFFFFFFF⟩
          (sendHaltCmd device reg value mode maxRetries.toNat) state
      match mode with
      | .resume => (0, state)
      | .halt =>
          let (halted, state) := umrRingIsHalted device state.options.ringName state
          (if halted then 0 else -1, state)

def umrSqCmdSinglestep (se sh wgp simd wave : UInt32) (state : AsicState σ) :
    Int × AsicState σ :=
  if device.family.code < ChipFamily.nv.code then (-1, state)
  else
    match findSqCmd device state.options with
    | none => (-1, state)
    | some reg =>
        let value := device.composeValue reg .cmd 8 ||| device.composeValue reg .mode 0 |||
          device.composeValue reg .waveId wave
        underGrbm ⟨1, se, sh, (wgp <<< (2 : UInt32)) ||| simd⟩
          (fun state => (0, writeSqCmd device reg value state)) state

/-! ## Single steps -/

/-- The VGPRs of the threads, until one cannot be read. -/
def readThreads (options : Options) (wd : WaveData ω) : Nat → Nat → σ → (Bool × List (List UInt32)) × σ
  | _, 0, dev => ((true, []), dev)
  | thread, count + 1, dev =>
      match device.readVgprs options wd thread dev with
      | (none, dev) => ((false, []), dev)
      | (some vgprs, dev) =>
          let ((all, rest), dev) := readThreads options wd (thread + 1) count dev
          ((all, vgprs :: rest), dev)

/-- The call of `get_wave_status` in `umr_scan_wave_slot`. -/
def getSlotStatus (options : Options) (se sh cu simd wave : UInt32) (dev : σ) : (Int × ω) × σ :=
  if device.family.code ≤ ChipFamily.ai.code then
    device.getWaveStatus options se sh cu simd wave dev
  else device.getWaveStatus options se sh ((simd &&& 3) ||| (cu <<< (2 : UInt32))) 0 wave dev

/-- Neither valid nor halted; `-1`, the flags of an unknown gfx version, ends the test before the
names are needed. -/
def slotIsEmpty (options : Options) (wd : WaveData ω) : Except WaveFault Bool := do
  let valid ← umrWaveDataGetFlagValid device options wd
  if valid ≠ 0 then pure false
  else
    let halt ← umrWaveDataGetFlagHalt device options wd
    if halt = 0 then pure true
    else
      let status ← umrWaveDataGetValue device wd .status
      pure (decide (status = 0xBEBEBEEF))

def slotThreads (options : Options) (wd : WaveData ω) : Except WaveFault Nat :=
  if device.family.code ≤ ChipFamily.ai.code then pure 64
  else do
    let wave64 ← umrWaveDataGetFlagWave64 device options wd
    pure (if wave64 ≠ 0 then 64 else 32)

def umrScanWaveSlot (se sh cu simd wave : UInt32) (pwd : WaveData ω) (state : AsicState σ) :
    Except WaveFault ((Int × WaveData ω) × AsicState σ) :=
  let ((r, ws), dev) := getSlotStatus device state.options se sh cu simd wave state.dev
  let pwd := { pwd with ws := ws }
  if r ≠ 0 then pure ((-1, pwd), { state with dev := dev })
  else do
    let empty ← slotIsEmpty device state.options pwd
    if empty then pure ((0, pwd), { state with dev := dev })
    else
      let pwd := { pwd with se := se, sh := sh, cu := cu, simd := simd, wave := wave }
      if state.options.skipGprs = 0 then
        let (sgprs, dev) := device.readSgprs state.options pwd dev
        let pwd := { pwd with sgprs := sgprs }
        let numThreads ← slotThreads device state.options pwd
        let ((all, vgprs), dev) := readThreads device state.options pwd 0 numThreads dev
        pure ((1, { pwd with vgprs := vgprs, haveVgprs := all, numThreads := numThreads }),
          { state with dev := dev })
      else pure ((1, { pwd with haveVgprs := false }), { state with dev := dev })

/-- How the retry loop ends: at `out`, or with a return of its own. -/
inductive StepExit where
  | out (r : Int)
  | earlyReturn
  deriving DecidableEq, Repr

/-- `for (; r == 1 && retry < 5; ++retry)`, with the tries that are left. -/
def singlestepLoop (pc : UInt64) :
    Nat → Int → WaveData ω → AsicState σ →
      Except WaveFault ((StepExit × WaveData ω) × AsicState σ)
  | 0, _, wd, state => .ok ((.out (-1), wd), state)
  | tries + 1, r, wd, state =>
      if r ≠ 1 then .ok ((.out r, wd), state)
      else do
        let (_, state) := umrSqCmdSinglestep device wd.se wd.sh wd.cu wd.simd wd.wave state
        let ((r, newWd), state) ← umrScanWaveSlot device wd.se wd.sh wd.cu wd.simd wd.wave
          (umrWaveDataInit device).2 state
        if r < 0 then pure ((.out (-2), wd), state)
        else
          match ← umrWaveDataGetShaderPcVmid device state.options newWd with
          | none => pure ((.earlyReturn, wd), state)
          | some (_, newPc) =>
              if pc ≠ newPc then pure ((.out r, newWd), state)
              else singlestepLoop pc tries r newWd state

def umrSinglestepWave (wd : WaveData ω) (state : AsicState σ) :
    Except WaveFault ((Int × WaveData ω) × AsicState σ) := do
  let skipGprs := state.options.skipGprs
  let verbose := state.options.verbose
  let state := { state with options := { state.options with skipGprs := 0, verbose := 0 } }
  match ← umrWaveDataGetShaderPcVmid device state.options wd with
  | none => pure ((-1, wd), state)
  | some (_, pc) =>
      match ← singlestepLoop device pc 5 1 wd state with
      | ((.earlyReturn, wd), state) => pure ((-1, wd), state)
      | ((.out r, wd), state) =>
          pure ((r, wd), { state with
            options := { state.options with skipGprs := skipGprs, verbose := verbose } })

end Ops

/-! ## What stays of the caller's options -/

section Keep
variable {σ ω : Type} (device : WaveDevice σ ω)

/-- Both ways to write the bank words leave `srbm.vmid`, the fourth word, alone. -/
theorem selectGrbm_restore (options : Options) (grbm : Grbm) :
    (options.selectGrbm grbm).selectGrbm options.grbm = options := rfl

theorem underGrbm_options {α : Type} {command : AsicState σ → α × AsicState σ}
    (keeps : ∀ state, (command state).2.options = state.options) (grbm : Grbm)
    (state : AsicState σ) : (underGrbm grbm command state).2.options = state.options := by
  have kept := keeps { state with options := state.options.selectGrbm grbm }
  unfold underGrbm
  dsimp only at kept ⊢
  rw [kept, selectGrbm_restore]

theorem umrRingIsHalted_options (ringName : String) (state : AsicState σ) :
    (umrRingIsHalted device ringName state).2.options = state.options := by
  unfold umrRingIsHalted
  split <;> rfl

theorem sendHaltCmd_options (reg : SqReg) (value : UInt32) (mode : HaltResume) (retries : Nat)
    (state : AsicState σ) :
    (sendHaltCmd device reg value mode retries state).2.options = state.options := by
  induction retries generalizing state with
  | zero => rfl
  | succ retries ih =>
      unfold sendHaltCmd
      cases mode with
      | resume => rfl
      | halt =>
          dsimp only
          split
          · exact umrRingIsHalted_options device _ _
          · rw [ih, umrRingIsHalted_options]
            rfl

theorem umrSqCmdHaltWaves_options (mode : HaltResume) (maxRetries : Int) (state : AsicState σ) :
    (umrSqCmdHaltWaves device mode maxRetries state).2.options = state.options := by
  unfold umrSqCmdHaltWaves
  split
  · rfl
  · rename_i reg found
    have kept := fun value => underGrbm_options (sendHaltCmd_options device reg value mode
      maxRetries.toNat) ⟨1, 0xFFFFFFFF, 0xFFFFFFFF, 0xFFFFFFFF⟩ state
    cases mode with
    | resume => exact kept _
    | halt =>
        dsimp only
        rw [umrRingIsHalted_options]
        exact kept _

theorem umrSqCmdSinglestep_options (se sh wgp simd wave : UInt32) (state : AsicState σ) :
    (umrSqCmdSinglestep device se sh wgp simd wave state).2.options = state.options := by
  unfold umrSqCmdSinglestep
  split
  · rfl
  · split
    · rfl
    · exact underGrbm_options (fun state => rfl) _ state

/-! ### Status registers with and without names -/

def KnownGfx : Prop := 6 ≤ device.gfxMaj ∧ device.gfxMaj ≤ 12

/-- The gfx versions that `umr_wave_data_init` has names for. -/
def NamedGfx : Prop := 8 ≤ device.gfxMaj ∧ device.gfxMaj ≤ 12

instance : Decidable (KnownGfx device) :=
  inferInstanceAs (Decidable (6 ≤ device.gfxMaj ∧ device.gfxMaj ≤ 12))

instance : Decidable (NamedGfx device) :=
  inferInstanceAs (Decidable (8 ≤ device.gfxMaj ∧ device.gfxMaj ≤ 12))

theorem NamedGfx.known {device : WaveDevice σ ω} (named : NamedGfx device) : KnownGfx device :=
  ⟨Nat.le_trans (by decide) named.1, named.2⟩

def waveBits (options : Options) (ws : ω) (reg : WaveReg) (bits : WaveBits) : UInt32 :=
  if device.waveValue ws reg = 0xDEADBEEF then 0xDEADBEEF
  else device.bitslice options.vmPartition reg bits (device.waveValue ws reg)

def haltReg : WaveReg := if device.gfxMaj = 12 then .statePriv else .status

def EmptySlot (options : Options) (ws : ω) : Prop :=
  waveBits device options ws .status .valid = 0 ∧
    (waveBits device options ws (haltReg device) .halt = 0 ∨
      device.waveValue ws .status = 0xBEBEBEEF)

instance (options : Options) (ws : ω) : Decidable (EmptySlot device options ws) :=
  inferInstanceAs (Decidable (waveBits device options ws .status .valid = 0 ∧
    (waveBits device options ws (haltReg device) .halt = 0 ∨
      device.waveValue ws .status = 0xBEBEBEEF)))

variable {device} {options : Options} {wd : WaveData ω}

theorem umrWaveDataGetValue_named (named : wd.regNames = true) (reg : WaveReg) :
    umrWaveDataGetValue device wd reg = .ok (device.waveValue wd.ws reg) := if_pos named

theorem umrWaveDataGetValue_null (null : wd.regNames = false) (reg : WaveReg) :
    umrWaveDataGetValue device wd reg = .error .nullNames := by
  rw [umrWaveDataGetValue, null, if_neg Bool.false_ne_true]

theorem umrWaveDataGetBits_named (named : wd.regNames = true) (reg : WaveReg) (bits : WaveBits) :
    umrWaveDataGetBits device options wd reg bits = .ok (waveBits device options wd.ws reg bits) := by
  rw [umrWaveDataGetBits, umrWaveDataGetValue_named named, ok_bind, waveBits]
  split <;> rfl

theorem umrWaveDataGetBits_null (null : wd.regNames = false) (reg : WaveReg) (bits : WaveBits) :
    umrWaveDataGetBits device options wd reg bits = .error .nullNames := by
  rw [umrWaveDataGetBits, umrWaveDataGetValue_null null]
  rfl

theorem getFlag_named (named : wd.regNames = true) (reg : WaveReg) (bits : WaveBits) :
    getFlag device options wd reg bits =
      .ok (waveBits device options wd.ws reg bits).toInt32.toInt := by
  rw [getFlag, umrWaveDataGetBits_named named]
  rfl

theorem flag_eq_zero (value : UInt32) : value.toInt32.toInt = 0 ↔ value = 0 := by
  constructor
  · intro zero
    have same : value.toInt32 = (0 : UInt32).toInt32 := Int32.toInt_inj.mp zero
    exact congrArg Int32.toUInt32 same
  · rintro rfl
    rfl

theorem umrWaveDataGetFlagValid_known (known : KnownGfx device) :
    umrWaveDataGetFlagValid device options wd = getFlag device options wd .status .valid :=
  if_pos known

theorem umrWaveDataGetFlagHalt_known (known : KnownGfx device) :
    umrWaveDataGetFlagHalt device options wd = getFlag device options wd (haltReg device) .halt := by
  unfold umrWaveDataGetFlagHalt haltReg
  by_cases last : device.gfxMaj = 12
  · rw [if_neg (by omega), if_pos last, if_pos last]
  · have earlier : 6 ≤ device.gfxMaj ∧ device.gfxMaj ≤ 11 := by
      obtain ⟨low, high⟩ := known
      omega
    rw [if_pos earlier, if_neg last]

theorem slotIsEmpty_named (known : KnownGfx device) (named : wd.regNames = true) :
    slotIsEmpty device options wd = .ok (decide (EmptySlot device options wd.ws)) := by
  rw [slotIsEmpty, umrWaveDataGetFlagValid_known known, umrWaveDataGetFlagHalt_known known,
    getFlag_named named, getFlag_named named, umrWaveDataGetValue_named named, ok_bind, ok_bind,
    ok_bind]
  simp only [ne_eq, flag_eq_zero]
  by_cases valid : waveBits device options wd.ws .status .valid = 0
  · rw [if_neg (not_not.mpr valid)]
    by_cases halt : waveBits device options wd.ws (haltReg device) .halt = 0
    · rw [if_pos halt, decide_eq_true ⟨valid, Or.inl halt⟩]
      rfl
    · have only : EmptySlot device options wd.ws ↔ device.waveValue wd.ws .status = 0xBEBEBEEF :=
        ⟨fun empty => empty.2.resolve_left halt, fun status => ⟨valid, Or.inr status⟩⟩
      rw [if_neg halt, decide_eq_decide.mpr only]
      rfl
  · rw [if_pos valid, decide_eq_false fun both => valid both.1]
    rfl

theorem slotIsEmpty_null (known : KnownGfx device) (null : wd.regNames = false) :
    slotIsEmpty device options wd = .error .nullNames := by
  rw [slotIsEmpty, umrWaveDataGetFlagValid_known known, getFlag, umrWaveDataGetBits_null null]
  rfl

theorem slotThreads_named (named : wd.regNames = true) :
    ∃ threads, slotThreads device options wd = .ok threads := by
  unfold slotThreads umrWaveDataGetFlagWave64
  by_cases old : device.family.code ≤ ChipFamily.ai.code
  · exact ⟨64, if_pos old⟩
  · rw [if_neg old, getFlag_named named, getFlag_named named]
    split
    · exact ⟨_, rfl⟩
    · split
      · exact ⟨_, rfl⟩
      · exact ⟨_, rfl⟩

theorem umrWaveDataGetShaderPcVmid_named (known : KnownGfx device) (named : wd.regNames = true) :
    ∃ vmid pc, umrWaveDataGetShaderPcVmid device options wd = .ok (some (vmid, pc)) := by
  have found : ∀ idReg, ∃ vmid pc, getPcVmid device options wd idReg = .ok (some (vmid, pc)) := by
    intro idReg
    rw [getPcVmid, umrWaveDataGetValue_named named, umrWaveDataGetValue_named named,
      umrWaveDataGetBits_named named]
    exact ⟨_, _, rfl⟩
  unfold umrWaveDataGetShaderPcVmid
  split
  · exact found .hwId
  · rw [if_pos (by obtain ⟨low, high⟩ := known; omega)]
    exact found .hwId2

theorem umrWaveDataGetShaderPcVmid_null (known : KnownGfx device) (null : wd.regNames = false) :
    umrWaveDataGetShaderPcVmid device options wd = .error .nullNames := by
  have faults : ∀ idReg, getPcVmid device options wd idReg = .error .nullNames := by
    intro idReg
    rw [getPcVmid, umrWaveDataGetValue_null null]
    rfl
  unfold umrWaveDataGetShaderPcVmid
  split
  · exact faults .hwId
  · rw [if_pos (by obtain ⟨low, high⟩ := known; omega)]
    exact faults .hwId2

theorem umrWaveDataGetShaderPcVmid_unknown (unknown : ¬ KnownGfx device) :
    umrWaveDataGetShaderPcVmid device options wd = .ok none := by
  unfold KnownGfx at unknown
  unfold umrWaveDataGetShaderPcVmid
  rw [if_neg (by omega), if_neg (by omega)]
  rfl

/-! ### One slot -/

def slotResult (device : WaveDevice σ ω) (options : Options) (status : Int × ω) : Int :=
  if status.1 ≠ 0 then -1
  else if EmptySlot device options status.2 then 0
  else 1

theorem umrScanWaveSlot_named (known : KnownGfx device) (se sh cu simd wave : UInt32)
    {pwd : WaveData ω} (named : pwd.regNames = true) (state : AsicState σ) :
    ∃ after dev, umrScanWaveSlot device se sh cu simd wave pwd state =
        .ok ((slotResult device state.options
            (getSlotStatus device state.options se sh cu simd wave state.dev).1, after),
          { state with dev := dev }) ∧
      after.regNames = true ∧
      (slotResult device state.options
          (getSlotStatus device state.options se sh cu simd wave state.dev).1 = 1 →
        after.se = se ∧ after.sh = sh ∧ after.cu = cu ∧ after.simd = simd ∧ after.wave = wave) := by
  unfold umrScanWaveSlot
  generalize getSlotStatus device state.options se sh cu simd wave state.dev = asked
  obtain ⟨⟨r, ws⟩, dev⟩ := asked
  dsimp only
  unfold slotResult
  by_cases failed : r ≠ 0
  · rw [if_pos failed, if_pos failed]
    exact ⟨_, _, rfl, named, fun impossible => absurd impossible (by decide)⟩
  rw [if_neg failed, if_neg failed,
    @slotIsEmpty_named _ _ _ state.options { pwd with ws := ws } known named, ok_bind]
  by_cases empty : EmptySlot device state.options ws
  · rw [if_pos (decide_eq_true empty), if_pos empty]
    exact ⟨_, _, rfl, named, fun impossible => absurd impossible (by decide)⟩
  · rw [if_neg (by rw [decide_eq_false empty]; exact Bool.false_ne_true), if_neg empty]
    by_cases reads : state.options.skipGprs = 0
    · rw [if_pos reads]
      obtain ⟨threads, isThreads⟩ := @slotThreads_named _ _ device state.options
        { pwd with
          ws := ws, se := se, sh := sh, cu := cu, simd := simd, wave := wave
          sgprs := (device.readSgprs state.options
            { pwd with ws := ws, se := se, sh := sh, cu := cu, simd := simd, wave := wave }
            dev).1 } named
      refine ⟨_, _, (congrArg (fun found => found >>= _) isThreads).trans rfl, named,
        fun _ => ⟨rfl, rfl, rfl, rfl, rfl⟩⟩
    · rw [if_neg reads]
      exact ⟨_, _, rfl, named, fun _ => ⟨rfl, rfl, rfl, rfl, rfl⟩⟩

/-- Without names the slot is scanned only if its status cannot be read. -/
theorem umrScanWaveSlot_null (known : KnownGfx device) (se sh cu simd wave : UInt32)
    {pwd : WaveData ω} (null : pwd.regNames = false) (state : AsicState σ) :
    ((getSlotStatus device state.options se sh cu simd wave state.dev).1.1 ≠ 0 →
      ∃ after dev, umrScanWaveSlot device se sh cu simd wave pwd state =
        .ok ((-1, after), { state with dev := dev })) ∧
    ((getSlotStatus device state.options se sh cu simd wave state.dev).1.1 = 0 →
      umrScanWaveSlot device se sh cu simd wave pwd state = .error .nullNames) := by
  unfold umrScanWaveSlot
  generalize getSlotStatus device state.options se sh cu simd wave state.dev = asked
  obtain ⟨⟨r, ws⟩, dev⟩ := asked
  dsimp only
  refine ⟨fun failed => ⟨_, _, if_pos failed⟩, fun read => ?_⟩
  rw [if_neg (not_not.mpr read),
    @slotIsEmpty_null _ _ _ state.options { pwd with ws := ws } known null]
  rfl

/-! ### Single steps -/

theorem umrWaveDataInit_named (named : NamedGfx device) :
    (umrWaveDataInit device).2.regNames = true := decide_eq_true named

theorem umrWaveDataInit_null (unnamed : ¬ NamedGfx device) :
    (umrWaveDataInit device).2.regNames = false := decide_eq_false unnamed

/-- Once the first PC was found, none of the later ones is missed. -/
theorem singlestepLoop_named (named : NamedGfx device) (pc : UInt64) (tries : Nat) (r : Int)
    (wd : WaveData ω) (state : AsicState σ) :
    ∃ exit newWd after, singlestepLoop device pc tries r wd state = .ok ((.out exit, newWd), after) ∧
      after.options = state.options := by
  induction tries generalizing r wd state with
  | zero => exact ⟨_, _, _, rfl, rfl⟩
  | succ tries ih =>
      unfold singlestepLoop
      by_cases stepping : r ≠ 1
      · rw [if_pos stepping]
        exact ⟨_, _, _, rfl, rfl⟩
      rw [if_neg stepping]
      have kept := umrSqCmdSinglestep_options device wd.se wd.sh wd.cu wd.simd wd.wave state
      generalize umrSqCmdSinglestep device wd.se wd.sh wd.cu wd.simd wd.wave state = stepped at kept
      obtain ⟨sent, middle⟩ := stepped
      obtain ⟨newWd, dev, scanned, stillNamed, -⟩ := umrScanWaveSlot_named named.known wd.se wd.sh
        wd.cu wd.simd wd.wave (umrWaveDataInit_named named) middle
      obtain ⟨vmid, newPc, found⟩ :=
        @umrWaveDataGetShaderPcVmid_named _ _ _ middle.options _ named.known stillNamed
      dsimp only at kept ⊢
      rw [scanned, ok_bind, ← kept]
      dsimp only
      split
      · exact ⟨_, _, _, rfl, rfl⟩
      · rw [found, ok_bind]
        dsimp only
        split
        · exact ⟨_, _, _, rfl, rfl⟩
        · exact ih _ newWd { middle with dev := dev }

def Options.forStep (options : Options) : Options := { options with skipGprs := 0, verbose := 0 }

def firstStatus (device : WaveDevice σ ω) (wd : WaveData ω) (state : AsicState σ) : Int :=
  let stepped := (umrSqCmdSinglestep device wd.se wd.sh wd.cu wd.simd wd.wave
    { state with options := state.options.forStep }).2
  (getSlotStatus device state.options.forStep wd.se wd.sh wd.cu wd.simd wd.wave stepped.dev).1.1

/-- Where `umr_singlestep_wave` gets to its restore, or has nothing to restore. -/
def StepRestores (device : WaveDevice σ ω) (wd : WaveData ω) (state : AsicState σ) : Prop :=
  if KnownGfx device then
    wd.regNames = true ∧ (NamedGfx device ∨ firstStatus device wd state ≠ 0)
  else state.options.skipGprs = 0 ∧ state.options.verbose = 0

/-- The wave data of the loop has no names on gfx 6 and 7. -/
theorem singlestepLoop_unnamed (known : KnownGfx device) (unnamed : ¬ NamedGfx device) (pc : UInt64)
    (tries : Nat) (wd : WaveData ω) (state : AsicState σ) :
    (firstStatus device wd state ≠ 0 → ∃ after,
      singlestepLoop device pc (tries + 1) 1 wd { state with options := state.options.forStep } =
        .ok ((.out (-2), wd), after) ∧ after.options = state.options.forStep) ∧
    (firstStatus device wd state = 0 →
      singlestepLoop device pc (tries + 1) 1 wd { state with options := state.options.forStep } =
        .error .nullNames) := by
  have kept := umrSqCmdSinglestep_options device wd.se wd.sh wd.cu wd.simd wd.wave
    { state with options := state.options.forStep }
  unfold firstStatus singlestepLoop
  generalize umrSqCmdSinglestep device wd.se wd.sh wd.cu wd.simd wd.wave
    { state with options := state.options.forStep } = stepped at kept
  obtain ⟨sent, middle⟩ := stepped
  dsimp only at kept ⊢
  rw [← kept]
  have scanned := umrScanWaveSlot_null known wd.se wd.sh wd.cu wd.simd wd.wave
    (umrWaveDataInit_null unnamed) middle
  refine ⟨fun failed => ?_, fun read => ?_⟩
  · obtain ⟨newWd, dev, ran⟩ := scanned.1 failed
    rw [if_neg (not_not.mpr rfl), ran]
    exact ⟨_, rfl, rfl⟩
  · rw [if_neg (not_not.mpr rfl), scanned.2 read]
    rfl

theorem umrSinglestepWave_options_iff (device : WaveDevice σ ω) (wd : WaveData ω)
    (state : AsicState σ) :
    (∃ result after, umrSinglestepWave device wd state = .ok (result, after) ∧
        after.options = state.options) ↔
      StepRestores device wd state := by
  unfold StepRestores
  by_cases known : KnownGfx device
  · rw [if_pos known]
    cases isNamed : wd.regNames with
    | false =>
        have faults : umrSinglestepWave device wd state = .error .nullNames := by
          rw [umrSinglestepWave, umrWaveDataGetShaderPcVmid_null known isNamed]
          rfl
        simp [faults]
    | true =>
        obtain ⟨vmid, pc, found⟩ :=
          @umrWaveDataGetShaderPcVmid_named _ _ _ state.options.forStep _ known isNamed
        have ran : umrSinglestepWave device wd state = (do
            match ← singlestepLoop device pc 5 1 wd
                { state with options := state.options.forStep } with
            | ((.earlyReturn, wd), after) => pure ((-1, wd), after)
            | ((.out r, wd), after) => pure ((r, wd), { after with
                options := { after.options with
                  skipGprs := state.options.skipGprs, verbose := state.options.verbose } })) := by
          change (umrWaveDataGetShaderPcVmid device state.options.forStep wd >>= _) = _
          rw [found]
          rfl
        -- the restore gives back what was saved in front of the loop
        have restored : ∀ {r newWd} {after : AsicState σ},
            singlestepLoop device pc 5 1 wd { state with options := state.options.forStep } =
              .ok ((.out r, newWd), after) → after.options = state.options.forStep →
            ∃ result after, umrSinglestepWave device wd state = .ok (result, after) ∧
              after.options = state.options := by
          intro r newWd after looped kept
          rw [ran, looped]
          refine ⟨_, _, rfl, ?_⟩
          dsimp only
          rw [kept]
          rfl
        by_cases named : NamedGfx device
        · obtain ⟨exit, newWd, after, looped, kept⟩ := singlestepLoop_named named pc 5 1 wd
            { state with options := state.options.forStep }
          exact iff_of_true (restored looped kept) ⟨rfl, Or.inl named⟩
        · obtain ⟨failed, read⟩ := singlestepLoop_unnamed known named pc 4 wd state
          by_cases status : firstStatus device wd state = 0
          · refine iff_of_false ?_ ?_
            · rintro ⟨result, after, returned, -⟩
              rw [ran, read status] at returned
              cases returned
            · rintro ⟨-, isNamed | failed⟩
              · exact named isNamed
              · exact failed status
          · obtain ⟨after, looped, kept⟩ := failed status
            exact iff_of_true (restored looped kept) ⟨rfl, Or.inr status⟩
  · have missed : umrSinglestepWave device wd state =
        .ok ((-1, wd), { state with options := state.options.forStep }) := by
      change (umrWaveDataGetShaderPcVmid device state.options.forStep wd >>= _) = _
      rw [umrWaveDataGetShaderPcVmid_unknown known]
      rfl
    rw [if_neg known]
    constructor
    · rintro ⟨result, after, returned, same⟩
      rw [missed] at returned
      cases returned
      exact ⟨(congrArg Options.skipGprs same).symm, (congrArg Options.verbose same).symm⟩
    · rintro ⟨skipGprs, verbose⟩
      refine ⟨_, _, missed, ?_⟩
      change ({ state.options with skipGprs := 0, verbose := 0 } : Options) = state.options
      rw [← skipGprs]
      nth_rewrite 2 [skipGprs]
      rw [← verbose]

theorem selectGrbm_eq_iff (options : Options) (grbm : Grbm) :
    options.selectGrbm grbm = options ↔ options.grbm = grbm := by
  constructor
  · intro same
    rw [← same]
    rfl
  · rintro rfl
    rfl

/-- The bank selection is left behind if an address of the SQ indirect registers is zero. -/
theorem umrGetWaveSqInfoVi_options_iff (device : WaveDevice σ ω) (se sh cu : UInt32)
    (state : AsicState σ) :
    (umrGetWaveSqInfoVi device se sh cu state).2.options = state.options ↔
      ∀ indIndex indData, device.findReg state.options.vmPartition .mmSqIndIndex = some indIndex →
        device.findReg state.options.vmPartition .mmSqIndData = some indData →
          indIndex.addr * 4 ≠ 0 ∧ indData.addr * 4 ≠ 0 ∨
            state.options.grbm = ⟨1, se, sh, cu⟩ := by
  unfold umrGetWaveSqInfoVi
  dsimp only
  cases device.findReg state.options.vmPartition .mmSqIndIndex with
  | none => simp
  | some indIndex =>
      cases device.findReg state.options.vmPartition .mmSqIndData with
      | none => simp
      | some indData =>
          have onlyPair : (∀ index data, some indIndex = some index → some indData = some data →
              index.addr * 4 ≠ 0 ∧ data.addr * 4 ≠ 0 ∨ state.options.grbm = ⟨1, se, sh, cu⟩) ↔
              (indIndex.addr * 4 ≠ 0 ∧ indData.addr * 4 ≠ 0 ∨
                state.options.grbm = ⟨1, se, sh, cu⟩) := by
            constructor
            · intro every
              exact every indIndex indData rfl rfl
            · rintro one _ _ ⟨⟩ ⟨⟩
              exact one
          rw [onlyPair]
          dsimp only
          by_cases missing : indIndex.addr * 4 = 0 ∨ indData.addr * 4 = 0
          · have absent : ¬ (indIndex.addr * 4 ≠ 0 ∧ indData.addr * 4 ≠ 0) := by
              rintro ⟨index, data⟩
              exact missing.elim index data
            rw [if_pos missing]
            simp only [absent, false_or]
            exact selectGrbm_eq_iff state.options ⟨1, se, sh, cu⟩
          · rw [if_neg missing]
            rw [not_or] at missing
            simp only [selectGrbm_restore, true_iff]
            exact Or.inl missing

end Keep

/-- A device without waves whose SQ indirect registers are at the address `addr`. -/
def idleDevice (family : ChipFamily) (gfxMaj : Nat) (addr : UInt64) : WaveDevice Unit Unit :=
  { family := family
    gfxMaj := gfxMaj
    findReg := fun _ _ => some ⟨addr, .mmio⟩
    composeValue := fun _ _ value => value
    waveValue := fun _ _ => 0
    bitslice := fun _ _ _ value => value
    emptyStatus := ()
    readReg := fun _ _ _ dev => (0, dev)
    writeReg := fun _ _ _ _ dev => dev
    readRingData := fun _ _ dev => (none, dev)
    getWaveStatus := fun _ _ _ _ _ _ dev => ((0, ()), dev)
    readSgprs := fun _ _ dev => ([], dev)
    readVgprs := fun _ _ _ dev => (some [], dev) }

def userOptions : Options :=
  { useBank := 0, bank := ⟨0, 0, 0, 0⟩, skipGprs := 1, verbose := 1, vmPartition := -1,
    ringName := "gfx" }

end Umr.Waves
