import Umr.Lib.Fault
import Umr.Rumr.Server
import Umr.Rumr.Client

/-!
# Reading GPRs through the gprwave file

`read_gprwave.c`: `umr_read_sgprs` and `umr_read_vgprs`.  The unit a wave runs on
is taken from the status registers before NV and from the scan position after
it; what was read also goes to the test log, under an address that packs that
unit.
-/

set_option autoImplicit false

namespace Umr.Waves

open Umr.Lib Umr.Rumr

/-- The fields of `ixSQ_WAVE_HW_ID` that name a wave, before NV. -/
structure HwId where
  seId : UInt32
  shId : UInt32
  cuId : UInt32
  waveId : UInt32
  simdId : UInt32
  deriving DecidableEq, Repr

/-- The fields of `ixSQ_WAVE_HW_ID1` that name a wave, from NV on. -/
structure HwId1 where
  seId : UInt32
  saId : UInt32
  wgpId : UInt32
  simdId : UInt32
  waveId : UInt32
  deriving DecidableEq, Repr

structure Wave extends WaveData where
  hwId : HwId
  hwId1 : HwId1
  deriving DecidableEq, Repr

inductive GprKind where
  | sgpr | vgpr
  deriving DecidableEq, Repr

def GprKind.vOrS : GprKind → UInt32
  | .sgpr => 0
  | .vgpr => 1

structure GprUnit where
  se : UInt32
  sh : UInt32
  cu : UInt32
  wave : UInt32
  simd : UInt32
  deriving DecidableEq, Repr

def gprUnit (family : ChipFamily) (wave : Wave) : GprUnit :=
  if family.code < ChipFamily.nv.code then
    ⟨wave.hwId.seId, wave.hwId.shId, wave.hwId.cuId, wave.hwId.waveId, wave.hwId.simdId⟩
  else ⟨wave.se, wave.sh, (wave.cu <<< 2) ||| wave.simd, wave.wave, 0⟩

/-- From NV on every wave has the 108 SGPRs with VCC and the 16 TTMPs. -/
def gprSize (family : ChipFamily) (vgprGranularity : UInt32) (wave : Wave) (kind : GprKind) :
    UInt32 :=
  if family.code < ChipFamily.nv.code then
    gprsSize family vgprGranularity wave.toWaveData kind.vOrS
  else
    match kind with
    | .sgpr => 4 * 124
    | .vgpr => 4 * ((wave.vgprSize + 1) <<< vgprGranularity)

def gprLogAddr (kind : GprKind) (unit : GprUnit) (thread : UInt32) : UInt64 :=
  ((if kind = .sgpr then (1 : UInt64) else 0) <<< 60) ||| (unit.se.toUInt64 <<< 12) |||
    (unit.sh.toUInt64 <<< 20) ||| (unit.cu.toUInt64 <<< 28) ||| (unit.wave.toUInt64 <<< 36) |||
    (unit.simd.toUInt64 <<< 44) ||| (thread.toUInt64 <<< 52)

/-- One `SGPR@` or `VGPR@` line of the test log. -/
structure GprRecord where
  kind : GprKind
  addr : UInt64
  words : List UInt32
  deriving DecidableEq, Repr

/-- The words of a destination that so many bytes were stored into.  The kernel
stores whole words; a cut last word would show what the destination had before. -/
def storedWords : List UInt8 → List UInt32
  | a :: b :: c :: d :: rest => bytesWord [a, b, c, d] :: storedWords rest
  | [] => []
  | short => [bytesWord short]

/-- What a read of registers did: its return value, the bytes stored from a word
of the destination on, and the lines it logged. -/
structure GprRead where
  status : Int
  stores : List (Nat × List UInt8)
  log : List GprRecord
  deriving DecidableEq, Repr

/-- What the caller finds in its destination; `none` for an error return. -/
def GprRead.returned (read : GprRead) : Option (List (Nat × List UInt8)) :=
  if read.status < 0 then none else some read.stores

section Read
variable {σ : Type} (device : Device σ) (asic : ServerAsic) (testLog : Bool)
  (vgprGranularity : UInt32)

def logged (kind : GprKind) (addr : UInt64) (stored : List UInt8) : List GprRecord :=
  if testLog then [⟨kind, addr, storedWords stored⟩] else []

/-- The trap registers of a wave whose SGPRs end below them. -/
def readTrapGprwave (kind : GprKind) (thread : UInt32) (unit : GprUnit) (size : UInt32) :
    StateM σ GprRead := do
  let (r, stored) ← umrLinuxReadGprGprwaveRaw device asic kind.vOrS thread unit.se unit.sh
    unit.cu unit.wave unit.simd (4 * 0x6C) size
  let lines := if r > 0 then
      logged testLog .sgpr (gprLogAddr kind unit thread + 0x6C * 4) stored else []
  pure ⟨r, [(0x6C, stored)], lines⟩

def readGprGprwave (kind : GprKind) (thread : UInt32) (wave : Wave) : StateM σ GprRead := do
  let unit := gprUnit asic.family wave
  let size := gprSize asic.family vgprGranularity wave kind
  let (r, stored) ← umrLinuxReadGprGprwaveRaw device asic kind.vOrS thread unit.se unit.sh
    unit.cu unit.wave unit.simd 0 size
  if r < 0 then pure ⟨r, [(0, stored)], []⟩
  else do
    let lines := logged testLog kind (gprLogAddr kind unit thread) stored
    if kind = .sgpr ∧ size < 4 * 0x6C ∧ wave.inTrap then do
      let trap ← readTrapGprwave device asic testLog kind thread unit size
      pure ⟨trap.status, (0, stored) :: trap.stores, lines ++ trap.log⟩
    else pure ⟨r, [(0, stored)], lines⟩

def umrReadSgprs (wave : Wave) : StateM σ GprRead :=
  if asic.gprwaveOpen then readGprGprwave device asic testLog vgprGranularity .sgpr 0 wave
  else pure ⟨-1, [], []⟩

def umrReadVgprs (wave : Wave) (thread : UInt32) : StateM σ GprRead :=
  if asic.family.code < ChipFamily.ai.code then pure ⟨-1, [], []⟩
  else if asic.gprwaveOpen then
    readGprGprwave device asic testLog vgprGranularity .vgpr thread wave
  else pure ⟨-1, [], []⟩

end Read

theorem returned_ne_none {read : GprRead} (done : ¬ read.status < 0) : read.returned ≠ none := by
  rw [GprRead.returned, if_neg done]
  exact Option.some_ne_none _

theorem readTrapGprwave_of_raw {σ : Type} {device : Device σ} {asic : ServerAsic} {testLog : Bool}
    {kind : GprKind} {thread : UInt32} {unit : GprUnit} {size : UInt32} {r : Int}
    {stored : List UInt8} {state after : σ}
    (raw : umrLinuxReadGprGprwaveRaw device asic kind.vOrS thread unit.se unit.sh unit.cu unit.wave
      unit.simd (4 * 0x6C) size state = ((r, stored), after)) :
    readTrapGprwave device asic testLog kind thread unit size state =
      (⟨r, [(0x6C, stored)], if r > 0 then
        logged testLog .sgpr (gprLogAddr kind unit thread + 0x6C * 4) stored else []⟩, after) := by
  rw [readTrapGprwave, stateM_bind raw]
  rfl

end Umr.Waves
