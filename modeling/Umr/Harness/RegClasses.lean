import Umr.Harness.RecordReplay

/-!
# Register classes in a log

The recorder logs reads of every class under the same token, and the harness
gives reads outside `REG_MMIO` no value of the log.  The values come back exactly
when they happen to be the ones that are first in the queues.
-/

set_option autoImplicit false

namespace Umr.Harness

open Umr.Lib Umr.Rumr

section Replay
variable (find : FindReg) (asic : RegAsic)

def replayRegs : TestHarness → List RegRead → Except HarnessFault (List UInt32)
  | _, [] => .ok []
  | th, read :: reads => do
      let (value, th) ← readReg find th read.addr read.type
      let values ← replayRegs th reads
      pure (value :: values)

def regLog (reads : List RegRead) : List LogLine := reads.flatMap (RegRead.lines asic)

def Replays (reads : List RegRead) (values : List UInt32) : Prop :=
  ∃ th, umrCreateTestHarness (logText (regLog asic reads)) = .ok th ∧
    replayRegs find th reads = .ok values

def sources (reads : List RegRead) : List (Source RegKey UInt32) :=
  reads.map fun read => regSource find read.addr read.type

theorem replayRegs_draws (reads : List RegRead) : ∀ th : TestHarness, Fresh th →
    replayRegs find th reads = .ok (draws deadbeef (regQueues th) (sources find reads)) := by
  induction reads with
  | nil => exact fun th _ => rfl
  | cons read reads ih =>
      intro th fresh
      obtain ⟨value, after, run, draws⟩ := readReg_draws find fresh read.addr read.type
      rw [replayRegs, run]
      change (replayRegs find after reads >>= _) = _
      rw [ih after draws.fresh, draws.queues, draws.drawn]
      rfl

theorem regLog_lines (reads : List RegRead) : ∀ line ∈ regLog asic reads, RegLine line := by
  intro line member
  obtain ⟨read, _, inside⟩ := List.mem_flatMap.mp member
  exact regRead_lines asic read line inside

theorem replays_iff (reads : List RegRead) (values : List UInt32) :
    Replays find asic reads values ↔
      values = draws deadbeef (loggedAt (regLog asic reads)) (sources find reads) := by
  have lines := regLog_lines asic reads
  have parsed : umrCreateTestHarness (logText (regLog asic reads)) =
      .ok (harnessOf (regLog asic reads)) :=
    umrCreateTestHarness_logText fun line member => (lines line member).parsable
  have fresh : Fresh (harnessOf (regLog asic reads)) := by
    apply fresh_harnessOf
    intro line member
    rw [(lines line member).one]
    decide
  have run := replayRegs_draws find reads _ fresh
  rw [regQueues_harnessOf] at run
  constructor
  · rintro ⟨th, found, replayed⟩
    rw [parsed] at found
    cases found
    rw [run] at replayed
    exact (Except.ok.inj replayed).symm
  · intro same
    exact ⟨_, parsed, by rw [run, same]⟩

def regRun (reads : List RegRead) : List (Source RegKey UInt32 × UInt32) :=
  reads.map fun read => (regSource find read.addr read.type, read.recorded asic)

/-- Reads that the harness answers without its queues returned that answer, and
under each key the values returned are the first ones logged under it, by reads
of whatever class. -/
def FirstLogged (reads : List RegRead) : Prop :=
  PlaysBack deadbeef (loggedAt (regLog asic reads)) (regRun find asic reads)

theorem replays_recorded_iff (reads : List RegRead) :
    Replays find asic reads (reads.map (RegRead.recorded asic)) ↔ FirstLogged find asic reads := by
  have run := draws_eq_iff deadbeef (regRun find asic reads) (loggedAt (regLog asic reads))
  rw [regRun, List.map_map, List.map_map] at run
  rw [replays_iff, FirstLogged, regRun, ← run]
  exact eq_comm

end Replay

/-! ## Reads of other classes -/

section Classes
variable (find : FindReg) (asic : RegAsic)

def mmioReads (reads : List RegRead) : List RegRead := reads.filter fun read => read.type = .mmio

def mmioValues : List RegRead → List UInt32 → List UInt32
  | read :: reads, value :: values =>
      if read.type = .mmio then value :: mmioValues reads values else mmioValues reads values
  | _, _ => []

theorem mmioValues_map (value : RegRead → UInt32) (reads : List RegRead) :
    mmioValues reads (reads.map value) = (mmioReads reads).map value := by
  induction reads with
  | nil => rfl
  | cons read reads ih =>
      rw [List.map_cons, mmioValues, mmioReads, List.filter_cons, ih]
      by_cases mmio : read.type = .mmio
      · rw [if_pos mmio, if_pos (by simpa using mmio)]
        rfl
      · rw [if_neg mmio, if_neg (by simpa using mmio)]
        rfl

/-- Every read is replayed with the value recorded for it, and the MMIO reads
with the values they would get without the reads of other classes. -/
structure ClassesReplay (reads : List RegRead) : Prop where
  recorded : Replays find asic reads (reads.map (RegRead.recorded asic))
  undisturbed : ∀ values alone, Replays find asic reads values →
    Replays find asic (mmioReads reads) alone → mmioValues reads values = alone

theorem classesReplay_iff (reads : List RegRead) :
    ClassesReplay find asic reads ↔
      FirstLogged find asic reads ∧ FirstLogged find asic (mmioReads reads) := by
  constructor
  · rintro ⟨recorded, undisturbed⟩
    refine ⟨(replays_recorded_iff find asic reads).mp recorded, ?_⟩
    have alone := (replays_iff find asic (mmioReads reads) _).mpr rfl
    have same := undisturbed _ _ recorded alone
    rw [mmioValues_map] at same
    rw [← same] at alone
    exact (replays_recorded_iff find asic (mmioReads reads)).mp alone
  · rintro ⟨whole, mmio⟩
    have recorded := (replays_recorded_iff find asic reads).mpr whole
    have recordedAlone := (replays_recorded_iff find asic (mmioReads reads)).mpr mmio
    refine ⟨recorded, fun values alone replayed replayedAlone => ?_⟩
    rw [(replays_iff find asic reads values).mp replayed,
      ← (replays_iff find asic reads _).mp recorded, mmioValues_map,
      (replays_iff find asic _ alone).mp replayedAlone,
      ← (replays_iff find asic _ _).mp recordedAlone]

end Classes

/-! ## An SMC read in front of an MMIO read -/

def smcThenMmio : List RegRead := [⟨0x100, .smc, ⟨false, 1⟩⟩, ⟨0x100, .mmio, ⟨false, 2⟩⟩]

/-- The MMIO read gets the value of the SMC read, which gets none. -/
theorem smcThenMmio_shifted :
    Replays noReg plainAsic smcThenMmio [0xDEADBEEF, 1] ∧
      Replays noReg plainAsic (mmioReads smcThenMmio) [2] ∧
      ¬ ClassesReplay noReg plainAsic smcThenMmio := by
  have shifted : Replays noReg plainAsic smcThenMmio [0xDEADBEEF, 1] :=
    (replays_iff noReg plainAsic smcThenMmio _).mpr (by decide)
  have alone : Replays noReg plainAsic (mmioReads smcThenMmio) [2] :=
    (replays_iff noReg plainAsic (mmioReads smcThenMmio) _).mpr (by decide)
  refine ⟨shifted, alone, fun replay => ?_⟩
  have same := replay.undisturbed _ _ shifted alone
  exact absurd same (by decide)

end Umr.Harness
