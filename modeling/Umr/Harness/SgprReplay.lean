import Umr.Harness.Sgprs
import Umr.Rumr.RemoteGpr

/-!
# Recording and replaying SGPRs

`umr_read_sgprs` of `read_gprwave.c` logs what it reads, and `read_sgprs` of the
harness finds it again if it asks for as many words as were logged.
-/

set_option autoImplicit false

namespace Umr.Harness

open Umr.Lib Umr.Rumr Umr.Waves

/-! ## Recordings -/

structure SgprRecording (σ : Type) where
  wave : Wave
  before : σ

def GprRecord.line (record : GprRecord) : LogLine :=
  match record.kind with
  | .sgpr => .words .sgpr record.addr record.words none
  | .vgpr => .words .vgpr record.addr record.words none

section Recordings
variable {σ : Type} (device : Device σ) (asic : GfxAsic) (vgprGranularity : UInt32)

def SgprRecording.read (recording : SgprRecording σ) : GprRead :=
  (umrReadSgprs device asic.toServerAsic true vgprGranularity recording.wave recording.before).1

def SgprRecording.words (recording : SgprRecording σ) : List (Nat × List UInt32) :=
  (recording.read device asic vgprGranularity).stores.map fun store =>
    (store.1, storedWords store.2)

def SgprRecording.key (recording : SgprRecording σ) : UInt64 :=
  gprLogAddr .sgpr (gprUnit asic.family recording.wave) 0

def sgprLog (recordings : List (SgprRecording σ)) : List GprRecord :=
  recordings.flatMap fun recording => (recording.read device asic vgprGranularity).log

/-- The record has as many words as the harness will ask for, under the address
it will look up, and a wave in the trap handler has a record of sixteen more. -/
structure SgprFits (recording : SgprRecording σ) : Prop where
  keyed : sgprAddr asic.family recording.wave = recording.key asic
  some_words : umrWaveDataNumOfSgprs asic.maj recording.wave ≠ 0
  counts : (recording.read device asic vgprGranularity).log.map
      (fun record => record.words.length) =
    (umrWaveDataNumOfSgprs asic.maj recording.wave).toNat ::
      (if recording.wave.inTrap then [16] else [])

/-- The first request of a local read. -/
def SgprRecording.raw (recording : SgprRecording σ) : (Int × List UInt8) × σ :=
  let unit := gprUnit asic.family recording.wave
  umrLinuxReadGprGprwaveRaw device asic.toServerAsic GprKind.sgpr.vOrS 0 unit.se unit.sh unit.cu
    unit.wave unit.simd 0 (gprSize asic.family vgprGranularity recording.wave .sgpr)
    recording.before

/-- Without a read of the trap registers the log has one record. -/
theorem read_untrapped {recording : SgprRecording σ} {r : Int} {stored : List UInt8} {after : σ}
    (opened : asic.gprwaveOpen = true)
    (raw : recording.raw device asic vgprGranularity = ((r, stored), after)) (done : ¬ r < 0)
    (untrapped : ¬ (gprSize asic.family vgprGranularity recording.wave .sgpr < 4 * 0x6C ∧
      recording.wave.inTrap = true)) :
    recording.read device asic vgprGranularity =
      ⟨r, [(0, stored)], [⟨.sgpr, recording.key asic, storedWords stored⟩]⟩ := by
  unfold SgprRecording.read umrReadSgprs
  rw [if_pos opened]
  unfold readGprGprwave
  unfold SgprRecording.raw at raw
  dsimp only at raw ⊢
  rw [stateM_bind raw]
  dsimp only
  rw [if_neg done, if_neg fun trapped => untrapped trapped.2]
  rfl

/-- How a local read of SGPRs ends: without a line, with one, or with a second
read of the trap registers, which may have left a line too. -/
theorem read_cases (recording : SgprRecording σ) :
    (recording.read device asic vgprGranularity).log = [] ∨
    (∃ stored, (recording.read device asic vgprGranularity).stores = [(0, stored)] ∧
      (recording.read device asic vgprGranularity).log =
        [⟨.sgpr, recording.key asic, storedWords stored⟩]) ∨
    (recording.wave.inTrap = true ∧
      ∃ stored trap, (recording.read device asic vgprGranularity).stores =
          [(0, stored), (0x6C, trap)] ∧
        ((recording.read device asic vgprGranularity).log =
            [⟨.sgpr, recording.key asic, storedWords stored⟩] ∨
          (recording.read device asic vgprGranularity).log =
            [⟨.sgpr, recording.key asic, storedWords stored⟩,
              ⟨.sgpr, recording.key asic + 0x6C * 4, storedWords trap⟩])) := by
  unfold SgprRecording.read umrReadSgprs
  split
  · unfold readGprGprwave
    rcases raw : recording.raw device asic vgprGranularity with ⟨⟨r, stored⟩, after⟩
    unfold SgprRecording.raw at raw
    dsimp only at raw ⊢
    rw [stateM_bind raw]
    dsimp only
    split
    · exact Or.inl rfl
    · split
      · rename_i trapped
        rcases again : umrLinuxReadGprGprwaveRaw device asic.toServerAsic GprKind.sgpr.vOrS 0
          (gprUnit asic.family recording.wave).se (gprUnit asic.family recording.wave).sh
          (gprUnit asic.family recording.wave).cu (gprUnit asic.family recording.wave).wave
          (gprUnit asic.family recording.wave).simd (4 * 0x6C)
          (gprSize asic.family vgprGranularity recording.wave .sgpr) after with
          ⟨⟨status, trap⟩, last⟩
        rw [stateM_bind (readTrapGprwave_of_raw again)]
        refine Or.inr (Or.inr ⟨trapped.2.2, stored, trap, rfl, ?_⟩)
        by_cases positive : status > 0
        · exact Or.inr (by rw [if_pos positive]; rfl)
        · exact Or.inl (by rw [if_neg positive]; rfl)
      · exact Or.inr (Or.inl ⟨stored, rfl, rfl⟩)
  · exact Or.inl rfl

theorem storedWords_short : ∀ stored : List UInt8,
    4 * (storedWords stored).length ≤ stored.length + 3
  | [] | [_] | [_, _] | [_, _, _] => by simp [storedWords]
  | _ :: _ :: _ :: _ :: rest => by
      have behind := storedWords_short rest
      rw [storedWords, List.length_cons]
      simp only [List.length_cons]
      omega

/-- A read of so many bytes fills no list the parser has no room for. -/
theorem storedAtMost_short {size : UInt32} {outcome : Int × List UInt8}
    (stored : StoredAtMost size.toNat outcome) : (storedWords outcome.2).length < wordsLimit := by
  have words := storedWords_short outcome.2
  have asked := Nat.le_trans stored.1 (Nat.le_of_lt size.toNat_lt)
  unfold wordsLimit
  omega

theorem read_log_short {device : Device σ} (lawful : device.Lawful)
    (recording : SgprRecording σ) :
    ∀ record ∈ (recording.read device asic vgprGranularity).log,
      record.words.length < wordsLimit := by
  intro record member
  have first : StoredAtMost _ (recording.raw device asic vgprGranularity).1 :=
    gprwaveAccess_stored lawful ..
  unfold SgprRecording.read umrReadSgprs at member
  split at member
  · unfold readGprGprwave at member
    rcases raw : recording.raw device asic vgprGranularity with ⟨⟨r, stored⟩, after⟩
    rw [raw] at first
    unfold SgprRecording.raw at raw
    dsimp only at raw member
    rw [stateM_bind raw] at member
    dsimp only at member
    split at member
    · cases member
    · split at member
      · rcases again : umrLinuxReadGprGprwaveRaw device asic.toServerAsic GprKind.sgpr.vOrS 0
          (gprUnit asic.family recording.wave).se (gprUnit asic.family recording.wave).sh
          (gprUnit asic.family recording.wave).cu (gprUnit asic.family recording.wave).wave
          (gprUnit asic.family recording.wave).simd (4 * 0x6C)
          (gprSize asic.family vgprGranularity recording.wave .sgpr) after with
          ⟨⟨status, trap⟩, last⟩
        have second : StoredAtMost (gprSize asic.family vgprGranularity recording.wave
            .sgpr).toNat (status, trap) := by
          rw [← show _ = (status, trap) from congrArg Prod.fst again]
          exact gprwaveAccess_stored lawful ..
        rw [stateM_bind (readTrapGprwave_of_raw again)] at member
        rcases List.mem_append.mp member with main | trapped
        · rw [List.mem_singleton.mp main]
          exact storedAtMost_short first
        · split at trapped
          · rw [List.mem_singleton.mp trapped]
            exact storedAtMost_short second
          · cases trapped
      · rw [List.mem_singleton.mp member]
        exact storedAtMost_short first
  · cases member

variable {device asic vgprGranularity}

/-- What a fitting read logged is what it stored. -/
theorem sgprFits_log {recording : SgprRecording σ}
    (fits : SgprFits device asic vgprGranularity recording) :
    ∃ main trap, main.length = (umrWaveDataNumOfSgprs asic.maj recording.wave).toNat ∧
      trap.length = 16 ∧
      (recording.read device asic vgprGranularity).log = ⟨.sgpr, recording.key asic, main⟩ ::
        (if recording.wave.inTrap then [⟨.sgpr, recording.key asic + 0x6C * 4, trap⟩] else []) ∧
      recording.words device asic vgprGranularity = (0, main) ::
        (if recording.wave.inTrap then [(0x6C, trap)] else []) := by
  have counts := fits.counts
  rw [SgprRecording.words]
  rcases read_cases device asic vgprGranularity recording with
    none | ⟨stored, stores, log⟩ | ⟨trapped, stored, trap, stores, log⟩
  · rw [none] at counts
    cases counts
  · rw [log] at counts
    cases flag : recording.wave.inTrap with
    | true =>
        rw [flag] at counts
        exact nomatch (List.cons.inj counts).2
    | false =>
        rw [flag] at counts
        refine ⟨storedWords stored, List.replicate 16 0, (List.cons.inj counts).1,
          List.length_replicate, log, ?_⟩
        rw [stores]
        rfl
  · rw [trapped] at counts ⊢
    rcases log with one | both
    · rw [one] at counts
      exact nomatch (List.cons.inj counts).2
    · rw [both] at counts
      obtain ⟨main, rest⟩ := List.cons.inj counts
      refine ⟨storedWords stored, storedWords trap, main, (List.cons.inj rest).1, both, ?_⟩
      rw [stores]
      rfl

end Recordings

/-! ## The log of SGPR reads -/

section Log

def GprRecord.wordsUnder (key : UInt64) (record : GprRecord) : List UInt32 :=
  if record.addr = key then record.words else []

def gprQueue (log : List GprRecord) (key : UInt64) : List UInt32 :=
  log.flatMap (GprRecord.wordsUnder key)

structure SgprRecord (record : GprRecord) : Prop where
  kind : record.kind = .sgpr
  some_words : record.words ≠ []
  short : record.words.length < wordsLimit

theorem sgprRecord_line {record : GprRecord} (sgpr : SgprRecord record) :
    GprRecord.line record = .words .sgpr record.addr record.words none := by
  rw [GprRecord.line, sgpr.kind]

theorem sgprRecord_parsable {record : GprRecord} (sgpr : SgprRecord record) :
    (GprRecord.line record).Parsable := by
  rw [sgprRecord_line sgpr]
  exact ⟨mt List.length_eq_zero_iff.mp sgpr.some_words, sgpr.short, nofun, nofun, nofun⟩

theorem queueOf_sgprBlocks (log : List GprRecord) (sgprs : ∀ record ∈ log, SgprRecord record)
    (key : UInt64) :
    queueOf ((log.map GprRecord.line).filterMap (mmioBlock .sgpr)) key = gprQueue log key := by
  induction log with
  | nil => rfl
  | cons record log ih =>
      have behind := ih fun record member => sgprs record (List.mem_cons_of_mem _ member)
      rw [List.map_cons, sgprRecord_line (sgprs record (List.mem_cons_self ..))]
      rw [gprQueue, List.flatMap_cons, ← gprQueue, ← behind]
      exact queueOf_cons ..

theorem sgprBlocks_ok (log : List GprRecord) (sgprs : ∀ record ∈ log, SgprRecord record) :
    ∀ block ∈ (log.map GprRecord.line).filterMap (mmioBlock .sgpr), block.Ok := by
  intro block member
  obtain ⟨line, inside, found⟩ := List.mem_filterMap.mp member
  obtain ⟨record, recorded, rfl⟩ := List.mem_map.mp inside
  have sgpr := sgprs record recorded
  refine mmioBlock_ok ?_ found
  rw [sgprRecord_line sgpr]
  exact Nat.lt_trans sgpr.short (by decide)

theorem shiftLeft_aligned (value : UInt32) {shift : UInt64} (wide : 12 ≤ shift.toNat)
    (small : shift.toNat < 64) : (value.toUInt64 <<< shift).toNat % 2 ^ 12 = 0 := by
  have inside : 2 ^ shift.toNat = 2 ^ 12 * 2 ^ (shift.toNat - 12) := by
    rw [← Nat.pow_add]
    congr 1
    omega
  rw [UInt64.toNat_shiftLeft, Nat.mod_eq_of_lt small, Nat.shiftLeft_eq, inside,
    Nat.mod_mod_of_dvd _ ⟨2 ^ 52, by decide⟩, Nat.mul_left_comm]
  exact Nat.mul_mod_right _ _

/-- The addresses of waves leave the low bits to the trap registers. -/
theorem gprLogAddr_aligned (unit : GprUnit) : (gprLogAddr .sgpr unit 0).toNat % 2 ^ 12 = 0 := by
  have aligned : ∀ value : UInt32, ∀ shift : UInt64, 12 ≤ shift.toNat → shift.toNat < 64 →
      (value.toUInt64 <<< shift).toNat % 2 ^ 12 = 0 :=
    fun value _ wide small => shiftLeft_aligned value wide small
  simp only [gprLogAddr, UInt64.toNat_or, Nat.or_mod_two_pow,
    aligned unit.se 12 (by decide) (by decide), aligned unit.sh 20 (by decide) (by decide),
    aligned unit.cu 28 (by decide) (by decide), aligned unit.wave 36 (by decide) (by decide),
    aligned unit.simd 44 (by decide) (by decide), aligned 0 52 (by decide) (by decide)]
  decide

end Log

/-! ## Whole recordings -/

section Runs
variable {σ : Type} (device : Device σ) (asic : GfxAsic) (vgprGranularity : UInt32)

def replaySgprs (asic : GfxAsic) :
    TestHarness → List Wave → Except HarnessFault (List (List (Nat × List UInt32)))
  | _, [] => .ok []
  | th, wave :: waves => do
      let (words, th) ← readSgprs asic th wave
      let further ← replaySgprs asic th waves
      pure (words :: further)

/-- A harness that has exactly the words of `log` left. -/
structure Holds (log : List GprRecord) (th : TestHarness) : Prop where
  ok : ∀ block ∈ th.mmio .sgpr, block.Ok
  queues : ∀ key, queueOf (th.mmio .sgpr) key = gprQueue log key

variable {device asic vgprGranularity}

theorem gprQueue_cons (record : GprRecord) (log : List GprRecord) (key : UInt64) :
    gprQueue (record :: log) key =
      (if record.addr = key then record.words else []) ++ gprQueue log key := List.flatMap_cons ..

/-- Draining the record in front gives its words and leaves the rest. -/
theorem drain_record {record : GprRecord} {log : List GprRecord} {blocks : List MmioBlock}
    (ok : ∀ block ∈ blocks, block.Ok)
    (queues : ∀ key, queueOf blocks key = gprQueue (record :: log) key) :
    ∃ after, drain record.addr record.words.length blocks = .ok (record.words, after) ∧
      (∀ block ∈ after, block.Ok) ∧ ∀ key, queueOf after key = gprQueue log key := by
  have here : queueOf blocks record.addr = record.words ++ gprQueue log record.addr := by
    rw [queues, gprQueue_cons, if_pos rfl]
  have enough : record.words.length ≤ (queueOf blocks record.addr).length := by
    rw [here, List.length_append]
    exact Nat.le_add_right _ _
  obtain ⟨after, run, drained⟩ := drain_spec ok enough
  refine ⟨after, ?_, drained.ok, ?_⟩
  · rw [run, here, List.take_left]
  · intro key
    rw [drained.queues]
    by_cases same : key = record.addr
    · rw [same, Function.update_self, here, List.drop_left]
    · rw [Function.update_of_ne same, queues, gprQueue_cons, if_neg (Ne.symm same)]
      rfl

theorem setSgpr_holds {th : TestHarness} {log : List GprRecord} {blocks : List MmioBlock}
    (ok : ∀ block ∈ blocks, block.Ok) (queues : ∀ key, queueOf blocks key = gprQueue log key) :
    Holds log (th.setSgpr blocks) := by
  have sgpr : (th.setSgpr blocks).mmio .sgpr = blocks := by
    change Function.update th.mmio .sgpr blocks .sgpr = blocks
    rw [Function.update_self]
  refine ⟨?_, ?_⟩
  · rw [sgpr]
    exact ok
  · rw [sgpr]
    exact queues

theorem readSgprs_holds {recording : SgprRecording σ} {rest : List GprRecord} {th : TestHarness}
    (fits : SgprFits device asic vgprGranularity recording)
    (holds : Holds ((recording.read device asic vgprGranularity).log ++ rest) th) :
    ∃ after, readSgprs asic th recording.wave =
        .ok (recording.words device asic vgprGranularity, after) ∧ Holds rest after := by
  obtain ⟨main, trap, count, sixteen, log, words⟩ := sgprFits_log fits
  have queues := holds.queues
  rw [log] at queues
  obtain ⟨blocks, run, ok, left⟩ := drain_record holds.ok queues
  change drain (recording.key asic) main.length _ = .ok (main, blocks) at run
  have first : drain (sgprAddr asic.family recording.wave)
      (umrWaveDataNumOfSgprs asic.maj recording.wave).toNat (th.mmio .sgpr) = .ok (main, blocks) := by
    rw [fits.keyed, ← count]
    exact run
  unfold readSgprs
  dsimp only
  rw [first, words]
  cases flag : recording.wave.inTrap with
  | false =>
      rw [flag] at left
      exact ⟨th.setSgpr blocks, rfl, setSgpr_holds ok left⟩
  | true =>
      rw [flag] at left
      obtain ⟨last, again, lastOk, lastLeft⟩ := drain_record ok left
      have second : drain (sgprAddr asic.family recording.wave + 4 * 0x6C) 16 blocks =
          .ok (trap, last) := by
        rw [fits.keyed, ← sixteen]
        exact again
      refine ⟨th.setSgpr last, ?_, setSgpr_holds lastOk lastLeft⟩
      change (drain (sgprAddr asic.family recording.wave + 4 * 0x6C) 16 blocks >>= _) = _
      rw [second]
      rfl

theorem sgprLog_cons (recording : SgprRecording σ) (recordings : List (SgprRecording σ)) :
    sgprLog device asic vgprGranularity (recording :: recordings) =
      (recording.read device asic vgprGranularity).log ++
        sgprLog device asic vgprGranularity recordings := List.flatMap_cons ..

theorem replaySgprs_holds (recordings : List (SgprRecording σ)) : ∀ th : TestHarness,
    (∀ recording ∈ recordings, SgprFits device asic vgprGranularity recording) →
    Holds (sgprLog device asic vgprGranularity recordings) th →
    replaySgprs asic th (recordings.map SgprRecording.wave) =
      .ok (recordings.map (SgprRecording.words device asic vgprGranularity)) := by
  induction recordings with
  | nil => exact fun th _ _ => rfl
  | cons recording recordings ih =>
      intro th fits holds
      rw [sgprLog_cons] at holds
      obtain ⟨after, run, left⟩ := readSgprs_holds (fits recording (List.mem_cons_self ..)) holds
      rw [List.map_cons, replaySgprs, run]
      change (replaySgprs asic after (recordings.map SgprRecording.wave) >>= _) = _
      rw [ih after (fun recording member => fits recording (List.mem_cons_of_mem _ member)) left]
      rfl

/-! ## Any order -/

/-- The same recordings, those of one wave in the order they were made. -/
def SameOrder (asic : GfxAsic) (order recordings : List (SgprRecording σ)) : Prop :=
  ∀ key, order.filter (fun recording => recording.key asic = key) =
    recordings.filter (fun recording => recording.key asic = key)

theorem sameOrder_mem {order recordings : List (SgprRecording σ)}
    (same : SameOrder asic order recordings) {recording : SgprRecording σ}
    (member : recording ∈ order) : recording ∈ recordings := by
  have kept : recording ∈ order.filter
      (fun other => other.key asic = recording.key asic) :=
    List.mem_filter.mpr ⟨member, decide_eq_true rfl⟩
  rw [same] at kept
  exact (List.mem_filter.mp kept).1

theorem flatMap_filter_of_nil {α β : Type} {keep : α → Bool} {f : α → List β} {items : List α}
    (dropped : ∀ item ∈ items, keep item = false → f item = []) :
    items.flatMap f = (items.filter keep).flatMap f := by
  induction items with
  | nil => rfl
  | cons item items ih =>
      have behind := ih fun item member => dropped item (List.mem_cons_of_mem _ member)
      rw [List.flatMap_cons, behind]
      cases kept : keep item with
      | true => rw [List.filter_cons_of_pos kept, List.flatMap_cons]
      | false =>
          rw [List.filter_cons_of_neg (by simp [kept]),
            dropped item (List.mem_cons_self ..) kept]
          rfl

/-- The words under one address come from the recordings of one wave. -/
theorem gprQueue_of_other {recording : SgprRecording σ}
    (fits : SgprFits device asic vgprGranularity recording) (key : UInt64)
    (other : recording.key asic ≠ if key.toNat % 2 ^ 12 = 0 then key else key - 0x6C * 4) :
    gprQueue (recording.read device asic vgprGranularity).log key = [] := by
  obtain ⟨main, trap, _, _, log, _⟩ := sgprFits_log fits
  have aligned : (recording.key asic).toNat % 2 ^ 12 = 0 := gprLogAddr_aligned _
  have offset : ((0x6C : UInt64) * 4).toNat = 432 := by decide
  have apart : recording.key asic ≠ key ∧ recording.key asic + 0x6C * 4 ≠ key := by
    split at other
    · rename_i low
      refine ⟨other, fun same => ?_⟩
      have numbers := congrArg UInt64.toNat same
      rw [UInt64.toNat_add, offset] at numbers
      omega
    · rename_i high
      refine ⟨fun same => high (by rw [← same]; exact aligned), fun same => other ?_⟩
      rw [← same, UInt64.add_sub_cancel]
  rw [log, gprQueue_cons, if_neg apart.1]
  cases recording.wave.inTrap with
  | false => rfl
  | true =>
      change gprQueue [_] key = []
      rw [gprQueue_cons, if_neg apart.2]
      rfl

theorem gprQueue_sameOrder {order recordings : List (SgprRecording σ)}
    (fits : ∀ recording ∈ recordings, SgprFits device asic vgprGranularity recording)
    (same : SameOrder asic order recordings) (key : UInt64) :
    gprQueue (sgprLog device asic vgprGranularity order) key =
      gprQueue (sgprLog device asic vgprGranularity recordings) key := by
  let unit : UInt64 := if key.toNat % 2 ^ 12 = 0 then key else key - 0x6C * 4
  have oneWave : ∀ list : List (SgprRecording σ), (∀ recording ∈ list, recording ∈ recordings) →
      gprQueue (sgprLog device asic vgprGranularity list) key =
        (list.filter fun recording => recording.key asic = unit).flatMap fun recording =>
          gprQueue (recording.read device asic vgprGranularity).log key := by
    intro list inside
    rw [gprQueue, sgprLog, List.flatMap_assoc]
    apply flatMap_filter_of_nil
    intro recording member other
    exact gprQueue_of_other (fits recording (inside recording member)) key (of_decide_eq_false other)
  rw [oneWave order fun _ member => sameOrder_mem same member, same,
    ← oneWave recordings fun _ member => member]

theorem parse_sgprLog {log : List GprRecord} (records : ∀ record ∈ log, SgprRecord record) :
    ∃ th, umrCreateTestHarness (logText (log.map GprRecord.line)) = .ok th ∧ Holds log th := by
  refine ⟨harnessOf (log.map GprRecord.line), ?_, ?_, fun key => ?_⟩
  · apply umrCreateTestHarness_logText
    intro line member
    obtain ⟨record, inside, rfl⟩ := List.mem_map.mp member
    exact sgprRecord_parsable (records record inside)
  · rw [harnessOf_mmio]
    exact sgprBlocks_ok _ records
  · rw [harnessOf_mmio, queueOf_sgprBlocks _ records]

theorem sgprLog_records {recordings : List (SgprRecording σ)} (lawful : device.Lawful)
    (fits : ∀ recording ∈ recordings, SgprFits device asic vgprGranularity recording) :
    ∀ record ∈ sgprLog device asic vgprGranularity recordings, SgprRecord record := by
  intro record member
  obtain ⟨recording, inside, logged⟩ := List.mem_flatMap.mp member
  have short := read_log_short asic vgprGranularity lawful recording record logged
  obtain ⟨main, trap, count, sixteen, log, _⟩ := sgprFits_log (fits recording inside)
  rw [log] at logged
  rcases List.mem_cons.mp logged with rfl | second
  · refine ⟨rfl, ?_, short⟩
    intro none
    change main = [] at none
    rw [none] at count
    exact (fits recording inside).some_words (UInt32.toNat_inj.mp count.symm)
  · split at second
    · rw [List.mem_singleton.mp second]
      refine ⟨rfl, ?_, ?_⟩
      · intro none
        change trap = [] at none
        rw [none] at sixteen
        cases sixteen
      · rw [sixteen]
        decide
    · cases second

/-- Every number and order of recorded waves. -/
theorem sgprs_replay {order recordings : List (SgprRecording σ)} (lawful : device.Lawful)
    (fits : ∀ recording ∈ recordings, SgprFits device asic vgprGranularity recording)
    (same : SameOrder asic order recordings) :
    ∃ th, umrCreateTestHarness
        (logText ((sgprLog device asic vgprGranularity recordings).map GprRecord.line)) = .ok th ∧
      replaySgprs asic th (order.map SgprRecording.wave) =
        .ok (order.map (SgprRecording.words device asic vgprGranularity)) := by
  obtain ⟨th, parsed, holds⟩ := parse_sgprLog (sgprLog_records lawful fits)
  refine ⟨th, parsed, ?_⟩
  apply replaySgprs_holds
  · exact fun recording member => fits recording (sameOrder_mem same member)
  · exact ⟨holds.ok, fun key => by rw [holds.queues, gprQueue_sameOrder fits same]⟩

end Runs

/-! ## A device that counts -/

def countBytes (n : Nat) : List UInt8 := (List.range n).map UInt8.ofNat

def countingDevice : Device Unit :=
  { zeroDevice with gprwaveRead := fun _ size => pure (some (countBytes size.toNat)) }

theorem countingDevice_lawful : countingDevice.Lawful := by
  refine ⟨zeroDevice_lawful.accessRead_le, ?_⟩
  intro _ size _ bytes stored
  cases stored
  rw [countBytes, List.length_map, List.length_range]

def gfxAsic (family : ChipFamily) (maj : Nat) : GfxAsic where
  family := family
  vmPartition := -1
  gprwaveOpen := true
  maj := maj

def slotWave (slot : UInt32) (inTrap : Bool) : Wave where
  se := 0
  sh := 0
  cu := 2
  simd := 1
  wave := slot
  sgprSize := 0
  vgprSize := 3
  inTrap := inTrap
  hwId := ⟨0, 0, 2, slot, 1⟩
  hwId1 := ⟨0, 0, 2, 1, slot⟩

section Counting
variable {family : ChipFamily} {maj : Nat} {slot : UInt32} {inTrap : Bool}

def slotRecording (slot : UInt32) (inTrap : Bool) : SgprRecording Unit := ⟨slotWave slot inTrap, ()⟩

theorem storedWords_length (count : Nat) : ∀ bytes : List UInt8, bytes.length = 4 * count →
    (storedWords bytes).length = count := by
  induction count with
  | zero =>
      intro bytes none
      rw [List.length_eq_zero_iff.mp none]
      rfl
  | succ count ih =>
      intro bytes length
      match bytes with
      | a :: b :: c :: d :: rest =>
          have behind : rest.length = 4 * count := by
            simp only [List.length_cons] at length
            omega
          rw [storedWords, List.length_cons, ih rest behind]
      | [] | [_] | [_, _] | [_, _, _] =>
          simp only [List.length_cons, List.length_nil] at length
          omega

theorem readStatus_countBytes {n : Nat} (small : n ≤ 4096) :
    ¬ readStatus (countBytes n) < 0 := by
  have length : (countBytes n).length ≤ 4096 := by
    rw [countBytes, List.length_map, List.length_range]
    exact small
  have status := readStatus_small length
  omega

theorem slotRecording_read {words : Nat} (few : words ≤ 124)
    (size : (gprSize family 0 (slotWave slot inTrap) .sgpr).toNat = 4 * words)
    (untrapped : ¬ (gprSize family 0 (slotWave slot inTrap) .sgpr < 4 * 0x6C ∧ inTrap = true)) :
    ∃ r stored, (storedWords stored).length = words ∧
      (slotRecording slot inTrap).read countingDevice (gfxAsic family maj) 0 =
        ⟨r, [(0, stored)],
          [⟨.sgpr, (slotRecording slot inTrap).key (gfxAsic family maj), storedWords stored⟩]⟩ := by
  have raw : (slotRecording slot inTrap).raw countingDevice (gfxAsic family maj) 0 =
      ((readStatus (countBytes (4 * words)), countBytes (4 * words)), ()) := by
    rw [← size]
    rfl
  refine ⟨readStatus (countBytes (4 * words)), countBytes (4 * words), ?_, ?_⟩
  · apply storedWords_length
    rw [countBytes, List.length_map, List.length_range]
  · exact read_untrapped countingDevice (gfxAsic family maj) 0 rfl raw
      (readStatus_countBytes (by omega)) untrapped

end Counting

theorem nvRecording_read (slot : UInt32) (inTrap : Bool) :
    ∃ r stored, (storedWords stored).length = 124 ∧
      (slotRecording slot inTrap).read countingDevice (gfxAsic .nv 10) 0 =
        ⟨r, [(0, stored)],
          [⟨.sgpr, (slotRecording slot inTrap).key (gfxAsic .nv 10), storedWords stored⟩]⟩ := by
  have size : gprSize .nv 0 (slotWave slot inTrap) .sgpr = 496 := rfl
  apply slotRecording_read (Nat.le_refl _)
  · rw [size]
    rfl
  · rw [size]
    exact fun small => absurd small.1 (by decide)

theorem nvRecording_fits {slot : UInt32}
    (keyed : sgprAddr .nv (slotWave slot false) =
      (slotRecording slot false).key (gfxAsic .nv 10)) :
    SgprFits countingDevice (gfxAsic .nv 10) 0 (slotRecording slot false) := by
  obtain ⟨r, stored, count, read⟩ := nvRecording_read slot false
  refine ⟨keyed, ?_, ?_⟩
  · exact (by decide : (124 : UInt32) ≠ 0)
  · rw [read, List.map_singleton, count]
    rfl

def twoWaves : List (SgprRecording Unit) := [slotRecording 0 false, slotRecording 1 false]

theorem twoWaves_sameOrder : SameOrder (gfxAsic .nv 10) twoWaves.reverse twoWaves := by
  have apart : (slotRecording 0 false).key (gfxAsic .nv 10) ≠
      (slotRecording 1 false).key (gfxAsic .nv 10) := by decide
  intro key
  by_cases first : (slotRecording 0 false).key (gfxAsic .nv 10) = key
  · have second : (slotRecording 1 false).key (gfxAsic .nv 10) ≠ key :=
      fun same => apart (first.trans same.symm)
    simp [twoWaves, first, second]
  · by_cases second : (slotRecording 1 false).key (gfxAsic .nv 10) = key
    · simp [twoWaves, first, second]
    · simp [twoWaves, first, second]

theorem twoWaves_replay :
    ∃ th, umrCreateTestHarness (logText
        ((sgprLog countingDevice (gfxAsic .nv 10) 0 twoWaves).map GprRecord.line)) = .ok th ∧
      replaySgprs (gfxAsic .nv 10) th [slotWave 1 false, slotWave 0 false] =
        .ok [(slotRecording 1 false).words countingDevice (gfxAsic .nv 10) 0,
          (slotRecording 0 false).words countingDevice (gfxAsic .nv 10) 0] := by
  have fits : ∀ recording ∈ twoWaves, SgprFits countingDevice (gfxAsic .nv 10) 0 recording := by
    intro recording member
    simp only [twoWaves, List.mem_cons, List.not_mem_nil, or_false] at member
    rcases member with rfl | rfl
    · exact nvRecording_fits (by decide)
    · exact nvRecording_fits (by decide)
  exact sgprs_replay countingDevice_lawful fits twoWaves_sameOrder

def slotLog (asic : GfxAsic) (inTrap : Bool) : List Char :=
  logText ((sgprLog countingDevice asic 0 [slotRecording 0 inTrap]).map GprRecord.line)

/-- An AI wave gets none of its sixteen words back, and for an NV wave in the trap
handler the callback waits for a record that is never made. -/
theorem aiWords_lost_nvTrap_endless :
    (¬ ∃ th, umrCreateTestHarness (slotLog (gfxAsic .ai 9) false) = .ok th ∧
      replaySgprs (gfxAsic .ai 9) th [slotWave 0 false] =
        .ok [(slotRecording 0 false).words countingDevice (gfxAsic .ai 9) 0]) ∧
    ∃ th, umrCreateTestHarness (slotLog (gfxAsic .nv 10) true) = .ok th ∧
      replaySgprs (gfxAsic .nv 10) th [slotWave 0 true] = .error .hang := by
  refine ⟨?_, ?_⟩
  · rintro ⟨th, _, replayed⟩
    have none : replaySgprs (gfxAsic .ai 9) th [slotWave 0 false] = .ok [[(0, [])]] := rfl
    obtain ⟨r, stored, count, read⟩ :
        ∃ r stored, (storedWords stored).length = 16 ∧
          (slotRecording 0 false).read countingDevice (gfxAsic .ai 9) 0 =
            ⟨r, [(0, stored)],
              [⟨.sgpr, (slotRecording 0 false).key (gfxAsic .ai 9), storedWords stored⟩]⟩ :=
      slotRecording_read (by decide) (by decide) fun trapped => nomatch trapped.2
    rw [none, SgprRecording.words, read] at replayed
    have words := congrArg List.length (Prod.mk.inj (List.cons.inj (List.cons.inj
      (Except.ok.inj replayed)).1).1).2
    rw [count] at words
    cases words
  · obtain ⟨r, stored, count, read⟩ := nvRecording_read 0 true
    have log : sgprLog countingDevice (gfxAsic .nv 10) 0 [slotRecording 0 true] =
        [⟨.sgpr, (slotRecording 0 true).key (gfxAsic .nv 10), storedWords stored⟩] := by
      rw [sgprLog_cons, read]
      rfl
    have records : ∀ record ∈ sgprLog countingDevice (gfxAsic .nv 10) 0 [slotRecording 0 true],
        SgprRecord record := by
      rw [log]
      intro record member
      rw [List.mem_singleton.mp member]
      refine ⟨rfl, ?_, ?_⟩
      · intro none
        change storedWords stored = [] at none
        rw [none] at count
        cases count
      · rw [count]
        decide
    obtain ⟨th, parsed, holds⟩ := parse_sgprLog records
    have queues := holds.queues
    rw [log] at queues
    obtain ⟨blocks, run, ok, left⟩ := drain_record holds.ok queues
    have first : drain (sgprAddr .nv (slotWave 0 true)) 124 (th.mmio .sgpr) =
        .ok (storedWords stored, blocks) := by
      rw [count] at run
      exact run
    have second : drain (sgprAddr .nv (slotWave 0 true) + 4 * 0x6C) 16 blocks = .error .hang := by
      apply drain_hang ok
      rw [left]
      decide
    have stuck : readSgprs (gfxAsic .nv 10) th (slotWave 0 true) = .error .hang := by
      change (drain (sgprAddr .nv (slotWave 0 true)) 124 (th.mmio .sgpr) >>= _) = _
      rw [first]
      change (drain (sgprAddr .nv (slotWave 0 true) + 4 * 0x6C) 16 blocks >>= _) = _
      rw [second]
      rfl
    refine ⟨th, parsed, ?_⟩
    rw [replaySgprs, stuck]
    rfl

end Umr.Harness
