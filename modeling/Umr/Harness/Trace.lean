import Umr.Harness.RecordReplay

/-!
# Traces of MMIO and memory reads

The log of a sequence of register and memory reads is played back to the same
sequence.  Register values are used up one by one; the blocks of memory stay,
and whichever of them covers a read shows the memory that was recorded.
-/

set_option autoImplicit false

namespace Umr.Harness

open Umr.Lib Umr.Rumr

/-! ## Replaying a step -/

section Replay
variable (find : FindReg)

def replayStep (th : TestHarness) : Step → Except HarnessFault (Answer × TestHarness)
  | .reg read => do
      let (value, th) ← readReg find th read.addr read.type
      pure (.word value, th)
  | .mem space address size => do
      let found ← accessMemory space th address size none
      match found with
      | some (bytes, th) => pure (.bytes bytes, th)
      | none => pure (.failed, th)

def replay : TestHarness → List Step → Except HarnessFault (List Answer)
  | _, [] => .ok []
  | th, step :: steps => do
      let (answer, th) ← replayStep find th step
      let answers ← replay th steps
      pure (answer :: answers)

end Replay

/-! ## Blocks that show a memory -/

section Memory
variable {contents : Nat → UInt8} {address : UInt64} {size : UInt32}

def memBytes (contents : Nat → UInt8) (address : UInt64) (size : UInt32) : List UInt8 :=
  (List.range size.toNat).map fun i => contents (address.toNat + i)

/-- The block holds what the memory has at its place, below the largest file
offset. -/
structure Shows (contents : Nat → UInt8) (block : RamBlock) : Prop where
  bytes : block.contents = memBytes contents block.baseAddress block.size
  below : block.baseAddress.toNat + block.size.toNat ≤ 2 ^ 63

theorem end_toNat {base : UInt64} {length : UInt32} (below : base.toNat + length.toNat ≤ 2 ^ 63) :
    (base + length.toUInt64).toNat = base.toNat + length.toNat := by
  rw [UInt64.toNat_add, UInt32.toNat_toUInt64, Nat.mod_eq_of_lt (by omega)]

theorem covers_iff {block : RamBlock} (shows_ : Shows contents block)
    (below : address.toNat + size.toNat ≤ 2 ^ 63) :
    block.covers address size = true ↔ block.baseAddress.toNat ≤ address.toNat ∧
      address.toNat + size.toNat ≤ block.baseAddress.toNat + block.size.toNat := by
  rw [RamBlock.covers, decide_eq_true_eq, UInt64.le_iff_toNat_le, UInt64.le_iff_toNat_le,
    end_toNat below, end_toNat shows_.below]

theorem memBytes_cut {block : RamBlock} (shows_ : Shows contents block)
    (lower : block.baseAddress.toNat ≤ address.toNat)
    (upper : address.toNat + size.toNat ≤ block.baseAddress.toNat + block.size.toNat) :
    (block.contents.drop (address - block.baseAddress).toNat).take size.toNat =
      memBytes contents address size := by
  have offset : (address - block.baseAddress).toNat =
      address.toNat - block.baseAddress.toNat :=
    UInt64.toNat_sub_of_le _ _ (UInt64.le_iff_toNat_le.mpr lower)
  rw [shows_.bytes, offset]
  apply List.ext_getElem
  · simp only [memBytes, List.length_take, List.length_drop, List.length_map, List.length_range]
    omega
  · intro i left right
    simp only [memBytes, List.getElem_take, List.getElem_drop, List.getElem_map,
      List.getElem_range]
    congr 1
    omega

theorem accessBlocks_shows (below : address.toNat + size.toNat ≤ 2 ^ 63)
    (blocks : List RamBlock) : (∀ block ∈ blocks, Shows contents block) →
    (∃ block ∈ blocks, block.covers address size = true) →
    accessBlocks address size none blocks =
      .ok (some (memBytes contents address size, blocks)) := by
  induction blocks with
  | nil =>
      rintro _ ⟨block, member, _⟩
      cases member
  | cons block blocks ih =>
      intro all covered
      have here : Shows contents block := all block (List.mem_cons_self ..)
      rw [accessBlocks]
      by_cases covers : block.covers address size = true
      · obtain ⟨lower, upper⟩ := (covers_iff here below).mp covers
        have inside : ¬ block.contents.length < (address - block.baseAddress).toNat + size.toNat := by
          rw [UInt64.toNat_sub_of_le _ _ (UInt64.le_iff_toNat_le.mpr lower), here.bytes, memBytes,
            List.length_map, List.length_range]
          omega
        rw [if_pos covers]
        dsimp only
        rw [if_neg inside, memBytes_cut here lower upper]
      · have behind : ∃ block ∈ blocks, block.covers address size = true := by
          obtain ⟨found, member, covering⟩ := covered
          rcases List.mem_cons.mp member with rfl | tail
          · exact absurd covering covers
          · exact ⟨found, tail, covering⟩
        rw [if_neg covers, ih (fun block member => all block (List.mem_cons_of_mem _ member)) behind]
        rfl

end Memory

/-! ## The steps of a trace -/

section Steps
variable (find : FindReg) (regs : RegAsic) (mem : MemAsic)

def MemAsic.contents (mem : MemAsic) : MemSpace → Nat → UInt8
  | .vram => mem.vramContents
  | .sram => mem.sramContents

/-- A logged `REG_MMIO` read below 2^32 of a register outside the SQ and MM
pairs, as the recorder and the harness tell them apart. -/
structure OrdinaryRead (read : RegRead) : Prop where
  mmio : read.type = .mmio
  narrow : read.addr.toNat < 2 ^ 32
  noPair : ∀ reg, ¬ isReg find read.addr reg
  logged : ∃ final, mmioRoute regs (bankedAddr regs read.addr) read.hw.failed = some final ∧
    ¬ "SQ_IND_DATA".toList <:+: regs.regName (final >>> 2)

/-- A logged read of memory that is not empty; no file offset, and so no memory
behind a file, is above 2^63. -/
structure MemoryRead (space : MemSpace) (address : UInt64) (size : UInt32) : Prop where
  some_size : size ≠ 0
  below : address.toNat + size.toNat ≤ 2 ^ 63
  logged : (accessMem mem space address size).isSome

def TraceStep : Step → Prop
  | .reg read => OrdinaryRead find regs read
  | .mem space address size => MemoryRead mem space address size

variable {find regs mem}

theorem regLine_ordinary {final : UInt64}
    (notSq : ¬ "SQ_IND_DATA".toList <:+: regs.regName (final >>> 2)) (mmioAddr : UInt64)
    (value : UInt32) : regLine regs mmioAddr final value =
      .words .mmio mmioAddr [value] (some (regs.regName (final >>> 2))) := if_neg notSq

theorem ordinaryRead_recorded {read : RegRead} (ordinary : OrdinaryRead find regs read) :
    read.recorded regs = read.hw.value ∧
      ∃ name, read.lines regs = [.words .mmio read.addr [read.hw.value] (some name)] := by
  obtain ⟨final, route, notSq⟩ := ordinary.logged
  have low : read.addr &&& (0xFFFFFFFF : UInt64) = read.addr := by
    apply UInt64.toNat_inj.mp
    rw [UInt64.toNat_and]
    exact (Nat.and_two_pow_sub_one_eq_mod _ 32).trans (Nat.mod_eq_of_lt ordinary.narrow)
  have run : umrReadReg regs read.addr read.type read.hw =
      (read.hw.value, [.words .mmio read.addr [read.hw.value]
        (some (regs.regName (final >>> 2)))]) := by
    rw [ordinary.mmio]
    change readMmioReg regs read.addr read.hw = _
    unfold readMmioReg
    rw [route]
    dsimp only
    rw [low, regLine_ordinary notSq]
  refine ⟨congrArg Prod.fst run, regs.regName (final >>> 2), congrArg Prod.snd run⟩

theorem ordinaryRead_source {read : RegRead} (ordinary : OrdinaryRead find regs read) :
    regSource find read.addr read.type = .queue (.mmio read.addr) := by
  have noPair := ordinary.noPair
  simp only [regSource, ordinary.mmio, noPair, or_self, ne_eq, not_true_eq_false, if_false]

theorem readFile_spec {contents : Nat → UInt8} {file : MemoryFile contents} {kind : RamKind}
    {address : UInt64} {size : UInt32} {bytes : List UInt8} {line : LogLine}
    (below : address.toNat + size.toNat ≤ 2 ^ 63)
    (run : readFile address size file kind = some (bytes, line)) :
    bytes = memBytes contents address size ∧ line = .bytes kind address bytes ∧
      size.toNat ≤ 0x7FFFF000 := by
  unfold readFile at run
  split at run
  · rename_i complete
    cases run
    obtain ⟨bytes, atMost⟩ := file.complete address size below complete
    exact ⟨bytes, rfl, atMost⟩
  · cases run

theorem accessMem_spec {space : MemSpace} {address : UInt64} {size : UInt32} {bytes : List UInt8}
    {line : LogLine} (below : address.toNat + size.toNat ≤ 2 ^ 63)
    (run : accessMem mem space address size = some (bytes, line)) :
    bytes = memBytes (mem.contents space) address size ∧
      line = .bytes (ramKind space) address bytes ∧ size.toNat ≤ 0x7FFFF000 := by
  cases space with
  | vram => exact readFile_spec below run
  | sram =>
      change (mem.iomem.bind fun file => readFile address size file .sysram).or
        (mem.devMem.bind fun file => readFile address size file .sysram) = some (bytes, line) at run
      rcases Option.or_eq_some_iff.mp run with first | ⟨_, second⟩
      · obtain ⟨file, _, found⟩ := Option.bind_eq_some_iff.mp first
        exact readFile_spec below found
      · obtain ⟨file, _, found⟩ := Option.bind_eq_some_iff.mp second
        exact readFile_spec below found

theorem length_memBytes (contents : Nat → UInt8) (address : UInt64) (size : UInt32) :
    (memBytes contents address size).length = size.toNat := by
  rw [memBytes, List.length_map, List.length_range]

theorem traceStep_line {step : Step} (traced : TraceStep find regs mem step) :
    ∀ line ∈ step.lines regs mem, line.Parsable ∧ line.count < 2 ^ 32 ∧
      ∀ space block, ramBlock (ramKind space) line = some block →
        Shows (mem.contents space) block := by
  cases step with
  | reg read =>
      intro line member
      have isReg := regRead_lines regs read line member
      refine ⟨isReg.parsable, by rw [isReg.one]; decide, ?_⟩
      intro space block found
      rw [isReg.noBlock] at found
      cases found
  | mem space address size =>
      intro line member
      obtain ⟨some_size, below, done⟩ := traced
      obtain ⟨⟨bytes, logged⟩, run⟩ := Option.isSome_iff_exists.mp done
      obtain ⟨memory, shape, atMost⟩ := accessMem_spec below run
      have same : line = .bytes (ramKind space) address bytes := by
        rw [Step.lines, run] at member
        exact (List.mem_singleton.mp member).trans shape
      have length : bytes.length = size.toNat := by rw [memory, length_memBytes]
      have count : UInt32.ofNat bytes.length = size := by rw [length, UInt32.ofNat_toNat]
      have inRoom : 0x7FFFF000 < bytesLimit := by decide
      subst same
      refine ⟨⟨?_, ?_, ?_, ?_, nofun⟩, ?_, ?_⟩
      · intro none_
        refine some_size (UInt32.toNat_inj.mp ?_)
        rw [← length]
        exact none_
      · change bytes.length < bytesLimit
        rw [length]
        exact Nat.lt_of_le_of_lt atMost inRoom
      · cases space <;> nofun
      · cases space <;> nofun
      · change bytes.length < 2 ^ 32
        omega
      · intro other block found
        rw [ramBlock] at found
        split at found
        · rename_i kinds
          have spaces : space = other := by cases space <;> cases other <;> first | rfl | cases kinds
          subst spaces
          cases found
          refine ⟨?_, ?_⟩
          · dsimp only
            rw [count]
            exact memory
          · dsimp only
            rw [count]
            exact below
        · cases found

end Steps

/-! ## Whole traces -/

section Traces
variable (find : FindReg) (regs : RegAsic) (mem : MemAsic)

def traceLines (steps : List Step) : List LogLine := steps.flatMap (Step.lines regs mem)

/-- A harness in front of `steps`: its memory blocks are honest and have one for
each memory read still to come, and under each address it has the values of the
reads still to come. -/
structure Ahead (steps : List Step) (th : TestHarness) : Prop where
  fresh : Fresh th
  shows_ : ∀ space, ∀ block ∈ th.ram (ramKind space), Shows (mem.contents space) block
  blocks : ∀ line ∈ traceLines regs mem steps, ∀ space block,
    ramBlock (ramKind space) line = some block → block ∈ th.ram (ramKind space)
  queues : ∀ addr, regQueues th (.mmio addr) = loggedAt (traceLines regs mem steps) (.mmio addr)

variable {find regs mem}

theorem traceLines_cons (step : Step) (steps : List Step) :
    traceLines regs mem (step :: steps) = step.lines regs mem ++ traceLines regs mem steps :=
  List.flatMap_cons ..

theorem loggedAt_append (before after : List LogLine) (key : RegKey) :
    loggedAt (before ++ after) key = loggedAt before key ++ loggedAt after key :=
  List.flatMap_append ..

theorem ahead_harnessOf {steps : List Step} (traced : ∀ step ∈ steps, TraceStep find regs mem step) :
    Ahead regs mem steps (harnessOf (traceLines regs mem steps)) := by
  have lines : ∀ line ∈ traceLines regs mem steps, line.count < 2 ^ 32 ∧
      ∀ space block, ramBlock (ramKind space) line = some block →
        Shows (mem.contents space) block := by
    intro line member
    obtain ⟨step, inside, own⟩ := List.mem_flatMap.mp member
    exact (traceStep_line (traced step inside) line own).2
  refine ⟨fresh_harnessOf fun line member => (lines line member).1, ?_, ?_, ?_⟩
  · intro space block member
    rw [harnessOf_ram] at member
    obtain ⟨line, inside, found⟩ := List.mem_filterMap.mp member
    exact (lines line inside).2 space block found
  · intro line member space block found
    rw [harnessOf_ram]
    exact List.mem_filterMap.mpr ⟨line, member, found⟩
  · intro addr
    rw [regQueues_harnessOf]

theorem replayStep_reg {read : RegRead} {steps : List Step} {th : TestHarness}
    (ahead : Ahead regs mem (.reg read :: steps) th) (ordinary : OrdinaryRead find regs read) :
    ∃ after, replayStep find th (.reg read) = .ok (.word (read.recorded regs), after) ∧
      Ahead regs mem steps after := by
  obtain ⟨value, name, lines⟩ := ordinaryRead_recorded ordinary
  obtain ⟨drawn, after, run, draws⟩ := readReg_draws find ahead.fresh read.addr read.type
  rw [ordinaryRead_source ordinary] at draws
  have here : ∀ addr, regQueues th (.mmio addr) =
      (if read.addr = addr then [read.hw.value] else []) ++
        loggedAt (traceLines regs mem steps) (.mmio addr) := by
    intro addr
    have line : loggedAt (read.lines regs) (.mmio addr) =
        if read.addr = addr then [read.hw.value] else [] := by
      rw [lines]
      exact List.append_nil _
    rw [ahead.queues, traceLines_cons, loggedAt_append, ← line]
    rfl
  have first : drawn = read.recorded regs := by
    rw [draws.drawn, draw, here, if_pos rfl, value]
    rfl
  refine ⟨after, ?_, draws.fresh, ?_, ?_, ?_⟩
  · rw [replayStep, run, first]
    rfl
  · rw [draws.ram]
    exact ahead.shows_
  · intro line member
    rw [draws.ram]
    apply ahead.blocks line
    rw [traceLines_cons]
    exact List.mem_append_right _ member
  · intro addr
    rw [draws.queues, draw]
    dsimp only
    by_cases same : addr = read.addr
    · subst same
      rw [Function.update_self, here, if_pos rfl]
      rfl
    · have apart : RegKey.mmio addr ≠ .mmio read.addr := fun equal => same (RegKey.mmio.inj equal)
      rw [Function.update_of_ne apart, here, if_neg (Ne.symm same)]
      rfl

theorem replayStep_mem {space : MemSpace} {address : UInt64} {size : UInt32} {steps : List Step}
    {th : TestHarness} (ahead : Ahead regs mem (.mem space address size :: steps) th)
    (traced : MemoryRead mem space address size) :
    replayStep find th (.mem space address size) =
        .ok (Step.recorded regs mem (.mem space address size), th) ∧
      Ahead regs mem steps th := by
  obtain ⟨⟨bytes, line⟩, run⟩ := Option.isSome_iff_exists.mp traced.logged
  obtain ⟨memory, shape, atMost⟩ := accessMem_spec traced.below run
  have ownLine : Step.lines regs mem (.mem space address size) = [line] := by
    rw [Step.lines, run]
  have count : UInt32.ofNat bytes.length = size := by
    rw [memory, length_memBytes, UInt32.ofNat_toNat]
  have own : (⟨address, size, bytes⟩ : RamBlock) ∈ th.ram (ramKind space) := by
    apply ahead.blocks line _ space
    · rw [shape, ramBlock, if_pos rfl, count]
    · rw [traceLines_cons, ownLine]
      exact List.mem_cons_self ..
  have covering : ∃ block ∈ th.ram (ramKind space), block.covers address size = true := by
    refine ⟨_, own, (covers_iff (ahead.shows_ space _ own) traced.below).mpr ?_⟩
    exact ⟨Nat.le_refl _, Nat.le_refl _⟩
  have found := accessBlocks_shows traced.below _ (ahead.shows_ space) covering
  refine ⟨?_, ahead.fresh, ahead.shows_, ?_, ?_⟩
  · rw [replayStep, accessMemory, found, Step.recorded, run]
    change Except.ok (Answer.bytes (memBytes (mem.contents space) address size),
      { th with ram := Function.update th.ram (ramKind space) (th.ram (ramKind space)) }) = _
    rw [Function.update_eq_self, memory]
  · intro line member
    apply ahead.blocks line
    rw [traceLines_cons]
    exact List.mem_append_right _ member
  · intro addr
    rw [ahead.queues, traceLines_cons, ownLine, loggedAt_append, shape]
    rfl

theorem replay_ahead (steps : List Step) : ∀ th : TestHarness, Ahead regs mem steps th →
    (∀ step ∈ steps, TraceStep find regs mem step) →
    replay find th steps = .ok (steps.map (Step.recorded regs mem)) := by
  induction steps with
  | nil => exact fun th _ _ => rfl
  | cons step steps ih =>
      intro th ahead traced
      have later : ∀ step ∈ steps, TraceStep find regs mem step :=
        fun step member => traced step (List.mem_cons_of_mem _ member)
      have here := traced step (List.mem_cons_self ..)
      cases step with
      | reg read =>
          obtain ⟨after, run, next⟩ := replayStep_reg ahead here
          rw [replay, run]
          change (replay find after steps >>= _) = _
          rw [ih after next later]
          rfl
      | mem space address size =>
          obtain ⟨run, next⟩ := replayStep_mem ahead here
          rw [replay, run]
          change (replay find th steps >>= _) = _
          rw [ih th next later]
          rfl

/-- Replaying a trace returns what was recorded. -/
theorem trace_replays (find : FindReg) (regs : RegAsic) (mem : MemAsic) (steps : List Step)
    (traced : ∀ step ∈ steps, TraceStep find regs mem step) :
    ∃ th, umrCreateTestHarness (logText (traceLines regs mem steps)) = .ok th ∧
      replay find th steps = .ok (steps.map (Step.recorded regs mem)) := by
  refine ⟨harnessOf (traceLines regs mem steps), ?_, ?_⟩
  · apply umrCreateTestHarness_logText
    intro line member
    obtain ⟨step, inside, own⟩ := List.mem_flatMap.mp member
    exact (traceStep_line (traced step inside) line own).1
  · exact replay_ahead steps _ (ahead_harnessOf traced) traced

end Traces

def smallMemory (address : Nat) : UInt8 := UInt8.ofNat address

def smallFile : MemoryFile smallMemory where
  read := fun address size =>
    if address.toNat + size.toNat ≤ 16 then
      (List.range size.toNat).map fun i => smallMemory (address.toNat + i)
    else []
  complete := by
    intro address size _ complete
    split at complete
    · rename_i inside
      rw [if_pos inside]
      exact ⟨rfl, by omega⟩
    · rename_i outside
      have none : size.toNat = 0 := complete.symm
      rw [if_neg outside, none]
      exact ⟨rfl, by decide⟩

def smallMem : MemAsic where
  vramContents := smallMemory
  sramContents := smallMemory
  vram := smallFile
  iomem := none
  devMem := some smallFile

def shortTrace : List Step :=
  [.reg ⟨0x100, .mmio, ⟨false, 1⟩⟩, .mem .vram 2 4, .reg ⟨0x100, .mmio, ⟨false, 2⟩⟩,
    .mem .vram 3 2]

theorem shortTrace_traced : ∀ step ∈ shortTrace, TraceStep noReg plainAsic smallMem step := by
  have ordinary : ∀ value, OrdinaryRead noReg plainAsic ⟨0x100, .mmio, ⟨false, value⟩⟩ := by
    intro value
    have route : mmioRoute plainAsic (bankedAddr plainAsic 0x100) false = some 0x100 := by decide
    have noPair : ∀ reg, ¬ isReg noReg 0x100 reg := by
      intro reg
      cases reg <;> decide
    exact ⟨rfl, (by decide : (0x100 : UInt64).toNat < 2 ^ 32), noPair, 0x100, route, by decide⟩
  intro step member
  simp only [shortTrace, List.mem_cons, List.not_mem_nil, or_false] at member
  rcases member with rfl | rfl | rfl | rfl
  · exact ordinary 1
  · exact ⟨by decide, by decide, by decide⟩
  · exact ordinary 2
  · exact ⟨by decide, by decide, by decide⟩

theorem shortTrace_replays :
    ∃ th, umrCreateTestHarness (logText (traceLines plainAsic smallMem shortTrace)) = .ok th ∧
      replay noReg th shortTrace = .ok [.word 1, .bytes [2, 3, 4, 5], .word 2, .bytes [3, 4]] :=
  trace_replays noReg plainAsic smallMem shortTrace shortTrace_traced

end Umr.Harness
