import Umr.Harness.RecordReplay
import Umr.Waves.ReadGprwave

/-!
# Replaying SGPRs

`read_sgprs` of `testing_harness.c`: as many words as
`umr_wave_data_num_of_sgprs` gives, drawn from the records under the address of
the wave, and sixteen more for a wave in the trap handler.  The loops around the
records only end when all words have been found.
-/

set_option autoImplicit false

namespace Umr.Harness

open Umr.Lib Umr.Rumr Umr.Waves

/-! ## The callback -/

/-- The inner loop on one block: up to `left` words, and the block behind them. -/
def drainBlock (addr : UInt64) : Nat → MmioBlock → Except HarnessFault (List UInt32 × MmioBlock)
  | 0, block => .ok ([], block)
  | left + 1, block =>
      if block.address = addr ∧ block.curSlot < block.noValues then
        match block.values[block.curSlot.toNat]? with
        | none => .error .outside
        | some v => do
            let (words, block) ← drainBlock addr left { block with curSlot := block.curSlot + 1 }
            pure (v :: words, block)
      else .ok ([], block)

def drainPass (addr : UInt64) :
    Nat → List MmioBlock → Except HarnessFault (List UInt32 × List MmioBlock)
  | _, [] => .ok ([], [])
  | left, block :: blocks => do
      let (words, block) ← drainBlock addr left block
      let (more, blocks) ← drainPass addr (left - words.length) blocks
      pure (words ++ more, block :: blocks)

/-- Passes until `left` words have been found.  A pass that finds none leaves the
blocks as they are, so a loop that takes more passes than words never ends. -/
def drainLoop (addr : UInt64) :
    Nat → Nat → List MmioBlock → Except HarnessFault (List UInt32 × List MmioBlock)
  | _, 0, blocks => .ok ([], blocks)
  | 0, _ + 1, _ => .error .hang
  | passes + 1, left + 1, blocks => do
      let (words, blocks) ← drainPass addr (left + 1) blocks
      let (more, blocks) ← drainLoop addr passes (left + 1 - words.length) blocks
      pure (words ++ more, blocks)

def drain (addr : UInt64) (nr : Nat) (blocks : List MmioBlock) :
    Except HarnessFault (List UInt32 × List MmioBlock) := drainLoop addr (nr + 1) nr blocks

structure GfxAsic extends ServerAsic where
  maj : Nat

def umrWaveDataNumOfSgprs (maj : Nat) (wave : Wave) : UInt32 :=
  match maj with
  | 6 | 7 => wave.sgprSize <<< 3
  | 8 | 9 => wave.sgprSize <<< 4
  | 10 | 11 | 12 => 124
  | _ => 0

def sgprAddr (family : ChipFamily) (wave : Wave) : UInt64 :=
  if ChipFamily.nv.code ≤ family.code then
    ((1 : UInt64) <<< 60) ||| (wave.hwId1.seId.toUInt64 <<< 12) |||
      (wave.hwId1.saId.toUInt64 <<< 20) |||
      (((wave.hwId1.wgpId.toUInt64 <<< 2) ||| wave.hwId1.simdId.toUInt64) <<< 28) |||
      (wave.hwId1.waveId.toUInt64 <<< 36)
  else
    ((1 : UInt64) <<< 60) ||| (wave.hwId.seId.toUInt64 <<< 12) |||
      (wave.hwId.shId.toUInt64 <<< 20) ||| (wave.hwId.cuId.toUInt64 <<< 28) |||
      (wave.hwId.waveId.toUInt64 <<< 36) ||| (wave.hwId.simdId.toUInt64 <<< 44)

def TestHarness.setSgpr (th : TestHarness) (blocks : List MmioBlock) : TestHarness :=
  { th with mmio := Function.update th.mmio .sgpr blocks }

/-- The words stored from a place of `dst` on. -/
def readSgprs (asic : GfxAsic) (th : TestHarness) (wave : Wave) :
    Except HarnessFault (List (Nat × List UInt32) × TestHarness) := do
  let addr := sgprAddr asic.family wave
  let nr := umrWaveDataNumOfSgprs asic.maj wave
  let (words, blocks) ← drain addr nr.toNat (th.mmio .sgpr)
  if wave.inTrap then do
    let (trap, blocks) ← drain (addr + 4 * 0x6C) 16 blocks
    pure ([(0, words), (0x6C, trap)], th.setSgpr blocks)
  else pure ([(0, words)], th.setSgpr blocks)

/-! ## Draining is drawing from a queue -/

section Drain
variable {addr : UInt64}

/-- Blocks that are in order and stand for the queues that are left. -/
structure Drained (blocks : List MmioBlock) (addr : UInt64) (count : Nat)
    (after : List MmioBlock) : Prop where
  ok : ∀ block ∈ after, block.Ok
  queues : queueOf after =
    Function.update (queueOf blocks) addr ((queueOf blocks addr).drop count)

theorem drainBlock_other {block : MmioBlock} (other : block.address ≠ addr) (left : Nat) :
    drainBlock addr left block = .ok ([], block) := by
  cases left with
  | zero => rfl
  | succ left => exact if_neg fun own => other own.1

theorem drainBlock_own : ∀ (left : Nat) (block : MmioBlock), block.Ok → block.address = addr →
    ∃ after, drainBlock addr left block = .ok (block.left.take left, after) ∧ after.Ok ∧
      after.address = addr ∧ after.left = block.left.drop left := by
  intro left
  induction left with
  | zero => exact fun block ok own => ⟨block, rfl, ok, own, rfl⟩
  | succ left ih =>
      intro block ok own
      by_cases more : block.curSlot < block.noValues
      · have inside : block.curSlot.toNat < block.values.length := by
          rw [← ok.filled]
          exact UInt32.lt_iff_toNat_lt.mp more
        obtain ⟨v, found, cut, nextOk⟩ := SlotBlock.left_cons ok inside
        obtain ⟨after, run, afterOk, same, rest⟩ := ih _ nextOk own
        refine ⟨after, ?_, afterOk, same, ?_⟩
        · rw [drainBlock, if_pos ⟨own, more⟩, found]
          dsimp only
          rw [run, cut]
          rfl
        · rw [rest, cut]
          rfl
      · have done : block.left = [] := by
          apply List.drop_eq_nil_of_le
          rw [← ok.filled]
          exact Nat.le_of_not_lt fun lt => more (UInt32.lt_iff_toNat_lt.mpr lt)
        refine ⟨block, ?_, ok, own, ?_⟩
        · rw [drainBlock, if_neg fun live => more live.2, done]
          rfl
        · rw [done]
          rfl

theorem drainPass_spec (blocks : List MmioBlock) : ∀ left : Nat, (∀ block ∈ blocks, block.Ok) →
    ∃ after, drainPass addr left blocks = .ok ((queueOf blocks addr).take left, after) ∧
      Drained blocks addr left after := by
  induction blocks with
  | nil =>
      intro left _
      have none : (queueOf ([] : List MmioBlock) addr).take left = [] := List.take_nil
      have unchanged : (queueOf ([] : List MmioBlock) addr).drop left = queueOf [] addr :=
        List.drop_nil
      refine ⟨[], by rw [drainPass, none], nofun, ?_⟩
      rw [unchanged, Function.update_eq_self]
  | cons block blocks ih =>
      intro left allOk
      have ok : block.Ok := allOk block (List.mem_cons_self ..)
      have behindOk : ∀ block ∈ blocks, block.Ok :=
        fun block member => allOk block (List.mem_cons_of_mem _ member)
      by_cases own : block.address = addr
      · obtain ⟨next, run, nextOk, same, rest⟩ := drainBlock_own left block ok own
        obtain ⟨after, further, drained⟩ := ih (left - (block.left.take left).length) behindOk
        have count : left - (block.left.take left).length = left - block.left.length := by
          rw [List.length_take]
          omega
        refine ⟨next :: after, ?_, ?_, ?_⟩
        · rw [drainPass, run]
          change (drainPass addr (left - (block.left.take left).length) blocks >>= _) = _
          rw [further, count, queueOf_cons, if_pos own, List.take_append]
          rfl
        · intro other member
          rcases List.mem_cons.mp member with rfl | tail
          · exact nextOk
          · exact drained.ok other tail
        · funext key
          rw [queueOf_cons, drained.queues, count, same]
          by_cases equal : key = addr
          · subst equal
            rw [Function.update_self, Function.update_self, if_pos rfl, rest, queueOf_cons,
              if_pos own, List.drop_append]
          · rw [Function.update_of_ne equal, Function.update_of_ne equal, queueOf_cons,
              if_neg (Ne.symm equal), if_neg fun here => equal (here.symm.trans own)]
      · obtain ⟨after, further, drained⟩ := ih left behindOk
        refine ⟨block :: after, ?_, ?_, ?_⟩
        · rw [drainPass, drainBlock_other own]
          change (drainPass addr left blocks >>= _) = _
          rw [further, queueOf_cons, if_neg own]
          rfl
        · intro other member
          rcases List.mem_cons.mp member with rfl | tail
          · exact ok
          · exact drained.ok other tail
        · funext key
          rw [queueOf_cons, drained.queues]
          by_cases equal : key = addr
          · subst equal
            rw [Function.update_self, Function.update_self, if_neg own, queueOf_cons, if_neg own]
            rfl
          · rw [Function.update_of_ne equal, Function.update_of_ne equal, queueOf_cons]

/-- With enough words under the address the first pass finds them all. -/
theorem drain_spec {blocks : List MmioBlock} {nr : Nat} (allOk : ∀ block ∈ blocks, block.Ok)
    (enough : nr ≤ (queueOf blocks addr).length) :
    ∃ after, drain addr nr blocks = .ok ((queueOf blocks addr).take nr, after) ∧
      Drained blocks addr nr after := by
  cases nr with
  | zero =>
      refine ⟨blocks, rfl, allOk, ?_⟩
      exact (Function.update_eq_self addr (queueOf blocks)).symm
  | succ nr =>
      obtain ⟨after, run, drained⟩ :
          ∃ after, drainPass addr (nr + 1) blocks =
            .ok ((queueOf blocks addr).take (nr + 1), after) ∧ Drained blocks addr (nr + 1) after :=
        drainPass_spec blocks (nr + 1) allOk
      refine ⟨after, ?_, drained⟩
      have all : nr + 1 - ((queueOf blocks addr).take (nr + 1)).length = 0 := by
        rw [List.length_take]
        omega
      rw [drain, drainLoop, run]
      change (drainLoop addr (nr + 1) (nr + 1 - ((queueOf blocks addr).take (nr + 1)).length) after
        >>= _) = _
      rw [all, drainLoop]
      change Except.ok ((queueOf blocks addr).take (nr + 1) ++ [], after) = _
      rw [List.append_nil]

theorem drainLoop_hang (passes : Nat) : ∀ (left : Nat) (blocks : List MmioBlock),
    (∀ block ∈ blocks, block.Ok) → (queueOf blocks addr).length < left →
    drainLoop addr passes left blocks = .error .hang := by
  induction passes with
  | zero =>
      intro left blocks _ short
      cases left with
      | zero => exact absurd short (Nat.not_lt_zero _)
      | succ left => rfl
  | succ passes ih =>
      intro left blocks ok short
      cases left with
      | zero => exact absurd short (Nat.not_lt_zero _)
      | succ left =>
          obtain ⟨after, run, drained⟩ :
              ∃ after, drainPass addr (left + 1) blocks =
                .ok ((queueOf blocks addr).take (left + 1), after) ∧
                Drained blocks addr (left + 1) after :=
            drainPass_spec blocks (left + 1) ok
          have empty : queueOf after addr = [] := by
            rw [drained.queues, Function.update_self]
            exact List.drop_eq_nil_of_le (Nat.le_of_lt short)
          rw [drainLoop, run]
          change (drainLoop addr passes
            (left + 1 - ((queueOf blocks addr).take (left + 1)).length) after >>= _) = _
          rw [ih _ after drained.ok]
          · rfl
          · rw [empty, List.length_take]
            change 0 < _
            omega

/-- With too few words the loop never ends. -/
theorem drain_hang {blocks : List MmioBlock} {nr : Nat} (allOk : ∀ block ∈ blocks, block.Ok)
    (short : (queueOf blocks addr).length < nr) : drain addr nr blocks = .error .hang :=
  drainLoop_hang (nr + 1) nr blocks allOk short

end Drain

end Umr.Harness
