import Umr.Harness.Replay

/-!
# Runs of register accesses

`read_reg` and `write_reg` of `testing_harness.c` on addresses that stand for no
index or data register.  A read draws from the first block of its address that
has a value left; a write goes into the first block of its address, whether that
has one left or not.
-/

set_option autoImplicit false

namespace Umr.Harness

open Umr.Lib Umr.Rumr

inductive MmioOp where
  | read (addr : UInt64)
  | write (addr : UInt64) (value : UInt32)
  deriving DecidableEq, Repr

def MmioOp.addr : MmioOp → UInt64
  | .read addr | .write addr _ => addr

inductive MmioAnswer where
  | value (v : UInt32)
  | status (result : Int)
  deriving DecidableEq, Repr

section Calls
variable (find : FindReg)

def mmioCall (th : TestHarness) : MmioOp → Except HarnessFault (MmioAnswer × TestHarness)
  | .read addr => do
      let (v, th) ← readReg find th addr .mmio
      pure (.value v, th)
  | .write addr value => do
      let written ← writeReg find th addr value .mmio
      match written with
      | some th => pure (.status 0, th)
      | none => pure (.status (-1), th)

def mmioCalls : TestHarness → List MmioOp → Except HarnessFault (List MmioAnswer × TestHarness)
  | th, [] => .ok ([], th)
  | th, op :: ops => do
      let (answer, th) ← mmioCall find th op
      let (answers, th) ← mmioCalls th ops
      pure (answer :: answers, th)

def Plain (addr : UInt64) : Prop := ∀ reg, ¬ isReg find addr reg

end Calls

/-! ## What an access touches -/

/-- The last block of the list, which was never filled. -/
def tailBlock : MmioBlock := ⟨0, [], 0, 0⟩

def touched (blocks : List MmioBlock) : MmioOp → Option MmioBlock
  | .read addr => (blocks ++ [tailBlock]).find? fun block =>
      block.address = addr ∧ block.curSlot ≠ block.noValues
  | .write addr _ => (blocks ++ [tailBlock]).find? fun block => block.address = addr

def SlotInside (th : TestHarness) (op : MmioOp) : Prop :=
  ∀ block ∈ touched (th.mmio .mmio) op, block.curSlot < block.noValues

/-- Every slot that is touched is one of the block's values, and what was written is read back. -/
structure MmioSound (find : FindReg) (th : TestHarness) (ops : List MmioOp) : Prop where
  inside : ∀ before op after answers state, ops = before ++ op :: after →
    mmioCalls find th before = .ok (answers, state) → SlotInside state op
  readBack : ∀ before addr value between after answers state,
    ops = before ++ .write addr value :: (between ++ .read addr :: after) →
    (∀ op ∈ between, op.addr ≠ addr) → mmioCalls find th ops = .ok (answers, state) →
    answers[before.length]? = some (.status 0) →
    answers[before.length + 1 + between.length]? = some (.value value)

def firstBlock (blocks : List MmioBlock) (addr : UInt64) : Option MmioBlock :=
  blocks.find? fun block => block.address = addr

/-- A write comes before the values of the first block of its address are all read; where no block
has the address, it is not that of the unfilled block. -/
def InTime (blocks : List MmioBlock) (before : List MmioOp) : MmioOp → Prop
  | .read _ => True
  | .write addr _ =>
      match firstBlock blocks addr with
      | none => addr ≠ 0
      | some block => before.count (.read addr) < block.noValues.toNat

def WritesInTime (blocks : List MmioBlock) (ops : List MmioOp) : Prop :=
  ∀ before op after, ops = before ++ op :: after → InTime blocks before op

/-! ## One block list -/

structure SlotBlock.Sound (block : MmioBlock) : Prop where
  slot : block.curSlot.toNat ≤ block.noValues.toNat
  filled : block.noValues.toNat ≤ block.values.length

/-- The block after a read of its address that comes to it first. -/
def SlotBlock.advance (block : MmioBlock) : MmioBlock :=
  if block.curSlot < block.noValues then { block with curSlot := block.curSlot + 1 } else block

section Blocks
variable {blocks : List MmioBlock} {block : MmioBlock} {addr : UInt64}

theorem SlotBlock.advance_address (block : MmioBlock) : block.advance.address = block.address := by
  unfold advance
  split <;> rfl

theorem SlotBlock.next_slot (more : block.curSlot < block.noValues) :
    (block.curSlot + 1).toNat = block.curSlot.toNat + 1 := by
  have bound := block.noValues.toNat_lt
  have less := UInt32.lt_iff_toNat_lt.mp more
  have one : (1 : UInt32).toNat = 1 := rfl
  rw [UInt32.toNat_add, one, Nat.mod_eq_of_lt (by omega)]

theorem SlotBlock.Sound.advance (sound : block.Sound) : block.advance.Sound := by
  unfold SlotBlock.advance
  split
  · rename_i more
    have less := UInt32.lt_iff_toNat_lt.mp more
    refine ⟨?_, sound.filled⟩
    dsimp only
    rw [SlotBlock.next_slot more]
    omega
  · exact sound

theorem SlotBlock.Sound.lt_of_ne (sound : block.Sound) (more : block.curSlot ≠ block.noValues) :
    block.curSlot < block.noValues := by
  have unequal : block.curSlot.toNat ≠ block.noValues.toNat :=
    fun same => more (UInt32.toNat_inj.mp same)
  have slot := sound.slot
  exact UInt32.lt_iff_toNat_lt.mpr (by omega)

theorem firstBlock_cons_own (own : block.address = addr) :
    firstBlock (block :: blocks) addr = some block :=
  List.find?_cons_of_pos (by simpa using own)

theorem firstBlock_cons_other (other : block.address ≠ addr) :
    firstBlock (block :: blocks) addr = firstBlock blocks addr :=
  List.find?_cons_of_neg (by simpa using other)

structure Keeps (addr : UInt64) (blocks after : List MmioBlock) : Prop where
  sound : ∀ block ∈ after, block.Sound
  frame : ∀ other, other ≠ addr → firstBlock after other = firstBlock blocks other

theorem Keeps.cons {after : List MmioBlock} (kept : Keeps addr blocks after)
    (sound : block.Sound) : Keeps addr (block :: blocks) (block :: after) where
  sound := by
    intro other member
    rcases List.mem_cons.mp member with rfl | tail
    · exact sound
    · exact kept.sound other tail
  frame := by
    intro other different
    by_cases own : block.address = other
    · rw [firstBlock_cons_own own, firstBlock_cons_own own]
    · rw [firstBlock_cons_other own, firstBlock_cons_other own, kept.frame other different]

theorem Keeps.head {changed : MmioBlock} (sound : ∀ block ∈ blocks, block.Sound)
    (own : block.address = addr) (same : changed.address = block.address)
    (soundHead : changed.Sound) : Keeps addr (block :: blocks) (changed :: blocks) where
  sound := by
    intro other member
    rcases List.mem_cons.mp member with rfl | tail
    · exact soundHead
    · exact sound other tail
  frame := by
    intro other different
    have apart : block.address ≠ other := fun equal => different (equal.symm.trans own)
    rw [firstBlock_cons_other apart, firstBlock_cons_other (same ▸ apart)]

/-- A read draws from the first block of its address while that has values, and moves it on. -/
structure Drawn (addr : UInt64) (blocks : List MmioBlock) (v : UInt32) (after : List MmioBlock) :
    Prop extends Keeps addr blocks after where
  first : firstBlock after addr = (firstBlock blocks addr).map SlotBlock.advance
  value : ∀ block ∈ firstBlock blocks addr, block.curSlot < block.noValues →
    block.values[block.curSlot.toNat]? = some v

theorem takeMmio_drawn (addr : UInt64) (blocks : List MmioBlock)
    (sound : ∀ block ∈ blocks, block.Sound) :
    (∃ v after, takeMmio addr blocks = .ok (some (v, after)) ∧ Drawn addr blocks v after) ∨
      takeMmio addr blocks = .ok none ∧ Drawn addr blocks deadbeef blocks := by
  induction blocks with
  | nil => exact .inr ⟨rfl, ⟨⟨sound, fun _ _ => rfl⟩, rfl, nofun⟩⟩
  | cons block blocks ih =>
      have soundHead := sound block List.mem_cons_self
      have soundTail : ∀ other ∈ blocks, other.Sound :=
        fun other member => sound other (List.mem_cons_of_mem _ member)
      unfold takeMmio takeSlot
      by_cases own : block.address = addr ∧ decide (block.curSlot ≠ block.noValues) = true
      · rw [if_pos own]
        have more := soundHead.lt_of_ne (of_decide_eq_true own.2)
        have less := UInt32.lt_iff_toNat_lt.mp more
        have inside : block.curSlot.toNat < block.values.length := less.trans_le soundHead.filled
        have moved : block.advance = { block with curSlot := block.curSlot + 1 } := if_pos more
        rw [List.getElem?_eq_getElem inside]
        dsimp only
        rw [← moved]
        refine .inl ⟨_, _, rfl, ?_, ?_, ?_⟩
        · exact .head soundTail own.1 block.advance_address soundHead.advance
        · rw [firstBlock_cons_own (block.advance_address.trans own.1), firstBlock_cons_own own.1]
          rfl
        · intro first isFirst _
          rw [firstBlock_cons_own own.1] at isFirst
          cases isFirst
          exact List.getElem?_eq_getElem inside
      · rw [if_neg own]
        have drawn : ∀ v after, Drawn addr blocks v after →
            Drawn addr (block :: blocks) v (block :: after) := by
          intro v after drawn
          by_cases same : block.address = addr
          · have exhausted : ¬ block.curSlot < block.noValues := by
              intro less
              have unequal : block.curSlot ≠ block.noValues := by
                intro equal
                rw [equal] at less
                exact absurd less (UInt32.lt_irrefl _)
              exact own ⟨same, decide_eq_true unequal⟩
            have stays : block.advance = block := if_neg exhausted
            refine ⟨drawn.toKeeps.cons soundHead, ?_, ?_⟩
            · rw [firstBlock_cons_own same, firstBlock_cons_own same, Option.map_some, stays]
            · intro first isFirst less
              rw [firstBlock_cons_own same] at isFirst
              cases isFirst
              exact absurd less exhausted
          · refine ⟨drawn.toKeeps.cons soundHead, ?_, ?_⟩
            · rw [firstBlock_cons_other same, firstBlock_cons_other same, drawn.first]
            · rw [firstBlock_cons_other same]
              exact drawn.value
        rcases ih soundTail with ⟨v, after, run, tail⟩ | ⟨run, tail⟩
        · unfold takeMmio at run
          rw [run]
          exact .inl ⟨v, block :: after, rfl, drawn v after tail⟩
        · unfold takeMmio at run
          rw [run]
          exact .inr ⟨rfl, drawn deadbeef blocks tail⟩

structure Put (addr : UInt64) (value : UInt32) (blocks after : List MmioBlock) : Prop
    extends Keeps addr blocks after where
  first : ∃ block, firstBlock blocks addr = some block ∧
    block.curSlot.toNat < block.values.length ∧
    firstBlock after addr =
      some { block with values := block.values.set block.curSlot.toNat value }

theorem putMmio_spec (addr : UInt64) (value : UInt32) (blocks : List MmioBlock)
    (sound : ∀ block ∈ blocks, block.Sound) :
    (∃ after, putMmio addr value blocks = .ok (some after) ∧ Put addr value blocks after) ∨
      (putMmio addr value blocks = .ok none ∧ firstBlock blocks addr = none ∧ addr ≠ 0) ∨
      (putMmio addr value blocks = .error .outside ∧
        ((firstBlock blocks addr = none ∧ addr = 0) ∨
          ∃ block, firstBlock blocks addr = some block ∧
            block.values.length ≤ block.curSlot.toNat)) := by
  induction blocks with
  | nil =>
      unfold putMmio
      by_cases zero : addr = 0
      · exact .inr (.inr ⟨if_pos zero, .inl ⟨rfl, zero⟩⟩)
      · exact .inr (.inl ⟨if_neg zero, rfl, zero⟩)
  | cons block blocks ih =>
      have soundHead := sound block List.mem_cons_self
      have soundTail : ∀ other ∈ blocks, other.Sound :=
        fun other member => sound other (List.mem_cons_of_mem _ member)
      unfold putMmio
      by_cases own : block.address = addr
      · rw [if_pos own]
        by_cases inside : block.curSlot.toNat < block.values.length
        · rw [if_pos inside]
          refine .inl ⟨_, rfl, .head soundTail own rfl ⟨soundHead.slot, ?_⟩, ?_⟩
          · rw [List.length_set]
            exact soundHead.filled
          · exact ⟨block, firstBlock_cons_own own, inside, firstBlock_cons_own own⟩
        · rw [if_neg inside]
          exact .inr (.inr ⟨rfl, .inr ⟨block, firstBlock_cons_own own, Nat.le_of_not_lt inside⟩⟩)
      · rw [if_neg own, firstBlock_cons_other own]
        rcases ih soundTail with ⟨after, run, put⟩ | ⟨run, absent⟩ | ⟨run, outside⟩
        · rw [run]
          obtain ⟨first, isFirst, inside, changed⟩ := put.first
          refine .inl ⟨block :: after, rfl, put.toKeeps.cons soundHead, first, ?_, inside, ?_⟩
          · rw [firstBlock_cons_other own, isFirst]
          · rw [firstBlock_cons_other own, changed]
        · rw [run]
          exact .inr (.inl ⟨rfl, absent⟩)
        · rw [run]
          exact .inr (.inr ⟨rfl, outside⟩)

end Blocks

/-! ## One call -/

section Call
variable {find : FindReg} {th : TestHarness} {addr : UInt64}

def TestHarness.withMmio (th : TestHarness) (blocks : List MmioBlock) : TestHarness :=
  { th with mmio := Function.update th.mmio .mmio blocks }

theorem withMmio_mmio (th : TestHarness) (blocks : List MmioBlock) :
    (th.withMmio blocks).mmio .mmio = blocks := by
  unfold TestHarness.withMmio
  exact Function.update_self WordKind.mmio blocks th.mmio

theorem withMmio_self (th : TestHarness) : th.withMmio (th.mmio .mmio) = th := by
  unfold TestHarness.withMmio
  rw [Function.update_eq_self]

theorem readReg_plain (plain : Plain find addr) :
    readReg find th addr .mmio = (do
      let found ← takeMmio addr (th.mmio .mmio)
      match found with
      | some (v, blocks) => pure (v, th.withMmio blocks)
      | none => pure (deadbeef, th)) := by
  unfold readReg
  rw [if_neg (fun other => other rfl), if_neg (plain _), if_neg (plain _),
    if_neg (not_or.mpr ⟨plain _, plain _⟩), if_neg (not_or.mpr ⟨plain _, plain _⟩),
    if_neg (not_or.mpr ⟨plain _, plain _⟩)]
  rfl

theorem writeReg_plain (plain : Plain find addr) (value : UInt32) :
    writeReg find th addr value .mmio = (do
      let found ← putMmio addr value (th.mmio .mmio)
      pure (found.map th.withMmio)) := by
  unfold writeReg
  rw [if_neg (fun other => other rfl), if_neg (plain _), if_neg (plain _),
    if_neg (not_or.mpr ⟨plain _, plain _⟩), if_neg (not_or.mpr ⟨plain _, plain _⟩),
    if_neg (not_or.mpr ⟨plain _, plain _⟩)]
  rfl

def SoundBlocks (th : TestHarness) : Prop := ∀ block ∈ th.mmio .mmio, block.Sound

theorem mmioCall_read (sound : SoundBlocks th) (plain : Plain find addr) :
    ∃ v after, mmioCall find th (.read addr) = .ok (.value v, th.withMmio after) ∧
      Drawn addr (th.mmio .mmio) v after := by
  unfold mmioCall
  dsimp only
  rw [readReg_plain plain]
  rcases takeMmio_drawn addr (th.mmio .mmio) sound with ⟨v, after, run, drawn⟩ | ⟨run, drawn⟩
  · rw [run]
    exact ⟨v, after, rfl, drawn⟩
  · rw [run]
    refine ⟨deadbeef, th.mmio .mmio, ?_, drawn⟩
    rw [withMmio_self]
    rfl

/-- A write that does not fault changes the first block of its address, or nothing. -/
theorem mmioCall_write {value : UInt32} {answer : MmioAnswer} {next : TestHarness}
    (sound : SoundBlocks th) (plain : Plain find addr)
    (run : mmioCall find th (.write addr value) = .ok (answer, next)) :
    (answer = .status 0 ∧ ∃ after, next = th.withMmio after ∧
        Put addr value (th.mmio .mmio) after) ∨
      answer = .status (-1) ∧ next = th := by
  unfold mmioCall at run
  dsimp only at run
  rw [writeReg_plain plain] at run
  rcases putMmio_spec addr value (th.mmio .mmio) sound with
    ⟨after, put, changed⟩ | ⟨put, -⟩ | ⟨put, -⟩
  · rw [put] at run
    cases run
    exact .inl ⟨rfl, after, rfl, changed⟩
  · rw [put] at run
    cases run
    exact .inr ⟨rfl, rfl⟩
  · rw [put] at run
    cases run

theorem mmioCall_writes {value : UInt32} (sound : SoundBlocks th) (plain : Plain find addr)
    (inside : SlotInside th (.write addr value)) :
    ∃ answer next, mmioCall find th (.write addr value) = .ok (answer, next) := by
  unfold mmioCall
  dsimp only
  rw [writeReg_plain plain]
  rcases putMmio_spec addr value (th.mmio .mmio) sound with
    ⟨after, put, -⟩ | ⟨put, -⟩ | ⟨-, ⟨absent, zero⟩ | ⟨block, isFirst, outside⟩⟩
  · rw [put]
    exact ⟨_, _, rfl⟩
  · rw [put]
    exact ⟨_, _, rfl⟩
  · have unfilled : tailBlock ∈ touched (th.mmio .mmio) (.write addr value) := by
      unfold touched
      dsimp only
      unfold firstBlock at absent
      rw [List.find?_append, absent, zero]
      rfl
    exact absurd (inside tailBlock unfilled) (by decide)
  · have isTouched : block ∈ touched (th.mmio .mmio) (.write addr value) := by
      unfold touched
      dsimp only
      unfold firstBlock at isFirst
      rw [List.find?_append, isFirst]
      rfl
    have less := UInt32.lt_iff_toNat_lt.mp (inside block isTouched)
    have filled := (sound block (List.mem_of_find?_eq_some isFirst)).filled
    omega

theorem mmioCall_sound {op : MmioOp} {answer : MmioAnswer} {next : TestHarness}
    (sound : SoundBlocks th) (plain : Plain find op.addr)
    (run : mmioCall find th op = .ok (answer, next)) :
    SoundBlocks next ∧ ∀ other, other ≠ op.addr →
      firstBlock (next.mmio .mmio) other = firstBlock (th.mmio .mmio) other := by
  cases op with
  | read addr =>
      change Plain find addr at plain
      obtain ⟨v, after, read, drawn⟩ := mmioCall_read sound plain
      rw [read] at run
      cases run
      rw [SoundBlocks, withMmio_mmio]
      exact ⟨drawn.sound, drawn.frame⟩
  | write addr value =>
      rcases mmioCall_write sound plain run with ⟨-, after, rfl, put⟩ | ⟨-, rfl⟩
      · rw [SoundBlocks, withMmio_mmio]
        exact ⟨put.sound, put.frame⟩
      · exact ⟨sound, fun _ _ => rfl⟩

end Call

/-! ## Whole runs -/

section Runs
variable {find : FindReg} {th : TestHarness}

/-- After the calls of `before` the first block of each address has moved on by their reads of it,
as far as it goes. -/
def Tracks (blocks : List MmioBlock) (before : List MmioOp) (now : List MmioBlock) : Prop :=
  ∀ addr, (firstBlock blocks addr = none ∧ firstBlock now addr = none) ∨
    ∃ start block, firstBlock blocks addr = some start ∧ firstBlock now addr = some block ∧
      block.noValues = start.noValues ∧
      block.curSlot.toNat = min (before.count (.read addr)) start.noValues.toNat

theorem count_other {op counted : MmioOp} (before : List MmioOp) (other : counted ≠ op) :
    (before ++ [op]).count counted = before.count counted := by
  rw [List.count_append, List.count_eq_zero_of_not_mem (mt List.mem_singleton.mp other),
    Nat.add_zero]

theorem tracks_call {blocks : List MmioBlock} {before : List MmioOp} {op : MmioOp}
    {answer : MmioAnswer} {next : TestHarness} (sound : SoundBlocks th)
    (plain : Plain find op.addr) (tracks : Tracks blocks before (th.mmio .mmio))
    (run : mmioCall find th op = .ok (answer, next)) :
    Tracks blocks (before ++ [op]) (next.mmio .mmio) := by
  intro addr
  by_cases other : addr = op.addr
  · subst other
    cases op with
    | read addr =>
        change Plain find addr at plain
        obtain ⟨v, after, read, drawn⟩ := mmioCall_read sound plain
        rw [read] at run
        cases run
        rw [withMmio_mmio]
        change _ ∨ ∃ start block, firstBlock blocks addr = some start ∧
          firstBlock after addr = some block ∧ _ ∧ _
        rcases tracks addr with ⟨absent, gone⟩ | ⟨start, block, isStart, isBlock, same, slot⟩
        · refine .inl ⟨absent, ?_⟩
          change firstBlock after addr = none
          rw [drawn.first, gone]
          rfl
        · refine .inr ⟨start, block.advance, isStart, ?_, ?_, ?_⟩
          · rw [drawn.first, isBlock]
            rfl
          · unfold SlotBlock.advance
            split <;> exact same
          · change block.advance.curSlot.toNat =
              min ((before ++ [MmioOp.read addr]).count (.read addr)) start.noValues.toNat
            rw [List.count_append, List.count_singleton_self]
            unfold SlotBlock.advance
            have limit := congrArg UInt32.toNat same
            split
            · rename_i more
              have less := UInt32.lt_iff_toNat_lt.mp more
              dsimp only
              rw [SlotBlock.next_slot more]
              omega
            · rename_i full
              have least := Nat.le_of_not_lt fun less => full (UInt32.lt_iff_toNat_lt.mpr less)
              omega
    | write addr value =>
        change Plain find addr at plain
        have uncounted := count_other before (by simp : MmioOp.read addr ≠ .write addr value)
        change firstBlock blocks addr = none ∧ firstBlock (next.mmio .mmio) addr = none ∨
          ∃ start block, firstBlock blocks addr = some start ∧
          firstBlock (next.mmio .mmio) addr = some block ∧ block.noValues = start.noValues ∧
          block.curSlot.toNat = min ((before ++ [MmioOp.write addr value]).count (.read addr)) _
        rw [uncounted]
        rcases mmioCall_write sound plain run with ⟨-, after, rfl, put⟩ | ⟨-, rfl⟩
        · rw [withMmio_mmio]
          obtain ⟨first, isFirst, -, changed⟩ := put.first
          rcases tracks addr with ⟨absent, gone⟩ | ⟨start, block, isStart, isBlock, same, slot⟩
          · rw [isFirst] at gone
            cases gone
          · rw [isFirst] at isBlock
            cases isBlock
            exact .inr ⟨start, _, isStart, changed, same, slot⟩
        · exact tracks addr
  · have frame := (mmioCall_sound sound plain run).2 addr other
    have apart : MmioOp.read addr ≠ op := by
      rintro rfl
      exact other rfl
    have uncounted := count_other before apart
    rw [frame, uncounted]
    exact tracks addr

theorem mmioCalls_cons {op : MmioOp} {ops : List MmioOp} {answers : List MmioAnswer}
    {state : TestHarness} (run : mmioCalls find th (op :: ops) = .ok (answers, state)) :
    ∃ answer next later, mmioCall find th op = .ok (answer, next) ∧
      mmioCalls find next ops = .ok (later, state) ∧ answers = answer :: later := by
  rw [mmioCalls] at run
  cases first : mmioCall find th op with
  | error fault =>
      rw [first] at run
      cases run
  | ok done =>
      obtain ⟨answer, next⟩ := done
      rw [first] at run
      change (mmioCalls find next ops >>= _) = _ at run
      cases rest : mmioCalls find next ops with
      | error fault =>
          rw [rest] at run
          cases run
      | ok done =>
          obtain ⟨later, last⟩ := done
          rw [rest] at run
          cases run
          exact ⟨answer, next, later, rfl, rest, rfl⟩

theorem mmioCalls_append {first later : List MmioOp} {answers : List MmioAnswer}
    {state : TestHarness} (run : mmioCalls find th (first ++ later) = .ok (answers, state)) :
    ∃ front mid back, mmioCalls find th first = .ok (front, mid) ∧
      mmioCalls find mid later = .ok (back, state) ∧ answers = front ++ back ∧
      front.length = first.length := by
  induction first generalizing th answers with
  | nil => exact ⟨[], th, answers, rfl, run, rfl, rfl⟩
  | cons op first ih =>
      obtain ⟨answer, next, rest, call, calls, rfl⟩ := mmioCalls_cons run
      obtain ⟨front, mid, back, ahead, behind, rfl, long⟩ := ih calls
      refine ⟨answer :: front, mid, back, ?_, behind, rfl, congrArg (· + 1) long⟩
      rw [mmioCalls, call]
      change (mmioCalls find next first >>= _) = _
      rw [ahead]
      rfl

theorem mmioCalls_tracks {blocks : List MmioBlock} {before ops : List MmioOp}
    {answers : List MmioAnswer} {state : TestHarness} (sound : SoundBlocks th)
    (plain : ∀ op ∈ ops, Plain find op.addr) (tracks : Tracks blocks before (th.mmio .mmio))
    (run : mmioCalls find th ops = .ok (answers, state)) :
    SoundBlocks state ∧ Tracks blocks (before ++ ops) (state.mmio .mmio) := by
  induction ops generalizing th before answers with
  | nil =>
      cases run
      rw [List.append_nil]
      exact ⟨sound, tracks⟩
  | cons op ops ih =>
      obtain ⟨answer, next, later, call, calls, rfl⟩ := mmioCalls_cons run
      have own := plain op List.mem_cons_self
      have further := ih (mmioCall_sound sound own call).1
        (fun other member => plain other (List.mem_cons_of_mem _ member))
        (tracks_call sound own tracks call) calls
      rwa [List.append_assoc] at further

/-- Calls for other addresses leave the first block of an address alone. -/
theorem mmioCalls_frame {addr : UInt64} {ops : List MmioOp} {answers : List MmioAnswer}
    {state : TestHarness} (sound : SoundBlocks th) (plain : ∀ op ∈ ops, Plain find op.addr)
    (others : ∀ op ∈ ops, op.addr ≠ addr) (run : mmioCalls find th ops = .ok (answers, state)) :
    SoundBlocks state ∧ firstBlock (state.mmio .mmio) addr = firstBlock (th.mmio .mmio) addr := by
  induction ops generalizing th answers with
  | nil =>
      cases run
      exact ⟨sound, rfl⟩
  | cons op ops ih =>
      obtain ⟨answer, next, later, call, calls, rfl⟩ := mmioCalls_cons run
      obtain ⟨nextSound, frame⟩ := mmioCall_sound sound (plain op List.mem_cons_self) call
      obtain ⟨stateSound, same⟩ := ih nextSound
        (fun other member => plain other (List.mem_cons_of_mem _ member))
        (fun other member => others other (List.mem_cons_of_mem _ member)) calls
      exact ⟨stateSound, same.trans (frame addr (others op List.mem_cons_self).symm)⟩

theorem slotInside_iff {blocks : List MmioBlock} {before : List MmioOp} (sound : SoundBlocks th)
    (tracks : Tracks blocks before (th.mmio .mmio)) (op : MmioOp) :
    SlotInside th op ↔ InTime blocks before op := by
  cases op with
  | read addr =>
      refine iff_of_true ?_ trivial
      intro block isTouched
      have passes := List.find?_some isTouched
      simp only [decide_eq_true_eq] at passes
      rcases List.mem_append.mp (List.mem_of_find?_eq_some isTouched) with filled | last
      · exact (sound block filled).lt_of_ne passes.2
      · rw [List.mem_singleton.mp last] at passes
        exact absurd rfl passes.2
  | write addr value =>
      have split : touched (th.mmio .mmio) (.write addr value) =
          (firstBlock (th.mmio .mmio) addr).or (if addr = 0 then some tailBlock else none) := by
        unfold touched firstBlock
        dsimp only
        rw [List.find?_append, List.find?_singleton]
        by_cases zero : addr = 0
        · have last : tailBlock.address = addr := zero.symm
          rw [if_pos zero, if_pos (decide_eq_true last)]
        · have last : ¬ tailBlock.address = addr := fun same => zero same.symm
          rw [if_neg zero, if_neg (by rwa [decide_eq_true_eq])]
      unfold SlotInside InTime
      rw [split]
      dsimp only
      rcases tracks addr with ⟨absent, gone⟩ | ⟨start, block, isStart, isBlock, same, slot⟩
      · rw [absent, gone, Option.none_or]
        dsimp only
        by_cases zero : addr = 0
        · rw [if_pos zero]
          exact iff_of_false (fun inside => absurd (inside tailBlock rfl) (by decide))
            (fun other => other zero)
        · rw [if_neg zero]
          exact iff_of_true nofun zero
      · rw [isStart, isBlock, Option.some_or]
        simp only [Option.mem_some_iff, forall_eq', UInt32.lt_iff_toNat_lt, same, slot]
        omega

end Runs

/-! ## Parsed harnesses -/

section Parsed
variable {state : List Char × TestHarness} {text rest : List Char} {th next : TestHarness}

def FreshBlocks (th : TestHarness) : Prop :=
  ∀ block ∈ th.mmio .mmio, block.curSlot = 0 ∧ block.noValues.toNat ≤ block.values.length

theorem FreshBlocks.sound (fresh : FreshBlocks th) : SoundBlocks th := by
  intro block member
  obtain ⟨unread, filled⟩ := fresh block member
  refine ⟨?_, filled⟩
  rw [unread]
  exact Nat.zero_le _

theorem FreshBlocks.tracks (fresh : FreshBlocks th) : Tracks (th.mmio .mmio) [] (th.mmio .mmio) := by
  intro addr
  cases isFirst : firstBlock (th.mmio .mmio) addr with
  | none => exact .inl ⟨rfl, rfl⟩
  | some block =>
      have unread := (fresh block (List.mem_of_find?_eq_some isFirst)).1
      refine .inr ⟨block, block, rfl, rfl, rfl, ?_⟩
      rw [unread, List.count_nil, Nat.zero_min]
      rfl

theorem recordBody_fresh {record : Record} {address : UInt64} (fresh : FreshBlocks th)
    (read : recordBody record address text th = .ok (rest, next)) : FreshBlocks next := by
  cases record with
  | ram kind =>
      unfold recordBody at read
      dsimp only at read
      cases bytes : consumeBytes text with
      | error stop =>
          rw [bytes] at read
          cases read
      | ok list =>
          rw [bytes] at read
          change (if UInt32.ofNat list.1.length = 0 then _ else _) = _ at read
          split at read
          · cases read
          · cases read
            exact fresh
  | words kind =>
      unfold recordBody at read
      dsimp only at read
      split at read
      · cases read
      · cases read
        intro block member
        by_cases own : kind = .mmio
        · subst own
          unfold TestHarness.addMmio at member
          dsimp only at member
          rw [Function.update_self] at member
          rcases List.mem_append.mp member with old | added
          · exact fresh block old
          · rw [List.mem_singleton.mp added]
            refine ⟨rfl, ?_⟩
            dsimp only
            rw [UInt32.toNat_ofNat']
            exact Nat.mod_le _ _
        · unfold TestHarness.addMmio at member
          dsimp only at member
          rw [Function.update_of_ne (Ne.symm own)] at member
          exact fresh block member
  | sq =>
      unfold recordBody at read
      dsimp only at read
      split at read
      · cases read
      · cases read
        exact fresh

theorem parseRecord_fresh {record : Record} {after : List Char × TestHarness}
    (fresh : FreshBlocks state.2) (parsed : parseRecord state record = .ok after) :
    FreshBlocks after.2 := by
  unfold parseRecord at parsed
  cases header : recordHeader record state.1 with
  | error stop =>
      rw [header] at parsed
      cases parsed
  | ok found =>
      obtain ⟨address, behind⟩ := found
      rw [header] at parsed
      cases address with
      | none =>
          cases parsed
          exact fresh
      | some address => exact recordBody_fresh fresh parsed

theorem foldlM_fresh {tried : List Record} {after : List Char × TestHarness}
    (fresh : FreshBlocks state.2) (parsed : tried.foldlM parseRecord state = .ok after) :
    FreshBlocks after.2 := by
  induction tried generalizing state with
  | nil =>
      cases parsed
      exact fresh
  | cons record tried ih =>
      rw [List.foldlM_cons] at parsed
      cases first : parseRecord state record with
      | error stop =>
          rw [first] at parsed
          cases parsed
      | ok mid =>
          rw [first] at parsed
          exact ih (parseRecord_fresh fresh first) parsed

theorem scriptLoop_fresh {turns : Nat} (fresh : FreshBlocks state.2)
    (parsed : scriptLoop turns state = .ok th) : FreshBlocks th := by
  induction turns generalizing state with
  | zero => cases parsed
  | succ turns ih =>
      rw [scriptLoop] at parsed
      split at parsed
      · cases parsed
        exact fresh
      · cases turn : scriptTurn state with
        | error stop =>
            rw [turn] at parsed
            cases parsed
        | ok after =>
            rw [turn] at parsed
            have skipped : FreshBlocks (consumeWhitespace state.1, state.2).2 := fresh
            exact ih (foldlM_fresh skipped turn) parsed

theorem umrCreateTestHarness_fresh {script : List Char}
    (accepted : umrCreateTestHarness script = .ok th) : FreshBlocks th :=
  scriptLoop_fresh (fun _ member => absurd member List.not_mem_nil) accepted

end Parsed

/-! ## What every run keeps -/

section Main
variable {find : FindReg} {th : TestHarness} {ops : List MmioOp}

theorem mmioCalls_ends (sound : SoundBlocks th) (plain : ∀ op ∈ ops, Plain find op.addr)
    (inside : ∀ before op after answers state, ops = before ++ op :: after →
      mmioCalls find th before = .ok (answers, state) → SlotInside state op) :
    ∃ answers state, mmioCalls find th ops = .ok (answers, state) := by
  induction ops generalizing th with
  | nil => exact ⟨[], th, rfl⟩
  | cons op ops ih =>
      have own := plain op List.mem_cons_self
      have first : ∃ answer next, mmioCall find th op = .ok (answer, next) := by
        cases op with
        | read addr =>
            obtain ⟨v, after, read, -⟩ := mmioCall_read sound own
            exact ⟨_, _, read⟩
        | write addr value => exact mmioCall_writes sound own (inside [] _ ops [] th rfl rfl)
      obtain ⟨answer, next, call⟩ := first
      have later : ∀ before other after answers state, ops = before ++ other :: after →
          mmioCalls find next before = .ok (answers, state) → SlotInside state other := by
        intro before other after answers state split run
        refine inside (op :: before) other after (answer :: answers) state
          (by rw [split, List.cons_append]) ?_
        rw [mmioCalls, call]
        change (mmioCalls find next before >>= _) = _
        rw [run]
        rfl
      obtain ⟨answers, state, rest⟩ := ih (mmioCall_sound sound own call).1
        (fun other member => plain other (List.mem_cons_of_mem _ member)) later
      refine ⟨answer :: answers, state, ?_⟩
      rw [mmioCalls, call]
      change (mmioCalls find next ops >>= _) = _
      rw [rest]
      rfl

/-- A slot that is written in time is the next one that is read. -/
theorem written_readBack {addr : UInt64} {value : UInt32} {between after : List MmioOp}
    {answer : MmioAnswer} {answers : List MmioAnswer} {next state : TestHarness}
    (sound : SoundBlocks th) (plain : Plain find addr)
    (plainBetween : ∀ op ∈ between, Plain find op.addr)
    (others : ∀ op ∈ between, op.addr ≠ addr) (inside : SlotInside th (.write addr value))
    (written : mmioCall find th (.write addr value) = .ok (answer, next))
    (zero : answer = .status 0)
    (run : mmioCalls find next (between ++ .read addr :: after) = .ok (answers, state)) :
    answers[between.length]? = some (.value value) := by
  obtain ⟨front, mid, back, ahead, behind, rfl, long⟩ := mmioCalls_append run
  obtain ⟨first, last, later, call, -, rfl⟩ := mmioCalls_cons behind
  rcases mmioCall_write sound plain written with ⟨-, blocks, rfl, put⟩ | ⟨minus, -⟩
  · have nextSound : SoundBlocks (th.withMmio blocks) := by
      rw [SoundBlocks, withMmio_mmio]
      exact put.sound
    obtain ⟨midSound, same⟩ := mmioCalls_frame nextSound plainBetween others ahead
    obtain ⟨block, isFirst, room, changed⟩ := put.first
    rw [withMmio_mmio, changed] at same
    have isTouched : block ∈ touched (th.mmio .mmio) (.write addr value) := by
      unfold touched
      dsimp only
      unfold firstBlock at isFirst
      rw [List.find?_append, isFirst]
      rfl
    obtain ⟨v, drawnBlocks, read, drawn⟩ := mmioCall_read midSound plain
    have found := drawn.value _ same (inside block isTouched)
    rw [List.getElem?_set_self room] at found
    rw [read] at call
    cases call
    cases found
    rw [← long, List.getElem?_append_right (Nat.le_refl _), Nat.sub_self]
    rfl
  · rw [zero] at minus
    cases minus

/-- For every accepted script and every run of calls on plain addresses: all slots are inside and
what was written is read back if and only if each write comes in time. -/
theorem mmio_sound_iff {script : List Char} (accepted : umrCreateTestHarness script = .ok th)
    (plain : ∀ op ∈ ops, Plain find op.addr) :
    MmioSound find th ops ↔ WritesInTime (th.mmio .mmio) ops := by
  have fresh := umrCreateTestHarness_fresh accepted
  have insideIff : ∀ before op after answers state, ops = before ++ op :: after →
      mmioCalls find th before = .ok (answers, state) →
      SoundBlocks state ∧ (SlotInside state op ↔ InTime (th.mmio .mmio) before op) := by
    intro before op after answers state split run
    have ahead : ∀ other ∈ before, Plain find other.addr := by
      intro other member
      exact plain other (split ▸ List.mem_append_left _ member)
    obtain ⟨sound, tracks⟩ := mmioCalls_tracks fresh.sound ahead fresh.tracks run
    exact ⟨sound, slotInside_iff sound tracks op⟩
  constructor
  · intro all before op after split
    have prefixEnds : ∃ answers state, mmioCalls find th before = .ok (answers, state) := by
      refine mmioCalls_ends fresh.sound
        (fun other member => plain other (split ▸ List.mem_append_left _ member)) ?_
      intro front other back answers state again run
      refine all.inside front other (back ++ op :: after) answers state ?_ run
      rw [split, again, List.append_assoc, List.cons_append]
    obtain ⟨answers, state, run⟩ := prefixEnds
    exact (insideIff before op after answers state split run).2.mp
      (all.inside before op after answers state split run)
  · intro timely
    constructor
    · intro before op after answers state split run
      exact (insideIff before op after answers state split run).2.mpr
        (timely before op after split)
    · intro before addr value between after answers state split others run zero
      rw [split] at run
      obtain ⟨front, mid, back, ahead, behind, rfl, long⟩ := mmioCalls_append run
      obtain ⟨answer, next, later, call, calls, rfl⟩ := mmioCalls_cons behind
      obtain ⟨sound, inside⟩ := insideIff before _ _ front mid split ahead
      have isPlain : ∀ op ∈ .write addr value :: (between ++ .read addr :: after),
          Plain find op.addr := fun op member => plain op (split ▸ List.mem_append_right _ member)
      rw [← long, List.getElem?_append_right (Nat.le_refl _), Nat.sub_self] at zero
      have readBack := written_readBack sound (isPlain _ List.mem_cons_self)
        (fun op member => isPlain op (by simp [member])) others
        (inside.mpr (timely before _ _ split)) call (Option.some.inj zero) calls
      rw [← long, Nat.add_assoc, List.getElem?_append_right (Nat.le_add_right _ _),
        Nat.add_sub_cancel_left, Nat.add_comm 1, List.getElem?_cons_succ]
      exact readBack

end Main

/-! ## One value, read and then written over -/

def oneValue : TestHarness := TestHarness.empty.addMmio .mmio ⟨0x10, [1], 1, 0⟩

theorem oneValue_accepted :
    umrCreateTestHarness "MMIO@0x10 = { 0x1 }".toList = .ok oneValue := by rfl

theorem noReg_plain {ops : List MmioOp} (same : ∀ op ∈ ops, op.addr = 0x10) :
    ∀ op ∈ ops, Plain noReg op.addr := by
  intro op member reg found
  rw [same op member] at found
  exact absurd found (by decide : ¬ (0x10 : UInt64) >>> 2 = (0xFFFFFFFF : UInt32).toUInt64)

theorem oneValue_sound : umrCreateTestHarness "MMIO@0x10 = { 0x1 }".toList = .ok oneValue ∧
    (∀ op ∈ [MmioOp.write 0x10 5, .read 0x10], Plain noReg op.addr) ∧
    (MmioSound noReg oneValue [.write 0x10 5, .read 0x10] ↔
      WritesInTime (oneValue.mmio .mmio) [.write 0x10 5, .read 0x10]) := by
  have plain : ∀ op ∈ [MmioOp.write 0x10 5, .read 0x10], Plain noReg op.addr :=
    noReg_plain (by simp [MmioOp.addr])
  exact ⟨oneValue_accepted, plain, mmio_sound_iff oneValue_accepted plain⟩

/-- The read takes the only value, so the write goes behind it. -/
theorem write_behind_values : ¬ ∀ (find : FindReg) (script : List Char) (th : TestHarness)
    (ops : List MmioOp), umrCreateTestHarness script = .ok th →
      (∀ op ∈ ops, Plain find op.addr) → MmioSound find th ops := by
  intro sound
  have plain : ∀ op ∈ [MmioOp.read 0x10, .write 0x10 5], Plain noReg op.addr :=
    noReg_plain (by simp [MmioOp.addr])
  have both := sound noReg _ oneValue _ oneValue_accepted plain
  have inside := both.inside [.read 0x10] (.write 0x10 5) [] [.value 1]
    (oneValue.withMmio [⟨0x10, [1], 1, 1⟩]) rfl (by rfl)
  have behind : (⟨0x10, [1], 1, 1⟩ : MmioBlock) ∈
      touched ((oneValue.withMmio [⟨0x10, [1], 1, 1⟩]).mmio .mmio) (.write 0x10 5) := by
    rw [withMmio_mmio]
    rfl
  exact absurd (inside _ behind) (by decide)

end Umr.Harness
