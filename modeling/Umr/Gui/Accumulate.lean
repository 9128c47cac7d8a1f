import Umr.Lib.Traverse
import Umr.Registers.Bitslice

/-!
# Counters of sampled registers

The `accumulate` request of `commands.c`: in every step each register is read and
the values of its bit-fields are added to counters.  A register has 32 counters
where they are counted, and as many as there are registers where they are
reported.
-/

set_option autoImplicit false

namespace Umr.Gui

open Umr.Lib Umr.Rumr Umr.Registers

structure Counter where
  name : CString
  counter : UInt32
  deriving DecidableEq

/-- `calloc(32 * num_reg, sizeof(unsigned))`; the product is an `int`. -/
def callocCounters (numReg : Nat) : Option (List UInt32) :=
  if 32 * numReg < 2 ^ 31 then some (List.replicate (32 * numReg) 0) else none

def slotCounted (j k : Nat) : Nat := 32 * j + k

def slotReported (numReg j k : Nat) : Nat := numReg * j + k

/-- The field is looked up again by its name. -/
def fieldValue (reg : Reg) (value : UInt32) (field : Bitfield) : Option UInt32 :=
  (umrBitsliceRegQuiet reg field.regname value.toUInt64).map UInt64.toUInt32

def countField (reg : Reg) (j : Nat) (value : UInt32) (counters : List UInt32)
    (field : Bitfield × Nat) : Option (List UInt32) :=
  (fieldValue reg value field.1).map fun v =>
    counters.modify (slotCounted j field.2) fun counter => counter + v

def sampleReg (values : Nat → UInt32) (counters : List UInt32) (reg : Reg × Nat) :
    Option (List UInt32) :=
  reg.1.bits.zipIdx.foldlM (countField reg.1 reg.2 (values reg.2)) counters

/-- `values` is what is read of the registers in one step. -/
def sampleStep (regs : List Reg) (counters : List UInt32) (values : Nat → UInt32) :
    Option (List UInt32) :=
  regs.zipIdx.foldlM (sampleReg values) counters

def reportReg (numReg : Nat) (counters : List UInt32) (reg : Reg × Nat) : Option (List Counter) :=
  reg.1.bits.zipIdx.mapM fun field =>
    counters[slotReported numReg reg.2 field.2]?.map fun counter => ⟨field.1.regname, counter⟩

/-- The registers that were found for the request, sampled in steps; nothing is returned of a shift
or a sum that C does not define, or of counters that are not there. -/
def accumulate (regs : List Reg) (samples : List (Nat → UInt32)) : Option (List (List Counter)) := do
  let counters ← callocCounters regs.length
  let counters ← samples.foldlM (sampleStep regs) counters
  regs.zipIdx.mapM (reportReg regs.length counters)

/-! ## What is to be reported -/

def fieldBits (field : Bitfield) (value : UInt32) : Nat :=
  value.toNat / 2 ^ field.start.toNat % 2 ^ fieldWidth field

def fieldSum (samples : List (Nat → UInt32)) (j : Nat) (field : Bitfield) : UInt32 :=
  (samples.map fun values => UInt32.ofNat (fieldBits field (values j))).sum

def IsField (regs : List Reg) (j k : Nat) (field : Bitfield) : Prop :=
  ∃ reg, regs[j]? = some reg ∧ reg.bits[k]? = some field

/-- Every field is reported with its sum, and its counter is not that of another field. -/
structure Counted (regs : List Reg) (samples : List (Nat → UInt32))
    (answer : List (List Counter)) : Prop where
  sums : ∀ j k field, IsField regs j k field →
    (answer[j]?.bind fun counters => counters[k]?) =
      some ⟨field.regname, fieldSum samples j field⟩
  own : ∀ j k field, IsField regs j k field →
    slotReported regs.length j k = slotCounted j k

def AccumulatesRight (regs : List Reg) : Prop :=
  ∀ samples, ∃ answer, accumulate regs samples = some answer ∧ Counted regs samples answer

def Sliceable (field : Bitfield) : Prop :=
  field.start.toNat < 64 ∧ field.start.toNat ≤ field.stop.toNat + 1 ∧ fieldWidth field < 64

/-- The first field of the name has the bits of the field, among those that are read. -/
def NamesItself (reg : Reg) (field : Bitfield) : Prop :=
  ∃ first, fieldNamed reg field.regname = some first ∧ Sliceable first ∧
    ∀ b < 32, covers first b ↔ covers field b

structure Accumulable (regs : List Reg) : Prop where
  slots : regs.length = 32 ∨ regs.length < 2 ^ 26 ∧ ∀ reg ∈ regs.tail, reg.bits = []
  names : ∀ reg ∈ regs, ∀ field ∈ reg.bits, NamesItself reg field

/-! ## Fields by name -/

theorem sliceField_toNat {field : Bitfield} {regvalue sliced : UInt64}
    (isSlice : sliceField field regvalue = some sliced) :
    Sliceable field ∧
      sliced.toNat = regvalue.toNat / 2 ^ field.start.toNat % 2 ^ fieldWidth field := by
  unfold sliceField at isSlice
  split_ifs at isSlice with small
  obtain ⟨mask, isMask, rfl⟩ := Option.map_eq_some_iff.mp isSlice
  have defined : field.start.toNat ≤ field.stop.toNat + 1 ∧ fieldWidth field < 64 := by
    by_contra undefined_
    have noMask : fieldMask field = none := if_neg undefined_
    rw [noMask] at isMask
    cases isMask
  obtain ⟨other, same, maskValue⟩ := fieldMask_toNat defined.1 defined.2
  cases isMask.symm.trans same
  refine ⟨⟨small, defined⟩, ?_⟩
  rw [UInt64.toNat_and, UInt64.toNat_shiftRight, start_shift small, maskValue,
    Nat.and_two_pow_sub_one_eq_mod, Nat.shiftRight_eq_div_pow]

theorem sliceField_some {field : Bitfield} (sliceable : Sliceable field) (regvalue : UInt64) :
    ∃ sliced, sliceField field regvalue = some sliced := by
  obtain ⟨small, ordered, narrow⟩ := sliceable
  rw [sliceField, if_pos small, fieldMask, if_pos ⟨ordered, narrow⟩]
  exact ⟨_, rfl⟩

theorem fieldBits_testBit (field : Bitfield) (value : UInt32) (i : Nat) :
    (fieldBits field value).testBit i = true ↔
      i < fieldWidth field ∧ value.toNat.testBit (field.start.toNat + i) = true := by
  rw [fieldBits, Nat.testBit_mod_two_pow, Nat.testBit_div_two_pow, Bool.and_eq_true,
    decide_eq_true_eq, Nat.add_comm i]

theorem toNat_bit {i : Nat} (inside : i < 32) : (UInt32.ofNat (2 ^ i)).toNat = 2 ^ i := by
  rw [UInt32.toNat_ofNat']
  exact Nat.mod_eq_of_lt (Nat.pow_lt_pow_right (by decide) inside)

/-- A field reads a single bit if and only if it covers it. -/
theorem fieldBits_bit (field : Bitfield) {i : Nat} (inside : i < 32) :
    fieldBits field (UInt32.ofNat (2 ^ i)) ≠ 0 ↔ covers field i := by
  have width : fieldWidth field = field.stop.toNat + 1 - field.start.toNat := rfl
  constructor
  · intro some_
    obtain ⟨j, isSet⟩ := Nat.exists_testBit_of_ne_zero some_
    rw [fieldBits_testBit, toNat_bit inside, Nat.testBit_two_pow, decide_eq_true_eq] at isSet
    exact ⟨by omega, by omega⟩
  · rintro ⟨atLeast, upTo⟩ zero
    have isSet : (fieldBits field (UInt32.ofNat (2 ^ i))).testBit (i - field.start.toNat) = true := by
      rw [fieldBits_testBit, toNat_bit inside, Nat.testBit_two_pow, decide_eq_true_eq]
      exact ⟨by omega, by omega⟩
    rw [zero, Nat.zero_testBit] at isSet
    cases isSet

/-- Two fields have the same values if and only if they cover the same of the lower 32 bits. -/
theorem fieldBits_eq_iff (a b : Bitfield) :
    (∀ value, fieldBits a value = fieldBits b value) ↔ ∀ i < 32, covers a i ↔ covers b i := by
  constructor
  · intro same i inside
    rw [← fieldBits_bit a inside, ← fieldBits_bit b inside, same]
  · intro same value
    refine Nat.eq_of_testBit_eq fun i => ?_
    rw [Bool.eq_iff_iff, fieldBits_testBit, fieldBits_testBit]
    have width : ∀ field : Bitfield, fieldWidth field = field.stop.toNat + 1 - field.start.toNat :=
      fun _ => rfl
    -- A set bit below 32 lies in both fields, and they begin at the same place.
    have moved : ∀ {a b : Bitfield}, (∀ i < 32, covers a i ↔ covers b i) →
        i < fieldWidth a ∧ value.toNat.testBit (a.start.toNat + i) = true →
          i < fieldWidth b ∧ value.toNat.testBit (b.start.toNat + i) = true := by
      intro a b same isSet
      obtain ⟨within, isSet⟩ := isSet
      have low : a.start.toNat + i < 32 := by
        by_contra high
        have beyond : value.toNat < 2 ^ (a.start.toNat + i) :=
          lt_of_lt_of_le value.toNat_lt (Nat.pow_le_pow_right (by decide) (Nat.le_of_not_lt high))
        rw [Nat.testBit_lt_two_pow beyond] at isSet
        cases isSet
      rw [width] at within
      have aStart := (same a.start.toNat (by omega)).mp ⟨Nat.le_refl _, by omega⟩
      have aLast := (same (a.start.toNat + i) low).mp ⟨by omega, by omega⟩
      have bStart := (same b.start.toNat (by have := aStart.1; omega)).mpr
        ⟨Nat.le_refl _, by have := aStart.1; have := aStart.2; omega⟩
      have starts : a.start.toNat = b.start.toNat := Nat.le_antisymm bStart.1 aStart.1
      rw [width, ← starts]
      exact ⟨by have := aLast.2; omega, isSet⟩
    exact ⟨moved same, moved fun i inside => (same i inside).symm⟩

theorem fieldValue_first {reg : Reg} {field first : Bitfield}
    (named : fieldNamed reg field.regname = some first) (value : UInt32) :
    fieldValue reg value field = (sliceField first value.toUInt64).map UInt64.toUInt32 := by
  rw [fieldValue, umrBitsliceRegQuiet, named]
  rfl

theorem fieldNamed_some {reg : Reg} {field : Bitfield} (member : field ∈ reg.bits) :
    ∃ first, fieldNamed reg field.regname = some first := by
  rw [← Option.isSome_iff_exists, fieldNamed, List.find?_isSome]
  exact ⟨field, member, decide_eq_true rfl⟩

theorem ofNat_fieldBits_inj {a b : Bitfield} {value : UInt32}
    (same : UInt32.ofNat (fieldBits a value) = UInt32.ofNat (fieldBits b value)) :
    fieldBits a value = fieldBits b value := by
  have small : ∀ field : Bitfield, fieldBits field value < 2 ^ 32 := fun field =>
    lt_of_le_of_lt ((Nat.mod_le _ _).trans (Nat.div_le_self _ _)) value.toNat_lt
  have equal := congrArg UInt32.toNat same
  rwa [UInt32.toNat_ofNat', UInt32.toNat_ofNat', Nat.mod_eq_of_lt (small a),
    Nat.mod_eq_of_lt (small b)] at equal

theorem fieldValue_of_sliceable {reg : Reg} {field first : Bitfield}
    (named : fieldNamed reg field.regname = some first) (sliceable : Sliceable first)
    (value : UInt32) :
    fieldValue reg value field = some (UInt32.ofNat (fieldBits first value)) := by
  obtain ⟨sliced, isSlice⟩ := sliceField_some sliceable value.toUInt64
  have bits := (sliceField_toNat isSlice).2
  rw [UInt32.toNat_toUInt64] at bits
  rw [fieldValue_first named, isSlice, Option.map_some, fieldBits, ← bits, Option.some.injEq,
    ← UInt32.toNat_inj, UInt64.toNat_toUInt32, UInt32.toNat_ofNat']

/-- The name of a field gives its value, whatever is read, if and only if it names the field. -/
theorem fieldValue_iff {reg : Reg} {field : Bitfield} (member : field ∈ reg.bits) :
    (∀ value, fieldValue reg value field = some (UInt32.ofNat (fieldBits field value))) ↔
      NamesItself reg field := by
  obtain ⟨first, named⟩ := fieldNamed_some member
  constructor
  · intro right
    have sliceable : Sliceable first := by
      have zero := right 0
      rw [fieldValue_first named] at zero
      obtain ⟨sliced, isSlice, -⟩ := Option.map_eq_some_iff.mp zero
      exact (sliceField_toNat isSlice).1
    refine ⟨first, named, sliceable, (fieldBits_eq_iff first field).mp ?_⟩
    intro value
    have both := (fieldValue_of_sliceable named sliceable value).symm.trans (right value)
    exact ofNat_fieldBits_inj (Option.some.inj both)
  · rintro ⟨other, same, sliceable, covered⟩ value
    rw [fieldValue_of_sliceable same sliceable, (fieldBits_eq_iff other field).mpr covered]

/-! ## Counting -/

def fieldGain (reg : Reg) (value : UInt32) (k : Nat) : UInt32 :=
  (reg.bits[k]?.bind (fieldValue reg value)).getD 0

def stepGain (regs : List Reg) (values : Nat → UInt32) (i slot : Nat) : UInt32 :=
  if i ≤ slot / 32 then
    (regs[slot / 32 - i]?.map fun reg => fieldGain reg (values (slot / 32)) (slot % 32)).getD 0
  else 0

def Gained (gain : Nat → UInt32) (counters after : List UInt32) : Prop :=
  ∀ slot, after[slot]? = counters[slot]?.map fun counter => counter + gain slot

theorem Gained.trans {first second : Nat → UInt32} {counters between after : List UInt32}
    (one : Gained first counters between) (two : Gained second between after) :
    Gained (fun slot => first slot + second slot) counters after := by
  intro slot
  rw [two slot, one slot, Option.map_map]
  congr 1
  funext counter
  exact UInt32.add_assoc _ _ _

theorem Gained.congr {gain other : Nat → UInt32} {counters after : List UInt32}
    (gained : Gained gain counters after) (same : ∀ slot, gain slot = other slot) :
    Gained other counters after := by
  rw [← funext same]
  exact gained

theorem Gained.none (counters : List UInt32) : Gained (fun _ => 0) counters counters := by
  intro slot
  cases counters[slot]? with
  | none => rfl
  | some counter => exact congrArg some (UInt32.add_zero counter).symm

theorem modify_gained (slot : Nat) (v : UInt32) (counters : List UInt32) :
    Gained (fun other => if slot = other then v else 0) counters
      (counters.modify slot fun counter => counter + v) := by
  intro other
  rw [List.getElem?_modify]
  change Option.map _ _ = _
  congr 1
  funext counter
  dsimp only
  split_ifs
  · rfl
  · exact (UInt32.add_zero counter).symm

section Sampling
variable {reg : Reg} {regs : List Reg} {values : Nat → UInt32}

theorem countFields_gain {value : UInt32} {j : Nat} (fields : List Bitfield) (i : Nat)
    (defined : ∀ field ∈ fields, ∃ v, fieldValue reg value field = some v)
    (counters : List UInt32) :
    ∃ after, (fields.zipIdx i).foldlM (countField reg j value) counters = some after ∧
      Gained (fun slot => if slotCounted j i ≤ slot then
        (fields[slot - slotCounted j i]?.bind (fieldValue reg value)).getD 0 else 0)
        counters after := by
  induction fields generalizing i counters with
  | nil =>
      refine ⟨counters, rfl, (Gained.none counters).congr ?_⟩
      intro slot
      split_ifs <;> rfl
  | cons field fields ih =>
      obtain ⟨⟨v, isValue⟩, later⟩ := List.forall_mem_cons.mp defined
      obtain ⟨after, ran, gained⟩ :=
        ih (i + 1) later (counters.modify (slotCounted j i) fun counter => counter + v)
      refine ⟨after, ?_, ((modify_gained _ v counters).trans gained).congr ?_⟩
      · rw [List.zipIdx_cons, List.foldlM_cons, countField, isValue]
        exact ran
      · intro slot
        have next : slotCounted j (i + 1) = slotCounted j i + 1 := rfl
        rw [next]
        rcases Nat.lt_trichotomy slot (slotCounted j i) with before | rfl | behind
        · rw [if_neg (by omega), if_neg (by omega), if_neg (by omega), UInt32.add_zero]
        · rw [if_pos rfl, if_neg (by omega), if_pos (Nat.le_refl _), Nat.sub_self,
            List.getElem?_cons_zero, Option.bind_some, isValue, Option.getD_some, UInt32.add_zero]
        · obtain ⟨more, rfl⟩ := Nat.exists_eq_add_of_lt behind
          rw [if_neg (by omega), if_pos (by omega), if_pos (by omega), UInt32.zero_add]
          have here : slotCounted j i + more + 1 - (slotCounted j i + 1) = more := by omega
          have there : slotCounted j i + more + 1 - slotCounted j i = more + 1 := by omega
          rw [here, there, List.getElem?_cons_succ]

/-- In a step every field adds its value to the counter of its register and number. -/
theorem sampleStep_gain (values : Nat → UInt32) (few : ∀ reg ∈ regs, reg.bits.length ≤ 32) (i : Nat)
    (defined : ∀ reg ∈ regs, ∀ field ∈ reg.bits, ∀ value,
      ∃ v, fieldValue reg value field = some v) (counters : List UInt32) :
    ∃ after, (regs.zipIdx i).foldlM (sampleReg values) counters = some after ∧
      Gained (stepGain regs values i) counters after := by
  induction regs generalizing i counters with
  | nil =>
      refine ⟨counters, rfl, (Gained.none counters).congr ?_⟩
      intro slot
      unfold stepGain
      split_ifs <;> rfl
  | cons reg regs ih =>
      obtain ⟨short, fewLater⟩ := List.forall_mem_cons.mp few
      obtain ⟨first, later⟩ := List.forall_mem_cons.mp defined
      obtain ⟨between, ran, gained⟩ := countFields_gain (j := i) reg.bits 0
        (fun field member => first field member (values i)) counters
      obtain ⟨after, ranLater, gainedLater⟩ := ih fewLater (i + 1) later between
      refine ⟨after, ?_, (gained.trans gainedLater).congr ?_⟩
      · rw [List.zipIdx_cons, List.foldlM_cons, sampleReg, ran]
        exact ranLater
      · intro slot
        have base : slotCounted i 0 = 32 * i := rfl
        unfold stepGain fieldGain
        rw [base]
        rcases Nat.lt_trichotomy (slot / 32) i with before | here | behind
        · rw [if_neg (by omega), if_neg (by omega), if_neg (by omega), UInt32.add_zero]
        · have isField : slot - 32 * i = slot % 32 := by omega
          rw [if_pos (by omega), if_neg (by omega), if_pos (by omega), isField, here, Nat.sub_self,
            UInt32.add_zero]
          rfl
        · have beyond : reg.bits[slot - 32 * i]? = none :=
            List.getElem?_eq_none (by omega)
          obtain ⟨more, isMore⟩ := Nat.exists_eq_add_of_lt behind
          have here : i + more + 1 - (i + 1) = more := by omega
          have there : i + more + 1 - i = more + 1 := by omega
          rw [if_pos (by omega), if_pos (by omega), if_pos (by omega), beyond, isMore, here, there,
            List.getElem?_cons_succ]
          exact UInt32.zero_add _

def stepsGain (regs : List Reg) (samples : List (Nat → UInt32)) (slot : Nat) : UInt32 :=
  (samples.map fun values => stepGain regs values 0 slot).sum

theorem sampleSteps_gain (few : ∀ reg ∈ regs, reg.bits.length ≤ 32)
    (defined : ∀ reg ∈ regs, ∀ field ∈ reg.bits, ∀ value,
      ∃ v, fieldValue reg value field = some v) (samples : List (Nat → UInt32))
    (counters : List UInt32) :
    ∃ after, samples.foldlM (sampleStep regs) counters = some after ∧
      Gained (stepsGain regs samples) counters after := by
  induction samples generalizing counters with
  | nil => exact ⟨counters, rfl, Gained.none counters⟩
  | cons values samples ih =>
      obtain ⟨between, ran, gained⟩ := sampleStep_gain values few 0 defined counters
      obtain ⟨after, ranLater, gainedLater⟩ := ih between
      refine ⟨after, ?_, gained.trans gainedLater⟩
      rw [List.foldlM_cons, sampleStep, ran]
      exact ranLater

theorem fieldValue_of_sampleStep {counters after : List UInt32}
    (ran : sampleStep regs counters values = some after) {j k : Nat} {field : Bitfield}
    (isReg : regs[j]? = some reg) (isBit : reg.bits[k]? = some field) :
    ∃ v, fieldValue reg (values j) field = some v := by
  have listed : ∀ {α : Type} {as : List α} {i : Nat} {a : α}, as[i]? = some a →
      (a, i) ∈ as.zipIdx := by
    intro α as i a isAt
    refine List.mem_of_getElem? (i := i) ?_
    rw [List.getElem?_zipIdx, isAt, Option.map_some, Nat.zero_add]
  obtain ⟨before, between, counted⟩ := foldlM_steps ran _ (listed isReg)
  obtain ⟨start, last, added⟩ := foldlM_steps counted _ (listed isBit)
  obtain ⟨v, isValue, -⟩ := Option.map_eq_some_iff.mp added
  exact ⟨v, isValue⟩

end Sampling

/-! ## The answer -/

section Answer
variable {regs : List Reg} {samples : List (Nat → UInt32)} {answer : List (List Counter)}

theorem accumulate_eq_some_iff : accumulate regs samples = some answer ↔
    32 * regs.length < 2 ^ 31 ∧ ∃ after,
      samples.foldlM (sampleStep regs) (List.replicate (32 * regs.length) 0) = some after ∧
      regs.zipIdx.mapM (reportReg regs.length after) = some answer := by
  unfold accumulate callocCounters
  constructor
  · intro ended
    obtain ⟨counters, allocated, ended⟩ := Option.bind_eq_some_iff.mp ended
    obtain ⟨after, ran, reported⟩ := Option.bind_eq_some_iff.mp ended
    split_ifs at allocated with fits
    cases allocated
    exact ⟨fits, after, ran, reported⟩
  · rintro ⟨fits, after, ran, reported⟩
    rw [if_pos fits]
    change (samples.foldlM (sampleStep regs) (List.replicate (32 * regs.length) 0) >>= _) = _
    rw [ran]
    exact reported

theorem answer_counter {numReg : Nat} {after : List UInt32}
    (reported : regs.zipIdx.mapM (reportReg numReg after) = some answer) {j k : Nat}
    {field : Bitfield} (isField : IsField regs j k field) :
    (answer[j]?.bind fun counters => counters[k]?) =
      after[slotReported numReg j k]?.map (Counter.mk field.regname) := by
  obtain ⟨reg, isReg, isBit⟩ := isField
  have row := mapM_getElem? reported j
  rw [List.getElem?_zipIdx, isReg, Option.map_some, Option.bind_some, Nat.zero_add] at row
  have inside : j < answer.length := by
    rw [mapM_length reported, List.length_zipIdx]
    exact (List.getElem?_eq_some_iff.mp isReg).1
  rw [List.getElem?_eq_getElem inside] at row ⊢
  have counter := mapM_getElem? row.symm k
  rw [List.getElem?_zipIdx, isBit, Option.map_some, Option.bind_some, Nat.zero_add] at counter
  exact counter

theorem stepGain_slot (few : ∀ reg ∈ regs, reg.bits.length ≤ 32) {j k : Nat} {reg : Reg}
    {field : Bitfield} (isReg : regs[j]? = some reg) (isBit : reg.bits[k]? = some field)
    (values : Nat → UInt32) :
    stepGain regs values 0 (slotCounted j k) = (fieldValue reg (values j) field).getD 0 := by
  have short := few reg (List.mem_of_getElem? isReg)
  have less := (List.getElem?_eq_some_iff.mp isBit).1
  have row : slotCounted j k / 32 = j := by
    unfold slotCounted
    omega
  have column : slotCounted j k % 32 = k := by
    unfold slotCounted
    omega
  rw [stepGain, if_pos (Nat.zero_le _), row, column, Nat.sub_zero, isReg, Option.map_some,
    Option.getD_some, fieldGain, isBit, Option.bind_some]

theorem counted_slot (few : ∀ reg ∈ regs, reg.bits.length ≤ 32) {after : List UInt32}
    (gained : Gained (stepsGain regs samples) (List.replicate (32 * regs.length) 0) after)
    {j k : Nat} {field : Bitfield} (isField : IsField regs j k field) :
    after[slotCounted j k]? = some (stepsGain regs samples (slotCounted j k)) := by
  obtain ⟨reg, isReg, isBit⟩ := isField
  have short := few reg (List.mem_of_getElem? isReg)
  have regInside := (List.getElem?_eq_some_iff.mp isReg).1
  have bitInside := (List.getElem?_eq_some_iff.mp isBit).1
  have inside : slotCounted j k < 32 * regs.length := by
    unfold slotCounted
    omega
  rw [gained, List.getElem?_replicate_of_lt inside, Option.map_some, UInt32.zero_add]

theorem stepsGain_sum (few : ∀ reg ∈ regs, reg.bits.length ≤ 32) {j k : Nat} {field : Bitfield}
    {reg : Reg} (isReg : regs[j]? = some reg) (isBit : reg.bits[k]? = some field)
    (names : NamesItself reg field) :
    stepsGain regs samples (slotCounted j k) = fieldSum samples j field := by
  refine congrArg List.sum (List.map_congr_left fun values _ => ?_)
  rw [stepGain_slot few isReg isBit, (fieldValue_iff (List.mem_of_getElem? isBit)).mpr names,
    Option.getD_some]

theorem accumulatesRight_of_accumulable (few : ∀ reg ∈ regs, reg.bits.length ≤ 32)
    (accumulable : Accumulable regs) : AccumulatesRight regs := by
  intro samples
  have fits : 32 * regs.length < 2 ^ 31 := by
    rcases accumulable.slots with all | ⟨small, -⟩ <;> omega
  have own : ∀ j k field, IsField regs j k field →
      slotReported regs.length j k = slotCounted j k := by
    rintro j k field ⟨reg, isReg, isBit⟩
    unfold slotReported slotCounted
    rcases accumulable.slots with all | ⟨-, bare⟩
    · rw [all]
    · cases j with
      | zero => rw [Nat.mul_zero, Nat.mul_zero]
      | succ j =>
          have inTail : reg ∈ regs.tail := by
            refine List.mem_of_getElem? (i := j) ?_
            rw [List.getElem?_tail]
            exact isReg
          rw [bare reg inTail] at isBit
          cases isBit
  have defined : ∀ reg ∈ regs, ∀ field ∈ reg.bits, ∀ value,
      ∃ v, fieldValue reg value field = some v := fun reg regMember field member value =>
    ⟨_, (fieldValue_iff member).mpr (accumulable.names reg regMember field member) value⟩
  obtain ⟨after, ran, gained⟩ :=
    sampleSteps_gain few defined samples (List.replicate (32 * regs.length) 0)
  have counter : ∀ j k field, IsField regs j k field →
      after[slotReported regs.length j k]? = some (fieldSum samples j field) := by
    intro j k field isField
    rw [own j k field isField, counted_slot few gained isField]
    obtain ⟨reg, isReg, isBit⟩ := isField
    rw [stepsGain_sum few isReg isBit
      (accumulable.names reg (List.mem_of_getElem? isReg) field (List.mem_of_getElem? isBit))]
  obtain ⟨answer, reported⟩ : ∃ answer,
      regs.zipIdx.mapM (reportReg regs.length after) = some answer := by
    refine mapM_some ?_
    rintro ⟨reg, j⟩ regMember
    refine mapM_some ?_
    rintro ⟨field, k⟩ member
    have isField : IsField regs j k field := ⟨reg, List.mk_mem_zipIdx_iff_getElem?.mp regMember,
      List.mk_mem_zipIdx_iff_getElem?.mp member⟩
    exact ⟨⟨field.regname, fieldSum samples j field⟩, by rw [counter j k field isField]; rfl⟩
  refine ⟨answer, accumulate_eq_some_iff.mpr ⟨fits, after, ran, reported⟩, ?_, own⟩
  intro j k field isField
  rw [answer_counter reported isField, counter j k field isField, Option.map_some]

theorem accumulable_of_accumulatesRight (few : ∀ reg ∈ regs, reg.bits.length ≤ 32)
    (right : AccumulatesRight regs) : Accumulable regs := by
  -- One sample shows that a field has a value.
  have defined : ∀ reg ∈ regs, ∀ field ∈ reg.bits, ∀ value,
      ∃ v, fieldValue reg value field = some v := by
    intro reg regMember field member value
    obtain ⟨j, isReg⟩ := List.mem_iff_getElem?.mp regMember
    obtain ⟨k, isBit⟩ := List.mem_iff_getElem?.mp member
    obtain ⟨answer, ended, -⟩ := right [fun _ => value]
    obtain ⟨-, after, ran, -⟩ := accumulate_eq_some_iff.mp ended
    rw [List.foldlM_cons] at ran
    obtain ⟨between, first, -⟩ := Option.bind_eq_some_iff.mp ran
    exact fieldValue_of_sampleStep first isReg isBit
  refine ⟨?_, ?_⟩
  · obtain ⟨answer, ended, counted⟩ := right []
    obtain ⟨fits, -⟩ := accumulate_eq_some_iff.mp ended
    by_cases bare : ∀ reg ∈ regs.tail, reg.bits = []
    · exact .inr ⟨by omega, bare⟩
    · left
      push Not at bare
      obtain ⟨reg, inTail, some_⟩ := bare
      obtain ⟨j, isReg⟩ := List.mem_iff_getElem?.mp inTail
      rw [List.getElem?_tail] at isReg
      obtain ⟨field, fields, isBits⟩ := List.exists_cons_of_ne_nil some_
      have same := counted.own (j + 1) 0 field ⟨reg, isReg, by rw [isBits]; rfl⟩
      exact Nat.eq_of_mul_eq_mul_right (Nat.succ_pos j) same
  · intro reg regMember field member
    refine (fieldValue_iff member).mp ?_
    intro value
    obtain ⟨j, isReg⟩ := List.mem_iff_getElem?.mp regMember
    obtain ⟨k, isBit⟩ := List.mem_iff_getElem?.mp member
    obtain ⟨answer, ended, counted⟩ := right [fun _ => value]
    obtain ⟨-, after, ran, reported⟩ := accumulate_eq_some_iff.mp ended
    obtain ⟨other, ranToo, gained⟩ := sampleSteps_gain few defined [fun _ => value]
      (List.replicate (32 * regs.length) 0)
    cases ran.symm.trans ranToo
    have isField : IsField regs j k field := ⟨reg, isReg, isBit⟩
    have sum := counted.sums j k field isField
    rw [answer_counter reported isField, counted.own j k field isField,
      counted_slot few gained isField, Option.map_some, Option.some.injEq, Counter.mk.injEq] at sum
    obtain ⟨v, isValue⟩ := defined reg regMember field member value
    have one : v + 0 = UInt32.ofNat (fieldBits field value) + 0 := by
      have gain := sum.2
      unfold stepsGain fieldSum at gain
      rw [List.map_singleton, List.map_singleton, stepGain_slot few isReg isBit, isValue] at gain
      exact gain
    rw [UInt32.add_zero, UInt32.add_zero] at one
    rw [isValue, one]

/-- For every sequence of samples the request reports the sums, if and only if there are 32
registers or no register but the first has bit-fields, and every name finds its own bits. -/
theorem accumulate_right_iff (few : ∀ reg ∈ regs, reg.bits.length ≤ 32) :
    AccumulatesRight regs ↔ Accumulable regs :=
  ⟨accumulable_of_accumulatesRight few, accumulatesRight_of_accumulable few⟩

end Answer

/-! ## Two registers -/

def sampledReg (name : List Char) : Reg where
  regname := bitname name
  type := 0
  addr := 0x10
  bit64 := 0
  bits := [⟨bitname "BUSY".toList, 0, 0⟩]

theorem oneRegister_right :
    AccumulatesRight [sampledReg "mmGRBM_STATUS".toList] ↔
      Accumulable [sampledReg "mmGRBM_STATUS".toList] :=
  accumulate_right_iff (by decide)

/-- The counter of the second register is reported from a slot of the first. -/
theorem twoRegisters_wrong : ¬ ∀ regs : List Reg, (∀ reg ∈ regs, reg.bits.length ≤ 32) →
    AccumulatesRight regs := by
  intro right
  obtain ⟨answer, ended, counted⟩ := right
    [sampledReg "mmGRBM_STATUS".toList, sampledReg "mmGRBM_STATUS2".toList] (by decide)
    [fun _ => 1]
  have isAnswer : accumulate [sampledReg "mmGRBM_STATUS".toList,
      sampledReg "mmGRBM_STATUS2".toList] [fun _ => 1] =
      some [[⟨bitname "BUSY".toList, 1⟩], [⟨bitname "BUSY".toList, 0⟩]] := by rfl
  cases isAnswer.symm.trans ended
  have sum := counted.sums 1 0 ⟨bitname "BUSY".toList, 0, 0⟩ ⟨_, rfl, rfl⟩
  exact absurd sum (by decide)

end Umr.Gui
