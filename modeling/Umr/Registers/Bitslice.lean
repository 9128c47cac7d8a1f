import Umr.Rumr.SerialAsic
import Mathlib.Data.Nat.Bitwise
import Mathlib.Data.List.Pairwise

/-!
# Bit-fields of a register value

`umr_bitslice_reg`, `umr_bitslice_reg_quiet` and `umr_bitslice_compose_value` of
`mmio.c`, and the values that `umr_grbm_select_index` and `umr_srbm_select_index`
compose with them.  A field is found by its name, and the first of the name is
taken.  `none` is a shift by a count that C does not define.
-/

set_option autoImplicit false

namespace Umr.Registers

open Umr.Lib Umr.Rumr

def fieldNamed (reg : Reg) (bitname : CString) : Option Bitfield :=
  reg.bits.find? fun field => bitname = field.regname

def fieldMask (field : Bitfield) : Option UInt64 :=
  if field.start.toNat ≤ field.stop.toNat + 1 ∧ field.stop.toNat + 1 - field.start.toNat < 64 then
    some ((1 <<< UInt64.ofNat (field.stop.toNat + 1 - field.start.toNat)) - 1)
  else none

def sliceField (field : Bitfield) (regvalue : UInt64) : Option UInt64 :=
  if field.start.toNat < 64 then
    (fieldMask field).map fun mask => (regvalue >>> field.start.toUInt64) &&& mask
  else none

/-- `0xFFFFFFFFULL` for a name that is not there. -/
def umrBitsliceRegQuiet (reg : Reg) (bitname : CString) (regvalue : UInt64) : Option UInt64 :=
  (fieldNamed reg bitname).elim (some 0xFFFFFFFF) fun field => sliceField field regvalue

def umrBitsliceReg (reg : Reg) (bitname : CString) (regvalue : UInt64) : Option UInt64 :=
  (fieldNamed reg bitname).elim (some 0) fun field => sliceField field regvalue

def composeField (field : Bitfield) (regvalue : UInt64) : Option UInt64 :=
  if field.start.toNat < 64 then
    (fieldMask field).map fun mask => (regvalue &&& mask) <<< field.start.toUInt64
  else none

def umrBitsliceComposeValue (reg : Reg) (bitname : CString) (regvalue : UInt64) : Option UInt64 :=
  (fieldNamed reg bitname).elim (some 0) fun field => composeField field regvalue

def composeValues (reg : Reg) (values : List (CString × UInt64)) : Option UInt64 :=
  values.foldlM (fun data value =>
    (umrBitsliceComposeValue reg value.1 value.2).map fun composed => data ||| composed) 0

/-! ## Fields that lie in a register -/

def regWidth (reg : Reg) : Nat := if reg.bit64 = 0 then 32 else 64

def fieldWidth (field : Bitfield) : Nat := field.stop.toNat + 1 - field.start.toNat

def covers (field : Bitfield) (i : Nat) : Prop := field.start.toNat ≤ i ∧ i ≤ field.stop.toNat

/-- Every field lies in the register and is narrower than it, and no two of them overlap. -/
structure FieldsApart (reg : Reg) : Prop where
  ordered : ∀ field ∈ reg.bits, field.start.toNat ≤ field.stop.toNat
  inside : ∀ field ∈ reg.bits, field.stop.toNat < regWidth reg
  narrower : ∀ field ∈ reg.bits, fieldWidth field < regWidth reg
  apart : reg.bits.Pairwise fun a b =>
    a.stop.toNat < b.start.toNat ∨ b.stop.toNat < a.start.toNat

theorem regWidth_le (reg : Reg) : regWidth reg ≤ 64 := by
  rw [regWidth]
  split_ifs <;> omega

theorem fieldMask_toNat {field : Bitfield} (ordered : field.start.toNat ≤ field.stop.toNat + 1)
    (narrow : fieldWidth field < 64) :
    ∃ mask, fieldMask field = some mask ∧ mask.toNat = 2 ^ fieldWidth field - 1 := by
  have defined : field.start.toNat ≤ field.stop.toNat + 1 ∧
      field.stop.toNat + 1 - field.start.toNat < 64 := ⟨ordered, narrow⟩
  refine ⟨_, if_pos defined, ?_⟩
  change ((1 <<< UInt64.ofNat (fieldWidth field)) - 1 : UInt64).toNat = _
  have shifted : ((1 : UInt64) <<< UInt64.ofNat (fieldWidth field)).toNat =
      2 ^ fieldWidth field := by
    have count : (UInt64.ofNat (fieldWidth field)).toNat % 64 = fieldWidth field := by
      rw [UInt64.toNat_ofNat']
      omega
    rw [UInt64.toNat_shiftLeft, count, UInt64.toNat_one, Nat.one_shiftLeft]
    exact Nat.mod_eq_of_lt (Nat.pow_lt_pow_right (by omega) narrow)
  have positive : 1 ≤ 2 ^ fieldWidth field := Nat.one_le_two_pow
  rw [UInt64.toNat_sub_of_le _ _ ?_, shifted, UInt64.toNat_one]
  rw [UInt64.le_iff_toNat_le, shifted]
  exact positive

theorem start_shift {field : Bitfield} (small : field.start.toNat < 64) :
    field.start.toUInt64.toNat % 64 = field.start.toNat := by
  rw [UInt8.toNat_toUInt64]
  exact Nat.mod_eq_of_lt small

theorem composeField_testBit {field : Bitfield} (ordered : field.start.toNat ≤ field.stop.toNat)
    (inside : field.stop.toNat < 64) (narrow : fieldWidth field < 64) (value : UInt64) :
    ∃ composed, composeField field value = some composed ∧
      ∀ i, composed.toNat.testBit i = true ↔
        covers field i ∧ value.toNat.testBit (i - field.start.toNat) = true := by
  obtain ⟨mask, isMask, maskValue⟩ := fieldMask_toNat (Nat.le_succ_of_le ordered) narrow
  refine ⟨(value &&& mask) <<< field.start.toUInt64, ?_, ?_⟩
  · rw [composeField, if_pos (by omega), isMask]
    rfl
  · intro i
    rw [UInt64.toNat_shiftLeft, start_shift (by omega), UInt64.toNat_and, maskValue,
      Nat.testBit_mod_two_pow, Nat.testBit_shiftLeft, Nat.testBit_and, Nat.testBit_two_pow_sub_one]
    have width : fieldWidth field = field.stop.toNat + 1 - field.start.toNat := rfl
    simp only [Bool.and_eq_true, decide_eq_true_eq, covers]
    constructor
    · rintro ⟨below, atLeast, isSet, within⟩
      exact ⟨⟨atLeast, by omega⟩, isSet⟩
    · rintro ⟨⟨atLeast, upTo⟩, isSet⟩
      exact ⟨by omega, atLeast, isSet, by omega⟩

theorem sliceField_testBit {field : Bitfield} (ordered : field.start.toNat ≤ field.stop.toNat)
    (inside : field.stop.toNat < 64) (narrow : fieldWidth field < 64) (regvalue : UInt64) :
    ∃ sliced, sliceField field regvalue = some sliced ∧
      ∀ i, sliced.toNat.testBit i = true ↔
        i < fieldWidth field ∧ regvalue.toNat.testBit (field.start.toNat + i) = true := by
  obtain ⟨mask, isMask, maskValue⟩ := fieldMask_toNat (Nat.le_succ_of_le ordered) narrow
  refine ⟨(regvalue >>> field.start.toUInt64) &&& mask, ?_, ?_⟩
  · rw [sliceField, if_pos (by omega), isMask]
    rfl
  · intro i
    rw [UInt64.toNat_and, UInt64.toNat_shiftRight, start_shift (by omega), maskValue,
      Nat.testBit_and, Nat.testBit_shiftRight, Nat.testBit_two_pow_sub_one]
    simp only [Bool.and_eq_true, decide_eq_true_eq]
    exact and_comm

/-! ## Slices of composed values -/

theorem fieldNamed_name {reg : Reg} {bitname : CString} {field : Bitfield}
    (named : fieldNamed reg bitname = some field) : bitname = field.regname := by
  have found := List.find?_some named
  exact of_decide_eq_true found

section Compose
variable {reg : Reg} (apart : FieldsApart reg)
include apart

theorem FieldsApart.field {bitname : CString} {field : Bitfield}
    (named : fieldNamed reg bitname = some field) :
    field ∈ reg.bits ∧ field.start.toNat ≤ field.stop.toNat ∧ field.stop.toNat < 64 ∧
      fieldWidth field < 64 := by
  have member := List.mem_of_find?_eq_some named
  have width := regWidth_le reg
  exact ⟨member, apart.ordered field member, Nat.lt_of_lt_of_le (apart.inside field member) width,
    Nat.lt_of_lt_of_le (apart.narrower field member) width⟩

/-- Two fields that have a bit in common are one field. -/
theorem FieldsApart.eq_of_covers {a b : Bitfield} (aMember : a ∈ reg.bits) (bMember : b ∈ reg.bits)
    {i : Nat} (aCovers : covers a i) (bCovers : covers b i) : a = b := by
  by_contra different
  have symmetric : Std.Symm fun a b : Bitfield =>
      a.stop.toNat < b.start.toNat ∨ b.stop.toNat < a.start.toNat := ⟨fun _ _ => Or.symm⟩
  have disjoint := apart.apart.forall aMember bMember different
  obtain ⟨aFrom, aTo⟩ := aCovers
  obtain ⟨bFrom, bTo⟩ := bCovers
  omega

theorem umrBitsliceComposeValue_testBit (bitname : CString) (value : UInt64) :
    ∃ composed, umrBitsliceComposeValue reg bitname value = some composed ∧
      ∀ i, composed.toNat.testBit i = true ↔ ∃ field, fieldNamed reg bitname = some field ∧
        covers field i ∧ value.toNat.testBit (i - field.start.toNat) = true := by
  rw [umrBitsliceComposeValue]
  cases named : fieldNamed reg bitname with
  | none =>
      refine ⟨0, rfl, ?_⟩
      intro i
      exact iff_of_false (by simp) (by rintro ⟨field, impossible, -⟩; cases impossible)
  | some field =>
      obtain ⟨-, ordered, inside, narrow⟩ := apart.field named
      obtain ⟨composed, isComposed, bits⟩ := composeField_testBit ordered inside narrow value
      refine ⟨composed, isComposed, ?_⟩
      intro i
      rw [bits]
      constructor
      · intro isSet
        exact ⟨field, rfl, isSet⟩
      · rintro ⟨other, same, isSet⟩
        cases same
        exact isSet

theorem composeValues_testBit (values : List (CString × UInt64)) :
    ∃ data, composeValues reg values = some data ∧
      ∀ i, data.toNat.testBit i = true ↔ ∃ value ∈ values, ∃ field,
        fieldNamed reg value.1 = some field ∧ covers field i ∧
        value.2.toNat.testBit (i - field.start.toNat) = true := by
  have run : ∀ start : UInt64, ∃ data,
      values.foldlM (fun data value => (umrBitsliceComposeValue reg value.1 value.2).map
        fun composed => data ||| composed) start = some data ∧
      ∀ i, data.toNat.testBit i = true ↔ start.toNat.testBit i = true ∨
        ∃ value ∈ values, ∃ field, fieldNamed reg value.1 = some field ∧ covers field i ∧
          value.2.toNat.testBit (i - field.start.toNat) = true := by
    induction values with
    | nil =>
        intro start
        refine ⟨start, rfl, ?_⟩
        intro i
        simp
    | cons value values ih =>
        intro start
        obtain ⟨composed, isComposed, bits⟩ := umrBitsliceComposeValue_testBit apart value.1 value.2
        obtain ⟨data, ran, dataBits⟩ := ih (start ||| composed)
        refine ⟨data, ?_, ?_⟩
        · rw [List.foldlM_cons, isComposed]
          exact ran
        · intro i
          rw [dataBits, UInt64.toNat_or, Nat.testBit_or, Bool.or_eq_true, bits, or_assoc]
          simp only [List.mem_cons, exists_eq_or_imp]
  obtain ⟨data, ran, bits⟩ := run 0
  refine ⟨data, ran, ?_⟩
  intro i
  rw [bits]
  simp

/-- A named field has the value it was given, as far as it fits, when no other value is given to
the same name. -/
theorem slice_composeValues {values : List (CString × UInt64)} {data : UInt64}
    (composed : composeValues reg values = some data) {bitname : CString} {field : Bitfield}
    (named : fieldNamed reg bitname = some field) {given : UInt64}
    (isGiven : (bitname, given) ∈ values)
    (only : ∀ value ∈ values, fieldNamed reg value.1 = some field → value.2 = given) :
    ∃ sliced, umrBitsliceReg reg bitname data = some sliced ∧
      sliced.toNat = given.toNat % 2 ^ fieldWidth field := by
  obtain ⟨member, ordered, inside, narrow⟩ := apart.field named
  obtain ⟨sliced, isSliced, bits⟩ := sliceField_testBit ordered inside narrow data
  obtain ⟨data', isData, dataBits⟩ := composeValues_testBit apart values
  cases composed.symm.trans isData
  refine ⟨sliced, by rw [umrBitsliceReg, named]; exact isSliced, ?_⟩
  refine Nat.eq_of_testBit_eq ?_
  intro i
  rw [Bool.eq_iff_iff, bits, dataBits, Nat.testBit_mod_two_pow, Bool.and_eq_true, decide_eq_true_eq]
  have width : fieldWidth field = field.stop.toNat + 1 - field.start.toNat := rfl
  constructor
  · rintro ⟨within, value, valueMember, other, otherNamed, otherCovers, isSet⟩
    have fieldCovers : covers field (field.start.toNat + i) := ⟨by omega, by omega⟩
    have same : other = field :=
      apart.eq_of_covers (apart.field otherNamed).1 member otherCovers fieldCovers
    subst same
    rw [only value valueMember otherNamed, Nat.add_sub_cancel_left] at isSet
    exact ⟨within, isSet⟩
  · rintro ⟨within, isSet⟩
    refine ⟨within, (bitname, given), isGiven, field, named, ⟨by omega, by omega⟩, ?_⟩
    rw [Nat.add_sub_cancel_left]
    exact isSet

end Compose

def allFields (reg : Reg) (values : CString → UInt64) : List (CString × UInt64) :=
  reg.bits.map fun field => (field.regname, values field.regname)

/-- Slicing undoes composing, and bits outside of all fields are zero. -/
theorem umrBitsliceReg_composed (reg : Reg) (apart : FieldsApart reg)
    (values : CString → UInt64) :
    ∃ data, composeValues reg (allFields reg values) = some data ∧
      (∀ bitname field, fieldNamed reg bitname = some field →
        ∃ sliced, umrBitsliceReg reg bitname data = some sliced ∧
          sliced.toNat = (values bitname).toNat % 2 ^ fieldWidth field) ∧
      ∀ i, (∀ field ∈ reg.bits, ¬ covers field i) → data.toNat.testBit i = false := by
  obtain ⟨data, composed, bits⟩ := composeValues_testBit apart (allFields reg values)
  refine ⟨data, composed, ?_, ?_⟩
  · intro bitname field named
    have member := List.mem_of_find?_eq_some named
    have isName := fieldNamed_name named
    refine slice_composeValues apart composed named ?_ ?_
    · rw [isName]
      exact List.mem_map_of_mem member
    · intro value valueMember sameField
      obtain ⟨other, -, rfl⟩ := List.mem_map.mp valueMember
      rw [isName]
      exact congrArg values (fieldNamed_name sameField)
  · intro i outside
    rw [← Bool.not_eq_true, bits]
    rintro ⟨value, -, field, named, isCovered, -⟩
    exact outside field (List.mem_of_find?_eq_some named) isCovered

def bitname (text : List Char) : CString := CString.ofBuffer (text.map fun c => UInt8.ofNat c.toNat)

/-- `mmGRBM_GFX_INDEX`, with a field that ends at the top bit. -/
def grbmGfxIndex : Reg where
  regname := bitname "mmGRBM_GFX_INDEX".toList
  type := 0
  addr := 0x2200
  bit64 := 0
  bits :=
    [⟨bitname "INSTANCE_INDEX".toList, 0, 7⟩, ⟨bitname "SA_INDEX".toList, 8, 15⟩,
      ⟨bitname "SE_INDEX".toList, 16, 23⟩, ⟨bitname "SA_BROADCAST_WRITES".toList, 29, 29⟩,
      ⟨bitname "INSTANCE_BROADCAST_WRITES".toList, 30, 30⟩,
      ⟨bitname "SE_BROADCAST_WRITES".toList, 31, 31⟩]

theorem grbmGfxIndex_apart : FieldsApart grbmGfxIndex where
  ordered := by decide
  inside := by decide
  narrower := by decide
  apart := by decide

/-- Values that do not fit their fields. -/
theorem grbmGfxIndex_composed : FieldsApart grbmGfxIndex ∧
    ∃ data, composeValues grbmGfxIndex (allFields grbmGfxIndex fun _ => 0x1FF) = some data ∧
      (∀ bitname field, fieldNamed grbmGfxIndex bitname = some field →
        ∃ sliced, umrBitsliceReg grbmGfxIndex bitname data = some sliced ∧
          sliced.toNat = (0x1FF : UInt64).toNat % 2 ^ fieldWidth field) ∧
      ∀ i, (∀ field ∈ grbmGfxIndex.bits, ¬ covers field i) → data.toNat.testBit i = false :=
  ⟨grbmGfxIndex_apart, umrBitsliceReg_composed grbmGfxIndex grbmGfxIndex_apart fun _ => 0x1FF⟩

/-! ## Selecting a bank -/

/-- `data |= ..` with a 32-bit `data`. -/
def selectValues (reg : Reg) (values : List (CString × UInt64)) : Option UInt32 :=
  values.foldlM (fun data value => (umrBitsliceComposeValue reg value.1 value.2).map
    fun composed => (data.toUInt64 ||| composed).toUInt32) 0

def broadcast : UInt32 := 0xFFFFFFFF

/-- A field for all units, or the one of a unit. -/
def unitValue (all one : List Char) (unit : UInt32) : CString × UInt64 :=
  if unit = broadcast then (bitname all, 1) else (bitname one, unit.toUInt64)

/-- The fields `umr_grbm_select_index` sets; `nv` is a family from `FAMILY_NV` on. -/
def grbmValues (nv : Bool) (se sh inst : UInt32) : List (CString × UInt64) :=
  [unitValue "INSTANCE_BROADCAST_WRITES".toList "INSTANCE_INDEX".toList inst,
    unitValue "SE_BROADCAST_WRITES".toList "SE_INDEX".toList se,
    if nv then unitValue "SA_BROADCAST_WRITES".toList "SA_INDEX".toList sh
    else unitValue "SH_BROADCAST_WRITES".toList "SH_INDEX".toList sh]

def srbmValues (me pipe queue vmid : UInt32) : List (CString × UInt64) :=
  [(bitname "PIPEID".toList, pipe.toUInt64), (bitname "MEID".toList, me.toUInt64),
    (bitname "VMID".toList, vmid.toUInt64), (bitname "QUEUEID".toList, queue.toUInt64)]

end Umr.Registers
