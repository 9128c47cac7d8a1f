import Umr.Lib.Fault
import Umr.Lib.Hex
import Umr.Registers.Bitslice
import Umr.Registers.FindReg
import Umr.Rumr.Protocol

/-!
# Setting one bit-field

`umr_set_register_bit` of `set_bit.c`: a register path is taken apart, the first
field of that name is found, and the register is read, changed and written back
in one or two words.  The new bits of the field pass through a `uint32_t`.
-/

set_option autoImplicit false

namespace Umr.Registers

open Umr.Lib Umr.Rumr

/-- `undefined` is a buffer or an `int` that overflows, or a value that is never set. -/
inductive SetEnd (σ : Type) where
  | undefined
  | returned (result : Int) (state : σ)

/-- `reg_funcs` over the state of a device; a register is an address and a class. -/
structure RegPort (σ : Type) where
  readReg : UInt64 → UInt32 → σ → UInt32 × σ
  writeReg : UInt64 → UInt32 → UInt32 → σ → σ

/-! ## The path -/

structure RegPath where
  asicname : List UInt8
  ipname : List UInt8
  regname : List UInt8
  bitname : List UInt8
  deriving DecidableEq, Repr

inductive PathFault where
  | short
  | overflow
  deriving DecidableEq, Repr

/-- `%[^.]` into 128 bytes. -/
def scanPart (text : List UInt8) : Except PathFault (List UInt8 × List UInt8) :=
  if text.takeWhile (· ≠ 46) = [] then .error .short
  else if (text.takeWhile (· ≠ 46)).length < 128 then
    .ok (text.takeWhile (· ≠ 46), text.dropWhile (· ≠ 46))
  else .error .overflow

def scanDot : List UInt8 → Except PathFault (List UInt8)
  | 46 :: rest => .ok rest
  | _ => .error .short

def scanPath (regpath : List UInt8) : Except PathFault RegPath := do
  let (asicname, rest) ← scanPart regpath
  let rest ← scanDot rest
  let (ipname, rest) ← scanPart rest
  let rest ← scanDot rest
  let (regname, rest) ← scanPart rest
  let rest ← scanDot rest
  let (bitname, _) ← scanPart rest
  pure ⟨asicname, ipname, regname, bitname⟩

def isAny (name : List UInt8) : Bool := name.head? = some 42

def findBit (asicname : CString) (blocks : List IpBlock) (path : RegPath) :
    Option (Reg × Bitfield) :=
  if isAny path.asicname ∨ path.asicname = asicname.bytes then
    blocks.findSome? fun block =>
      if isAny path.ipname ∨ path.ipname = block.ipname.bytes then
        block.regs.findSome? fun reg =>
          if path.regname = reg.regname.bytes then
            (reg.bits.find? fun field => path.bitname = field.regname.bytes).map fun field =>
              (reg, field)
          else none
      else none
  else none

/-- `newregpath` has 512 bytes; `regname + 2` is behind the name if that has one letter only. -/
def newregpath (path : RegPath) : Option (List UInt8) :=
  let text := path.asicname ++ 46 :: (path.ipname ++ 46 :: (regVariant path.regname ++
    46 :: path.bitname))
  if 2 ≤ path.regname.length ∧ text.length < 512 then some text else none

def startsReg (name : List UInt8) : Bool := ascii "reg".toList <+: name

/-! ## The path that is tried again -/

section Path
variable {text rest part : List UInt8}

theorem scanPart_ok (scanned : scanPart text = .ok (part, rest)) :
    part = text.takeWhile (· ≠ 46) ∧ rest = text.dropWhile (· ≠ 46) ∧ part ≠ [] := by
  unfold scanPart at scanned
  split at scanned
  · cases scanned
  · rename_i nonempty
    split at scanned
    · cases scanned
      exact ⟨rfl, rfl, nonempty⟩
    · cases scanned

theorem scanPart_plain (plain : ∀ c ∈ part, c ≠ 46) (behind : List UInt8) :
    (part ++ 46 :: behind).takeWhile (· ≠ 46) = part ∧
      (part ++ 46 :: behind).dropWhile (· ≠ 46) = 46 :: behind := by
  have all : ∀ c ∈ part, decide (c ≠ 46) = true := fun c member => decide_eq_true (plain c member)
  constructor
  · rw [List.takeWhile_append_of_pos all]
    simp
  · rw [List.dropWhile_append_of_pos all]
    simp

theorem plain_takeWhile (text : List UInt8) : ∀ c ∈ text.takeWhile (· ≠ 46), c ≠ 46 := by
  intro c member
  have passes := List.mem_takeWhile_imp member
  exact of_decide_eq_true passes

theorem scanPath_ok {path : RegPath} (scanned : scanPath text = .ok path) :
    (∀ c ∈ path.asicname, c ≠ 46) ∧ (∀ c ∈ path.ipname, c ≠ 46) ∧ (∀ c ∈ path.regname, c ≠ 46) ∧
      ∃ ipRest regRest bitRest, text = path.asicname ++ 46 :: ipRest ∧
        ipRest = path.ipname ++ 46 :: regRest ∧ regRest = path.regname ++ 46 :: bitRest := by
  have dot : ∀ {text rest : List UInt8}, scanDot text = .ok rest → text = 46 :: rest := by
    intro text rest found
    unfold scanDot at found
    split at found
    · cases found
      rfl
    · cases found
  have piece : ∀ {text rest behind : List UInt8} {part : List UInt8},
      scanPart text = .ok (part, rest) → scanDot rest = .ok behind →
        (∀ c ∈ part, c ≠ 46) ∧ text = part ++ 46 :: behind := by
    intro text rest behind part scanned found
    obtain ⟨rfl, rfl, -⟩ := scanPart_ok scanned
    rw [← dot found, List.takeWhile_append_dropWhile]
    exact ⟨plain_takeWhile text, rfl⟩
  unfold scanPath at scanned
  obtain ⟨⟨asicname, rest⟩, isAsic, scanned⟩ := bind_ok scanned
  obtain ⟨ipRest, dot1, scanned⟩ := bind_ok scanned
  obtain ⟨⟨ipname, rest⟩, isIp, scanned⟩ := bind_ok scanned
  obtain ⟨regRest, dot2, scanned⟩ := bind_ok scanned
  obtain ⟨⟨regname, rest⟩, isReg, scanned⟩ := bind_ok scanned
  obtain ⟨bitRest, dot3, scanned⟩ := bind_ok scanned
  obtain ⟨⟨bitname, rest⟩, isBit, scanned⟩ := bind_ok scanned
  cases scanned
  obtain ⟨asicPlain, asicSplit⟩ := piece isAsic dot1
  obtain ⟨ipPlain, ipSplit⟩ := piece isIp dot2
  obtain ⟨regPlain, regSplit⟩ := piece isReg dot3
  exact ⟨asicPlain, ipPlain, regPlain, ipRest, regRest, bitRest, asicSplit, ipSplit, regSplit⟩

theorem append_dot_inj {first second : List UInt8} {left right : List UInt8}
    (plainFirst : ∀ c ∈ first, c ≠ 46) (plainSecond : ∀ c ∈ second, c ≠ 46)
    (same : first ++ 46 :: left = second ++ 46 :: right) : first = second ∧ left = right := by
  have taken := (scanPart_plain plainFirst left).1
  have dropped := (scanPart_plain plainFirst left).2
  rw [same, (scanPart_plain plainSecond right).1] at taken
  rw [same, (scanPart_plain plainSecond right).2] at dropped
  exact ⟨taken.symm, (List.cons.inj dropped).2.symm⟩

/-- The register name of a second try starts with `reg`. -/
theorem newregpath_reg {path again : RegPath} (scanned : scanPath text = .ok path)
    (renamed : newregpath path = some rest) (rescanned : scanPath rest = .ok again) :
    startsReg again.regname = true := by
  obtain ⟨asicPlain, ipPlain, regPlain, -⟩ := scanPath_ok scanned
  obtain ⟨asicAgain, ipAgain, regAgain, ipRest, regRest, bitRest, split, ipSplit, regSplit⟩ :=
    scanPath_ok rescanned
  unfold newregpath at renamed
  dsimp only at renamed
  split at renamed
  · cases renamed
    have variantPlain : ∀ c ∈ regVariant path.regname, c ≠ 46 := by
      intro c member
      rcases List.mem_append.mp member with letter | kept
      · have letters : c = 114 ∨ c = 101 ∨ c = 103 := by simpa [ascii] using letter
        rcases letters with rfl | rfl | rfl <;> decide
      · exact regPlain c (List.mem_of_mem_drop kept)
    rw [ipSplit, regSplit] at split
    obtain ⟨-, split⟩ := append_dot_inj asicPlain asicAgain split
    obtain ⟨-, split⟩ := append_dot_inj ipPlain ipAgain split
    obtain ⟨sameName, -⟩ := append_dot_inj variantPlain regAgain split
    rw [← sameName, startsReg, decide_eq_true_eq]
    exact List.prefix_append _ _
  · cases renamed

/-- How many further tries a path leads to. -/
def retries (regpath : List UInt8) : Nat :=
  match scanPath regpath with
  | .ok path => if startsReg path.regname then 0 else 1
  | .error _ => 0

theorem retries_newregpath {path : RegPath} (scanned : scanPath text = .ok path)
    (again : ¬ startsReg path.regname = true) (renamed : newregpath path = some rest) :
    retries rest < retries text := by
  have last : retries rest = 0 := by
    rw [retries]
    cases rescanned : scanPath rest with
    | error => rfl
    | ok other => exact if_pos (newregpath_reg scanned renamed rescanned)
  rw [last, retries, scanned]
  dsimp only
  rw [if_neg again]
  exact Nat.one_pos

end Path

/-! ## The field -/

def regScale (type : UInt32) : Option UInt64 :=
  if type = RegClass.mmio.code then some 4
  else if type = RegClass.didt.code ∨ type = RegClass.pcie.code ∨ type = RegClass.smc.code then
    some 1
  else none

def shiftedMask (field : Bitfield) : Option UInt64 :=
  if field.start.toNat < 64 then
    (fieldMask field).map fun mask => mask <<< field.start.toUInt64
  else none

/-- `value` is a `uint32_t`. -/
def modified (field : Bitfield) (mask copy : UInt64) (value : UInt32) : UInt64 :=
  let value := ((value.toUInt64 <<< field.start.toUInt64) &&& mask).toUInt32
  (copy &&& ~~~mask) ||| value.toUInt64

section Set
variable {σ : Type} (port : RegPort σ)

/-- `value` is `none` if `sscanf` has not set it. -/
def setField (reg : Reg) (field : Bitfield) (value : Option UInt32) (state : σ) : SetEnd σ :=
  match shiftedMask field with
  | none => .undefined
  | some mask =>
      match regScale reg.type, value with
      | none, _ => .returned (-1) state
      | some _, none => .undefined
      | some scale, some value =>
          let low := port.readReg (reg.addr * scale) reg.type state
          if reg.bit64 ≠ 0 then
            let high := port.readReg ((reg.addr + 1) * scale) reg.type low.2
            let copy := modified field mask (joinWords low.1 high.1) value
            .returned 0 (port.writeReg ((reg.addr + 1) * scale) (hiWord copy) reg.type
              (port.writeReg (reg.addr * scale) (loWord copy) reg.type high.2))
          else
            let copy := modified field mask low.1.toUInt64 value
            .returned 0 (port.writeReg (reg.addr * scale) (loWord copy) reg.type low.2)

variable (asicname : CString) (blocks : List IpBlock)

/-- A path without the field is tried again with `reg` for the first two letters of the register. -/
def setRetry (regvalue : List Char) (state : σ) (regpath : List UInt8) : SetEnd σ :=
  match scanned : scanPath regpath with
  | .error .short => .returned (-1) state
  | .error .overflow => .undefined
  | .ok path =>
      match findBit asicname blocks path with
      | some (reg, field) =>
          setField port reg field ((sscanfHex regvalue).map UInt64.toUInt32) state
      | none =>
          if again : startsReg path.regname = true then .returned (-1) state
          else
            match renamed : newregpath path with
            | none => .undefined
            | some newregpath =>
                have := retries_newregpath scanned again renamed
                setRetry regvalue state newregpath
termination_by retries regpath

def umrSetRegisterBit (regpath : CString) (regvalue : List Char) (state : σ) : SetEnd σ :=
  setRetry port asicname blocks regvalue state regpath.bytes

end Set

/-! ## What the call is for -/

/-- A path names a field as it stands, or with `reg` for the first two letters of the register. -/
def namedField (asicname : CString) (blocks : List IpBlock) (regpath : CString) :
    Option (Reg × Bitfield) := do
  let path ← (scanPath regpath.bytes).toOption
  (findBit asicname blocks path).or
    (if startsReg path.regname then none else do
      let again ← newregpath path
      let path ← (scanPath again).toOption
      findBit asicname blocks path)

structure ReadsBack {σ : Type} (port : RegPort σ) (content : σ → UInt64 → UInt32 → UInt32) :
    Prop where
  read : ∀ addr type state, (port.readReg addr type state).1 = content state addr type
  quiet : ∀ addr type state, content (port.readReg addr type state).2 = content state
  written : ∀ addr value type state,
    content (port.writeReg addr value type state) addr type = value
  others : ∀ addr value type state other otherType, (other, otherType) ≠ (addr, type) →
    content (port.writeReg addr value type state) other otherType = content state other otherType

section Content
variable {σ : Type} (content : σ → UInt64 → UInt32 → UInt32)

def regContent (reg : Reg) (state : σ) : UInt64 :=
  let scale := (regScale reg.type).getD 1
  if reg.bit64 ≠ 0 then
    joinWords (content state (reg.addr * scale) reg.type)
      (content state ((reg.addr + 1) * scale) reg.type)
  else (content state (reg.addr * scale) reg.type).toUInt64

/-- The field reads the value modulo its width, and all other bits are as they were. -/
structure FieldSet (reg : Reg) (field : Bitfield) (value : UInt32) (before after : σ) : Prop where
  reads : sliceField field (regContent content reg after) =
    some (UInt64.ofNat (value.toNat % 2 ^ fieldWidth field))
  others : ∀ i < regWidth reg, ¬ covers field i →
    (regContent content reg after).toNat.testBit i = (regContent content reg before).toNat.testBit i

end Content

/-! ## The bits of the new value -/

section Bits
variable {field : Bitfield}

instance (field : Bitfield) (i : Nat) : Decidable (covers field i) :=
  inferInstanceAs (Decidable (_ ∧ _))

theorem testBit_toNat (x : UInt64) (i : Nat) : x.toNat.testBit i = x.toBitVec.getLsbD i :=
  (BitVec.testBit_toNat x.toBitVec)

theorem testBit_or (a b : UInt64) (i : Nat) :
    (a ||| b).toNat.testBit i = (a.toNat.testBit i || b.toNat.testBit i) := by
  rw [UInt64.toNat_or, Nat.testBit_or]

theorem testBit_and (a b : UInt64) (i : Nat) :
    (a &&& b).toNat.testBit i = (a.toNat.testBit i && b.toNat.testBit i) := by
  rw [UInt64.toNat_and, Nat.testBit_and]

theorem testBit_not (a : UInt64) {i : Nat} (inside : i < 64) :
    (~~~a).toNat.testBit i = !a.toNat.testBit i := by
  rw [testBit_toNat, testBit_toNat, UInt64.toBitVec_not, BitVec.getLsbD_not, decide_eq_true inside,
    Bool.true_and]

theorem testBit_narrowed (a : UInt64) (i : Nat) :
    a.toUInt32.toUInt64.toNat.testBit i = (decide (i < 32) && a.toNat.testBit i) := by
  rw [UInt32.toNat_toUInt64, UInt64.toNat_toUInt32, Nat.testBit_mod_two_pow]

theorem shiftedMask_testBit (ordered : field.start.toNat ≤ field.stop.toNat)
    (inside : field.stop.toNat < 64) (narrow : fieldWidth field < 64) :
    ∃ mask, shiftedMask field = some mask ∧
      ∀ i, mask.toNat.testBit i = true ↔ covers field i := by
  obtain ⟨mask, isMask, maskValue⟩ := fieldMask_toNat (Nat.le_succ_of_le ordered) narrow
  refine ⟨mask <<< field.start.toUInt64, ?_, ?_⟩
  · rw [shiftedMask, if_pos (by omega), isMask]
    rfl
  · intro i
    have width : fieldWidth field = field.stop.toNat + 1 - field.start.toNat := rfl
    rw [UInt64.toNat_shiftLeft, start_shift (by omega), maskValue, Nat.testBit_mod_two_pow,
      Nat.testBit_shiftLeft, Nat.testBit_two_pow_sub_one]
    simp only [Bool.and_eq_true, decide_eq_true_eq, covers]
    omega

/-- The new bits of the field are those of the value below bit 32 of the register. -/
theorem modified_testBit {mask : UInt64} (inside : field.start.toNat < 64)
    (isMask : ∀ i, mask.toNat.testBit i = true ↔ covers field i) (copy : UInt64) (value : UInt32)
    {i : Nat} (small : i < 64) :
    (modified field mask copy value).toNat.testBit i = true ↔
      (¬ covers field i ∧ copy.toNat.testBit i = true) ∨
        (covers field i ∧ i < 32 ∧ value.toNat.testBit (i - field.start.toNat) = true) := by
  have masked : mask.toNat.testBit i = decide (covers field i) := by
    rw [Bool.eq_iff_iff, isMask, decide_eq_true_eq]
  have shifted : (value.toUInt64 <<< field.start.toUInt64).toNat.testBit i =
      (decide (field.start.toNat ≤ i) && value.toNat.testBit (i - field.start.toNat)) := by
    rw [UInt64.toNat_shiftLeft, start_shift inside, Nat.testBit_mod_two_pow, decide_eq_true small,
      Bool.true_and, Nat.testBit_shiftLeft, UInt32.toNat_toUInt64]
  unfold modified
  dsimp only
  rw [testBit_or, testBit_and, testBit_not mask small, testBit_narrowed, testBit_and, masked,
    shifted]
  simp only [Bool.or_eq_true, Bool.and_eq_true, Bool.not_eq_true', decide_eq_false_iff_not,
    decide_eq_true_eq]
  constructor
  · rintro (⟨isSet, outside⟩ | ⟨low, ⟨-, isSet⟩, within⟩)
    · exact .inl ⟨outside, isSet⟩
    · exact .inr ⟨within, low, isSet⟩
  · rintro (⟨outside, isSet⟩ | ⟨within, low, isSet⟩)
    · exact .inl ⟨isSet, outside⟩
    · exact .inr ⟨low, ⟨within.1, isSet⟩, within⟩

/-- All bits of a number in a field lie below bit 32 if and only if the number does once moved. -/
theorem low_bits_iff (n start width : Nat) :
    (∀ j < width, n.testBit j = true → start + j < 32) ↔ n % 2 ^ width * 2 ^ start < 2 ^ 32 := by
  rw [← Nat.shiftLeft_eq]
  constructor
  · intro low
    refine Nat.lt_pow_two_of_testBit _ fun i high => ?_
    rw [Nat.testBit_shiftLeft, Nat.testBit_mod_two_pow, Bool.and_eq_false_iff,
      Bool.and_eq_false_iff]
    by_cases below : start ≤ i ∧ i - start < width
    · refine .inr (.inr ?_)
      rw [Bool.eq_false_iff]
      intro isSet
      have small := low (i - start) below.2 isSet
      omega
    · by_cases atLeast : start ≤ i
      · exact .inr (.inl (decide_eq_false fun less => below ⟨atLeast, less⟩))
      · exact .inl (decide_eq_false atLeast)
  · intro fits j less isSet
    by_contra high
    have clear := Nat.testBit_lt_two_pow
      (lt_of_lt_of_le fits (Nat.pow_le_pow_right (by decide) (Nat.le_of_not_lt high)))
    rw [Nat.testBit_shiftLeft, Nat.testBit_mod_two_pow] at clear
    simp [less, isSet] at clear

theorem eq_iff_testBit_eq (a b : UInt64) :
    a = b ↔ ∀ i < 64, a.toNat.testBit i = b.toNat.testBit i := by
  constructor
  · rintro rfl i _
    rfl
  · intro same
    refine UInt64.toNat_inj.mp (Nat.eq_of_testBit_eq fun i => ?_)
    by_cases small : i < 64
    · exact same i small
    · have beyond : 2 ^ 64 ≤ 2 ^ i := Nat.pow_le_pow_right (by decide) (Nat.le_of_not_lt small)
      rw [Nat.testBit_lt_two_pow (lt_of_lt_of_le a.toNat_lt beyond),
        Nat.testBit_lt_two_pow (lt_of_lt_of_le b.toNat_lt beyond)]

/-- The field of the new value is the value modulo the width if no bit of it lies above bit 31. -/
theorem sliceField_modified_iff {mask : UInt64} (ordered : field.start.toNat ≤ field.stop.toNat)
    (inside : field.stop.toNat < 64) (narrow : fieldWidth field < 64)
    (isMask : ∀ i, mask.toNat.testBit i = true ↔ covers field i) (copy : UInt64)
    (value : UInt32) :
    sliceField field (modified field mask copy value) =
        some (UInt64.ofNat (value.toNat % 2 ^ fieldWidth field)) ↔
      value.toNat % 2 ^ fieldWidth field * 2 ^ field.start.toNat < 2 ^ 32 := by
  obtain ⟨sliced, isSliced, bits⟩ :=
    sliceField_testBit ordered inside narrow (modified field mask copy value)
  have width : fieldWidth field = field.stop.toNat + 1 - field.start.toNat := rfl
  have fits : value.toNat % 2 ^ fieldWidth field < 2 ^ 64 :=
    lt_of_le_of_lt (Nat.mod_le _ _) (lt_of_lt_of_le value.toNat_lt (by decide))
  have sliceBits : ∀ i, sliced.toNat.testBit i = true ↔
      i < fieldWidth field ∧ field.start.toNat + i < 32 ∧ value.toNat.testBit i = true := by
    intro i
    rw [bits]
    constructor
    · rintro ⟨less, isSet⟩
      have covered : covers field (field.start.toNat + i) := ⟨by omega, by omega⟩
      rw [modified_testBit (by omega) isMask copy value (by omega)] at isSet
      rcases isSet with ⟨outside, -⟩ | ⟨-, low, isSet⟩
      · exact absurd covered outside
      · rw [Nat.add_sub_cancel_left] at isSet
        exact ⟨less, low, isSet⟩
    · rintro ⟨less, low, isSet⟩
      refine ⟨less, (modified_testBit (by omega) isMask copy value (by omega)).mpr (.inr ?_)⟩
      rw [Nat.add_sub_cancel_left]
      exact ⟨⟨by omega, by omega⟩, low, isSet⟩
  rw [isSliced, Option.some.injEq, eq_iff_testBit_eq, ← low_bits_iff]
  constructor
  · intro same j less isSet
    have wide : j < 64 := by omega
    have sameBit := same j wide
    rw [UInt64.toNat_ofNat', Nat.mod_eq_of_lt fits, Nat.testBit_mod_two_pow, decide_eq_true less,
      isSet, Bool.and_self] at sameBit
    exact ((sliceBits j).mp sameBit).2.1
  · intro low i _
    rw [UInt64.toNat_ofNat', Nat.mod_eq_of_lt fits, Nat.testBit_mod_two_pow, Bool.eq_iff_iff,
      sliceBits, Bool.and_eq_true, decide_eq_true_eq]
    constructor
    · rintro ⟨less, -, isSet⟩
      exact ⟨less, isSet⟩
    · rintro ⟨less, isSet⟩
      exact ⟨less, low i less isSet, isSet⟩

end Bits

/-! ## One call -/

section Call
variable {σ : Type} {port : RegPort σ} {asicname : CString} {blocks : List IpBlock}
  {regpath : CString} {regvalue : List Char} {state : σ} {reg : Reg} {field : Bitfield}

theorem setRetry_found {text : List UInt8} {path : RegPath} (scanned : scanPath text = .ok path)
    (found : findBit asicname blocks path = some (reg, field)) :
    setRetry port asicname blocks regvalue state text =
      setField port reg field ((sscanfHex regvalue).map UInt64.toUInt32) state := by
  rw [setRetry]
  split
  · next failed => cases scanned.symm.trans failed
  · next failed => cases scanned.symm.trans failed
  · next other same =>
      cases scanned.symm.trans same
      rw [found]

theorem setRetry_again {text rest : List UInt8} {path : RegPath} (scanned : scanPath text = .ok path)
    (missing : findBit asicname blocks path = none) (again : ¬ startsReg path.regname = true)
    (renamed : newregpath path = some rest) :
    setRetry port asicname blocks regvalue state text =
      setRetry port asicname blocks regvalue state rest := by
  rw [setRetry]
  split
  · next failed => cases scanned.symm.trans failed
  · next failed => cases scanned.symm.trans failed
  · next other same =>
      cases scanned.symm.trans same
      rw [missing]
      dsimp only
      rw [dif_neg again]
      split
      · next refused => cases renamed.symm.trans refused
      · next other same => cases renamed.symm.trans same; rfl

theorem umrSetRegisterBit_named (named : namedField asicname blocks regpath = some (reg, field)) :
    umrSetRegisterBit port asicname blocks regpath regvalue state =
      setField port reg field ((sscanfHex regvalue).map UInt64.toUInt32) state := by
  rw [umrSetRegisterBit]
  unfold namedField at named
  cases scanned : scanPath regpath.bytes with
  | error fault =>
      rw [scanned] at named
      cases named
  | ok path =>
      rw [scanned] at named
      change (findBit asicname blocks path).or _ = _ at named
      cases found : findBit asicname blocks path with
      | some direct =>
          rw [found, Option.some_or] at named
          exact setRetry_found scanned (found.trans named)
      | none =>
          rw [found, Option.none_or] at named
          split at named
          · cases named
          · next again =>
              cases renamed : newregpath path with
              | none =>
                  rw [renamed] at named
                  cases named
              | some rest =>
                  rw [renamed] at named
                  change (do
                    let path ← (scanPath rest).toOption
                    findBit asicname blocks path) = _ at named
                  rw [setRetry_again scanned found again renamed]
                  cases rescanned : scanPath rest with
                  | error fault =>
                      rw [rescanned] at named
                      cases named
                  | ok path =>
                      rw [rescanned] at named
                      exact setRetry_found rescanned named

end Call

/-! ## What the register holds afterwards -/

section Written
variable {σ : Type} {port : RegPort σ} {content : σ → UInt64 → UInt32 → UInt32} {reg : Reg}
  {field : Bitfield} {state : σ}

theorem scale_apart {scale : UInt64} (known : regScale reg.type = some scale) (addr : UInt64) :
    (addr + 1) * scale ≠ addr * scale := by
  have scales : scale = 4 ∨ scale = 1 := by
    unfold regScale at known
    split at known
    · exact .inl (Option.some.inj known).symm
    · split at known
      · exact .inr (Option.some.inj known).symm
      · cases known
  intro same
  have sameNat := congrArg UInt64.toNat same
  have four : (4 : UInt64).toNat = 4 := rfl
  have bound := addr.toNat_lt
  rcases scales with rfl | rfl
  · rw [UInt64.toNat_mul, UInt64.toNat_mul, UInt64.toNat_add, UInt64.toNat_one, four] at sameNat
    omega
  · rw [UInt64.toNat_mul, UInt64.toNat_mul, UInt64.toNat_add, UInt64.toNat_one] at sameNat
    omega

theorem setField_content (memory : ReadsBack port content) {mask scale : UInt64} {value : UInt32}
    (isMask : shiftedMask field = some mask) (known : regScale reg.type = some scale) :
    ∃ after, setField port reg field (some value) state = .returned 0 after ∧
      regContent content reg after =
        if reg.bit64 ≠ 0 then modified field mask (regContent content reg state) value
        else (loWord (modified field mask (regContent content reg state) value)).toUInt64 := by
  unfold setField regContent
  rw [isMask, known]
  dsimp only
  rw [Option.getD_some]
  by_cases wide : reg.bit64 ≠ 0
  · rw [if_pos wide, if_pos wide, if_pos wide]
    have apart := scale_apart known reg.addr
    have lowApart : (reg.addr * scale, reg.type) ≠ ((reg.addr + 1) * scale, reg.type) :=
      fun same => apart (congrArg Prod.fst same).symm
    refine ⟨_, rfl, ?_⟩
    rw [if_pos wide, memory.written, memory.others _ _ _ _ _ _ lowApart, memory.written, joinWords_halves,
      memory.read, memory.read, memory.quiet]
  · rw [if_neg wide, if_neg wide, if_neg wide]
    refine ⟨_, rfl, ?_⟩
    rw [if_neg wide, memory.written, memory.read]

/-- In a register of one word nothing is cut off. -/
theorem loWord_modified {mask : UInt64} (isMask : ∀ i, mask.toNat.testBit i = true ↔ covers field i)
    (ordered : field.start.toNat ≤ field.stop.toNat) (inside : field.stop.toNat < 32)
    (copy value : UInt32) :
    (loWord (modified field mask copy.toUInt64 value)).toUInt64 =
      modified field mask copy.toUInt64 value := by
  rw [eq_iff_testBit_eq]
  intro i small
  rw [UInt32.toNat_toUInt64, loWord_toNat, Nat.testBit_mod_two_pow]
  by_cases low : i < 32
  · rw [decide_eq_true low, Bool.true_and]
  · rw [decide_eq_false low, Bool.false_and, eq_comm, Bool.eq_false_iff]
    intro isSet
    rw [modified_testBit (by omega) isMask copy.toUInt64 value small] at isSet
    rcases isSet with ⟨-, ofCopy⟩ | ⟨-, less, -⟩
    · have beyond : copy.toNat < 2 ^ i :=
        lt_of_lt_of_le copy.toNat_lt (Nat.pow_le_pow_right (by decide) (Nat.le_of_not_lt low))
      rw [UInt32.toNat_toUInt64, Nat.testBit_lt_two_pow beyond] at ofCopy
      cases ofCopy
    · exact low less

/-- The call sets the field that the path names, if and only if no bit of the value comes to lie
above bit 31 of the register. -/
theorem umrSetRegisterBit_sets_iff (memory : ReadsBack port content) {asicname : CString}
    {blocks : List IpBlock} {regpath : CString} {regvalue : List Char} {value : UInt32}
    (named : namedField asicname blocks regpath = some (reg, field))
    (isValue : (sscanfHex regvalue).map UInt64.toUInt32 = some value)
    (known : regScale reg.type ≠ none) (ordered : field.start.toNat ≤ field.stop.toNat)
    (inside : field.stop.toNat < regWidth reg) (narrow : fieldWidth field < 64) (state : σ) :
    ∃ after, umrSetRegisterBit port asicname blocks regpath regvalue state = .returned 0 after ∧
      (FieldSet content reg field value state after ↔
        value.toNat % 2 ^ fieldWidth field * 2 ^ field.start.toNat < 2 ^ 32) := by
  have small : field.stop.toNat < 64 := lt_of_lt_of_le inside (regWidth_le reg)
  obtain ⟨scale, isScale⟩ := Option.ne_none_iff_exists'.mp known
  obtain ⟨mask, isShifted, isMask⟩ := shiftedMask_testBit ordered small narrow
  obtain ⟨after, returned, holds⟩ : ∃ after,
      setField port reg field (some value) state = .returned 0 after ∧ _ :=
    setField_content memory isShifted isScale
  have whole : regContent content reg after =
      modified field mask (regContent content reg state) value := by
    rw [holds]
    split
    · rfl
    · rename_i oneWord
      have width : regWidth reg = 32 := if_pos (not_not.mp oneWord)
      have copied : regContent content reg state =
          (content state (reg.addr * scale) reg.type).toUInt64 := by
        unfold regContent
        dsimp only
        rw [if_neg oneWord, isScale, Option.getD_some]
      rw [copied]
      exact loWord_modified isMask ordered (by omega) _ value
  refine ⟨after, by rw [umrSetRegisterBit_named named, isValue, returned], ?_⟩
  rw [← sliceField_modified_iff ordered small narrow isMask (regContent content reg state) value,
    ← whole]
  refine ⟨fun set => set.reads, fun reads => ⟨reads, fun i less outside => ?_⟩⟩
  have width := regWidth_le reg
  rw [whole, Bool.eq_iff_iff, modified_testBit (by omega) isMask _ value (by omega)]
  constructor
  · rintro (⟨-, isSet⟩ | ⟨within, -⟩)
    · exact isSet
    · exact absurd within outside
  · exact fun isSet => .inl ⟨outside, isSet⟩

end Written

/-! ## A field in the upper word -/

def regMemory : RegPort (UInt64 → UInt32 → UInt32) where
  readReg addr type state := (state addr type, state)
  writeReg addr value type state :=
    fun other otherType => if (other, otherType) = (addr, type) then value else state other otherType

theorem regMemory_readsBack : ReadsBack regMemory id where
  read _ _ _ := rfl
  quiet _ _ _ := rfl
  written _ _ _ _ := if_pos rfl
  others _ _ _ _ _ _ apart := if_neg apart

def wideReg (start stop : UInt8) : Reg where
  regname := cstring "regCP".toList
  type := 0
  addr := 0x10
  bit64 := 1
  bits := [⟨cstring "F".toList, start, stop⟩]

def wideBlocks (start stop : UInt8) : List IpBlock := [namedBlock "gfx".toList [wideReg start stop]]

theorem wideBlocks_named (start stop : UInt8) :
    namedField (cstring "asic".toList) (wideBlocks start stop)
      (cstring "asic.gfx.mmCP.F".toList) =
        some (wideReg start stop, ⟨cstring "F".toList, start, stop⟩) := by
  rfl

theorem lowField_set :
    ∃ after, umrSetRegisterBit regMemory (cstring "asic".toList) (wideBlocks 4 7)
        (cstring "asic.gfx.mmCP.F".toList) "0x25".toList (fun _ _ => 0) = .returned 0 after ∧
      (FieldSet id (wideReg 4 7) ⟨cstring "F".toList, 4, 7⟩ 0x25 (fun _ _ => 0) after ↔
        (0x25 : UInt32).toNat % 2 ^ fieldWidth ⟨cstring "F".toList, 4, 7⟩ * 2 ^ (4 : UInt8).toNat <
          2 ^ 32) :=
  umrSetRegisterBit_sets_iff regMemory_readsBack (wideBlocks_named 4 7) (by rfl) (by decide)
    (by decide) (by decide) (by decide) _

/-- The value 1 is shifted out of 32 bits, and the field is cleared. -/
theorem highField_not_set : ¬ ∀ (regpath : CString) (regvalue : List Char) (value : UInt32)
    (reg : Reg) (field : Bitfield) (blocks : List IpBlock)
    (state after : UInt64 → UInt32 → UInt32),
    namedField (cstring "asic".toList) blocks regpath = some (reg, field) →
    (sscanfHex regvalue).map UInt64.toUInt32 = some value → regScale reg.type ≠ none →
    field.start.toNat ≤ field.stop.toNat → field.stop.toNat < regWidth reg →
    fieldWidth field < 64 →
    umrSetRegisterBit regMemory (cstring "asic".toList) blocks regpath regvalue state =
      .returned 0 after → FieldSet id reg field value state after := by
  intro sets
  have set := sets (cstring "asic.gfx.mmCP.F".toList) "1".toList 1 (wideReg 32 39)
    ⟨cstring "F".toList, 32, 39⟩ (wideBlocks 32 39) (fun _ _ => 0) _ (wideBlocks_named 32 39)
    (by rfl) (by decide) (by decide) (by decide) (by decide)
    ((umrSetRegisterBit_named (wideBlocks_named 32 39)).trans (by rfl))
  exact absurd set.reads (by decide)

end Umr.Registers
