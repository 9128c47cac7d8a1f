import Umr.Harness.Replay

/-!
# VRAM through the MM registers

`umr_access_vram_via_mmio` of `read_vram.c` on the registers of the test harness: an
address goes to `MM_INDEX`, with bit 31 set, and to `MM_INDEX_HI`, from bit 31 on, and a
word is moved through `MM_DATA`.  It has the effect of `access_linear_vram` where the
harness takes every word from the block that it takes the range from.
-/

set_option autoImplicit false

namespace Umr.Harness

open Umr.Lib Umr.Rumr

def indexReg (maj : Int) : IndirectReg := if 10 ≤ maj then .bifMmIndex else .mmIndex

def indexHiReg (maj : Int) : IndirectReg := if 10 ≤ maj then .bifMmIndexHi else .mmIndexHi

def dataReg (maj : Int) : IndirectReg := if 10 ≤ maj then .bifMmData else .mmData

structure MmRegs where
  index : UInt32
  indexHi : UInt32
  data : UInt32
  deriving DecidableEq, Repr

/-- The registers by name, or all three where the kernel has them. -/
def mmRegs (find : FindReg) (maj : Int) : MmRegs :=
  if find (indexReg maj) = 0xFFFFFFFF ∨ find (indexHiReg maj) = 0xFFFFFFFF ∨
      find (dataReg maj) = 0xFFFFFFFF then
    ⟨0 * 4, 6 * 4, 1 * 4⟩
  else ⟨find (indexReg maj) * 4, find (indexHiReg maj) * 4, find (dataReg maj) * 4⟩

section Access
variable (find : FindReg) (regs : MmRegs)

def writeMm (th : TestHarness) (addr value : UInt32) : Except HarnessFault TestHarness := do
  let wrote ← writeReg find th addr.toUInt64 value .mmio
  pure (wrote.getD th)

/-- One word at `address`; `value` is the word of a write. -/
def mmioWord (th : TestHarness) (address : UInt64) (value : Option UInt32) :
    Except HarnessFault (UInt32 × TestHarness) := do
  let th ← writeMm find th regs.index (address ||| 0x80000000).toUInt32
  let th ← writeMm find th regs.indexHi (address >>> 31).toUInt32
  match value with
  | none => readReg find th regs.data.toUInt64 .mmio
  | some value => do
      let th ← writeMm find th regs.data value
      pure (value, th)

/-- `while (size)`, a word at a time.  A size that is left over once the words are used up is
not a multiple of 4, and then it never becomes 0. -/
def mmioLoop : Nat → TestHarness → UInt64 → UInt32 → Option (List UInt8) →
    Except HarnessFault (List UInt8 × TestHarness)
  | 0, th, _, size, _ => if size = 0 then .ok ([], th) else .error .hang
  | words + 1, th, address, size, data =>
      if size = 0 then .ok ([], th)
      else do
        let (word, th) ← mmioWord find regs th address (data.map fun data => bytesWord (data.take 4))
        let (bytes, th) ← mmioLoop words th (address + 4) (size - 4) (data.map (List.drop 4))
        pure (wordBytes word ++ bytes, th)

end Access

/-- The bytes at `dst` and the harness afterwards; `data` is what a write stores. -/
def umrAccessVramViaMmio (find : FindReg) (maj : Int) (th : TestHarness) (address : UInt64)
    (size : UInt32) (data : Option (List UInt8)) :
    Except HarnessFault (List UInt8 × TestHarness) :=
  mmioLoop find (mmRegs find maj) (size.toNat / 4) th address size data

/-! ## The index registers -/

/-- What the two index registers shadow after both writes. -/
def mmIndexOf (address : UInt64) : UInt64 :=
  joinWords (address ||| 0x80000000).toUInt32 (address >>> 31).toUInt32

theorem highHalf_toNat (value : UInt64) :
    (value &&& (0xFFFFFFFF00000000 : UInt64)).toNat = 2 ^ 32 * (value.toNat / 2 ^ 32) := by
  have mask : (0xFFFFFFFF00000000 : UInt64).toNat = (2 ^ 32 - 1) <<< 32 := by decide
  rw [UInt64.toNat_and, mask]
  refine Nat.eq_of_testBit_eq ?_
  intro i
  rw [Nat.testBit_and, Nat.testBit_shiftLeft, Nat.testBit_two_pow_sub_one, Nat.testBit_two_pow_mul,
    Nat.testBit_div_two_pow]
  by_cases high : 32 ≤ i
  · have back : i - 32 + 32 = i := by omega
    simp only [high, decide_true, Bool.true_and, back]
    by_cases inside : i < 64
    · simp [show i - 32 < 32 by omega]
    · have outside : value.toNat.testBit i = false := by
        refine Nat.testBit_lt_two_pow (Nat.lt_of_lt_of_le value.toNat_lt ?_)
        exact Nat.pow_le_pow_right (by norm_num) (by omega)
      simp [outside]
  · simp [high]

/-- The flag goes to bit 31, whatever the address has there. -/
theorem flagged_toNat (address : UInt64) :
    (address ||| 0x80000000).toUInt32.toNat = 2 ^ 31 + address.toNat % 2 ^ 31 := by
  have flag : (0x80000000 : UInt64).toNat = 2 ^ 31 := by decide
  have apart : 2 ^ 31 + address.toNat % 2 ^ 31 = 2 ^ 31 ||| address.toNat % 2 ^ 31 := by
    have sum := Nat.two_pow_add_eq_or_of_lt
      (Nat.mod_lt address.toNat (show 0 < 2 ^ 31 by norm_num)) 1
    rwa [Nat.mul_one] at sum
  rw [UInt64.toNat_toUInt32, UInt64.toNat_or, flag, apart]
  refine Nat.eq_of_testBit_eq ?_
  intro i
  rw [Nat.testBit_mod_two_pow, Nat.testBit_or, Nat.testBit_or, Nat.testBit_mod_two_pow,
    Nat.testBit_two_pow, Bool.eq_iff_iff]
  simp only [Bool.and_eq_true, Bool.or_eq_true, decide_eq_true_eq]
  constructor
  · rintro ⟨below, isSet | flagged⟩
    · by_cases top : 31 = i
      · exact .inl top
      · exact .inr ⟨by omega, isSet⟩
    · exact .inl flagged
  · rintro (flagged | ⟨below, isSet⟩)
    · exact ⟨by omega, .inr flagged⟩
    · exact ⟨by omega, .inl isSet⟩

theorem mmIndexOf_toNat (address : UInt64) :
    (mmIndexOf address).toNat =
      2 ^ 31 + address.toNat % 2 ^ 31 + 2 ^ 32 * (address.toNat / 2 ^ 31 % 2 ^ 32) := by
  have shift : (31 : UInt64).toNat % 64 = 31 := by decide
  rw [mmIndexOf, joinWords_toNat, flagged_toNat, UInt64.toNat_toUInt32, UInt64.toNat_shiftRight,
    shift, Nat.shiftRight_eq_div_pow]

theorem mmIndexOf_flag (address : UInt64) : mmIndexOf address &&& ((1 : UInt64) <<< 31) ≠ 0 := by
  intro none
  have bit : (mmIndexOf address &&& ((1 : UInt64) <<< 31)).toNat.testBit 31 = false := by
    rw [none]
    rfl
  have flag : ((1 : UInt64) <<< 31).toNat = 2 ^ 31 := by decide
  rw [UInt64.toNat_and, flag, Nat.testBit_and, Nat.testBit_two_pow_self, Bool.and_true,
    Nat.testBit_eq_decide_div_mod_eq, mmIndexOf_toNat, decide_eq_false_iff_not] at bit
  omega

/-- The harness puts the address together again. -/
theorem mmIndexAddr_mmIndexOf {address : UInt64} (below : address.toNat < 2 ^ 63) :
    mmIndexAddr (mmIndexOf address) = address := by
  have mask : (0x7FFFFFFF : UInt64).toNat = 2 ^ 31 - 1 := by decide
  have shift : (1 : UInt64).toNat % 64 = 1 := by decide
  refine UInt64.toNat_inj.mp ?_
  rw [mmIndexAddr, UInt64.toNat_or, UInt64.toNat_and, mask, Nat.and_two_pow_sub_one_eq_mod,
    UInt64.toNat_shiftRight, highHalf_toNat, shift, mmIndexOf_toNat, Nat.or_comm]
  have low : (2 ^ 31 + address.toNat % 2 ^ 31 + 2 ^ 32 * (address.toNat / 2 ^ 31 % 2 ^ 32)) %
      2 ^ 31 = address.toNat % 2 ^ 31 := by omega
  have high : (2 ^ 32 * ((2 ^ 31 + address.toNat % 2 ^ 31 +
      2 ^ 32 * (address.toNat / 2 ^ 31 % 2 ^ 32)) / 2 ^ 32)) >>> 1 =
        2 ^ 31 * (address.toNat / 2 ^ 31) := by
    rw [Nat.shiftRight_eq_div_pow]
    omega
  rw [low, high, ← Nat.two_pow_add_eq_or_of_lt (Nat.mod_lt _ (by norm_num))]
  omega

/-- Writing both halves leaves nothing of what was there before. -/
theorem index_writes (old : UInt64) (lo hi : UInt32) :
    (((old &&& (0xFFFFFFFF00000000 : UInt64)) ||| lo.toUInt64) &&& (0xFFFFFFFF : UInt64)) |||
      (hi.toUInt64 <<< 32) = joinWords lo hi := by
  have low : ((old &&& (0xFFFFFFFF00000000 : UInt64)) ||| lo.toUInt64) &&& (0xFFFFFFFF : UInt64) =
      lo.toUInt64 := by
    refine UInt64.toNat_inj.mp ?_
    have mask : (0xFFFFFFFF : UInt64).toNat = 2 ^ 32 - 1 := by decide
    rw [UInt64.toNat_and, mask, Nat.and_two_pow_sub_one_eq_mod, UInt64.toNat_or, highHalf_toNat,
      UInt32.toNat_toUInt64, ← Nat.two_pow_add_eq_or_of_lt lo.toNat_lt, Nat.mul_add_mod,
      Nat.mod_eq_of_lt lo.toNat_lt]
  rw [low, joinWords]

/-! ## Registers that are told apart -/

/-- The other names under which the harness knows the registers. -/
def otherIndexReg (maj : Int) : IndirectReg := if 10 ≤ maj then .mmIndex else .bifMmIndex

def otherDataReg (maj : Int) : IndirectReg := if 10 ≤ maj then .mmData else .bifMmData

/-- The part defines the registers that the code looks up, at addresses of their own. -/
structure MmDefined (find : FindReg) (maj : Int) : Prop where
  known : ∀ reg ∈ [indexReg maj, indexHiReg maj, dataReg maj], find reg ≠ 0xFFFFFFFF
  index_indexHi : find (indexReg maj) ≠ find (indexHiReg maj)
  index_data : find (indexReg maj) ≠ find (dataReg maj)
  indexHi_data : find (indexHiReg maj) ≠ find (dataReg maj)
  noSq : ∀ reg ∈ [indexReg maj, indexHiReg maj, dataReg maj],
    find reg ≠ find .sqIndData ∧ find reg ≠ find .sqIndIndex

/-- Byte addresses fit 32 bits, and no register stands in for another one under the names that
the code does not look up. -/
structure MmReached (find : FindReg) (maj : Int) : Prop where
  narrow : ∀ reg ∈ [indexReg maj, indexHiReg maj, dataReg maj], (find reg).toNat < 2 ^ 30
  index_data : find (indexReg maj) ≠ find (otherDataReg maj)
  indexHi_data : find (indexHiReg maj) ≠ find (otherDataReg maj)
  indexHi_index : find (indexHiReg maj) ≠ find (otherIndexReg maj)

theorem isReg_iff {find : FindReg} {reg : IndirectReg} (narrow : (find reg).toNat < 2 ^ 30)
    (other : IndirectReg) : isReg find (find reg * 4).toUInt64 other ↔ find reg = find other := by
  have shift : (2 : UInt64).toNat % 64 = 2 := by decide
  have four : (4 : UInt32).toNat = 4 := by decide
  have dword : ((find reg * 4).toUInt64 >>> 2).toNat = (find reg).toNat := by
    rw [UInt64.toNat_shiftRight, shift, UInt32.toNat_toUInt64, UInt32.toNat_mul, four,
      Nat.shiftRight_eq_div_pow]
    omega
  rw [isReg, ← UInt64.toNat_inj, dword, UInt32.toNat_toUInt64, UInt32.toNat_inj]

theorem both_data {P : IndirectReg → Prop} {maj : Int} (own : P (dataReg maj))
    (other : P (otherDataReg maj)) : P .mmData ∧ P .bifMmData := by
  unfold dataReg at own
  unfold otherDataReg at other
  split_ifs at own other
  · exact ⟨other, own⟩
  · exact ⟨own, other⟩

theorem both_index {P : IndirectReg → Prop} {maj : Int} (own : P (indexReg maj))
    (other : P (otherIndexReg maj)) : P .mmIndex ∧ P .bifMmIndex := by
  unfold indexReg at own
  unfold otherIndexReg at other
  split_ifs at own other
  · exact ⟨other, own⟩
  · exact ⟨own, other⟩

section Registers
variable {find : FindReg} {maj : Int}

theorem mmRegs_eq (defined : MmDefined find maj) : mmRegs find maj =
    ⟨find (indexReg maj) * 4, find (indexHiReg maj) * 4, find (dataReg maj) * 4⟩ := by
  have known := defined.known
  simp only [List.mem_cons, List.not_mem_nil, or_false, forall_eq_or_imp, forall_eq] at known
  exact if_neg (by simp [known])

theorem dataReg_either (find : FindReg) (maj : Int) :
    find (dataReg maj) = find .mmData ∨ find (dataReg maj) = find .bifMmData := by
  unfold dataReg
  split_ifs
  · exact .inr rfl
  · exact .inl rfl

theorem indexReg_either (find : FindReg) (maj : Int) :
    find (indexReg maj) = find .mmIndex ∨ find (indexReg maj) = find .bifMmIndex := by
  unfold indexReg
  split_ifs
  · exact .inr rfl
  · exact .inl rfl

theorem indexHiReg_either (find : FindReg) (maj : Int) :
    find (indexHiReg maj) = find .mmIndexHi ∨ find (indexHiReg maj) = find .bifMmIndexHi := by
  unfold indexHiReg
  split_ifs
  · exact .inr rfl
  · exact .inl rfl

variable (defined : MmDefined find maj) (reached : MmReached find maj)
include defined reached

theorem writeMm_index (th : TestHarness) (value : UInt32) :
    writeMm find th (find (indexReg maj) * 4) value = .ok { th with
      vramMmIndex := (th.vramMmIndex &&& (0xFFFFFFFF00000000 : UInt64)) ||| value.toUInt64 } := by
  have narrow := reached.narrow (indexReg maj) (by simp)
  have noSq := defined.noSq (indexReg maj) (by simp)
  have noData : find (indexReg maj) ≠ find .mmData ∧ find (indexReg maj) ≠ find .bifMmData :=
    both_data (P := fun reg => find (indexReg maj) ≠ find reg) defined.index_data
      reached.index_data
  simp only [writeMm, writeReg, isReg_iff narrow, ne_eq, not_true, noSq.1, noSq.2, noData.1,
    noData.2, or_self, if_false, if_pos (indexReg_either find maj)]
  rfl

theorem writeMm_indexHi (th : TestHarness) (value : UInt32) :
    writeMm find th (find (indexHiReg maj) * 4) value = .ok { th with
      vramMmIndex := (th.vramMmIndex &&& (0xFFFFFFFF : UInt64)) ||| (value.toUInt64 <<< 32) } := by
  have narrow := reached.narrow (indexHiReg maj) (by simp)
  have noSq := defined.noSq (indexHiReg maj) (by simp)
  have noData : find (indexHiReg maj) ≠ find .mmData ∧ find (indexHiReg maj) ≠ find .bifMmData :=
    both_data (P := fun reg => find (indexHiReg maj) ≠ find reg) defined.indexHi_data
      reached.indexHi_data
  have noIndex : find (indexHiReg maj) ≠ find .mmIndex ∧
      find (indexHiReg maj) ≠ find .bifMmIndex :=
    both_index (P := fun reg => find (indexHiReg maj) ≠ find reg) defined.index_indexHi.symm
      reached.indexHi_index
  simp only [writeMm, writeReg, isReg_iff narrow, ne_eq, not_true, noSq.1, noSq.2, noData.1,
    noData.2, noIndex.1, noIndex.2, or_self, if_false, if_pos (indexHiReg_either find maj)]
  rfl

/-- Both index registers are written before the word is moved. -/
theorem mmioWord_indexed (th : TestHarness) (address : UInt64) (value : Option UInt32) :
    mmioWord find (mmRegs find maj) th address value =
      match value with
      | none => readReg find { th with vramMmIndex := mmIndexOf address }
          (find (dataReg maj) * 4).toUInt64 .mmio
      | some value => (writeMm find { th with vramMmIndex := mmIndexOf address }
          (find (dataReg maj) * 4) value).map fun after => (value, after) := by
  have index : ({ th with vramMmIndex := mmIndexOf address } : TestHarness) = { th with
      vramMmIndex := (((th.vramMmIndex &&& (0xFFFFFFFF00000000 : UInt64)) |||
        (address ||| 0x80000000).toUInt32.toUInt64) &&& (0xFFFFFFFF : UInt64)) |||
          ((address >>> 31).toUInt32.toUInt64 <<< 32) } := by
    rw [index_writes]
    rfl
  rw [mmioWord, mmRegs_eq defined, writeMm_index defined reached, index]
  change (writeMm find _ (find (indexHiReg maj) * 4) _ >>= _) = _
  rw [writeMm_indexHi defined reached]
  cases value with
  | none => rfl
  | some value =>
      change (writeMm find _ (find (dataReg maj) * 4) value >>= fun after => pure (value, after)) =
        (writeMm find _ (find (dataReg maj) * 4) value).map fun after => (value, after)
      generalize writeMm find _ (find (dataReg maj) * 4) value = wrote
      cases wrote <;> rfl

/-- A word of the sequence is a word at its address in VRAM. -/
theorem mmioWord_eq (th : TestHarness) {address : UInt64} (below : address.toNat < 2 ^ 63)
    (value : Option UInt32) :
    mmioWord find (mmRegs find maj) th address value =
      (accessLinearVram { th with vramMmIndex := mmIndexOf address } address 4
        (value.map wordBytes)).map fun found =>
          match found with
          | some (bytes, after) => (value.getD (bytesWord bytes),
              if value.isSome then after else { th with vramMmIndex := mmIndexOf address })
          | none => (value.getD 0, { th with vramMmIndex := mmIndexOf address }) := by
  have narrow := reached.narrow (dataReg maj) (by simp)
  have noSq := defined.noSq (dataReg maj) (by simp)
  rw [mmioWord_indexed defined reached]
  generalize place : ({ th with vramMmIndex := mmIndexOf address } : TestHarness) = indexed
  have flag : indexed.vramMmIndex &&& ((1 : UInt64) <<< 31) ≠ 0 := by
    rw [← place]
    exact mmIndexOf_flag address
  have target : mmIndexAddr indexed.vramMmIndex = address := by
    rw [← place]
    exact mmIndexAddr_mmIndexOf below
  cases value with
  | none =>
      simp only [readReg, isReg_iff narrow, ne_eq, not_true, noSq.1, noSq.2, if_false,
        if_pos (dataReg_either find maj), readMmData, if_pos flag, target, Option.map_none,
        Option.getD_none]
      cases accessLinearVram indexed address 4 none with
      | error fault => rfl
      | ok found => cases found <;> rfl
  | some value =>
      simp only [writeMm, writeReg, isReg_iff narrow, ne_eq, not_true, noSq.1, noSq.2, if_false,
        if_pos (dataReg_either find maj), if_pos flag, target, Option.map_some, Option.getD_some]
      cases accessLinearVram indexed address 4 (some (wordBytes value)) with
      | error fault => rfl
      | ok found => cases found <;> rfl

end Registers

/-! ## One block -/

/-- The bytes at `dst` and the contents afterwards, for `size` bytes of a block. -/
def blockAccess (contents : List UInt8) (offset size : Nat) :
    Option (List UInt8) → List UInt8 × List UInt8
  | none => ((contents.drop offset).take size, contents)
  | some data =>
      (data, contents.take offset ++ data.take size ++ contents.drop (offset + size))

theorem blockAccess_length (contents : List UInt8) {offset size : Nat}
    (inside : offset + size ≤ contents.length) {data : Option (List UInt8)}
    (sized : ∀ bytes, data = some bytes → bytes.length = size) :
    (blockAccess contents offset size data).2.length = contents.length := by
  cases data with
  | none => rfl
  | some data =>
      simp only [blockAccess, List.length_append, List.length_take, List.length_drop,
        sized data rfl]
      omega

theorem blockAccess_zero (contents : List UInt8) (offset : Nat) {data : Option (List UInt8)}
    (sized : ∀ bytes, data = some bytes → bytes.length = 0) :
    blockAccess contents offset 0 data = ([], contents) := by
  cases data with
  | none => rfl
  | some data =>
      have empty : data = [] := List.length_eq_zero_iff.mp (sized data rfl)
      simp [blockAccess, empty]

/-- A block is accessed in two pieces like at once. -/
theorem blockAccess_add (contents : List UInt8) {offset first rest : Nat}
    (inside : offset + (first + rest) ≤ contents.length) {data : Option (List UInt8)}
    (sized : ∀ bytes, data = some bytes → bytes.length = first + rest) :
    let head := blockAccess contents offset first (data.map (List.take first))
    let tail := blockAccess head.2 (offset + first) rest (data.map (List.drop first))
    blockAccess contents offset (first + rest) data = (head.1 ++ tail.1, tail.2) := by
  cases data with
  | none =>
      simp only [blockAccess, Option.map_none, List.take_add, List.drop_drop]
  | some data =>
      have length := sized data rfl
      have headTake : (data.take first).take first = data.take first := by
        rw [List.take_take, Nat.min_self]
      have wholeTake : data.take (first + rest) = data := List.take_of_length_le (by omega)
      have restTake : (data.drop first).take rest = data.drop first :=
        List.take_of_length_le (by rw [List.length_drop]; omega)
      have kept : (contents.take offset ++ data.take first).length = offset + first := by
        simp only [List.length_append, List.length_take]
        omega
      have front : (contents.take offset ++ data.take first ++ contents.drop (offset + first)).take
          (offset + first) = contents.take offset ++ data.take first := List.take_left' kept
      have back : (contents.take offset ++ data.take first ++ contents.drop (offset + first)).drop
          (offset + first + rest) = contents.drop (offset + (first + rest)) := by
        rw [List.drop_append, List.drop_eq_nil_of_le (by omega), List.nil_append, kept,
          List.drop_drop]
        congr 1
        omega
      simp only [blockAccess, Option.map_some, headTake, wholeTake, restTake, front, back,
        List.take_append_drop]
      rw [List.append_assoc (contents.take offset) (data.take first), List.take_append_drop]

theorem covers_toNat {address : UInt64} {size : UInt32}
    (below : address.toNat + size.toNat ≤ 2 ^ 63) (block : RamBlock) :
    block.covers address size = true ↔ block.baseAddress.toNat ≤ address.toNat ∧
      address.toNat + size.toNat ≤ block.baseAddress.toNat + block.size.toNat := by
  rw [RamBlock.covers, decide_eq_true_eq, UInt64.le_iff_toNat_le, UInt64.le_iff_toNat_le,
    UInt64.toNat_add, UInt64.toNat_add, UInt32.toNat_toUInt64, UInt32.toNat_toUInt64,
    Nat.mod_eq_of_lt (show address.toNat + size.toNat < 2 ^ 64 by omega)]
  have small := block.size.toNat_lt
  constructor
  · rintro ⟨low, high⟩
    rw [Nat.mod_eq_of_lt (by omega)] at high
    exact ⟨low, high⟩
  · rintro ⟨low, high⟩
    rw [Nat.mod_eq_of_lt (by omega)]
    exact ⟨low, high⟩

/-- The first block that covers the range is the one that is accessed. -/
theorem accessBlocks_first {before after : List RamBlock} {block : RamBlock} {address : UInt64}
    {size : UInt32} (first : ∀ other ∈ before, other.covers address size = false)
    (covers : block.covers address size = true) {offset : Nat}
    (place : (address - block.baseAddress).toNat = offset)
    (inside : offset + size.toNat ≤ block.contents.length) (data : Option (List UInt8)) :
    accessBlocks address size data (before ++ block :: after) =
      .ok (some ((blockAccess block.contents offset size.toNat data).1,
        before ++ { block with
          contents := (blockAccess block.contents offset size.toNat data).2 } :: after)) := by
  induction before with
  | nil =>
      rw [List.nil_append, accessBlocks, if_pos covers]
      simp only [place]
      rw [if_neg (by omega)]
      cases data <;> rfl
  | cons other before ih =>
      rw [List.cons_append, accessBlocks,
        if_neg (by rw [first other List.mem_cons_self]; exact Bool.false_ne_true),
        ih fun other member => first other (List.mem_cons_of_mem _ member)]
      rfl

/-! ## The range -/

section Range
variable {find : FindReg} {maj : Int} (defined : MmDefined find maj) (reached : MmReached find maj)
  {before after : List RamBlock} {block : RamBlock}
include defined reached

theorem mmioWord_block {th : TestHarness} {contents : List UInt8}
    (vram : th.ram .vram = before ++ { block with contents := contents } :: after)
    (filled : contents.length = block.size.toNat) {address : UInt64}
    (low : block.baseAddress.toNat ≤ address.toNat)
    (high : address.toNat + 4 ≤ block.baseAddress.toNat + block.size.toNat)
    (below : address.toNat + 4 ≤ 2 ^ 63)
    (first : ∀ other ∈ before, other.covers address 4 = false) {data : Option (List UInt8)}
    (sized : ∀ bytes, data = some bytes → bytes.length = 4) :
    let moved := blockAccess contents (address.toNat - block.baseAddress.toNat) 4 data
    ∃ word, mmioWord find (mmRegs find maj) th address (data.map bytesWord) =
        .ok (word, { th with
          ram := Function.update th.ram .vram
            (before ++ { block with contents := moved.2 } :: after)
          vramMmIndex := mmIndexOf address }) ∧
      wordBytes word = moved.1 := by
  have four : (4 : UInt32).toNat = 4 := rfl
  have covers : ({ block with contents := contents } : RamBlock).covers address 4 = true :=
    (covers_toNat (by rw [four]; exact below) _).mpr ⟨low, by rw [four]; exact high⟩
  have place : (address - block.baseAddress).toNat = address.toNat - block.baseAddress.toNat :=
    UInt64.toNat_sub_of_le _ _ (UInt64.le_iff_toNat_le.mpr low)
  have stored : (data.map bytesWord).map wordBytes = data := by
    cases data with
    | none => rfl
    | some bytes => exact congrArg some (wordBytes_bytesWord (sized bytes rfl))
  have found : accessBlocks address 4 data (th.ram .vram) = .ok (some
      ((blockAccess contents (address.toNat - block.baseAddress.toNat) 4 data).1,
        before ++ { block with contents :=
          (blockAccess contents (address.toNat - block.baseAddress.toNat) 4 data).2 } :: after)) := by
    rw [vram]
    exact accessBlocks_first first covers place (by rw [four]; dsimp only; omega) data
  have linear : accessLinearVram { th with vramMmIndex := mmIndexOf address } address 4 data =
      .ok (some ((blockAccess contents (address.toNat - block.baseAddress.toNat) 4 data).1,
        { th with
          ram := Function.update th.ram .vram (before ++ { block with contents :=
            (blockAccess contents (address.toNat - block.baseAddress.toNat) 4 data).2 } :: after)
          vramMmIndex := mmIndexOf address })) := by
    rw [accessLinearVram, accessMemory]
    simp only [ramKind, found]
    rfl
  rw [mmioWord_eq defined reached th (by omega), stored, linear]
  cases data with
  | none =>
      refine ⟨_, ?_, wordBytes_bytesWord ?_⟩
      · simp only [Except.map, Option.map_none, Option.getD_none, Option.isSome_none,
          Bool.false_eq_true, if_false, blockAccess, ← vram, Function.update_eq_self]
      · simp only [blockAccess, List.length_take, List.length_drop]
        omega
  | some bytes => exact ⟨_, rfl, wordBytes_bytesWord (sized bytes rfl)⟩

theorem mmioLoop_block {words : Nat} {th : TestHarness} {contents : List UInt8}
    (vram : th.ram .vram = before ++ { block with contents := contents } :: after)
    (filled : contents.length = block.size.toNat) {address : UInt64} {size : UInt32}
    (count : size.toNat = 4 * words) (low : block.baseAddress.toNat ≤ address.toNat)
    (high : address.toNat + size.toNat ≤ block.baseAddress.toNat + block.size.toNat)
    (below : address.toNat + size.toNat ≤ 2 ^ 63)
    (alone : ∀ other ∈ before, ∀ word : UInt64, address.toNat ≤ word.toNat →
      word.toNat + 4 ≤ address.toNat + size.toNat → word.toNat % 4 = address.toNat % 4 →
        other.covers word 4 = false)
    {data : Option (List UInt8)} (sized : ∀ bytes, data = some bytes → bytes.length = size.toNat) :
    let moved := blockAccess contents (address.toNat - block.baseAddress.toNat) size.toNat data
    ∃ index, mmioLoop find (mmRegs find maj) words th address size data =
      .ok (moved.1, { th with
        ram := Function.update th.ram .vram (before ++ { block with contents := moved.2 } :: after)
        vramMmIndex := index }) := by
  induction words generalizing th contents address size data with
  | zero =>
      have none : size = 0 := UInt32.toNat_inj.mp count
      refine ⟨th.vramMmIndex, ?_⟩
      rw [mmioLoop, if_pos none, count]
      rw [count] at sized
      rw [Nat.mul_zero, blockAccess_zero contents _ sized]
      simp only [← vram, Function.update_eq_self]
  | succ words ih =>
      have some_size : ¬ size = 0 := by
        intro none
        rw [none] at count
        have zero : (0 : UInt32).toNat = 0 := rfl
        omega
      have nextAddress : (address + 4).toNat = address.toNat + 4 := by
        have four : (4 : UInt64).toNat = 4 := rfl
        rw [UInt64.toNat_add, four, Nat.mod_eq_of_lt (by omega)]
      have nextSize : (size - 4).toNat = size.toNat - 4 := by
        have four : (4 : UInt32).toNat = 4 := rfl
        rw [UInt32.toNat_sub_of_le _ _ (by rw [UInt32.le_iff_toNat_le, four]; omega), four]
      have headSized : ∀ bytes, data.map (List.take 4) = some bytes → bytes.length = 4 := by
        intro bytes isHead
        obtain ⟨whole, isData, rfl⟩ := Option.map_eq_some_iff.mp isHead
        rw [List.length_take, sized whole isData]
        omega
      have tailSized : ∀ bytes, data.map (List.drop 4) = some bytes →
          bytes.length = (size - 4).toNat := by
        intro bytes isTail
        obtain ⟨whole, isData, rfl⟩ := Option.map_eq_some_iff.mp isTail
        rw [List.length_drop, sized whole isData, nextSize]
      obtain ⟨word, isWord, wordIs⟩ := mmioWord_block defined reached vram filled low (by omega)
        (by omega) (fun other member => alone other member address (le_refl _) (by omega) rfl)
        headSized
      rw [Option.map_map] at isWord
      obtain ⟨head, isHead⟩ : ∃ head, head =
        blockAccess contents (address.toNat - block.baseAddress.toNat) 4
          (data.map (List.take 4)) := ⟨_, rfl⟩
      rw [← isHead] at isWord wordIs
      have headLength : head.2.length = block.size.toNat := by
        rw [isHead, blockAccess_length contents (by omega) headSized, filled]
      obtain ⟨between, isBetween⟩ : ∃ between : TestHarness, between = { th with
        ram := Function.update th.ram .vram (before ++ { block with contents := head.2 } :: after)
        vramMmIndex := mmIndexOf address } := ⟨_, rfl⟩
      have vramBetween : between.ram .vram =
          before ++ { block with contents := head.2 } :: after := by
        rw [isBetween]
        exact Function.update_self RamKind.vram _ th.ram
      rw [← isBetween] at isWord
      have aloneLater : ∀ other ∈ before, ∀ later : UInt64, (address + 4).toNat ≤ later.toNat →
          later.toNat + 4 ≤ (address + 4).toNat + (size - 4).toNat →
          later.toNat % 4 = (address + 4).toNat % 4 → other.covers later 4 = false := by
        intro other member later lowLater highLater same
        exact alone other member later (by omega) (by omega) (by omega)
      obtain ⟨index, rest⟩ := ih vramBetween headLength (by omega) (by omega) (by omega) (by omega)
        aloneLater tailSized
      have whole := blockAccess_add contents
        (show address.toNat - block.baseAddress.toNat + (4 + (size - 4).toNat) ≤ contents.length by
          omega)
        (fun bytes isData => (sized bytes isData).trans (show size.toNat = 4 + (size - 4).toNat by
          omega))
      have place : (address + 4).toNat - block.baseAddress.toNat =
          address.toNat - block.baseAddress.toNat + 4 := by omega
      rw [show 4 + (size - 4).toNat = size.toNat by omega] at whole
      rw [place] at rest
      refine ⟨index, ?_⟩
      rw [mmioLoop, if_neg some_size]
      change (mmioWord find (mmRegs find maj) th address
        (data.map (bytesWord ∘ List.take 4)) >>= _) = _
      rw [isWord]
      change (mmioLoop find (mmRegs find maj) words between (address + 4) (size - 4)
        (data.map (List.drop 4)) >>= _) = _
      rw [rest, whole, ← isHead, wordIs, isBetween]
      simp only [Function.update_idem]
      rfl

end Range

/-- The bytes at `dst` and the harness after the sequence are those of a direct access, apart from
the index registers; no block before the first that covers the range may cover a word of it. -/
theorem umrAccessVramViaMmio_agrees (find : FindReg) (maj : Int) (defined : MmDefined find maj)
    (reached : MmReached find maj) (th : TestHarness) (address : UInt64) (size : UInt32)
    (words : size.toNat % 4 = 0) (below : address.toNat + size.toNat ≤ 2 ^ 63)
    (before after : List RamBlock) (block : RamBlock)
    (vram : th.ram .vram = before ++ block :: after)
    (filled : block.contents.length = block.size.toNat)
    (covers : block.covers address size = true)
    (first : ∀ other ∈ before, other.covers address size = false)
    (alone : ∀ other ∈ before, ∀ word : UInt64, address.toNat ≤ word.toNat →
      word.toNat + 4 ≤ address.toNat + size.toNat → word.toNat % 4 = address.toNat % 4 →
        other.covers word 4 = false)
    (data : Option (List UInt8)) (sized : ∀ bytes, data = some bytes → bytes.length = size.toNat) :
    ∃ bytes direct index, accessLinearVram th address size data = .ok (some (bytes, direct)) ∧
      umrAccessVramViaMmio find maj th address size data =
        .ok (bytes, { direct with vramMmIndex := index }) := by
  obtain ⟨low, high⟩ := (covers_toNat below block).mp covers
  have place : (address - block.baseAddress).toNat = address.toNat - block.baseAddress.toNat :=
    UInt64.toNat_sub_of_le _ _ (UInt64.le_iff_toNat_le.mpr low)
  obtain ⟨index, ran⟩ := mmioLoop_block defined reached vram filled
    (show size.toNat = 4 * (size.toNat / 4) by omega) low high below alone sized
  refine ⟨_, { th with
    ram := Function.update th.ram .vram (before ++ { block with contents :=
      (blockAccess block.contents (address.toNat - block.baseAddress.toNat) size.toNat data).2 } ::
        after) }, index, ?_, ran⟩
  rw [accessLinearVram, accessMemory]
  simp only [ramKind, vram]
  rw [accessBlocks_first first covers place (by omega) data]
  rfl

/-! A block around bit 31. -/

def kernelRegs : FindReg
  | .bifMmIndex => 0
  | .bifMmIndexHi => 6
  | .bifMmData => 1
  | _ => 0xFFFFFFFF

def vramHarness (vram : List RamBlock) : TestHarness :=
  { TestHarness.empty with ram := fun kind => if kind = .vram then vram else [] }

def splitBlock : RamBlock := ⟨0x7FFFFFF8, 16, (List.range 16).map UInt8.ofNat⟩

theorem kernelRegs_defined : MmDefined kernelRegs 10 := by
  constructor <;> decide

theorem kernelRegs_reached : MmReached kernelRegs 10 := by
  constructor <;> decide

theorem splitBlock_agrees :
    ∃ bytes direct index,
      accessLinearVram (vramHarness [splitBlock]) 0x7FFFFFFC 8 (some [1, 2, 3, 4, 5, 6, 7, 8]) =
        .ok (some (bytes, direct)) ∧
      umrAccessVramViaMmio kernelRegs 10 (vramHarness [splitBlock]) 0x7FFFFFFC 8
        (some [1, 2, 3, 4, 5, 6, 7, 8]) = .ok (bytes, { direct with vramMmIndex := index }) :=
  umrAccessVramViaMmio_agrees kernelRegs 10 kernelRegs_defined kernelRegs_reached
    (vramHarness [splitBlock]) 0x7FFFFFFC 8 (by decide) (by decide) [] [] splitBlock rfl (by decide)
    (by decide) (fun _ member => nomatch member) (fun _ member => nomatch member)
    (some [1, 2, 3, 4, 5, 6, 7, 8]) (by rintro bytes ⟨⟩; rfl)

/-! ## Where the two accesses part -/

def bothReads (find : FindReg) (vram : List RamBlock) (address : UInt64) (size : UInt32) :
    Option (List UInt8) × Option (List UInt8) :=
  ((accessLinearVram (vramHarness vram) address size none).toOption.join.map Prod.fst,
    (umrAccessVramViaMmio find 10 (vramHarness vram) address size none).toOption.map Prod.fst)

/-- Index register at a dword address from 2^30 on. -/
def wideRegs : FindReg
  | .bifMmIndex => 0x40000001
  | reg => kernelRegs reg

/-- The plain data register where the other variant has its index register. -/
def crossedRegs : FindReg
  | .mmData => 0
  | reg => kernelRegs reg

/-- A smaller block in front of the one that covers the range; a range across 2^63, where the high
index has no bit left; a register whose byte address does not fit 32 bits; and a register that has
the address of another one under the name the code does not look up. -/
theorem viaMmio_differs :
    bothReads kernelRegs [⟨4, 4, [9, 9, 9, 9]⟩, ⟨0, 8, [1, 2, 3, 4, 5, 6, 7, 8]⟩] 0 8 =
        (some [1, 2, 3, 4, 5, 6, 7, 8], some [1, 2, 3, 4, 9, 9, 9, 9]) ∧
      bothReads kernelRegs [⟨2 ^ 63 - 4, 8, [1, 2, 3, 4, 5, 6, 7, 8]⟩] (2 ^ 63 - 4) 8 =
        (some [1, 2, 3, 4, 5, 6, 7, 8], some [1, 2, 3, 4, 0, 0, 0, 0]) ∧
      MmDefined wideRegs 10 ∧
      bothReads wideRegs [⟨0, 4, [1, 2, 3, 4]⟩] 0 4 = (some [1, 2, 3, 4], some [0, 0, 0, 0]) ∧
      MmDefined crossedRegs 10 ∧
      bothReads crossedRegs [⟨0, 4, [1, 2, 3, 4]⟩] 0 4 =
        (some [1, 2, 3, 4], some [0, 0, 0, 0]) := by
  refine ⟨by decide +kernel, by decide +kernel, ?_, by decide +kernel, ?_, by decide +kernel⟩
  · constructor <;> decide
  · constructor <;> decide

end Umr.Harness
