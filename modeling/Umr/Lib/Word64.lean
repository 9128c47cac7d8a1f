import Mathlib.Data.Nat.Bitwise
import Mathlib.Data.Nat.ModEq
import Mathlib.Tactic.NormNum
import Mathlib.Tactic.Ring

/-!
# Shifts and masks of 64-bit words

64-bit words are natural numbers below `2 ^ 64`.  A shift takes its count modulo
64, as the machine does; for a count below 64 it is a division by a power of
two, and a low mask is a remainder.
-/

set_option autoImplicit false

namespace Umr.Lib

def add64 (a b : Nat) : Nat := (a + b) % 2 ^ 64

def sub64 (a b : Nat) : Nat := (a + (2 ^ 64 - b % 2 ^ 64)) % 2 ^ 64

def shr64 (a count : Nat) : Nat := a >>> (count % 64)

def lowMask (count : Nat) : Nat := 2 ^ (count % 64) - 1

def not64 (a : Nat) : Nat := 2 ^ 64 - 1 - a

theorem add64_eq {a b : Nat} (fits : a + b < 2 ^ 64) : add64 a b = a + b :=
  Nat.mod_eq_of_lt fits

theorem shr64_eq_div {count : Nat} (a : Nat) (bound : count < 64) :
    shr64 a count = a / 2 ^ count := by
  rw [shr64, Nat.mod_eq_of_lt bound, Nat.shiftRight_eq_div_pow]

theorem lowMask_eq {count : Nat} (bound : count < 64) : lowMask count = 2 ^ count - 1 := by
  rw [lowMask, Nat.mod_eq_of_lt bound]

theorem and_lowMask {count : Nat} (a : Nat) (bound : count < 64) :
    a &&& lowMask count = a % 2 ^ count := by
  rw [lowMask_eq bound, Nat.and_two_pow_sub_one_eq_mod]

/-- A word has bits above a low mask exactly when it reaches the mask's size. -/
theorem and_not_lowMask_eq_zero {count x : Nat} (bound : count < 64) (word : x < 2 ^ 64) :
    x &&& not64 (lowMask count) = 0 ↔ x < 2 ^ count := by
  have above : not64 (lowMask count) = 2 ^ count * (2 ^ (64 - count) - 1) := by
    have split : 2 ^ 64 = 2 ^ count * 2 ^ (64 - count) := by
      rw [← pow_add]
      congr 1
      omega
    rw [not64, lowMask_eq bound, split, Nat.mul_sub, Nat.mul_one]
    have := Nat.one_le_two_pow (n := count)
    omega
  have shifted : x &&& not64 (lowMask count) = 2 ^ count * (x / 2 ^ count) := by
    rw [above]
    apply Nat.eq_of_testBit_eq
    intro i
    rw [Nat.testBit_and, Nat.testBit_two_pow_mul, Nat.testBit_two_pow_mul, Nat.testBit_div_two_pow]
    by_cases high : count ≤ i
    · have back : i - count + count = i := by omega
      simp only [high, decide_true, Bool.true_and, Nat.testBit_two_pow_sub_one, back]
      by_cases inside : i - count < 64 - count
      · simp [inside]
      · have outside : x.testBit i = false := by
          apply Nat.testBit_lt_two_pow
          exact lt_of_lt_of_le word (Nat.pow_le_pow_right (by norm_num) (by omega))
        simp [inside, outside]
    · simp [high]
  rw [shifted]
  constructor
  · intro zero
    have quotient : x / 2 ^ count = 0 := by
      rcases Nat.mul_eq_zero.mp zero with pow | quotient
      · exact absurd pow (by positivity)
      · exact quotient
    exact (Nat.div_eq_zero_iff_lt (by positivity)).mp quotient
  · intro small
    rw [Nat.div_eq_of_lt small, Nat.mul_zero]

/-- Reading one more digit of `width` bits below position `low + width` refines the
part of `a` that is already accounted for. -/
theorem digit_refines (a low width : Nat) :
    a / 2 ^ (low + width) * 2 ^ (low + width) + a / 2 ^ low % 2 ^ width * 2 ^ low =
      a / 2 ^ low * 2 ^ low := by
  rw [pow_add, ← Nat.div_div_eq_div_mul, mul_comm (2 ^ low) (2 ^ width), ← mul_assoc, ← add_mul,
    mul_comm _ (2 ^ width), Nat.div_add_mod]

theorem div_pow_congr {a b low high : Nat} (le : low ≤ high)
    (same : a / 2 ^ low = b / 2 ^ low) : a / 2 ^ high = b / 2 ^ high := by
  obtain ⟨extra, rfl⟩ := Nat.exists_eq_add_of_le le
  rw [pow_add, ← Nat.div_div_eq_div_mul, ← Nat.div_div_eq_div_mul, same]

/-- An offset that stays in the unit of `a` keeps the unit and adds to the place in it. -/
theorem add_in_unit {a offset unit : Nat} (inside : a % unit + offset < unit) :
    (a + offset) / unit = a / unit ∧ (a + offset) % unit = a % unit + offset := by
  have small : offset < unit := by omega
  have place : offset % unit = offset := Nat.mod_eq_of_lt small
  have sum : a % unit + offset % unit < unit := by rwa [place]
  rw [Nat.add_div_eq_of_add_mod_lt sum, Nat.add_mod_of_add_mod_lt sum, place,
    Nat.div_eq_of_lt small]
  exact ⟨rfl, rfl⟩

theorem mod_pow_add_le {a block low high : Nat} (le : low ≤ high)
    (inside : a % 2 ^ low + block ≤ 2 ^ low) : a % 2 ^ high + block ≤ 2 ^ high := by
  obtain ⟨extra, rfl⟩ := Nat.exists_eq_add_of_le le
  have nested : a % 2 ^ (low + extra) % 2 ^ low = a % 2 ^ low :=
    Nat.mod_mod_of_dvd a (pow_dvd_pow 2 le)
  have split := Nat.div_add_mod (a % 2 ^ (low + extra)) (2 ^ low)
  have unit : a % 2 ^ (low + extra) / 2 ^ low + 1 ≤ 2 ^ extra := by
    apply Nat.div_lt_of_lt_mul
    rw [← pow_add]
    exact Nat.mod_lt _ (by positivity)
  calc
    a % 2 ^ (low + extra) + block
        = 2 ^ low * (a % 2 ^ (low + extra) / 2 ^ low) + (a % 2 ^ low + block) := by
          rw [nested] at split
          omega
    _ ≤ 2 ^ low * (a % 2 ^ (low + extra) / 2 ^ low) + 2 ^ low := by omega
    _ = 2 ^ low * (a % 2 ^ (low + extra) / 2 ^ low + 1) := by rw [Nat.mul_add, Nat.mul_one]
    _ ≤ 2 ^ low * 2 ^ extra := Nat.mul_le_mul_left _ unit
    _ = 2 ^ (low + extra) := (pow_add 2 low extra).symm

/-- An offset into an aligned unit does not carry out of the word. -/
theorem add64_aligned {base offset unit : Nat} (le : unit ≤ 64) (aligned : base % 2 ^ unit = 0)
    (inside : offset < 2 ^ unit) : add64 base offset = base % 2 ^ 64 + offset := by
  have whole : base % 2 ^ 64 + (offset + 1) ≤ 2 ^ 64 := mod_pow_add_le le (by omega)
  unfold add64
  omega

end Umr.Lib
