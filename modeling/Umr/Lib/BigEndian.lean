import Umr.Lib.Hex
import Mathlib.Data.UInt
import Mathlib.Data.Nat.Bitwise

/-!
# Big-endian bytes

A number as a fixed count of bytes, the most significant one first: how it is
folded back from them, and that printing the bytes one by one gives the same
digits as printing the number with leading zeros.
-/

set_option autoImplicit false

namespace Umr.Lib

def bigEndian : Nat → Nat → List UInt8
  | 0, _ => []
  | width + 1, n => bigEndian width (n / 256) ++ [UInt8.ofNat n]

def bigEndianValue (bytes : List UInt8) : Nat :=
  bytes.foldl (fun value byte => 256 * value + byte.toNat) 0

theorem length_bigEndian (width n : Nat) : (bigEndian width n).length = width := by
  induction width generalizing n with
  | zero => rfl
  | succ width ih =>
      rw [bigEndian, List.length_append, ih]
      rfl

theorem div_256_lt {width n : Nat} (fits : n < 256 ^ (width + 1)) : n / 256 < 256 ^ width := by
  rw [Nat.pow_succ] at fits
  exact Nat.div_lt_of_lt_mul (by rw [Nat.mul_comm]; exact fits)

theorem bigEndianValue_bigEndian (width : Nat) :
    ∀ {n : Nat}, n < 256 ^ width → bigEndianValue (bigEndian width n) = n := by
  induction width with
  | zero =>
      intro n fits
      rw [Nat.pow_zero] at fits
      change 0 = n
      omega
  | succ width ih =>
      intro n fits
      have high : bigEndianValue (bigEndian width (n / 256)) = n / 256 := ih (div_256_lt fits)
      have low : (UInt8.ofNat n).toNat = n % 256 := rfl
      rw [bigEndianValue] at high ⊢
      rw [bigEndian, List.foldl_append, high]
      change 256 * (n / 256) + (UInt8.ofNat n).toNat = n
      rw [low]
      omega

/-! ## Folding into a word -/

def shiftIn (value : UInt64) (byte : UInt8) : UInt64 := value <<< 8 ||| byte.toUInt64

theorem shiftIn_ofNat (n : Nat) (byte : UInt8) :
    shiftIn (UInt64.ofNat n) byte = UInt64.ofNat (256 * n + byte.toNat) := by
  apply UInt64.toNat_inj.mp
  have small : byte.toNat < 2 ^ 8 := byte.toNat_lt
  have shift : (8 : UInt64).toNat % 64 = 8 := by decide
  -- the bits that leave at the top leave no trace below
  have shifted : (n % 2 ^ 64) <<< 8 % 2 ^ 64 = (n % 2 ^ 56) <<< 8 := by
    rw [Nat.shiftLeft_eq, Nat.shiftLeft_eq]
    omega
  rw [shiftIn, UInt64.toNat_or, UInt64.toNat_shiftLeft, UInt64.toNat_ofNat', UInt64.toNat_ofNat',
    UInt8.toNat_toUInt64, shift, shifted, ← Nat.shiftLeft_add_eq_or_of_lt small, Nat.shiftLeft_eq]
  omega

theorem foldl_shiftIn (bytes : List UInt8) :
    bytes.foldl shiftIn 0 = UInt64.ofNat (bigEndianValue bytes) := by
  have general : ∀ n : Nat, bytes.foldl shiftIn (UInt64.ofNat n) =
      UInt64.ofNat (bytes.foldl (fun value byte => 256 * value + byte.toNat) n) := by
    induction bytes with
    | nil => exact fun n => rfl
    | cons byte bytes ih =>
        intro n
        rw [List.foldl_cons, List.foldl_cons, shiftIn_ofNat]
        exact ih _
  exact general 0

/-! ## Leading zeros -/

def printPadded (width n : Nat) : List Char :=
  List.replicate (width - (printHex n).length) '0' ++ printHex n

theorem printPadded_one {n : Nat} (small : n < 16) : printPadded 1 n = [n.digitChar] := by
  rw [printPadded, printHex, Nat.toDigits_of_lt_base small]
  rfl

theorem printPadded_succ (width n : Nat) :
    printPadded (width + 2) n = printPadded (width + 1) (n / 16) ++ [(n % 16).digitChar] := by
  unfold printPadded printHex
  by_cases small : n < 16
  · have zero : n / 16 = 0 := by omega
    have same : n % 16 = n := by omega
    rw [zero, same, Nat.toDigits_of_lt_base small, Nat.toDigits_zero]
    change List.replicate (width + 1) '0' ++ [n.digitChar] =
      (List.replicate width '0' ++ ['0']) ++ [n.digitChar]
    rw [List.replicate_succ']
  · rw [Nat.toDigits_of_base_le (by decide) (by omega), List.length_append, List.append_assoc]
    have counts : width + 2 - ((Nat.toDigits 16 (n / 16)).length + [(n % 16).digitChar].length) =
        width + 1 - (Nat.toDigits 16 (n / 16)).length := by
      change width + 2 - (_ + 1) = _
      omega
    rw [counts]

theorem printPadded_byte (byte : UInt8) : printPadded 2 byte.toNat = printByte byte := by
  have small : byte.toNat < 256 := byte.toNat_lt
  rw [printPadded_succ 0, printPadded_one (by omega)]
  rfl

theorem printPadded_bigEndian (width : Nat) : ∀ {n : Nat}, n < 256 ^ (width + 1) →
    printPadded (2 * (width + 1)) n = (bigEndian (width + 1) n).flatMap printByte := by
  have last : ∀ n : Nat, printByte (UInt8.ofNat n) =
      [(n / 16 % 16).digitChar, (n % 16).digitChar] := by
    intro n
    have low : (UInt8.ofNat n).toNat = n % 256 := rfl
    rw [printByte, low, show n % 256 / 16 = n / 16 % 16 by omega,
      show n % 256 % 16 = n % 16 by omega]
  induction width with
  | zero =>
      intro n fits
      rw [Nat.pow_one] at fits
      rw [printPadded_succ 0, printPadded_one (by omega)]
      change _ = printByte (UInt8.ofNat n) ++ []
      rw [last, show n / 16 % 16 = n / 16 by omega]
      rfl
  | succ width ih =>
      intro n fits
      have high := ih (div_256_lt fits)
      have apart : n / 16 / 16 = n / 256 := by omega
      have digits : printPadded (2 * (width + 1 + 1)) n =
          printPadded (2 * (width + 1)) (n / 256) ++ printByte (UInt8.ofNat n) := by
        rw [show 2 * (width + 1 + 1) = 2 * width + 2 + 2 by omega, printPadded_succ,
          show 2 * width + 2 + 1 = 2 * width + 1 + 2 by omega, printPadded_succ, apart,
          show 2 * width + 1 + 1 = 2 * (width + 1) by omega, List.append_assoc, last]
        rfl
      rw [digits, high, bigEndian.eq_2 n (width + 1), List.flatMap_append, List.flatMap_singleton]

end Umr.Lib
