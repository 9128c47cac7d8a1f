import Mathlib.Data.Nat.Bitwise
import Mathlib.Data.List.TakeWhile
import Mathlib.Data.UInt
import Mathlib.Tactic.NormNum

/-!
# Little-endian words and C strings

The four little-endian bytes of a 32-bit word, the two 32-bit halves of a
64-bit word, and the laws that put both back together.  Everything is stated
for arbitrary words; the reassembly proofs go through `Nat` digits so that no
bit-blasting is involved.  A C string is a list of bytes without terminator; it
is stored in fields of fixed width, padded with zeros.
-/

set_option autoImplicit false

namespace Umr.Lib

def wordBytes (value : UInt32) : List UInt8 :=
  [value.toUInt8, (value >>> 8).toUInt8, (value >>> 16).toUInt8,
    (value >>> 24).toUInt8]

/-- The 32-bit word stored in four little-endian bytes; short input reads as
zero bytes. -/
def bytesWord (bytes : List UInt8) : UInt32 :=
  UInt32.ofNat ((bytes.getD 0 0).toNat + 2 ^ 8 * (bytes.getD 1 0).toNat +
    2 ^ 16 * (bytes.getD 2 0).toNat + 2 ^ 24 * (bytes.getD 3 0).toNat)

@[simp] theorem wordBytes_length (value : UInt32) :
    (wordBytes value).length = 4 := rfl

theorem digits256 (n : Nat) (bound : n < 2 ^ 32) :
    n % 2 ^ 8 + 2 ^ 8 * (n / 2 ^ 8 % 2 ^ 8) + 2 ^ 16 * (n / 2 ^ 16 % 2 ^ 8) +
      2 ^ 24 * (n / 2 ^ 24 % 2 ^ 8) = n := by
  omega

@[simp] theorem bytesWord_wordBytes (value : UInt32) :
    bytesWord (wordBytes value) = value := by
  apply UInt32.toNat_inj.mp
  have bound : value.toNat < 2 ^ 32 := value.toNat_lt
  have digits := digits256 value.toNat bound
  simp only [bytesWord, wordBytes, List.getD_cons_zero, List.getD_cons_succ,
    UInt32.toNat_toUInt8, UInt32.toNat_shiftRight, UInt32.toNat_ofNat',
    Nat.shiftRight_eq_div_pow]
  have shift8 : (8 : UInt32).toNat % 32 = 8 := by decide
  have shift16 : (16 : UInt32).toNat % 32 = 16 := by decide
  have shift24 : (24 : UInt32).toNat % 32 = 24 := by decide
  rw [shift8, shift16, shift24, digits]
  exact Nat.mod_eq_of_lt bound

theorem wordBytes_bytesWord {bytes : List UInt8} (four : bytes.length = 4) :
    wordBytes (bytesWord bytes) = bytes := by
  obtain ⟨a, b, c, d, rfl⟩ : ∃ a b c d, bytes = [a, b, c, d] := by
    match bytes, four with
    | [a, b, c, d], _ => exact ⟨a, b, c, d, rfl⟩
  have aLt := a.toNat_lt
  have bLt := b.toNat_lt
  have cLt := c.toNat_lt
  have dLt := d.toNat_lt
  have shift8 : (8 : UInt32).toNat % 32 = 8 := by decide
  have shift16 : (16 : UInt32).toNat % 32 = 16 := by decide
  have shift24 : (24 : UInt32).toNat % 32 = 24 := by decide
  simp only [wordBytes, bytesWord, List.getD_cons_zero, List.getD_cons_succ, List.cons.injEq,
    and_true, ← UInt8.toNat_inj, UInt32.toNat_toUInt8, UInt32.toNat_shiftRight,
    UInt32.toNat_ofNat', Nat.shiftRight_eq_div_pow, shift8, shift16, shift24]
  omega

def loWord (value : UInt64) : UInt32 := (value &&& 0xFFFFFFFF).toUInt32

def hiWord (value : UInt64) : UInt32 := (value >>> 32).toUInt32

def joinWords (lo hi : UInt32) : UInt64 := lo.toUInt64 ||| (hi.toUInt64 <<< 32)

theorem joinWords_toNat (lo hi : UInt32) :
    (joinWords lo hi).toNat = lo.toNat + 2 ^ 32 * hi.toNat := by
  have loBound : lo.toNat < 2 ^ 32 := lo.toNat_lt
  have hiBound : hi.toNat < 2 ^ 32 := hi.toNat_lt
  have shift : (32 : UInt64).toNat % 64 = 32 := by decide
  have shifted : (hi.toNat <<< 32) % 2 ^ 64 = hi.toNat <<< 32 := by
    rw [Nat.shiftLeft_eq]
    exact Nat.mod_eq_of_lt (by omega)
  simp only [joinWords, UInt64.toNat_or, UInt64.toNat_shiftLeft,
    UInt32.toNat_toUInt64, shift, shifted]
  rw [Nat.or_comm, ← Nat.shiftLeft_add_eq_or_of_lt loBound, Nat.shiftLeft_eq]
  omega

theorem loWord_toNat (value : UInt64) :
    (loWord value).toNat = value.toNat % 2 ^ 32 := by
  have mask : (0xFFFFFFFF : UInt64).toNat = 2 ^ 32 - 1 := by decide
  simp only [loWord, UInt64.toNat_toUInt32, UInt64.toNat_and, mask,
    Nat.and_two_pow_sub_one_eq_mod]
  omega

theorem hiWord_toNat (value : UInt64) :
    (hiWord value).toNat = value.toNat / 2 ^ 32 := by
  have bound : value.toNat < 2 ^ 64 := value.toNat_lt
  have shift : (32 : UInt64).toNat % 64 = 32 := by decide
  simp only [hiWord, UInt64.toNat_toUInt32, UInt64.toNat_shiftRight, shift,
    Nat.shiftRight_eq_div_pow]
  omega

@[simp] theorem joinWords_halves (value : UInt64) :
    joinWords (loWord value) (hiWord value) = value := by
  apply UInt64.toNat_inj.mp
  rw [joinWords_toNat, loWord_toNat, hiWord_toNat]
  omega

@[ext] structure CString where
  bytes : List UInt8
  terminated : ∀ byte ∈ bytes, byte ≠ 0
  deriving DecidableEq

def CString.ofBuffer (buffer : List UInt8) : CString where
  bytes := buffer.takeWhile (· ≠ 0)
  terminated := by
    intro byte member
    have kept := List.mem_takeWhile_imp member
    exact of_decide_eq_true kept

theorem CString.takeWhile_padded (name : CString) (count : Nat) :
    (name.bytes ++ List.replicate count 0).takeWhile (· ≠ 0) = name.bytes := by
  have nonzero : ∀ byte ∈ name.bytes, decide (byte ≠ 0) = true := by
    intro byte member
    exact decide_eq_true (name.terminated byte member)
  rw [List.takeWhile_append_of_pos nonzero]
  cases count with
  | zero => simp
  | succ count =>
      rw [List.replicate_succ, List.takeWhile_cons]
      simp

theorem CString.ofBuffer_padded (name : CString) (count : Nat) :
    CString.ofBuffer (name.bytes ++ List.replicate count 0) = name := by
  apply CString.ext
  exact name.takeWhile_padded count

end Umr.Lib
