import Mathlib.Data.List.TakeWhile
import Mathlib.Tactic.IntervalCases

/-!
# Hexadecimal numerals in text

`%x` as `printf` writes it and as `scanf` reads it.  A numeral is scanned up to
the first character that is no digit, so what was printed is found again in
front of any such character.
-/

set_option autoImplicit false

namespace Umr.Lib

def isxdigit (c : Char) : Bool :=
  ('0' ≤ c ∧ c ≤ '9') ∨ ('a' ≤ c ∧ c ≤ 'f') ∨ ('A' ≤ c ∧ c ≤ 'F')

def hexVal (c : Char) : Nat :=
  if c ≤ '9' then c.toNat - 48 else if c ≤ 'F' then c.toNat - 55 else c.toNat - 87

def isspace (c : Char) : Bool :=
  c = ' ' ∨ (9 ≤ c.toNat ∧ c.toNat ≤ 13)

def hexValue (digits : List Char) : Nat := digits.foldl (fun value c => 16 * value + hexVal c) 0

def printHex (n : Nat) : List Char := Nat.toDigits 16 n

def printByte (byte : UInt8) : List Char :=
  [Nat.digitChar (byte.toNat / 16), Nat.digitChar (byte.toNat % 16)]

def skipSign : List Char → Bool × List Char
  | '-' :: rest => (true, rest)
  | '+' :: rest => (false, rest)
  | text => (false, text)

def skipPrefix : List Char → List Char
  | '0' :: 'x' :: rest => rest
  | '0' :: 'X' :: rest => rest
  | text => text

/-- `sscanf(text, "%lx", &v)` with a 64-bit `v`: blanks, a sign, `0x`, and at
least one digit.  A number that is too large saturates. -/
def sscanfHex (text : List Char) : Option UInt64 :=
  let signed := skipSign (text.dropWhile isspace)
  let digits := (skipPrefix signed.2).takeWhile isxdigit
  if digits = [] then none
  else if 2 ^ 64 ≤ hexValue digits then some 0xFFFFFFFFFFFFFFFF
  else if signed.1 then some (0 - UInt64.ofNat (hexValue digits))
  else some (UInt64.ofNat (hexValue digits))

/-! ## Digits -/

theorem isxdigit_digitChar {d : Nat} (small : d < 16) : isxdigit d.digitChar = true := by
  interval_cases d <;> decide

theorem hexVal_digitChar {d : Nat} (small : d < 16) : hexVal d.digitChar = d := by
  interval_cases d <;> decide

theorem hexValue_append (digits : List Char) (c : Char) :
    hexValue (digits ++ [c]) = 16 * hexValue digits + hexVal c := by
  rw [hexValue, hexValue, List.foldl_append]
  rfl

theorem hexValue_printHex (n : Nat) : hexValue (printHex n) = n := by
  induction n using Nat.strongRecOn with
  | ind n ih =>
      unfold printHex
      by_cases small : n < 16
      · rw [Nat.toDigits_of_lt_base small]
        change 16 * 0 + hexVal n.digitChar = n
        rw [hexVal_digitChar small]
        omega
      · have rest : hexValue (Nat.toDigits 16 (n / 16)) = n / 16 := ih (n / 16) (by omega)
        rw [Nat.toDigits_of_base_le (by decide) (by omega), hexValue_append, rest,
          hexVal_digitChar (by omega)]
        omega

/-- A numeral is made of the characters of its digits. -/
theorem forall_printHex {property : Char → Prop} (digit : ∀ d < 16, property d.digitChar) (n : Nat) :
    ∀ c ∈ printHex n, property c := by
  induction n using Nat.strongRecOn with
  | ind n ih =>
      unfold printHex
      intro c member
      by_cases small : n < 16
      · rw [Nat.toDigits_of_lt_base small, List.mem_singleton] at member
        rw [member]
        exact digit n small
      · rw [Nat.toDigits_of_base_le (by decide) (by omega), List.mem_append,
          List.mem_singleton] at member
        rcases member with before | last
        · exact ih (n / 16) (by omega) c before
        · rw [last]
          exact digit _ (by omega)

theorem isxdigit_printHex (n : Nat) : ∀ c ∈ printHex n, isxdigit c = true :=
  forall_printHex (fun _ small => isxdigit_digitChar small) n

theorem printHex_ne_nil (n : Nat) : printHex n ≠ [] := Nat.toDigits_ne_nil

/-! ## A printed numeral is scanned back -/

/-- `rest` does not go on with a character of the class. -/
def StopsAt (continues : Char → Bool) (rest : List Char) : Prop :=
  ∀ c ∈ rest.head?, continues c = false

theorem takeWhile_append_stop {continues : Char → Bool} {before rest : List Char}
    (all : ∀ c ∈ before, continues c = true) (stop : StopsAt continues rest) :
    (before ++ rest).takeWhile continues = before := by
  rw [List.takeWhile_append_of_pos all]
  cases rest with
  | nil => exact List.append_nil before
  | cons c rest =>
      rw [List.takeWhile_cons_of_neg (by simp [stop c rfl]), List.append_nil]

theorem dropWhile_append_stop {continues : Char → Bool} {before rest : List Char}
    (all : ∀ c ∈ before, continues c = true) (stop : StopsAt continues rest) :
    (before ++ rest).dropWhile continues = rest := by
  rw [List.dropWhile_append_of_pos all]
  cases rest with
  | nil => rfl
  | cons c rest => exact List.dropWhile_cons_of_neg (by simp [stop c rfl])

def printHex0x (n : Nat) : List Char := '0' :: 'x' :: printHex n

theorem sscanfHex_printHex0x {n : Nat} (fits : n < 2 ^ 64) {rest : List Char}
    (stop : StopsAt isxdigit rest) :
    sscanfHex (printHex0x n ++ rest) = some (UInt64.ofNat n) := by
  have digits : (printHex n ++ rest).takeWhile isxdigit = printHex n :=
    takeWhile_append_stop (isxdigit_printHex n) stop
  have start : (printHex0x n ++ rest).dropWhile isspace = '0' :: 'x' :: (printHex n ++ rest) :=
    List.dropWhile_cons_of_neg (by decide)
  have body : skipPrefix (skipSign ('0' :: 'x' :: (printHex n ++ rest))).2 = printHex n ++ rest :=
    rfl
  unfold sscanfHex
  rw [start]
  dsimp only
  rw [body, digits, if_neg (printHex_ne_nil n), hexValue_printHex, if_neg (by omega)]
  rfl

end Umr.Lib
