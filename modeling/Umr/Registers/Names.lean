import Umr.Lib.Bytes
import Mathlib.Data.List.Lex

/-!
# Names without regard to case

`istr_cmp` of `find_reg.c` orders names by their upper-case bytes, one after
another; a name ends with a zero byte, which is below every other.
-/

set_option autoImplicit false

namespace Umr.Registers

open Umr.Lib

def toupper (c : UInt8) : UInt8 := if 97 ≤ c ∧ c ≤ 122 then c - 32 else c

/-- `istr_cmp`; at the end of a string stands its terminator. -/
def istrCmp : List UInt8 → List UInt8 → Int
  | [], b => (toupper 0).toNat - (toupper (b.headD 0)).toNat
  | up :: a, b =>
      if toupper up ≠ toupper (b.headD 0) ∨ toupper up = 0 then
        (toupper up).toNat - (toupper (b.headD 0)).toNat
      else istrCmp a b.tail

def folded (name : List UInt8) : List Nat := name.map fun c => (toupper c).toNat

def SameName (a b : List UInt8) : Prop := folded a = folded b

instance (a b : List UInt8) : Decidable (SameName a b) :=
  inferInstanceAs (Decidable (folded a = folded b))

theorem toupper_ne_zero {c : UInt8} (nonzero : c ≠ 0) : 0 < (toupper c).toNat := by
  rw [ne_eq, ← UInt8.toNat_inj] at nonzero
  rw [toupper]
  split_ifs with lower
  · simp only [UInt8.le_iff_toNat_le, UInt8.reduceToNat] at lower
    have le : (32 : UInt8) ≤ c := by
      simp only [UInt8.le_iff_toNat_le, UInt8.reduceToNat]
      omega
    simp only [UInt8.toNat_sub_of_le _ _ le, UInt8.reduceToNat]
    omega
  · exact Nat.pos_of_ne_zero nonzero

theorem istrCmp_cons {c d : UInt8} (nonzero : c ≠ 0) (a b : List UInt8) :
    istrCmp (c :: a) (d :: b) =
      if (toupper c).toNat = (toupper d).toNat then istrCmp a b
      else ((toupper c).toNat : Int) - (toupper d).toNat := by
  have positive := toupper_ne_zero nonzero
  rw [istrCmp, List.headD_cons, List.tail_cons]
  by_cases same : toupper c = toupper d
  · have going : ¬ (toupper c ≠ toupper d ∨ toupper c = 0) := by
      rintro (different | zero)
      · exact different same
      · rw [zero] at positive
        cases positive
    rw [if_neg going, if_pos (congrArg UInt8.toNat same)]
  · rw [if_pos (Or.inl same), if_neg (fun same' => same (UInt8.toNat_inj.mp same'))]

/-- The sign of the comparison is the lexicographic order of the folded names. -/
theorem istrCmp_sign {a b : List UInt8} (aEnds : ∀ c ∈ a, c ≠ 0) (bEnds : ∀ c ∈ b, c ≠ 0) :
    (istrCmp a b < 0 ↔ folded a < folded b) ∧ (istrCmp a b = 0 ↔ folded a = folded b) := by
  induction a generalizing b with
  | nil =>
      cases b with
      | nil => exact ⟨by decide, by decide⟩
      | cons d b =>
          have positive := toupper_ne_zero (bEnds d List.mem_cons_self)
          have value : istrCmp [] (d :: b) = -((toupper d).toNat : Int) := by
            rw [istrCmp]
            exact Int.zero_sub _
          rw [value]
          refine ⟨?_, ?_⟩
          · exact iff_of_true (by omega) List.Lex.nil
          · exact iff_of_false (by omega) nofun
  | cons c a ih =>
      obtain ⟨cNonzero, aRest⟩ := List.forall_mem_cons.mp aEnds
      have positive := toupper_ne_zero cNonzero
      cases b with
      | nil =>
          have value : istrCmp (c :: a) [] = ((toupper c).toNat : Int) := by
            rw [istrCmp, if_pos (Or.inl ?_)]
            · exact Int.sub_zero _
            · intro same
              rw [same] at positive
              cases positive
          rw [value]
          refine ⟨?_, ?_⟩
          · exact iff_of_false (by omega) nofun
          · exact iff_of_false (by omega) nofun
      | cons d b =>
          obtain ⟨-, bRest⟩ := List.forall_mem_cons.mp bEnds
          obtain ⟨less, same⟩ := ih aRest bRest
          rw [istrCmp_cons cNonzero]
          simp only [folded, List.map_cons, List.cons_lt_cons_iff, List.cons.injEq]
          split_ifs with first
          · simp only [first, Nat.lt_irrefl, false_or, true_and]
            exact ⟨less, same⟩
          · simp only [first, false_and, or_false, iff_false]
            omega

theorem istrCmp_neg_iff (a b : CString) :
    istrCmp a.bytes b.bytes < 0 ↔ folded a.bytes < folded b.bytes :=
  (istrCmp_sign a.terminated b.terminated).1

theorem istrCmp_zero_iff (a b : CString) :
    istrCmp a.bytes b.bytes = 0 ↔ SameName a.bytes b.bytes :=
  (istrCmp_sign a.terminated b.terminated).2

theorem istrCmp_nonpos_iff (a b : CString) :
    istrCmp a.bytes b.bytes ≤ 0 ↔ folded a.bytes ≤ folded b.bytes := by
  rw [Int.le_iff_lt_or_eq, istrCmp_neg_iff, istrCmp_zero_iff]
  exact le_iff_lt_or_eq.symm

end Umr.Registers
