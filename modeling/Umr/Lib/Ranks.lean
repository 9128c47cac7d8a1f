import Mathlib.Data.List.Nodup
import Mathlib.Data.List.Perm.Subperm
import Mathlib.Data.Nat.Bitwise

/-!
# Ranks in a set of numbers

The rank of a number in a list without repetition, and the same list as the set bits
of a word: a rank is the number of bits below.
-/

set_option autoImplicit false

namespace Umr.Lib

section Ranks
variable {members : List Nat}

def rankIn (members : List Nat) (x : Nat) : Nat := members.countP (· < x)

theorem rankIn_mono (members : List Nat) {x y : Nat} (less : x ≤ y) :
    rankIn members x ≤ rankIn members y := by
  refine List.countP_mono_left fun m _ below => ?_
  exact decide_eq_true (Nat.lt_of_lt_of_le (of_decide_eq_true below) less)

theorem rankIn_strict {x y : Nat} (member : x ∈ members) (less : x < y) :
    rankIn members x < rankIn members y := by
  induction members with
  | nil => exact absurd member List.not_mem_nil
  | cons m members ih =>
      have mono := rankIn_mono members (Nat.le_of_lt less)
      unfold rankIn at mono ih ⊢
      rw [List.countP_cons, List.countP_cons]
      rcases List.mem_cons.mp member with rfl | inside
      · rw [if_neg (by simp), if_pos (decide_eq_true less)]
        omega
      · have later := ih inside
        by_cases below : m < x
        · rw [if_pos (decide_eq_true below), if_pos (decide_eq_true (below.trans less))]
          omega
        · rw [if_neg (by simpa using below)]
          split <;> omega

theorem rankIn_lt_length {x : Nat} (member : x ∈ members) : rankIn members x < members.length := by
  have all : rankIn members (x + 1) ≤ members.length := List.countP_le_length
  exact Nat.lt_of_lt_of_le (rankIn_strict member (Nat.lt_succ_self x)) all

theorem rankIn_injective {x y : Nat} (xMember : x ∈ members) (yMember : y ∈ members)
    (same : rankIn members x = rankIn members y) : x = y := by
  rcases Nat.lt_trichotomy x y with less | equal | greater
  · exact absurd same (Nat.ne_of_lt (rankIn_strict xMember less))
  · exact equal
  · exact absurd same.symm (Nat.ne_of_lt (rankIn_strict yMember greater))

/-- The ranks are all numbers from 0 on, once each. -/
theorem ranks_perm_range (nodup : members.Nodup) :
    (members.map (rankIn members)).Perm (List.range members.length) := by
  have distinct : (members.map (rankIn members)).Nodup := by
    refine List.Nodup.map_on ?_ nodup
    intro x xMember y yMember same
    exact rankIn_injective xMember yMember same
  have inside : members.map (rankIn members) ⊆ List.range members.length := by
    intro r member
    obtain ⟨x, isMember, rfl⟩ := List.mem_map.mp member
    exact List.mem_range.mpr (rankIn_lt_length isMember)
  refine (distinct.subperm inside).perm_of_length_le ?_
  rw [List.length_range, List.length_map]

end Ranks

/-! ## Bits -/

section Bits

/-- The bits that are set, as they come out of the low end; so many turns are made. -/
def setBits : Nat → Nat → Nat
  | 0, _ => 0
  | turns + 1, mask =>
      if mask = 0 then 0 else (if mask % 2 = 1 then 1 else 0) + setBits turns (mask / 2)

theorem setBits_eq_countP (turns mask : Nat) :
    setBits turns mask = (List.range turns).countP fun i => mask.testBit i := by
  induction turns generalizing mask with
  | zero => rfl
  | succ turns ih =>
      have shifted : (List.range (turns + 1)).countP (fun i => mask.testBit i) =
          (if mask % 2 = 1 then 1 else 0) + setBits turns (mask / 2) := by
        have later : (fun i => mask.testBit i) ∘ Nat.succ = fun i => (mask / 2).testBit i := by
          funext i
          exact Nat.testBit_succ mask i
        rw [List.range_succ_eq_map, List.countP_cons, List.countP_map, later, ← ih, Nat.add_comm,
          Nat.testBit_zero]
        by_cases odd : mask % 2 = 1
        · rw [if_pos (decide_eq_true odd), if_pos odd]
        · rw [if_neg (by simpa using odd), if_neg odd]
      rw [shifted, setBits]
      split
      · rename_i zero
        rw [zero, ih]
        simp
      · rfl

/-- The bits below `x` of the set of the members number its rank. -/
theorem setBits_eq_rank {members : List Nat} {turns mask x : Nat} (nodup : members.Nodup)
    (small : ∀ m ∈ members, m < turns)
    (isMask : ∀ i, mask.testBit i = decide (i ∈ members ∧ i < x)) :
    setBits turns mask = rankIn members x := by
  have same : ((List.range turns).filter fun i => mask.testBit i).Perm
      (members.filter (· < x)) := by
    refine (List.perm_ext_iff_of_nodup (List.nodup_range.filter _) (nodup.filter _)).mpr ?_
    intro i
    rw [List.mem_filter, List.mem_filter, isMask, List.mem_range, decide_eq_true_eq,
      decide_eq_true_eq]
    constructor
    · exact fun ⟨_, both⟩ => both
    · exact fun both => ⟨small i both.1, both⟩
  rw [setBits_eq_countP, rankIn, List.countP_eq_length_filter, List.countP_eq_length_filter,
    same.length_eq]

end Bits

end Umr.Lib
