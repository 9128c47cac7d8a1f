import Mathlib.Algebra.BigOperators.Group.List.Basic
import Mathlib.Algebra.GroupWithZero.Nat
import Mathlib.Data.List.Induction
import Mathlib.Data.List.Nodup

/-!
# Interning

The values of a sequence, each at the place of its first occurrence: `List.eraseDups`.
A value that comes later changes no place.
-/

set_option autoImplicit false

namespace Umr.Lib

section Interning
variable {α : Type} [DecidableEq α]

theorem eraseDups_concat (values : List α) (x : α) :
    (values ++ [x]).eraseDups =
      if x ∈ values then values.eraseDups else values.eraseDups ++ [x] := by
  rw [List.eraseDups_append]
  by_cases old : x ∈ values
  · rw [if_pos old]
    simp [List.removeAll, old]
  · rw [if_neg old]
    simp [List.removeAll, old, List.eraseDups_cons]

theorem nodup_eraseDups (values : List α) : values.eraseDups.Nodup := by
  induction values using List.reverseRecOn with
  | nil => exact List.nodup_nil
  | append_singleton values x ih =>
      rw [eraseDups_concat]
      by_cases old : x ∈ values
      · rw [if_pos old]
        exact ih
      · rw [if_neg old]
        refine List.nodup_append_comm.mp (List.nodup_cons.mpr ⟨?_, ih⟩)
        exact fun member => old (List.mem_eraseDups.mp member)

/-- The values so far keep their places. -/
theorem eraseDups_prefix (values more : List α) :
    values.eraseDups <+: (values ++ more).eraseDups := by
  rw [List.eraseDups_append]
  exact List.prefix_append _ _

theorem getElem?_idxOf_eraseDups {values : List α} {x : α} (member : x ∈ values) :
    values.eraseDups[values.eraseDups.idxOf x]? = some x := by
  have inside : values.eraseDups.idxOf x < values.eraseDups.length :=
    List.idxOf_lt_length_of_mem (List.mem_eraseDups.mpr member)
  rw [List.getElem?_eq_getElem inside, List.getElem_idxOf]

theorem idxOf_eraseDups_append {values : List α} {x : α} (member : x ∈ values) (more : List α) :
    (values ++ more).eraseDups.idxOf x = values.eraseDups.idxOf x := by
  rw [List.eraseDups_append, List.idxOf_append_of_mem (List.mem_eraseDups.mpr member)]

theorem idxOf_eraseDups_inj {values : List α} {x y : α} (xMember : x ∈ values)
    (yMember : y ∈ values) : values.eraseDups.idxOf x = values.eraseDups.idxOf y ↔ x = y := by
  constructor
  · intro same
    have xFound := getElem?_idxOf_eraseDups xMember
    rw [same, getElem?_idxOf_eraseDups yMember] at xFound
    exact (Option.some.inj xFound).symm
  · rintro rfl
    rfl

/-- Sequences without repetition have no more members than characters, but for one. -/
theorem length_le_sum_length {β : Type} {words : List (List β)} (nodup : words.Nodup) :
    words.length ≤ (words.map List.length).sum + 1 := by
  induction words with
  | nil => exact Nat.zero_le _
  | cons word words ih =>
      obtain ⟨fresh, rest⟩ := List.nodup_cons.mp nodup
      have fewer := ih rest
      rw [List.length_cons, List.map_cons, List.sum_cons]
      by_cases empty : word = []
      · have nonempty : ∀ other ∈ words, 1 ≤ other.length := by
          intro other member
          refine List.length_pos_of_ne_nil fun isNil => fresh ?_
          rw [empty, ← isNil]
          exact member
        have all : words.length ≤ (words.map List.length).sum := by
          have least := List.length_le_sum_of_one_le (words.map List.length)
            (List.forall_mem_map.mpr nonempty)
          rw [List.length_map] at least
          exact least
        omega
      · have some_ := List.length_pos_of_ne_nil empty
        omega

end Interning

end Umr.Lib
