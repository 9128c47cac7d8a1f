import Mathlib.Data.List.Count
import Mathlib.Data.List.Lex
import Mathlib.Algebra.BigOperators.Group.List.Basic
import Mathlib.Algebra.GroupWithZero.Nat

/-!
# Runs of equal elements

A sorted list is cut into runs of equal elements, each counted.  Every element
has one run there, and its count is the number of times the element occurs.
-/

set_option autoImplicit false

namespace Umr.Lib

section Runs
variable {α : Type} [DecidableEq α]

/-- The runs of a list that goes on from `count` elements `first`. -/
def runsFrom (first : α) (count : Nat) : List α → List (α × Nat)
  | [] => [(first, count)]
  | a :: rest =>
      if a = first then runsFrom first (count + 1) rest else (first, count) :: runsFrom a 1 rest

def runs : List α → List (α × Nat)
  | [] => []
  | a :: rest => runsFrom a 1 rest

theorem runsFrom_ne_nil (first : α) (count : Nat) (rest : List α) :
    runsFrom first count rest ≠ [] := by
  induction rest generalizing first count with
  | nil => exact List.cons_ne_nil _ _
  | cons a rest ih =>
      rw [runsFrom]
      split
      · exact ih first (count + 1)
      · exact List.cons_ne_nil _ _

theorem runsFrom_sum (first : α) (count : Nat) (rest : List α) :
    ((runsFrom first count rest).map Prod.snd).sum = count + rest.length := by
  induction rest generalizing first count with
  | nil => simp [runsFrom]
  | cons a rest ih =>
      rw [runsFrom, List.length_cons]
      split
      · rw [ih]
        omega
      · rw [List.map_cons, List.sum_cons, ih]
        omega

/-- The counts of all runs come to the length of the list. -/
theorem runs_sum (list : List α) : ((runs list).map Prod.snd).sum = list.length := by
  cases list with
  | nil => rfl
  | cons a rest =>
      rw [runs, runsFrom_sum, List.length_cons, Nat.add_comm]

theorem runsFrom_last (first : α) (count : Nat) (rest : List α) :
    ((runsFrom first count rest).getLast?).map Prod.fst = (first :: rest).getLast? := by
  induction rest generalizing first count with
  | nil => rfl
  | cons a rest ih =>
      rw [runsFrom, List.getLast?_cons_cons]
      split
      · rename_i same
        rw [ih, same]
      · rw [List.getLast?_cons_of_ne_nil (runsFrom_ne_nil a 1 rest)]
        exact ih a 1

/-- The last run is that of the last element. -/
theorem runs_last (list : List α) : ((runs list).getLast?).map Prod.fst = list.getLast? := by
  cases list with
  | nil => rfl
  | cons a rest => exact runsFrom_last a 1 rest

section Sorted
variable {r : α → α → Prop}

theorem runsFrom_filter (antisymm : ∀ a b, r a b → r b a → a = b) {first : α} {count : Nat}
    {rest : List α} (sorted : (first :: rest).Pairwise r) (x : α) :
    (runsFrom first count rest).filter (fun run => run.1 = x) =
      if x = first then [(first, count + rest.count first)]
      else if x ∈ rest then [(x, rest.count x)] else [] := by
  induction rest generalizing first count with
  | nil =>
      by_cases own : x = first
      · simp [runsFrom, own]
      · simp [runsFrom, own, Ne.symm own]
  | cons a rest ih =>
      obtain ⟨below, tail⟩ := List.pairwise_cons.mp sorted
      obtain ⟨aBelow, restSorted⟩ := List.pairwise_cons.mp tail
      rw [runsFrom]
      by_cases same : a = first
      · subst same
        rw [if_pos rfl, ih tail, List.count_cons_self]
        by_cases own : x = a
        · rw [if_pos own, if_pos own]
          congr 2
          omega
        · rw [if_neg own, if_neg own, List.count_cons_of_ne (Ne.symm own)]
          simp only [List.mem_cons, own, false_or]
      · -- `first` does not come again: whatever follows lies between `a` and it
        have gone : first ∉ a :: rest := by
          intro member
          rcases List.mem_cons.mp member with isHead | later
          · exact same isHead.symm
          · exact same (antisymm a first (aBelow first later) (below a List.mem_cons_self))
        rw [if_neg same, List.filter_cons, ih tail]
        by_cases own : x = first
        · subst own
          have notHead : x ≠ a := fun equal => same equal.symm
          have notLater : x ∉ rest := fun later => gone (List.mem_cons_of_mem _ later)
          rw [if_pos (decide_eq_true rfl), if_neg notHead, if_neg notLater, if_pos rfl,
            List.count_eq_zero_of_not_mem gone, Nat.add_zero]
        · rw [if_neg (by simpa using Ne.symm own), if_neg own]
          by_cases isHead : x = a
          · subst isHead
            rw [if_pos rfl, if_pos List.mem_cons_self, List.count_cons_self, Nat.add_comm]
          · rw [if_neg isHead, List.count_cons_of_ne (Ne.symm isHead)]
            simp only [List.mem_cons, isHead, false_or]

/-- In a sorted list every element has exactly one run, with the number of its occurrences. -/
theorem runs_filter (antisymm : ∀ a b, r a b → r b a → a = b) {list : List α}
    (sorted : list.Pairwise r) {x : α} (member : x ∈ list) :
    (runs list).filter (fun run => run.1 = x) = [(x, list.count x)] := by
  cases list with
  | nil => cases member
  | cons a rest =>
      rw [runs, runsFrom_filter antisymm sorted x]
      by_cases own : x = a
      · subst own
        rw [if_pos rfl, List.count_cons_self, Nat.add_comm]
      · have later : x ∈ rest := (List.mem_cons.mp member).resolve_left own
        rw [if_neg own, if_pos later, List.count_cons_of_ne (Ne.symm own)]

end Sorted
end Runs

end Umr.Lib
