import Mathlib.Data.List.Range
import Mathlib.Tactic.Common

/-!
# Circular windows

The positions of a window of a ring of `n` cells, and the copy loop that walks
a ring from a start position until it meets a stop position or has seen every
cell.
-/

set_option autoImplicit false

namespace Umr.Lib

def circularWindow (n start count : Nat) : List Nat :=
  (List.range count).map fun i => (start + i) % n

@[simp] theorem circularWindow_length (n start count : Nat) :
    (circularWindow n start count).length = count := by
  simp [circularWindow]

@[simp] theorem circularWindow_zero (n start : Nat) : circularWindow n start 0 = [] := rfl

theorem circularWindow_succ (n start count : Nat) (inside : start < n) :
    circularWindow n start (count + 1) =
      start :: circularWindow n ((start + 1) % n) count := by
  simp only [circularWindow, List.range_succ_eq_map, List.map_cons, List.map_map,
    Nat.add_zero, Nat.mod_eq_of_lt inside]
  congr 1
  apply List.map_congr_left
  intro i _
  simp only [Function.comp, Nat.mod_add_mod]
  congr 1
  omega

/-- Walk the ring until the stop position is met, at most `left` cells. -/
def walkUntil (n stop : Nat) : Nat → Nat → List Nat
  | 0, _ => []
  | left + 1, start =>
      if start = stop then [] else start :: walkUntil n stop left ((start + 1) % n)

def circularDistance (n start stop : Nat) : Nat :=
  if start ≤ stop then stop - start else stop + n - start

theorem succ_mod (n start : Nat) (inside : start < n) :
    (start + 1) % n = if start + 1 = n then 0 else start + 1 := by
  split
  · rename_i last
    rw [last, Nat.mod_self]
  · exact Nat.mod_eq_of_lt (by omega)

theorem walkUntil_meets (n stop : Nat) (stopInside : stop < n) :
    ∀ (left start : Nat), start < n → circularDistance n start stop ≤ left →
      walkUntil n stop left start =
        circularWindow n start (circularDistance n start stop) := by
  intro left
  induction left with
  | zero =>
      intro start _ near
      rw [Nat.le_zero.mp near]
      rfl
  | succ left ih =>
      intro start inside near
      by_cases met : start = stop
      · subst met
        simp [walkUntil, circularDistance]
      · have nextInside : (start + 1) % n < n := Nat.mod_lt _ (by omega)
        have shorter : circularDistance n start stop =
            circularDistance n ((start + 1) % n) stop + 1 := by
          rw [succ_mod n start inside]
          unfold circularDistance
          split_ifs <;> omega
        rw [shorter] at near ⊢
        rw [circularWindow_succ n start _ inside, walkUntil, if_neg met,
          ih _ nextInside (by omega)]

/-- A stop position off the ring is never met: the walk uses all its steps. -/
theorem walkUntil_misses (n stop : Nat) (outside : n ≤ stop) :
    ∀ (left start : Nat), start < n →
      walkUntil n stop left start = circularWindow n start left := by
  intro left
  induction left with
  | zero => intro start _; rfl
  | succ left ih =>
      intro start inside
      have different : ¬ start = stop := by omega
      rw [circularWindow_succ n start left inside, walkUntil, if_neg different,
        ih _ (Nat.mod_lt _ (by omega))]

theorem circularDistance_eq_mod (n start stop : Nat) (inside : start < n)
    (stopInside : stop < n) :
    circularDistance n start stop = (stop + n - start) % n := by
  unfold circularDistance
  split
  · rename_i order
    rw [show stop + n - start = stop - start + n by omega, Nat.add_mod_right,
      Nat.mod_eq_of_lt (by omega)]
  · exact (Nat.mod_eq_of_lt (by omega)).symm

theorem circularWindow_eq_range (n s count : Nat) (inside : s + count ≤ n) :
    circularWindow n s count = (List.range count).map fun i => s + i := by
  apply List.map_congr_left
  intro i member
  have := List.mem_range.mp member
  exact Nat.mod_eq_of_lt (by omega)

theorem circularWindow_mod (n start count : Nat) :
    circularWindow n (start % n) count = circularWindow n start count := by
  apply List.map_congr_left
  intro i _
  exact Nat.mod_add_mod start n i

end Umr.Lib
