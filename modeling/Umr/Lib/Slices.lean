import Mathlib.Data.List.Basic

/-!
# Slices of an array

Lists laid one behind the other into an array, each with the place where it went.  The places lie
apart and leave no gap.
-/

set_option autoImplicit false

namespace Umr.Lib

structure Slice where
  start : Nat
  count : Nat
  deriving DecidableEq, Repr

section Slices
variable {α : Type}

def Slice.of (slice : Slice) (array : List α) : List α :=
  (array.drop slice.start).take slice.count

def Slice.Apart (first second : Slice) : Prop :=
  first.start + first.count ≤ second.start ∨ second.start + second.count ≤ first.start

def Slice.Holds (slice : Slice) (index : Nat) : Prop :=
  slice.start ≤ index ∧ index < slice.start + slice.count

def layout (start : Nat) : List (List α) → List Slice
  | [] => []
  | part :: parts => ⟨start, part.length⟩ :: layout (start + part.length) parts

theorem layout_start_le {start : Nat} {parts : List (List α)} :
    ∀ slice ∈ layout start parts, start ≤ slice.start := by
  induction parts generalizing start with
  | nil => exact fun _ member => nomatch member
  | cons part parts ih =>
      intro slice member
      rcases List.mem_cons.mp member with rfl | later
      · exact Nat.le_refl start
      · exact Nat.le_trans (Nat.le_add_right start part.length) (ih slice later)

theorem layout_apart (start : Nat) (parts : List (List α)) :
    (layout start parts).Pairwise Slice.Apart := by
  induction parts generalizing start with
  | nil => exact List.Pairwise.nil
  | cons part parts ih =>
      refine List.Pairwise.cons ?_ (ih (start + part.length))
      intro slice later
      exact Or.inl (layout_start_le slice later)

theorem layout_covers (start : Nat) (parts : List (List α)) (index : Nat) (from_ : start ≤ index)
    (below : index < start + parts.flatten.length) :
    ∃ slice ∈ layout start parts, slice.Holds index := by
  induction parts generalizing start with
  | nil =>
      simp only [List.flatten_nil, List.length_nil] at below
      omega
  | cons part parts ih =>
      rw [List.flatten_cons, List.length_append] at below
      by_cases inside : index < start + part.length
      · exact ⟨⟨start, part.length⟩, List.mem_cons_self, from_, inside⟩
      · obtain ⟨slice, member, holds⟩ := ih (start + part.length) (by omega) (by omega)
        exact ⟨slice, List.mem_cons_of_mem _ member, holds⟩

theorem layout_concat (start : Nat) (parts : List (List α)) (part : List α) :
    layout start (parts ++ [part]) =
      layout start parts ++ [⟨start + parts.flatten.length, part.length⟩] := by
  induction parts generalizing start with
  | nil => rfl
  | cons first parts ih =>
      rw [List.cons_append, layout, ih, layout, List.flatten_cons, List.length_append, Nat.add_assoc]
      rfl

theorem length_layout (start : Nat) (parts : List (List α)) :
    (layout start parts).length = parts.length := by
  induction parts generalizing start with
  | nil => rfl
  | cons part parts ih => rw [layout, List.length_cons, List.length_cons, ih]

/-- Every part lies where its slice says. -/
theorem layout_of {parts : List (List α)} {i : Nat} {part : List α} (found : parts[i]? = some part)
    (before : List α) :
    ∃ slice, (layout before.length parts)[i]? = some slice ∧ slice.count = part.length ∧
      slice.of (before ++ parts.flatten) = part := by
  induction parts generalizing i before with
  | nil => cases found
  | cons first parts ih =>
      cases i with
      | zero =>
          cases found
          refine ⟨⟨before.length, part.length⟩, rfl, rfl, ?_⟩
          rw [Slice.of, List.drop_left, List.flatten_cons, List.take_left]
      | succ i =>
          have later := ih found (before ++ first)
          rw [List.length_append, List.append_assoc] at later
          exact later

end Slices

end Umr.Lib
