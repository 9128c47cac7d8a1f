import Mathlib.Data.List.Basic

/-!
# Buffers of records

A buffer holds records one after the other.  `next` reads the record at the front and says what is
left; `readAll` goes on until the buffer is empty.
-/

set_option autoImplicit false

namespace Umr.Lib

section Records
variable {α τ : Type} (next : List τ → Option (α × List τ))

def readAll : Nat → List τ → Option (List α)
  | _, [] => some []
  | 0, _ :: _ => none
  | fuel + 1, item :: items =>
      match next (item :: items) with
      | none => none
      | some (value, rest) => (readAll fuel rest).map fun values => value :: values

/-- No record is empty, so there are at most as many records as items. -/
def readRecords (buffer : List τ) : Option (List α) := readAll next buffer.length buffer

variable {next} {ρ : Type} {bytes : ρ → List τ} {value : ρ → α}

theorem readAll_flatMap {records : List ρ}
    (reads : ∀ record ∈ records, ∀ rest, next (bytes record ++ rest) = some (value record, rest))
    (nonempty : ∀ record ∈ records, bytes record ≠ []) {fuel : Nat}
    (enough : (records.flatMap bytes).length ≤ fuel) :
    readAll next fuel (records.flatMap bytes) = some (records.map value) := by
  induction records generalizing fuel with
  | nil => simp [readAll]
  | cons record records ih =>
      have first := reads record List.mem_cons_self (records.flatMap bytes)
      obtain ⟨item, items, front⟩ :=
        List.exists_cons_of_ne_nil (nonempty record List.mem_cons_self)
      rw [List.flatMap_cons, front, List.cons_append] at enough ⊢
      rw [front, List.cons_append] at first
      rw [List.length_cons, List.length_append] at enough
      obtain ⟨fuel, rfl⟩ := Nat.exists_eq_add_of_le' (Nat.le_trans (Nat.le_add_left 1 _) enough)
      rw [readAll, first]
      dsimp only
      rw [ih (fun other member => reads other (List.mem_cons_of_mem _ member))
        (fun other member => nonempty other (List.mem_cons_of_mem _ member)) (by omega)]
      rfl

theorem readRecords_flatMap {records : List ρ}
    (reads : ∀ record ∈ records, ∀ rest, next (bytes record ++ rest) = some (value record, rest))
    (nonempty : ∀ record ∈ records, bytes record ≠ []) :
    readRecords next (records.flatMap bytes) = some (records.map value) :=
  readAll_flatMap reads nonempty (Nat.le_refl _)

end Records

end Umr.Lib
