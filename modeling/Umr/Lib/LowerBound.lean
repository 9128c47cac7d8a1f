import Umr.Lib.Loop
import Mathlib.Logic.Function.Iterate
import Mathlib.Tactic.Common

/-!
# Binary search for a lower bound

The search between `bot` and `top` probes the place `mid bot top`, goes on above it
when that place is below the key and at or below it otherwise.  `mid` may have no
result, where the sum of the bounds does not fit its type.
-/

set_option autoImplicit false

namespace Umr.Lib

section Search
variable (mid : Nat → Nat → Option Nat) (below : Nat → Bool)

/-- One turn; it ends with the bounds together, or without a result. -/
def searchTurn (bounds : Nat × Nat) : Turn (Nat × Nat) (Option Nat) :=
  if bounds.1 < bounds.2 then
    match mid bounds.1 bounds.2 with
    | none => .done none
    | some probe => if below probe then .again (probe + 1, bounds.2) else .again (bounds.1, probe)
  else .done (some bounds.1)

/-- Everything before the place is below, nothing from it on is. -/
structure IsLowerBound (count place : Nat) : Prop where
  le : place ≤ count
  before : ∀ i < place, below i = true
  after : ∀ i < count, place ≤ i → below i = false

variable {mid below}

def Between (mid : Nat → Nat → Option Nat) (count : Nat) : Prop :=
  ∀ bot top probe, bot < top → top ≤ count → mid bot top = some probe → bot ≤ probe ∧ probe < top

theorem searchTurn_probe {bot top probe : Nat} (open_ : bot < top)
    (isMid : mid bot top = some probe) :
    searchTurn mid below (bot, top) =
      .again (if below probe then (probe + 1, top) else (bot, probe)) := by
  simp only [searchTurn, if_pos open_, isMid]
  split_ifs <;> rfl

/-- A search that has midpoints ends. -/
theorem search_ends {count : Nat} (between : Between mid count)
    (always : ∀ bot top, bot < top → top ≤ count → ∃ probe, mid bot top = some probe)
    {fuel bot top : Nat} (order : bot ≤ top) (inside : top ≤ count) (enough : top - bot < fuel) :
    ∃ place, loop (searchTurn mid below) fuel (bot, top) = some (some place) := by
  induction fuel generalizing bot top with
  | zero => cases enough
  | succ fuel ih =>
      by_cases open_ : bot < top
      · obtain ⟨probe, isMid⟩ := always bot top open_ inside
        obtain ⟨atLeast, less⟩ := between bot top probe open_ inside isMid
        rw [loop_again (searchTurn_probe open_ isMid)]
        split_ifs
        · exact ih (by omega) inside (by omega)
        · exact ih atLeast (by omega) (by omega)
      · have turn : searchTurn mid below (bot, top) = .done (some bot) := by
          simp only [searchTurn, if_neg open_]
        exact ⟨bot, loop_done turn fuel⟩

/-- Where a search ends with a place, that place is the lower bound; the probes may fall below the
range, where everything is below the key. -/
theorem search_lowerBound {count : Nat}
    (probes : ∀ bot top probe, bot < top → top ≤ count → mid bot top = some probe → probe < top)
    (sorted : ∀ i j, i ≤ j → j < count → below j = true → below i = true)
    {fuel bot top place : Nat} (start : bot ≤ count) (inside : top ≤ count)
    (before : ∀ i < bot, below i = true) (after : ∀ i < count, top ≤ i → below i = false)
    (ended : loop (searchTurn mid below) fuel (bot, top) = some (some place)) :
    IsLowerBound below count place := by
  induction fuel generalizing bot top with
  | zero => cases ended
  | succ fuel ih =>
      by_cases open_ : bot < top
      · cases isMid : mid bot top with
        | none =>
            have turn : searchTurn mid below (bot, top) = .done none := by
              simp only [searchTurn, if_pos open_, isMid]
            rw [loop_done turn] at ended
            cases ended
        | some probe =>
            have less := probes bot top probe open_ inside isMid
            rw [loop_again (searchTurn_probe open_ isMid)] at ended
            cases isBelow : below probe with
            | true =>
                rw [isBelow, if_pos rfl] at ended
                refine ih (by omega) inside ?_ after ended
                intro i upTo
                exact sorted i probe (by omega) (by omega) isBelow
            | false =>
                rw [isBelow, if_neg Bool.false_ne_true] at ended
                refine ih start (by omega) before ?_ ended
                intro i iInside behind
                by_contra notBelow
                have no := sorted probe i behind iInside (by simpa using notBelow)
                rw [isBelow] at no
                cases no
      · have turn : searchTurn mid below (bot, top) = .done (some bot) := by
          simp only [searchTurn, if_neg open_]
        rw [loop_done turn, Option.some.injEq, Option.some.injEq] at ended
        subst ended
        exact ⟨start, before, fun i iInside behind => after i iInside (by omega)⟩

theorem search_sound {count : Nat} (between : Between mid count)
    (sorted : ∀ i j, i ≤ j → j < count → below j = true → below i = true)
    {fuel bot top place : Nat} (order : bot ≤ top) (inside : top ≤ count)
    (before : ∀ i < bot, below i = true) (after : ∀ i < count, top ≤ i → below i = false)
    (ended : loop (searchTurn mid below) fuel (bot, top) = some (some place)) :
    IsLowerBound below count place :=
  search_lowerBound (fun bot top probe less within isMid => (between bot top probe less within isMid).2)
    sorted (Nat.le_trans order inside) inside before after ended

/-! ### Searches that only go up -/

/-- The lower bounds of a search whose probes are all below the key. -/
def climb (probe : Nat → Nat) (k : Nat) : Nat := (fun bot => probe bot + 1)^[k] 0

theorem climb_succ (probe : Nat → Nat) (k : Nat) :
    climb probe (k + 1) = probe (climb probe k) + 1 :=
  Function.iterate_succ_apply' _ _ _

variable {probe : Nat → Nat} {top key : Nat}

/-- The first `k` turns go up, where the places below the key are those in front of `key`. -/
theorem search_climb (counts : ∀ i < top, below i = true ↔ i < key) (inside : key ≤ top) {k : Nat}
    (isMid : ∀ j < k, mid (climb probe j) top = some (probe (climb probe j)))
    (open_ : ∀ j < k, climb probe j < top) (up : ∀ j < k, climb probe (j + 1) ≤ key) (fuel : Nat) :
    loop (searchTurn mid below) (fuel + k) (0, top) =
      loop (searchTurn mid below) fuel (climb probe k, top) := by
  induction k generalizing fuel with
  | zero => rfl
  | succ k ih =>
      have earlier := ih (fun j less => isMid j (by omega)) (fun j less => open_ j (by omega))
        (fun j less => up j (by omega)) (fuel + 1)
      have climbed := up k (Nat.lt_succ_self k)
      rw [climb_succ] at climbed
      have isBelow : below (probe (climb probe k)) = true :=
        (counts _ (by omega)).mpr (by omega)
      have turn := @searchTurn_probe mid below _ _ _ (open_ k (Nat.lt_succ_self k))
        (isMid k (Nat.lt_succ_self k))
      rw [isBelow, if_pos rfl] at turn
      rw [show fuel + (k + 1) = fuel + 1 + k by omega, earlier, loop_again turn, climb_succ]

/-- A search that has no last midpoint runs out of turns or ends. -/
theorem search_halts {count : Nat} (between : Between mid count) {fuel bot : Nat}
    (order : bot ≤ top) (inside : top ≤ count) (enough : top - bot < fuel) :
    ∃ result, loop (searchTurn mid below) fuel (bot, top) = some result := by
  refine loop_of_measure (fun bounds => bounds.1 ≤ bounds.2 ∧ bounds.2 ≤ count)
    (fun bounds => bounds.2 - bounds.1) ?_ ⟨order, inside⟩ enough
  rintro ⟨bot, top⟩ next ⟨order, inside⟩ turn
  dsimp only at order inside
  by_cases open_ : bot < top
  · cases isMid : mid bot top with
    | none =>
        simp only [searchTurn, if_pos open_, isMid] at turn
        cases turn
    | some probe =>
        obtain ⟨atLeast, less⟩ := between bot top probe open_ inside isMid
        rw [searchTurn_probe open_ isMid] at turn
        cases turn
        split_ifs
        · exact ⟨⟨by omega, inside⟩, by dsimp only; omega⟩
        · exact ⟨⟨atLeast, by dsimp only; omega⟩, by dsimp only; omega⟩
  · simp only [searchTurn, if_neg open_] at turn
    cases turn

/-- A search misses its midpoint only while it goes up: the first probe that is not below the key
leaves no bounds whose midpoint is missing. -/
theorem search_misses {fuel : Nat} (counts : ∀ i < top, below i = true ↔ i < key)
    (inside : key ≤ top) (between : Between mid top)
    (isMid : ∀ bot mid_, bot < top → mid bot top = some mid_ → mid_ = probe bot)
    (lower : ∀ bot high mid_, bot < high → high ≤ top → mid bot high = some mid_ →
      ∀ bot' high', bot' < high' → high' ≤ mid_ → mid bot' high' ≠ none)
    (missed : loop (searchTurn mid below) fuel (0, top) = some none) :
    ∃ k, climb probe k ≤ key ∧ climb probe k < top ∧ mid (climb probe k) top = none := by
  have visits := @visited_invariant _ _ (searchTurn mid below) (0, top)
    (fun bounds => bounds.2 ≤ top ∧
      ((bounds.2 = top ∧ ∃ k, climb probe k = bounds.1 ∧ bounds.1 ≤ key) ∨
        ∀ bot high, bot < high → high ≤ bounds.2 → mid bot high ≠ none)) ?_ fuel
    ⟨Nat.le_refl _, Or.inl ⟨rfl, 0, rfl, Nat.zero_le _⟩⟩
  · obtain ⟨⟨bot, high⟩, member, stops⟩ := loop_result missed
    have open_ : bot < high := by
      by_contra closed
      simp only [searchTurn, if_neg closed] at stops
      cases stops
    have noMid : mid bot high = none := by
      cases isMid : mid bot high with
      | none => rfl
      | some mid_ =>
          rw [searchTurn_probe open_ isMid] at stops
          cases stops
    obtain ⟨-, ⟨isTop, k, rfl, atMost⟩ | safe⟩ := visits _ member
    · dsimp only at isTop
      subst isTop
      exact ⟨k, atMost, open_, noMid⟩
    · exact absurd noMid (safe bot high open_ (Nat.le_refl _))
  · rintro ⟨bot, high⟩ next ⟨within, state⟩ turn
    have open_ : bot < high := by
      by_contra closed
      simp only [searchTurn, if_neg closed] at turn
      cases turn
    cases isProbe : mid bot high with
    | none =>
        simp only [searchTurn, if_pos open_, isProbe] at turn
        cases turn
    | some mid_ =>
        obtain ⟨-, less⟩ := between bot high mid_ open_ within isProbe
        rw [searchTurn_probe open_ isProbe] at turn
        cases turn
        dsimp only at within
        split_ifs with isBelow
        · refine ⟨within, state.imp ?_ id⟩
          rintro ⟨isTop, k, rfl, -⟩
          dsimp only at isTop
          subst isTop
          have isNext := isMid _ _ open_ isProbe
          have inFront := (counts mid_ less).mp isBelow
          exact ⟨rfl, k + 1, by rw [climb_succ, isNext], by omega⟩
        · refine ⟨by dsimp only; omega, Or.inr ?_⟩
          intro bot' high' open' atMost
          exact lower bot high mid_ open_ within isProbe bot' high' open' atMost

end Search

/-! ### Lists in which the places below the key come first -/

theorem getElem_iff_lt_countP {α : Type} {p : α → Bool} {l : List α}
    (sorted : l.Pairwise fun a b => p b = true → p a = true) {i : Nat} (inside : i < l.length) :
    p l[i] = true ↔ i < l.countP p := by
  induction l generalizing i with
  | nil => cases inside
  | cons a l ih =>
      obtain ⟨first, rest⟩ := List.pairwise_cons.mp sorted
      by_cases isBelow : p a = true
      · rw [List.countP_cons_of_pos isBelow]
        cases i with
        | zero => exact iff_of_true isBelow (Nat.succ_pos _)
        | succ i => exact (ih rest (Nat.lt_of_succ_lt_succ inside)).trans Nat.succ_lt_succ_iff.symm
      · have none_ : l.countP p = 0 :=
          List.countP_eq_zero.mpr fun b member below => isBelow (first b member below)
        rw [List.countP_cons_of_neg isBelow, none_]
        refine iff_of_false ?_ (Nat.not_lt_zero i)
        cases i with
        | zero => exact isBelow
        | succ i => exact fun below => isBelow (first _ (List.getElem_mem _) below)

end Umr.Lib
