import Mathlib.Data.List.Infix

/-!
# Patterns with wildcards

A pattern is a list of places: a star stands for any number of characters, every
other place for one character that fits it.
-/

set_option autoImplicit false

namespace Umr.Lib

section Glob
variable {P T : Type} (isStar : P → Bool) (fits : P → T → Bool)

inductive Matches : List P → List T → Prop where
  | nil : Matches [] []
  | star {c : P} {p : List P} (skipped : List T) {rest : List T} (star : isStar c = true)
      (more : Matches p rest) : Matches (c :: p) (skipped ++ rest)
  | one {c : P} {p : List P} {x : T} {rest : List T} (notStar : isStar c = false)
      (fit : fits c x = true) (more : Matches p rest) : Matches (c :: p) (x :: rest)

variable {isStar fits} {c : P} {p : List P} {x : T} {text : List T}

theorem matches_one_iff (notStar : isStar c = false) :
    Matches isStar fits (c :: p) (x :: text) ↔ fits c x = true ∧ Matches isStar fits p text := by
  constructor
  · intro matched
    generalize whole : x :: text = all at matched
    cases matched with
    | star skipped star more =>
        rw [star] at notStar
        cases notStar
    | one _ fit more =>
        cases whole
        exact ⟨fit, more⟩
  · rintro ⟨fit, more⟩
    exact .one notStar fit more

theorem matches_star_cons_iff (star : isStar c = true) :
    Matches isStar fits (c :: p) (x :: text) ↔
      Matches isStar fits p (x :: text) ∨ Matches isStar fits (c :: p) text := by
  constructor
  · intro matched
    generalize whole : x :: text = all at matched
    cases matched with
    | one notStar fit more =>
        rw [star] at notStar
        cases notStar
    | star skipped _ more =>
        cases skipped with
        | nil => exact Or.inl more
        | cons y skipped =>
            cases whole
            exact Or.inr (.star skipped star more)
  · rintro (none_ | more)
    · exact .star [] star none_
    · generalize whole : c :: p = all at more
      cases more with
      | nil => cases whole
      | one notStar fit more =>
          cases whole
          rw [star] at notStar
          cases notStar
      | star skipped _ more =>
          cases whole
          exact .star (x :: skipped) star more

theorem matches_empty_iff : Matches isStar fits p [] ↔ ∀ c ∈ p, isStar c = true := by
  induction p with
  | nil => exact iff_of_true .nil (fun _ member => (nomatch member))
  | cons c p ih =>
      rw [List.forall_mem_cons, ← ih]
      constructor
      · intro matched
        obtain ⟨all, whole, matched⟩ : ∃ all : List T, all = [] ∧
            Matches isStar fits (c :: p) all := ⟨[], rfl, matched⟩
        cases matched with
        | one notStar fit more => cases whole
        | star skipped star more =>
            obtain ⟨-, isRest⟩ := List.append_eq_nil_iff.mp whole
            rw [isRest] at more
            exact ⟨star, more⟩
      · rintro ⟨star, more⟩
        exact .star [] star more

theorem matches_star_empty_iff (star : isStar c = true) :
    Matches isStar fits (c :: p) [] ↔ Matches isStar fits p [] := by
  rw [matches_empty_iff, matches_empty_iff, List.forall_mem_cons]
  exact ⟨fun all => all.2, fun all => ⟨star, all⟩⟩

theorem not_matches_nil_cons : ¬ Matches isStar fits [] (x :: text) := nofun

/-- A star matches more of the text than it has to. -/
theorem matches_star_of_suffix (star : isStar c = true) {rest : List T}
    (matched : Matches isStar fits (c :: p) rest) (suffix : rest <:+ text) :
    Matches isStar fits (c :: p) text := by
  obtain ⟨skipped, rfl⟩ := suffix
  induction skipped with
  | nil => exact matched
  | cons y skipped ih => exact (matches_star_cons_iff star).mpr (Or.inr ih)

theorem Matches.after {used : List P} (plain : ∀ c ∈ used, isStar c = false)
    (matched : Matches isStar fits (used ++ p) text) :
    used.length ≤ text.length ∧ Matches isStar fits p (text.drop used.length) := by
  induction used generalizing text with
  | nil => exact ⟨Nat.zero_le _, matched⟩
  | cons c used ih =>
      obtain ⟨notStar, rest⟩ := List.forall_mem_cons.mp plain
      cases text with
      | nil =>
          have star := matches_empty_iff.mp matched c List.mem_cons_self
          rw [notStar] at star
          cases star
      | cons x text =>
          obtain ⟨-, more⟩ := (matches_one_iff notStar).mp matched
          obtain ⟨shorter, last⟩ := ih rest more
          exact ⟨Nat.succ_le_succ shorter, last⟩

/-- Behind a star, such places and the rest are found in some suffix of the text. -/
theorem Matches.after_star (star : isStar c = true) {used : List P}
    (plain : ∀ c ∈ used, isStar c = false)
    (matched : Matches isStar fits (c :: (used ++ p)) text) :
    ∃ rest, Matches isStar fits p rest ∧ rest <:+ text ∧ rest.length + used.length ≤ text.length := by
  generalize whole : c :: (used ++ p) = all at matched
  cases matched with
  | nil => cases whole
  | one notStar fit more =>
      cases whole
      rw [star] at notStar
      cases notStar
  | star skipped _ more =>
      rename_i rest
      cases whole
      obtain ⟨shorter, last⟩ := more.after plain
      refine ⟨_, last, (List.drop_suffix _ _).trans (List.suffix_append _ _), ?_⟩
      rw [List.length_drop, List.length_append]
      omega

end Glob

end Umr.Lib
