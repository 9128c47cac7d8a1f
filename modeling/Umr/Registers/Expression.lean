import Umr.Lib.Glob
import Umr.Lib.Loop
import Umr.Registers.Names
import Mathlib.Tactic.Linarith

/-!
# Names against patterns

`expression_matches` of `find_reg.c`: in a pattern `*` stands for any text and `?`
for any character, and case does not count.  Behind a `*` the rest of the pattern is
tried at one place after another; only the last `*` is ever gone back to.
-/

set_option autoImplicit false

namespace Umr.Registers

open Umr.Lib

def isStar (c : UInt8) : Bool := c = 42

def fitsChar (c x : UInt8) : Bool := toupper c = toupper x ∨ c = 63

abbrev NameMatches (pattern str : List UInt8) : Prop := Matches isStar fitsChar pattern str

/-- The loop in front of the first `*`; `none` is a character that does not fit. -/
def literalStart : List UInt8 → List UInt8 → Option (List UInt8 × List UInt8)
  | [], pattern => some ([], pattern)
  | x :: str, pattern =>
      if isStar (pattern.headD 0) then some (x :: str, pattern)
      else if fitsChar (pattern.headD 0) x then literalStart str pattern.tail
      else none

structure Cursor where
  str : List UInt8
  pattern : List UInt8
  mp : List UInt8
  cp : List UInt8

def expressionTurn (at_ : Cursor) : Turn Cursor Bool :=
  match at_.str with
  | [] => .done (at_.pattern.dropWhile isStar).isEmpty
  | x :: str =>
      if isStar (at_.pattern.headD 0) then
        if at_.pattern.tail = [] then .done true
        else .again ⟨x :: str, at_.pattern.tail, at_.pattern.tail, str⟩
      else if fitsChar (at_.pattern.headD 0) x then
        .again ⟨str, at_.pattern.tail, at_.mp, at_.cp⟩
      else .again ⟨at_.cp, at_.mp, at_.mp, at_.cp.tail⟩

/-- Enough turns for every place of the name behind every place of the pattern. -/
def turns (str pattern : List UInt8) : Nat := pattern.length * (str.length + 1) ^ 2 + 2

/-- `none` if the loop has not come to an end. -/
def expressionMatches (str pattern : List UInt8) : Option Bool :=
  match literalStart str pattern with
  | none => some false
  | some (str, pattern) => loop expressionTurn (turns str pattern) ⟨str, pattern, [], []⟩

/-! ## The first loop -/

theorem fitsChar_end {x : UInt8} (nonzero : x ≠ 0) : fitsChar 0 x = false := by
  have positive := toupper_ne_zero nonzero
  refine decide_eq_false ?_
  rintro (same | mark)
  · rw [← same] at positive
    cases positive
  · cases mark

theorem dropWhile_isStar (pattern : List UInt8) :
    (pattern.dropWhile isStar).isEmpty = true ↔ NameMatches pattern [] := by
  rw [NameMatches, matches_empty_iff, List.isEmpty_iff, List.dropWhile_eq_nil_iff]

theorem star_matches_all (str : List UInt8) : NameMatches [42] str := by
  have all : NameMatches [42] (str ++ []) := .star str (by decide) .nil
  rwa [List.append_nil] at all

structure Handed (pattern str laterPattern later : List UInt8) : Prop where
  same : NameMatches pattern str ↔ NameMatches laterPattern later
  starts : later = [] ∨ ∃ rest, laterPattern = 42 :: rest
  nonzero : ∀ x ∈ later, x ≠ 0

theorem literalStart_spec {str : List UInt8} (nonzero : ∀ x ∈ str, x ≠ 0) (pattern : List UInt8) :
    match literalStart str pattern with
    | none => ¬ NameMatches pattern str
    | some (later, laterPattern) => Handed pattern str laterPattern later := by
  induction str generalizing pattern with
  | nil => exact ⟨Iff.rfl, Or.inl rfl, nonzero⟩
  | cons x str ih =>
      obtain ⟨xNonzero, rest⟩ := List.forall_mem_cons.mp nonzero
      unfold literalStart
      cases pattern with
      | nil =>
          rw [if_neg (by decide), List.headD_nil, if_neg (by rw [fitsChar_end xNonzero]; decide)]
          exact not_matches_nil_cons
      | cons c pattern =>
          rw [List.headD_cons, List.tail_cons]
          cases star : isStar c with
          | true =>
              rw [if_pos rfl]
              have isStar : c = 42 := of_decide_eq_true star
              exact ⟨Iff.rfl, Or.inr ⟨pattern, by rw [isStar]⟩, nonzero⟩
          | false =>
              rw [if_neg Bool.false_ne_true]
              have one : NameMatches (c :: pattern) (x :: str) ↔
                  fitsChar c x = true ∧ NameMatches pattern str := matches_one_iff star
              cases fit : fitsChar c x with
              | true =>
                  rw [if_pos rfl]
                  have later := ih rest pattern
                  cases result : literalStart str pattern with
                  | none =>
                      rw [result] at later
                      exact fun matched => later (one.mp matched).2
                  | some handed =>
                      rw [result] at later
                      refine ⟨?_, later.starts, later.nonzero⟩
                      rw [one, ← later.same]
                      exact and_iff_right fit
              | false =>
                  rw [if_neg Bool.false_ne_true]
                  rw [fit] at one
                  intro matched
                  cases (one.mp matched).1

/-! ## The second loop -/

/-- Behind a star: what is left to match, or the star again from `cp` on.  `used` is what has been
matched since the star; `str` is that far behind the place before `cp`, unless the name is over. -/
structure Behind (pattern str : List UInt8) (at_ : Cursor) : Prop where
  answer : NameMatches pattern str ↔
    NameMatches at_.pattern at_.str ∨ NameMatches (42 :: at_.mp) at_.cp
  place : ∃ used, at_.mp = used ++ at_.pattern ∧ (∀ c ∈ used, isStar c = false) ∧
    ((∃ first, (first :: at_.cp).drop used.length = at_.str ∧ used.length ≤ at_.cp.length + 1) ∨
      at_.str = [] ∧ at_.cp = [] ∧ used = [])
  nonzero : ∀ x ∈ at_.str, x ≠ 0
  cpNonzero : ∀ x ∈ at_.cp, x ≠ 0
  strLength : at_.str.length ≤ str.length
  cpLength : at_.cp.length ≤ str.length

section Turns
variable {pattern str : List UInt8} {at_ : Cursor} (behind : Behind pattern str at_)
include behind

theorem Behind.done_of_end (ended : at_.str = []) :
    NameMatches pattern str ↔ NameMatches at_.pattern [] := by
  rw [behind.answer, ended]
  refine or_iff_left_of_imp ?_
  intro again
  obtain ⟨used, isMp, plain, ⟨first, dropped, within⟩ | ⟨-, cpOver, noneUsed⟩⟩ := behind.place
  · -- The name was too short for the star to begin later.
    rw [isMp] at again
    obtain ⟨rest, -, -, length⟩ := again.after_star (by decide) plain
    have whole := congrArg List.length dropped
    rw [ended, List.length_drop, List.length_cons, List.length_nil] at whole
    omega
  · rw [cpOver, isMp, noneUsed] at again
    exact (matches_star_empty_iff (by decide)).mp again

/-- A further star makes going back to the last one needless. -/
theorem Behind.at_star {rest : List UInt8} {x : UInt8} {later : List UInt8}
    (isPattern : at_.pattern = 42 :: rest) (isStr : at_.str = x :: later) :
    (NameMatches pattern str ↔ NameMatches (42 :: rest) (x :: later)) ∧
      Behind pattern str ⟨x :: later, rest, rest, later⟩ := by
  have passed : NameMatches pattern str ↔ NameMatches (42 :: rest) (x :: later) := by
    rw [behind.answer, isPattern, isStr]
    refine or_iff_left_of_imp ?_
    intro again
    obtain ⟨used, isMp, plain, ⟨first, dropped, within⟩ | ⟨strOver, -, -⟩⟩ := behind.place
    · rw [isMp, isPattern] at again
      obtain ⟨found, matched, suffix, length⟩ := again.after_star (by decide) plain
      refine matches_star_of_suffix (by decide) matched ?_
      refine List.suffix_of_suffix_length_le (suffix.trans (List.suffix_cons first _)) ?_ ?_
      · rw [← isStr, ← dropped]
        exact List.drop_suffix _ _
      · have whole := congrArg List.length dropped
        rw [isStr, List.length_drop, List.length_cons] at whole
        omega
    · rw [strOver] at isStr
      cases isStr
  have strNonzero := behind.nonzero
  have strLength := behind.strLength
  rw [isStr] at strNonzero strLength
  refine ⟨passed, ?_, ?_, strNonzero, ?_, strLength, ?_⟩
  · rw [passed]
    exact matches_star_cons_iff (by decide)
  · exact ⟨[], rfl, nofun, Or.inl ⟨x, rfl, Nat.zero_le _⟩⟩
  · exact (List.forall_mem_cons.mp strNonzero).2
  · exact Nat.le_of_succ_le strLength

theorem Behind.at_fit {c : UInt8} {rest : List UInt8} {x : UInt8} {later : List UInt8}
    (isPattern : at_.pattern = c :: rest) (isStr : at_.str = x :: later)
    (plain : isStar c = false) (fit : fitsChar c x = true) :
    Behind pattern str ⟨later, rest, at_.mp, at_.cp⟩ := by
  have strNonzero := behind.nonzero
  have strLength := behind.strLength
  rw [isStr] at strNonzero strLength
  refine ⟨?_, ?_, (List.forall_mem_cons.mp strNonzero).2, behind.cpNonzero,
    Nat.le_of_succ_le strLength, behind.cpLength⟩
  · rw [behind.answer, isPattern, isStr, NameMatches, NameMatches, matches_one_iff plain]
    rw [and_iff_right fit]
  · obtain ⟨used, isMp, usedPlain, ⟨first, dropped, within⟩ | ⟨strOver, -, -⟩⟩ := behind.place
    · refine ⟨used ++ [c], ?_, ?_, Or.inl ⟨first, ?_, ?_⟩⟩
      · rw [isMp, isPattern, List.append_assoc]
        rfl
      · intro d member
        rcases List.mem_append.mp member with before | last
        · exact usedPlain d before
        · rw [List.mem_singleton.mp last]
          exact plain
      · rw [List.length_append, List.length_singleton, ← List.drop_drop, dropped, isStr]
        rfl
      · have whole := congrArg List.length dropped
        rw [isStr, List.length_drop, List.length_cons, List.length_cons] at whole
        rw [List.length_append, List.length_singleton]
        change used.length + 1 ≤ at_.cp.length + 1
        omega
    · rw [strOver] at isStr
      cases isStr

theorem Behind.at_miss (miss : ¬ NameMatches at_.pattern at_.str) :
    Behind pattern str ⟨at_.cp, at_.mp, at_.mp, at_.cp.tail⟩ := by
  have back : NameMatches pattern str ↔ NameMatches (42 :: at_.mp) at_.cp := by
    rw [behind.answer]
    exact or_iff_right miss
  cases isCp : at_.cp with
  | nil =>
      rw [isCp] at back
      refine ⟨?_, ⟨[], rfl, nofun, Or.inr ⟨rfl, rfl, rfl⟩⟩, nofun, nofun, Nat.zero_le _,
        Nat.zero_le _⟩
      have empty : NameMatches (42 :: at_.mp) [] ↔ NameMatches at_.mp [] :=
        matches_star_empty_iff (by decide)
      rw [back]
      change NameMatches (42 :: at_.mp) [] ↔
        NameMatches at_.mp [] ∨ NameMatches (42 :: at_.mp) []
      rw [empty, or_self]
  | cons x later =>
      have cpNonzero := behind.cpNonzero
      have cpLength := behind.cpLength
      rw [isCp] at back cpNonzero cpLength
      refine ⟨?_, ⟨[], rfl, nofun, Or.inl ⟨x, rfl, Nat.zero_le _⟩⟩, cpNonzero,
        (List.forall_mem_cons.mp cpNonzero).2, cpLength, Nat.le_of_succ_le cpLength⟩
      rw [back]
      exact matches_star_cons_iff (by decide)

end Turns

/-- Turns that are left: first by the places behind the last star, then by the places it can begin
at, then by the rest of the name. -/
def turnsLeft (length : Nat) (at_ : Cursor) : Nat :=
  at_.mp.length * (length + 1) ^ 2 + at_.cp.length * (length + 1) + at_.str.length

theorem turnsLeft_star {length mpBefore mpAfter later : Nat} (shorter : mpAfter + 1 ≤ mpBefore)
    (inside : later + 1 ≤ length) :
    mpAfter * (length + 1) ^ 2 + later * (length + 1) + (later + 1) <
      mpBefore * (length + 1) ^ 2 := by
  have more : (mpAfter + 1) * (length + 1) ^ 2 ≤ mpBefore * (length + 1) ^ 2 :=
    Nat.mul_le_mul_right _ shorter
  have one : later * (length + 1) + (later + 1) < (length + 1) ^ 2 := by nlinarith
  rw [Nat.add_mul, Nat.one_mul] at more
  omega

theorem Behind.turn {pattern str : List UInt8} {at_ : Cursor} (behind : Behind pattern str at_) :
    match expressionTurn at_ with
    | .done result => result = true ↔ NameMatches pattern str
    | .again next =>
        Behind pattern str next ∧ turnsLeft str.length next < turnsLeft str.length at_ := by
  cases isStr : at_.str with
  | nil =>
      simp only [expressionTurn, isStr]
      rw [dropWhile_isStar, behind.done_of_end isStr]
  | cons x later =>
      have strLength := behind.strLength
      rw [isStr] at strLength
      -- Nothing is to be matched at `str`: the star is tried again from `cp` on.
      have goBack : ¬ NameMatches at_.pattern (x :: later) →
          Behind pattern str ⟨at_.cp, at_.mp, at_.mp, at_.cp.tail⟩ ∧
          turnsLeft str.length ⟨at_.cp, at_.mp, at_.mp, at_.cp.tail⟩ <
            turnsLeft str.length at_ := by
        intro miss
        rw [← isStr] at miss
        refine ⟨behind.at_miss miss, ?_⟩
        have cpLength := behind.cpLength
        simp only [turnsLeft, isStr, List.length_tail, List.length_cons]
        cases isCp : at_.cp with
        | nil => simp
        | cons y rest =>
            rw [isCp, List.length_cons] at cpLength
            simp only [List.length_cons, Nat.add_sub_cancel, Nat.add_mul]
            omega
      cases isPattern : at_.pattern with
      | nil =>
          have xNonzero := behind.nonzero x (by rw [isStr]; exact List.mem_cons_self)
          simp only [expressionTurn, isStr, isPattern, List.headD_nil, fitsChar_end xNonzero,
            Bool.false_eq_true, if_false]
          rw [if_neg (by decide)]
          refine goBack ?_
          rw [isPattern]
          exact not_matches_nil_cons
      | cons c rest =>
          simp only [expressionTurn, isStr, isPattern, List.headD_cons, List.tail_cons]
          cases star : isStar c with
          | true =>
              have isStar : c = 42 := of_decide_eq_true star
              rw [isStar] at isPattern
              obtain ⟨passed, next⟩ := behind.at_star isPattern isStr
              rw [if_pos rfl]
              by_cases last : rest = []
              · rw [if_pos last]
                refine iff_of_true rfl (passed.mpr ?_)
                rw [last]
                exact star_matches_all (x :: later)
              · rw [if_neg last]
                refine ⟨next, ?_⟩
                obtain ⟨used, isMp, -, -⟩ := behind.place
                have shorter : rest.length + 1 ≤ at_.mp.length := by
                  rw [isMp, isPattern, List.length_append, List.length_cons]
                  omega
                have fewer := turnsLeft_star shorter strLength
                simp only [turnsLeft, List.length_cons]
                omega
          | false =>
              rw [if_neg Bool.false_ne_true]
              cases fit : fitsChar c x with
              | true =>
                  rw [if_pos rfl]
                  refine ⟨behind.at_fit isPattern isStr star fit, ?_⟩
                  simp only [turnsLeft, isStr, List.length_cons]
                  omega
              | false =>
                  rw [if_neg Bool.false_ne_true]
                  refine goBack ?_
                  rw [isPattern, NameMatches, matches_one_iff star, fit]
                  exact fun both => Bool.false_ne_true both.1

theorem Behind.loop_ends {pattern str : List UInt8} {at_ : Cursor}
    (behind : Behind pattern str at_) {fuel : Nat} (enough : turnsLeft str.length at_ < fuel) :
    ∃ result, loop expressionTurn fuel at_ = some result ∧
      (result = true ↔ NameMatches pattern str) := by
  have falls : ∀ state next, Behind pattern str state → expressionTurn state = .again next →
      Behind pattern str next ∧ turnsLeft str.length next < turnsLeft str.length state := by
    intro state next isBehind turn
    have spec := isBehind.turn
    rw [turn] at spec
    exact spec
  obtain ⟨result, ended⟩ := loop_of_measure _ (turnsLeft str.length) falls behind enough
  obtain ⟨visit, member, isDone⟩ := loop_result ended
  have isBehind := visited_invariant (fun state next isBehind turn =>
    (falls state next isBehind turn).1) behind visit member
  have spec := isBehind.turn
  rw [isDone] at spec
  exact ⟨result, ended, spec⟩

theorem expressionMatches_spec {str : List UInt8} (nonzero : ∀ x ∈ str, x ≠ 0)
    (pattern : List UInt8) :
    ∃ result, expressionMatches str pattern = some result ∧
      (result = true ↔ NameMatches pattern str) := by
  have start := literalStart_spec nonzero pattern
  unfold expressionMatches
  cases literal : literalStart str pattern with
  | none =>
      rw [literal] at start
      exact ⟨false, rfl, iff_of_false Bool.false_ne_true start⟩
  | some handed =>
      obtain ⟨later, laterPattern⟩ := handed
      rw [literal] at start
      obtain ⟨same, starts, laterNonzero⟩ := start
      rw [same]
      dsimp only
      cases later with
      | nil =>
          have turn : expressionTurn ⟨[], laterPattern, [], []⟩ =
              .done (laterPattern.dropWhile isStar).isEmpty := rfl
          refine ⟨_, ?_, dropWhile_isStar laterPattern⟩
          rw [turns, loop_done turn]
      | cons x later =>
          obtain ⟨rest, rfl⟩ := starts.resolve_left (List.cons_ne_nil _ _)
          by_cases last : rest = []
          · subst last
            have turn : expressionTurn ⟨x :: later, [42], [], []⟩ = .done true := rfl
            refine ⟨true, ?_, iff_of_true rfl (star_matches_all _)⟩
            rw [turns, loop_done turn]
          · have turn : expressionTurn ⟨x :: later, 42 :: rest, [], []⟩ =
                .again ⟨x :: later, rest, rest, later⟩ := by
              change (if rest = [] then Turn.done true
                else Turn.again (Cursor.mk (x :: later) rest rest later)) = _
              rw [if_neg last]
            have behind : Behind (42 :: rest) (x :: later) ⟨x :: later, rest, rest, later⟩ := by
              refine ⟨matches_star_cons_iff (by decide), ?_, laterNonzero,
                (List.forall_mem_cons.mp laterNonzero).2, Nat.le_refl _, Nat.le_succ _⟩
              exact ⟨[], rfl, nofun, Or.inl ⟨x, rfl, Nat.zero_le _⟩⟩
            rw [turns, loop_again turn]
            refine behind.loop_ends ?_
            have fewer := turnsLeft_star (Nat.le_refl (rest.length + 1))
              (Nat.le_refl (later.length + 1))
            simp only [turnsLeft, List.length_cons]
            omega

/-- The pattern is tried in finitely many turns, and matches what it stands for. -/
theorem expressionMatches_iff (str pattern : CString) :
    ∃ result, expressionMatches str.bytes pattern.bytes = some result ∧
      (result = true ↔ NameMatches pattern.bytes str.bytes) :=
  expressionMatches_spec str.terminated pattern.bytes

end Umr.Registers
