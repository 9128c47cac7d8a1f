import Umr.Harness.ScriptEnds
import Umr.Lib.Fault

/-!
# Lists and the records behind them

How far `consume_bytes` and `consume_words` go: a list ends with its closing
brace, and what stands behind that is the next record.
-/

set_option autoImplicit false

namespace Umr.Harness

open Umr.Lib

/-! ## Where a list ends -/

/-- The text behind the first closing brace that is in no comment. -/
def closingBrace : Bool → List Char → Option (List Char)
  | _, [] => none
  | true, c :: text => closingBrace (c ≠ '\n') text
  | false, c :: text => if c = '}' then some text else closingBrace (c = ';') text

def behindList (text : List Char) : Option (List Char) :=
  (consumeBrace '{' text).bind (closingBrace false)

/-- No more than the list has been consumed. -/
structure Kept (text rest : List Char) : Prop where
  inText : rest <:+ text
  brace : ∀ behind, behindList text = some behind → behind <:+ rest

def ListsKept (text : List Char) : Prop :=
  (∃ bytes rest, consumeBytes text = .ok (bytes, rest) ∧ Kept text rest) ∧
    Kept text (consumeWords text).2

/-- Blanks, comments and a number of bytes of two digits; in front of a digit may stand what is
none. -/
inductive ByteText : Nat → List Char → Prop where
  | nil : ByteText 0 []
  | blank {n : Nat} {c : Char} {text : List Char} (isBlank : isBlank c = true)
      (more : ByteText n text) : ByteText n (c :: text)
  | comment {n : Nat} {note text : List Char} (oneLine : '\n' ∉ note) (more : ByteText n text) :
      ByteText n (';' :: (note ++ '\n' :: text))
  | byte {n : Nat} {before between text : List Char} {high low : Char}
      (starts : Starts (before ++ [high]) ∧ before.head? ≠ some '}')
      (noDigit : ∀ c ∈ before ++ between, isxdigit c = false)
      (digits : isxdigit high = true ∧ isxdigit low = true) (more : ByteText n text) :
      ByteText (n + 1) (before ++ high :: (between ++ low :: text))

/-- A list of bytes has its closing brace behind a whole byte, or more bytes in front of it than
there is room for. -/
def BytesInPairs (text : List Char) : Prop :=
  ∀ list, consumeBrace '{' text = some list →
    ∃ count inside rest, list = inside ++ rest ∧ ByteText count inside ∧
      closingBrace false inside = none ∧ (rest.head? = some '}' ∨ count = bytesLimit)

/-! ## Blanks -/

section Blanks

theorem whitespace_induction {motive : List Char → Prop} (nil : motive [])
    (blank : ∀ c text, isBlank c = true → motive text → motive (c :: text))
    (comment : ∀ text, motive (chomp text) → motive (';' :: text))
    (stop : ∀ c text, isBlank c = false → c ≠ ';' → motive (c :: text)) (text : List Char) :
    motive text := by
  induction isLength : text.length using Nat.strong_induction_on generalizing text with
  | h length ih =>
      subst isLength
      cases text with
      | nil => exact nil
      | cons c text =>
          by_cases isBlank : isBlank c = true
          · exact blank c text isBlank (ih _ (Nat.lt_succ_self _) text rfl)
          · by_cases semicolon : c = ';'
            · subst semicolon
              have shorter := length_chomp_le text
              exact comment text (ih _ (Nat.lt_succ_of_le shorter) _ rfl)
            · exact stop c text (Bool.eq_false_iff.mpr isBlank) semicolon

theorem chomp_cases (text : List Char) :
    chomp text = [] ∨ ∃ note, '\n' ∉ note ∧ text = note ++ '\n' :: chomp text := by
  fun_induction chomp text with
  | case1 => exact .inl rfl
  | case2 rest => exact .inr ⟨[], List.not_mem_nil, rfl⟩
  | case3 c rest other ih =>
      rcases ih with ends | ⟨note, oneLine, split⟩
      · exact .inl ends
      · refine .inr ⟨c :: note, ?_, ?_⟩
        · rw [List.mem_cons, not_or]
          exact ⟨fun newline => other newline.symm, oneLine⟩
        · rw [List.cons_append, ← split]

theorem chomp_suffix (text : List Char) : chomp text <:+ text := by
  rcases chomp_cases text with ends | ⟨note, -, split⟩
  · rw [ends]
    exact List.nil_suffix
  · exact ⟨note ++ ['\n'], by rw [List.append_assoc]; exact split.symm⟩

theorem consumeWhitespace_suffix (text : List Char) : consumeWhitespace text <:+ text := by
  refine whitespace_induction (motive := fun text => consumeWhitespace text <:+ text) ?_ ?_ ?_ ?_ text
  · exact List.suffix_rfl
  · intro c text blank ih
    rw [consumeWhitespace_blank blank]
    exact ih.trans (List.suffix_cons c text)
  · intro text ih
    rw [consumeWhitespace_comment]
    exact ih.trans ((chomp_suffix text).trans (List.suffix_cons _ text))
  · intro c text notBlank noComment
    simp only [consumeWhitespace_stop notBlank noComment, List.suffix_rfl]

theorem closingBrace_comment (text : List Char) :
    closingBrace true text = closingBrace false (chomp text) := by
  fun_induction chomp text with
  | case1 => rfl
  | case2 rest => rfl
  | case3 c rest other ih =>
      have inside : decide (c ≠ '\n') = true := decide_eq_true fun newline => other newline
      rw [closingBrace, inside, ih]

theorem closingBrace_whitespace (text : List Char) :
    closingBrace false (consumeWhitespace text) = closingBrace false text := by
  refine whitespace_induction
    (motive := fun text => closingBrace false (consumeWhitespace text) = closingBrace false text)
    rfl ?_ ?_ ?_ text
  · intro c text blank ih
    have isBlank : c = ' ' ∨ c = '\t' ∨ c = '\n' := of_decide_eq_true blank
    rw [consumeWhitespace_blank blank, ih]
    rcases isBlank with rfl | rfl | rfl <;> rfl
  · intro text ih
    rw [consumeWhitespace_comment, ih, ← closingBrace_comment]
    rfl
  · intro c text notBlank noComment
    rw [consumeWhitespace_stop notBlank noComment]

end Blanks

/-! ## The closing brace -/

section Brace
variable {inside rest behind text : List Char}

theorem closingBrace_tail {comment : Bool} {c : Char}
    (found : closingBrace comment (c :: text) = some behind) : behind <:+ text := by
  induction text generalizing comment c with
  | nil =>
      cases comment with
      | true => cases found
      | false =>
          rw [closingBrace] at found
          split at found
          · cases found
            exact List.suffix_rfl
          · cases found
  | cons d text ih =>
      cases comment with
      | true => exact (ih found).trans (List.suffix_cons d text)
      | false =>
          rw [closingBrace] at found
          split at found
          · cases found
            exact List.suffix_rfl
          · exact (ih found).trans (List.suffix_cons d text)

theorem closingBrace_suffix {comment : Bool} (found : closingBrace comment text = some behind) :
    behind <:+ text := by
  cases text with
  | nil => cases comment <;> cases found
  | cons c text => exact (closingBrace_tail found).trans (List.suffix_cons c text)

theorem closingBrace_inside {comment : Bool} (found : closingBrace comment inside = some behind)
    (rest : List Char) : closingBrace comment (inside ++ rest) = some (behind ++ rest) := by
  induction inside generalizing comment with
  | nil => cases comment <;> cases found
  | cons c inside ih =>
      cases comment with
      | true => exact ih found
      | false =>
          rw [closingBrace] at found
          rw [List.cons_append, closingBrace]
          split at found
          · rename_i brace
            cases found
            rw [if_pos brace]
          · rename_i other
            rw [if_neg other]
            exact ih found

/-- Where the first text has no brace, it is one of the second. -/
theorem closingBrace_later {comment : Bool} (none_ : closingBrace comment inside = none)
    (found : closingBrace comment (inside ++ rest) = some behind) :
    ∃ later, closingBrace later rest = some behind := by
  induction inside generalizing comment with
  | nil => exact ⟨comment, found⟩
  | cons c inside ih =>
      cases comment with
      | true => exact ih none_ found
      | false =>
          rw [closingBrace] at none_
          rw [List.cons_append, closingBrace] at found
          split at none_
          · cases none_
          · rename_i other
            rw [if_neg other] at found
            exact ih none_ found

theorem closingBrace_split {comment : Bool} (found : closingBrace comment text = some behind) :
    ∃ front, text = front ++ '}' :: behind := by
  induction text generalizing comment with
  | nil => cases comment <;> cases found
  | cons c text ih =>
      cases comment with
      | true =>
          obtain ⟨front, rfl⟩ := ih found
          exact ⟨c :: front, rfl⟩
      | false =>
          rw [closingBrace] at found
          split at found
          · rename_i brace
            cases found
            exact ⟨[], by rw [brace]; rfl⟩
          · obtain ⟨front, rfl⟩ := ih found
            exact ⟨c :: front, rfl⟩

/-- No brace stands in front of a brace or digit that is the last to have been passed. -/
theorem closingBrace_none_of_kept {last : Char} {left : List Char}
    (kept : ∀ behind, closingBrace false (inside ++ left) = some behind → behind <:+ rest)
    (isLeft : left = last :: rest ∨ left = rest ∧ ∃ front, inside = front ++ [last] ∧ last ≠ '}') :
    closingBrace false inside = none := by
  cases found : closingBrace false inside with
  | none => rfl
  | some behind =>
      have short := (kept _ (closingBrace_inside found left)).length_le
      rw [List.length_append] at short
      rcases isLeft with rfl | ⟨rfl, front, rfl, notBrace⟩
      · rw [List.length_cons] at short
        omega
      · have isNil : behind = [] := List.length_eq_zero_iff.mp (by omega)
        rw [isNil] at found
        obtain ⟨other, same⟩ := closingBrace_split found
        exact absurd (List.append_inj_right' same rfl) (by simp [notBrace])

theorem consumeBrace_some {brace : Char} (found : consumeBrace brace text = some rest) :
    consumeWhitespace text = brace :: rest := by
  unfold consumeBrace at found
  split at found
  · cases found
  · rename_i c behind isText
    split at found
    · rename_i same
      cases found
      rw [isText, same]
    · cases found

theorem consumeBrace_suffix {brace : Char} (found : consumeBrace brace text = some rest) :
    rest <:+ text := by
  have skipped := consumeWhitespace_suffix text
  rw [consumeBrace_some found] at skipped
  exact (List.suffix_cons brace rest).trans skipped

end Brace

/-! ## Bytes -/

section Bytes
variable {inside rest text : List Char}

theorem nextdigit_some_iff {digit : Char} : nextdigit text = some (digit, rest) ↔
    ∃ before, text = before ++ digit :: rest ∧ (∀ c ∈ before, isxdigit c = false) ∧
      isxdigit digit = true := by
  constructor
  · intro found
    unfold nextdigit at found
    split at found
    · cases found
    · rename_i behind isBehind
      cases found
      refine ⟨text.takeWhile fun c => !isxdigit c, ?_, ?_, ?_⟩
      · rw [← isBehind, List.takeWhile_append_dropWhile]
      · intro c member
        have passed := List.mem_takeWhile_imp member
        simpa using passed
      · have stopped := List.head?_dropWhile_not (fun c => !isxdigit c) text
        rw [isBehind] at stopped
        simpa using stopped
  · rintro ⟨before, rfl, noDigit, isDigit⟩
    have passed : ∀ c ∈ before, (!isxdigit c) = true := by
      intro c member
      rw [noDigit c member]
      rfl
    have stop : StopsAt (fun c => !isxdigit c) (digit :: rest) := by
      intro c first
      cases first
      change (!isxdigit digit) = false
      rw [isDigit]
      rfl
    unfold nextdigit
    rw [dropWhile_append_stop passed stop]

theorem ByteText.skipped {n : Nat} (bytes : ByteText n inside) (more : inside ++ rest ≠ [])
    (isText : consumeWhitespace text = inside ++ rest) :
    ∃ blanks, text = blanks ++ (inside ++ rest) ∧ ByteText n (blanks ++ inside) := by
  revert isText
  refine whitespace_induction (motive := fun text => consumeWhitespace text = inside ++ rest →
    ∃ blanks, text = blanks ++ (inside ++ rest) ∧ ByteText n (blanks ++ inside)) ?_ ?_ ?_ ?_ text
  · intro ends
    exact absurd ends.symm more
  · intro c text blank ih isText
    rw [consumeWhitespace_blank blank] at isText
    obtain ⟨blanks, rfl, bytesText⟩ := ih isText
    exact ⟨c :: blanks, rfl, .blank blank bytesText⟩
  · intro text ih isText
    rw [consumeWhitespace_comment] at isText
    obtain ⟨blanks, isBehind, bytesText⟩ := ih isText
    rcases chomp_cases text with ends | ⟨note, oneLine, split⟩
    · rw [ends] at isBehind
      exact absurd (List.append_eq_nil_iff.mp isBehind.symm).2 more
    · refine ⟨';' :: (note ++ '\n' :: blanks), ?_, ?_⟩
      · rw [split, isBehind]
        simp
      · have whole := ByteText.comment oneLine bytesText
        simpa using whole
  · intro c text notBlank noComment isText
    rw [consumeWhitespace_stop notBlank noComment] at isText
    exact ⟨[], isText, bytes⟩

theorem ByteText.of_digits {high low : Char} {behind : List Char} {n : Nat}
    (further : (consumeWhitespace text).head? ≠ some '}')
    (first : nextdigit (consumeWhitespace text) = some (high, behind))
    (second : nextdigit behind = some (low, inside ++ rest)) (bytes : ByteText n inside) :
    ∃ front, text = front ++ low :: (inside ++ rest) ∧ isxdigit low = true ∧
      ByteText (n + 1) (front ++ low :: inside) := by
  obtain ⟨before, isBefore, noHigh, isHigh⟩ := nextdigit_some_iff.mp first
  obtain ⟨between, rfl, noLow, isLow⟩ := nextdigit_some_iff.mp second
  have starts := consumeWhitespace_skips text
  have isByte : ByteText (n + 1) (before ++ high :: (between ++ low :: inside)) := by
    refine .byte ⟨?_, ?_⟩ ?_ ⟨isHigh, isLow⟩ bytes
    · intro c first
      refine starts c ?_
      rw [isBefore]
      cases before with
      | nil => exact first
      | cons d before => exact first
    · rw [isBefore] at further
      cases before with
      | nil => exact fun brace => by cases brace
      | cons d before => exact further
    · intro c member
      exact (List.mem_append.mp member).elim (noHigh c) (noLow c)
  have isText : consumeWhitespace text =
      (before ++ high :: (between ++ low :: inside)) ++ rest := by
    rw [isBefore]
    simp
  obtain ⟨blanks, isAll, allText⟩ := isByte.skipped (by simp) isText
  refine ⟨blanks ++ (before ++ high :: between), ?_, isLow, ?_⟩
  · rw [isAll]
    simp
  · simpa using allText

/-- Bytes that were read stand in front of the brace, or of the place where room ran out. -/
theorem bytesLoop_inside {turns x : Nat} {bytes : Option (List UInt8)} {found : List Char}
    (enough : text.length < turns) (room : x < bytesLimit)
    (read : bytesLoop turns x text = .ok (bytes, found)) :
    (∃ count inside rest, bytes.isSome = true ∧ found = '}' :: rest ∧ text = inside ++ found ∧
        ByteText count inside) ∨
      ∃ front low, bytes = none ∧ text = front ++ low :: found ∧ isxdigit low = true ∧
        ByteText (bytesLimit - x) (front ++ [low]) := by
  induction turns generalizing text bytes x with
  | zero => exact absurd enough (Nat.not_lt_zero _)
  | succ turns ih =>
      have shorter := length_consumeWhitespace_le text
      rw [bytesLoop] at read
      rcases consumeXint8_cases text with ⟨closes, stopped⟩ |
        ⟨further, one | ⟨-, stopped⟩ | ⟨-, stopped⟩⟩
      · rw [stopped] at read
        obtain ⟨rest, isText⟩ := List.head?_eq_some_iff.mp closes
        obtain ⟨isBytes, isFound⟩ := Prod.mk.inj (Except.ok.inj read)
        obtain ⟨blanks, isInside, bytesText⟩ :=
          ByteText.nil.skipped (List.cons_ne_nil _ _) (isText.trans (List.nil_append _).symm)
        refine .inl ⟨0, blanks, rest, ?_, isFound.symm.trans isText, ?_, ?_⟩
        · rw [← isBytes]
          rfl
        · rw [← isFound, isText]
          exact isInside
        · rwa [List.append_nil] at bytesText
      · obtain ⟨high, behind, low, later, byte, first, second, one⟩ := one
        have firstLess := length_nextdigit_lt first
        have secondLess := length_nextdigit_lt second
        rw [one] at read
        change (if x + 1 = bytesLimit then _ else bytesLoop turns (x + 1) later >>= _) = _ at read
        by_cases last : x + 1 = bytesLimit
        · rw [if_pos last] at read
          cases read
          obtain ⟨front, isText, isLow, bytesText⟩ :=
            @ByteText.of_digits [] _ text high low behind 0 further first second .nil
          refine .inr ⟨front, low, rfl, isText, isLow, ?_⟩
          rw [show bytesLimit - x = 0 + 1 by omega]
          exact bytesText
        · rw [if_neg last] at read
          obtain ⟨⟨more, end_⟩, readMore, isFound⟩ := bind_ok read
          cases isFound
          rcases ih (by omega) (by omega) readMore with
            ⟨count, inside, rest, isSome, isRest, rfl, bytesText⟩ |
            ⟨front, last, rfl, rfl, isDigit, bytesText⟩
          · obtain ⟨front, isText, -, whole⟩ := ByteText.of_digits further first second bytesText
            refine .inl ⟨count + 1, front ++ low :: inside, rest, ?_, isRest, ?_, whole⟩
            · rw [Option.isSome_map]
              exact isSome
            · rw [isText]
              simp
          · have again : front ++ last :: found = (front ++ [last]) ++ found := by simp
            rw [again] at second
            obtain ⟨all, isText, -, whole⟩ := ByteText.of_digits further first second bytesText
            refine .inr ⟨all ++ low :: front, last, rfl, ?_, isDigit, ?_⟩
            · rw [isText]
              simp
            · rw [show bytesLimit - x = bytesLimit - (x + 1) + 1 by omega]
              simpa using whole
      · rw [stopped] at read
        cases read
      · rw [stopped] at read
        cases read

/-- Only what stands behind the blanks is looked at. -/
theorem bytesLoop_congr {other : List Char}
    (same : consumeWhitespace text = consumeWhitespace other) (turns x : Nat) :
    bytesLoop (turns + 1) x text = bytesLoop (turns + 1) x other := by
  rw [bytesLoop, bytesLoop, consumeXint8, consumeXint8, same]

theorem consumeXint8_byte {before between : List Char} {high low : Char}
    (starts : Starts (before ++ [high]) ∧ before.head? ≠ some '}')
    (noDigit : ∀ c ∈ before ++ between, isxdigit c = false)
    (digits : isxdigit high = true ∧ isxdigit low = true) (tail : List Char) :
    ∃ byte, consumeXint8 (before ++ high :: (between ++ low :: tail)) = .ok (some byte, tail) := by
  obtain ⟨noHigh, noLow⟩ := List.forall_mem_append.mp noDigit
  have whole_starts : Starts (before ++ high :: (between ++ low :: tail)) := by
    intro c first
    refine starts.1 c ?_
    cases before with
    | nil => exact first
    | cons d before => exact first
  have first : nextdigit (before ++ high :: (between ++ low :: tail)) =
      some (high, between ++ low :: tail) :=
    nextdigit_some_iff.mpr ⟨before, rfl, noHigh, digits.1⟩
  have second : nextdigit (between ++ low :: tail) = some (low, tail) :=
    nextdigit_some_iff.mpr ⟨between, rfl, noLow, digits.2⟩
  have further : (before ++ high :: (between ++ low :: tail)).head? ≠ some '}' := by
    cases before with
    | nil =>
        intro same
        have isBrace : high = '}' := Option.some.inj same
        rw [isBrace] at digits
        exact absurd digits.1 (by decide)
    | cons d before => exact starts.2
  unfold consumeXint8
  rw [consumeWhitespace_starts whole_starts]
  dsimp only
  rw [if_neg further, first]
  dsimp only
  rw [second]
  exact ⟨_, rfl⟩

/-- Bytes are read up to what stands behind them, or up to where room runs out. -/
theorem ByteText.read {n : Nat} (bytesText : ByteText n inside) (rest : List Char) {turns x : Nat}
    (enough : inside.length < turns) (room : x < bytesLimit) :
    (x + n < bytesLimit → rest.head? = some '}' →
      ∃ bytes, bytesLoop turns x (inside ++ rest) = .ok (some bytes, rest)) ∧
    (bytesLimit ≤ x + n → ∃ front left, inside = front ++ left ∧
      bytesLoop turns x (inside ++ rest) = .ok (none, left ++ rest)) := by
  induction bytesText generalizing turns x with
  | nil =>
      obtain ⟨turns, rfl⟩ := Nat.exists_eq_add_one.mpr enough
      refine ⟨fun _ brace => ?_, fun full => absurd room (Nat.not_lt.mpr full)⟩
      obtain ⟨tail, rfl⟩ := List.head?_eq_some_iff.mp brace
      exact ⟨[], rfl⟩
  | @blank n c text isBlank more ih =>
      obtain ⟨turns, rfl⟩ := Nat.exists_eq_add_one.mpr (Nat.zero_lt_of_lt enough)
      have fewer : text.length < turns + 1 := Nat.lt_of_succ_lt enough
      obtain ⟨reads, full⟩ := ih fewer room
      rw [List.cons_append, bytesLoop_congr (consumeWhitespace_blank isBlank _)]
      refine ⟨reads, fun tooMany => ?_⟩
      obtain ⟨front, left, rfl, stopped⟩ := full tooMany
      exact ⟨c :: front, left, rfl, stopped⟩
  | @comment n note text oneLine more ih =>
      obtain ⟨turns, rfl⟩ := Nat.exists_eq_add_one.mpr (Nat.zero_lt_of_lt enough)
      have fewer : text.length < turns + 1 := by
        rw [List.length_cons, List.length_append, List.length_cons] at enough
        omega
      have skipped : consumeWhitespace (';' :: (note ++ '\n' :: text) ++ rest) =
          consumeWhitespace (text ++ rest) := by
        have line : note ++ '\n' :: text ++ rest = note ++ '\n' :: (text ++ rest) := by simp
        rw [List.cons_append, consumeWhitespace_comment, line, chomp_line oneLine]
      obtain ⟨reads, full⟩ := ih fewer room
      rw [bytesLoop_congr skipped]
      refine ⟨reads, fun tooMany => ?_⟩
      obtain ⟨front, left, rfl, stopped⟩ := full tooMany
      exact ⟨';' :: (note ++ '\n' :: front), left, by simp, stopped⟩
  | @byte n before between text high low starts noDigit digits more ih =>
      obtain ⟨turns, rfl⟩ := Nat.exists_eq_add_one.mpr (Nat.zero_lt_of_lt enough)
      have fewer : text.length < turns := by
        rw [List.length_append, List.length_cons, List.length_append, List.length_cons] at enough
        omega
      have shape : before ++ high :: (between ++ low :: text) ++ rest =
          before ++ high :: (between ++ low :: (text ++ rest)) := by
        simp
      obtain ⟨byte, one⟩ := consumeXint8_byte starts noDigit digits (text ++ rest)
      rw [shape, bytesLoop, one]
      change (_ → _ → ∃ bytes, (if x + 1 = bytesLimit then _ else
          bytesLoop turns (x + 1) (text ++ rest) >>= _) = _) ∧
        (_ → ∃ front left, _ ∧ (if x + 1 = bytesLimit then _ else
          bytesLoop turns (x + 1) (text ++ rest) >>= _) = _)
      by_cases last : x + 1 = bytesLimit
      · refine ⟨fun fits => by omega, fun _ => ?_⟩
        rw [if_pos last]
        exact ⟨before ++ high :: (between ++ [low]), text, by simp, rfl⟩
      · obtain ⟨reads, full⟩ := @ih turns (x + 1) fewer (by omega)
        rw [if_neg last]
        constructor
        · intro fits brace
          obtain ⟨bytes, read⟩ := reads (by omega) brace
          rw [read]
          exact ⟨byte :: bytes, rfl⟩
        · intro tooMany
          obtain ⟨front, left, rfl, stopped⟩ := full (by omega)
          rw [stopped]
          exact ⟨before ++ high :: (between ++ low :: front), left, by simp, rfl⟩

end Bytes

/-! ## Words -/

section Words
variable {text rest : List Char}

/-- A text reached without passing the closing brace. -/
def InFront (text rest : List Char) : Prop :=
  rest <:+ text ∧ closingBrace false rest = closingBrace false text

theorem InFront.trans {middle : List Char} (first : InFront text middle)
    (second : InFront middle rest) : InFront text rest :=
  ⟨second.1.trans first.1, second.2.trans first.2⟩

theorem inFront_whitespace (text : List Char) : InFront text (consumeWhitespace text) :=
  ⟨consumeWhitespace_suffix text, closingBrace_whitespace text⟩

theorem inFront_dropWhile {passed : Char → Bool} (brace : passed '}' = false)
    (semicolon : passed ';' = false) (text : List Char) : InFront text (text.dropWhile passed) := by
  refine ⟨List.dropWhile_suffix _, ?_⟩
  induction text with
  | nil => rfl
  | cons c text ih =>
      by_cases here : passed c = true
      · have notBrace : c ≠ '}' := by
          rintro rfl
          rw [brace] at here
          cases here
        have noComment : decide (c = ';') = false := by
          refine decide_eq_false ?_
          rintro rfl
          rw [semicolon] at here
          cases here
        rw [List.dropWhile_cons_of_pos here, ih, closingBrace, if_neg notBrace, noComment]
      · rw [List.dropWhile_cons_of_neg here]

theorem inFront_consumeXint32 (text : List Char) : InFront text (consumeXint32 text).2 := by
  have skipped := inFront_whitespace text
  unfold consumeXint32 consumeXint
  dsimp only
  split
  · exact skipped.trans (inFront_dropWhile (by decide) (by decide) _)
  · exact skipped

theorem inFront_comma (text : List Char) : InFront (',' :: text) text :=
  ⟨List.suffix_cons ',' text, rfl⟩

theorem inFront_wordsLoop (turns x : Nat) (text : List Char) :
    InFront text (wordsLoop turns x text).2 := by
  induction turns generalizing text x with
  | zero => exact ⟨List.suffix_rfl, rfl⟩
  | succ turns ih =>
      have word := inFront_consumeXint32 text
      unfold wordsLoop
      generalize consumeXint32 text = read at word
      obtain ⟨value, behind⟩ := read
      cases value with
      | none => exact word
      | some value =>
          have skipped := word.trans (inFront_whitespace behind)
          dsimp only
          split
          · exact word
          · split
            · rename_i rest comma
              rw [comma] at skipped
              exact (skipped.trans (inFront_comma rest)).trans (ih (x + 1) rest)
            · exact skipped

/-- A list of words is left in front of its closing brace or right behind it. -/
theorem consumeWords_kept (text : List Char) : Kept text (consumeWords text).2 := by
  unfold consumeWords
  cases opened : consumeBrace '{' text with
  | none =>
      refine ⟨consumeWhitespace_suffix text, ?_⟩
      intro behind isBehind
      rw [behindList, opened] at isBehind
      cases isBehind
  | some list =>
      have inList := consumeBrace_suffix opened
      have words := inFront_wordsLoop (list.length + 1) 0 list
      have brace : behindList text = closingBrace false list := by
        rw [behindList, opened]
        rfl
      have inFront : ∀ {rest}, InFront list rest → Kept text rest := by
        intro rest passed
        refine ⟨passed.1.trans inList, ?_⟩
        intro behind isBehind
        rw [brace, ← passed.2] at isBehind
        exact closingBrace_suffix isBehind
      dsimp only
      generalize wordsLoop (list.length + 1) 0 list = read at words
      obtain ⟨values, left⟩ := read
      dsimp only at words ⊢
      cases values with
      | none => exact inFront words
      | some values =>
          have passed := words.trans (inFront_whitespace left)
          dsimp only
          cases closed : consumeBrace '}' left with
          | none => exact inFront passed
          | some rest =>
              have isBrace := consumeBrace_some closed
              rw [isBrace] at passed
              refine ⟨(List.suffix_cons '}' rest).trans (passed.1.trans inList), ?_⟩
              intro behind isBehind
              rw [brace, ← passed.2] at isBehind
              cases isBehind
              exact List.suffix_rfl

end Words

/-! ## Both lists -/

section Lists
variable {text : List Char}

theorem consumeBrace_closing (rest : List Char) : consumeBrace '}' ('}' :: rest) = some rest :=
  consumeBrace_found (consumeWhitespace_stop (by decide) (by decide) rest)

/-- A list of bytes that is read ends with a brace or with the last byte there is room for. -/
theorem consumeBytes_inside {list rest : List Char} {bytes : List UInt8}
    (opened : consumeBrace '{' text = some list) (read : consumeBytes text = .ok (bytes, rest)) :
    (∃ count inside, list = inside ++ '}' :: rest ∧ ByteText count inside) ∨
      ∃ front low, list = front ++ low :: rest ∧ isxdigit low = true ∧
        ByteText bytesLimit (front ++ [low]) := by
  unfold consumeBytes at read
  rw [opened] at read
  obtain ⟨⟨more, found⟩, readMore, isRest⟩ := bind_ok read
  rcases bytesLoop_inside (Nat.lt_succ_self _) (by decide) readMore with
    ⟨count, inside, behind, isSome, rfl, isList, bytesText⟩ |
    ⟨front, low, rfl, isList, isDigit, bytesText⟩
  · obtain ⟨values, rfl⟩ := Option.isSome_iff_exists.mp isSome
    dsimp only at isRest
    rw [consumeBrace_closing] at isRest
    cases isRest
    exact .inl ⟨count, inside, isList, bytesText⟩
  · cases isRest
    exact .inr ⟨front, low, isList, isDigit, bytesText⟩

/-- Nothing is read behind the text and no record is touched exactly if the bytes come in pairs of
digits up to the brace, or up to where room runs out. -/
theorem lists_kept_iff (text : List Char) : ListsKept text ↔ BytesInPairs text := by
  unfold ListsKept
  rw [and_iff_left (consumeWords_kept text)]
  cases opened : consumeBrace '{' text with
  | none =>
      refine iff_of_true ?_ ?_
      · refine ⟨[], consumeWhitespace text, ?_, consumeWhitespace_suffix text, ?_⟩
        · unfold consumeBytes
          rw [opened]
        · intro behind isBehind
          rw [behindList, opened] at isBehind
          cases isBehind
      · intro list isList
        rw [opened] at isList
        cases isList
  | some list =>
      have brace : behindList text = closingBrace false list := by
        rw [behindList, opened]
        rfl
      constructor
      · rintro ⟨bytes, rest, read, kept⟩ other isOther
        cases Option.some.inj (opened.symm.trans isOther)
        have keptList := fun behind isBehind => kept.brace behind (brace.trans isBehind)
        rcases consumeBytes_inside opened read with ⟨count, inside, rfl, bytesText⟩ |
          ⟨front, low, isList, isDigit, bytesText⟩
        · exact ⟨count, inside, _, rfl, bytesText,
            closingBrace_none_of_kept keptList (.inl rfl), .inl rfl⟩
        · have notBrace : low ≠ '}' := by
            rintro rfl
            exact absurd isDigit (by decide)
          have split : list = (front ++ [low]) ++ rest := by simp [isList]
          rw [split] at keptList
          exact ⟨bytesLimit, front ++ [low], rest, split, bytesText,
            closingBrace_none_of_kept keptList (.inr ⟨rfl, front, rfl, notBrace⟩), .inr rfl⟩
      · intro pairs
        obtain ⟨count, inside, rest, rfl, bytesText, none_, ends⟩ := pairs list opened
        have later : ∀ {left}, rest <:+ left → left <:+ text → Kept text left := by
          intro left inLeft inText
          refine ⟨inText, fun behind isBehind => ?_⟩
          rw [brace] at isBehind
          obtain ⟨comment, found⟩ := closingBrace_later none_ isBehind
          exact (closingBrace_suffix found).trans inLeft
        have inText := consumeBrace_suffix opened
        have enough : inside.length < (inside ++ rest).length + 1 := by
          rw [List.length_append]
          omega
        obtain ⟨reads, full⟩ := @ByteText.read inside count bytesText rest _ 0 enough (by decide)
        rw [Nat.zero_add] at reads full
        unfold consumeBytes
        rw [opened]
        dsimp only
        by_cases fits : count < bytesLimit
        · have closes := ends.resolve_right (Nat.ne_of_lt fits)
          obtain ⟨bytes, read⟩ := reads fits closes
          obtain ⟨tail, rfl⟩ := List.head?_eq_some_iff.mp closes
          rw [read]
          dsimp only [bind, Except.bind]
          rw [consumeBrace_closing]
          refine ⟨bytes, tail, rfl, ?_⟩
          have behindBrace := (List.suffix_cons '}' tail).trans (List.suffix_append inside _)
          refine ⟨behindBrace.trans inText, fun behind isBehind => ?_⟩
          rw [brace] at isBehind
          obtain ⟨comment, found⟩ := closingBrace_later none_ isBehind
          exact closingBrace_tail found
        · obtain ⟨front, left, rfl, stopped⟩ := full (Nat.le_of_not_lt fits)
          rw [stopped]
          refine ⟨[], left ++ rest, rfl, later (List.suffix_append left rest) ?_⟩
          refine List.IsSuffix.trans ?_ inText
          rw [List.append_assoc]
          exact List.suffix_append front _

/-- One digit short, and the next record is taken for bytes. -/
theorem oddDigits_beyond :
    consumeBytes "{1}\nVRAM@0x10={2}".toList = .ok ([0x1A, 0x01, 0x02], []) ∧
      ¬ ListsKept "{1}\nVRAM@0x10={2}".toList := by
  have read : consumeBytes "{1}\nVRAM@0x10={2}".toList = .ok ([0x1A, 0x01, 0x02], []) := by
    decide
  refine ⟨read, ?_⟩
  rintro ⟨⟨bytes, rest, isRead, kept⟩, -⟩
  cases read.symm.trans isRead
  have behind : behindList "{1}\nVRAM@0x10={2}".toList = some "\nVRAM@0x10={2}".toList := by
    decide
  have short := kept.brace _ behind
  exact absurd (List.suffix_nil.mp short) (by decide)

end Lists

end Umr.Harness
