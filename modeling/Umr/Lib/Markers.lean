import Umr.Lib.Scan

/-!
# Markers in free text

`strstr`, and what a `sscanf` format goes through: the characters that stand for
themselves, and hexadecimal numerals of a bounded width.
-/

set_option autoImplicit false

namespace Umr.Lib

def strstr {α : Type} [DecidableEq α] (needle : List α) : List α → Option (List α)
  | [] => if needle = [] then some [] else none
  | c :: text => if needle <+: c :: text then some (c :: text) else strstr needle text

def strchr {α : Type} [DecidableEq α] (c : α) (text : List α) : Option (List α) :=
  strstr [c] text

/-- The characters of a format that stand for themselves; a blank stands for any blanks. -/
def scanLiteral : List Char → List Char → Option (List Char)
  | [], text => some text
  | f :: format, text =>
      if isspace f then scanLiteral format (text.dropWhile isspace)
      else
        match text with
        | [] => none
        | c :: rest => if c = f then scanLiteral format rest else none

/-- `%8lx` for a width of 8: blanks, and then no more than the width of a sign, `0x` and digits.  A
number of up to 16 digits does not saturate. -/
def scanHex (width : Nat) (text : List Char) : Option (UInt64 × List Char) :=
  let start := text.dropWhile isspace
  let signed := skipSign (start.take width)
  let body := skipPrefix signed.2
  let value := UInt64.ofNat (hexValue (body.takeWhile isxdigit))
  if body.takeWhile isxdigit = [] then none
  else some (if signed.1 then 0 - value else value, body.dropWhile isxdigit ++ start.drop width)

/-- `%lu`; a number that is too large saturates. -/
def scanUlong (text : List Char) : Option UInt64 :=
  let signed := skipSign (text.dropWhile isspace)
  let digits := signed.2.takeWhile isdigit
  if digits = [] then none
  else if 2 ^ 64 ≤ decValue digits then some 0xFFFFFFFFFFFFFFFF
  else if signed.1 then some (0 - UInt64.ofNat (decValue digits))
  else some (UInt64.ofNat (decValue digits))

/-! ## Where a marker is found -/

section Markers
variable {α : Type} [DecidableEq α] {needle before rest : List α} {c : α}

/-- A text without the needle, up to a character that the needle does not have, is passed over. -/
theorem strstr_skip (free : ¬ needle <:+: before) (apart : c ∉ needle) :
    strstr needle (before ++ c :: rest) = strstr needle rest := by
  induction before with
  | nil =>
      refine if_neg ?_
      intro isPrefix
      cases needle with
      | nil => exact free List.infix_rfl
      | cons d needle =>
          rw [(List.cons_prefix_cons.mp isPrefix).1] at apart
          exact apart List.mem_cons_self
  | cons b before ih =>
      have later : ¬ needle <:+: before := fun inside => free (inside.trans (List.suffix_cons b before).isInfix)
      have notHere : ¬ needle <+: b :: (before ++ c :: rest) := by
        intro isPrefix
        have whole : b :: (before ++ c :: rest) = ((b :: before) ++ [c]) ++ rest := by simp
        rw [whole] at isPrefix
        rcases Nat.lt_or_ge (b :: before).length needle.length with long | short
        · -- The needle would reach over the character.
          have reaches : (b :: before) ++ [c] <+: needle := by
            refine List.prefix_of_prefix_length_le (List.prefix_append _ rest) isPrefix ?_
            rw [List.length_append]
            exact long
          exact apart (reaches.subset (by simp))
        · have inside : needle <+: b :: before := by
            refine List.prefix_of_prefix_length_le isPrefix ?_ short
            rw [List.append_assoc]
            exact List.prefix_append _ _
          exact free inside.isInfix
      rw [List.cons_append, strstr, if_neg notHere, ih later]

theorem strstr_here (needle rest : List α) : strstr needle (needle ++ rest) = some (needle ++ rest) := by
  cases needle with
  | nil => cases rest <;> rfl
  | cons c needle => exact if_pos (List.prefix_append _ _)

/-- A text without the first character of the needle is passed over. -/
theorem strstr_absent (absent : c ∉ before) :
    strstr (c :: needle) (before ++ rest) = strstr (c :: needle) rest := by
  induction before with
  | nil => rfl
  | cons b before ih =>
      obtain ⟨unlike, later⟩ := not_or.mp (fun same => absent (List.mem_cons.mpr same))
      have notHere : ¬ c :: needle <+: b :: (before ++ rest) :=
        fun isPrefix => unlike (List.cons_prefix_cons.mp isPrefix).1
      rw [List.cons_append, strstr, if_neg notHere, ih later]

theorem strstr_behind (absent : c ∉ before) :
    strstr (c :: needle) (before ++ (c :: needle ++ rest)) = some (c :: needle ++ rest) := by
  rw [strstr_absent absent, strstr_here]

theorem strchr_behind (absent : c ∉ before) : strchr c (before ++ c :: rest) = some (c :: rest) :=
  (strstr_absent absent).trans (strstr_here [c] rest)

theorem strchr_none (absent : c ∉ before) : strchr c before = none := by
  have passed : strstr [c] (before ++ []) = strstr [c] [] := strstr_absent absent
  rw [List.append_nil] at passed
  exact passed

/-- A word behind a separator is passed over, unless the needle goes on with it. -/
theorem strstr_word (absent : c ∉ before) (unlike : ¬ needle <+: before ++ rest) :
    strstr (c :: needle) (c :: (before ++ rest)) = strstr (c :: needle) rest := by
  have notHere : ¬ c :: needle <+: c :: (before ++ rest) :=
    fun isPrefix => unlike (List.cons_prefix_cons.mp isPrefix).2
  rw [strstr, if_neg notHere, strstr_absent absent]

/-- A needle in the text is found there, whatever follows. -/
theorem strstr_within {line : List α} (inside : needle <:+: line) (rest : List α) :
    ∃ found, strstr needle (line ++ rest) = some (found ++ rest) ∧ found <:+ line := by
  induction line with
  | nil =>
      cases List.infix_nil.mp inside
      exact ⟨[], by cases rest <;> rfl, List.suffix_rfl⟩
  | cons c line ih =>
      by_cases here : needle <+: c :: (line ++ rest)
      · exact ⟨c :: line, by rw [List.cons_append, strstr, if_pos here], List.suffix_rfl⟩
      · have later : needle <:+: line := by
          rcases List.infix_cons_iff.mp inside with isPrefix | later
          · exact absurd (isPrefix.trans (List.prefix_append _ _)) here
          · exact later
        obtain ⟨found, isFound, isSuffix⟩ := ih later
        exact ⟨found, by rw [List.cons_append, strstr, if_neg here, isFound],
          isSuffix.trans (List.suffix_cons c line)⟩

theorem strstr_suffix {text found : List α} (isFound : strstr needle text = some found) :
    found <:+ text := by
  induction text with
  | nil =>
      unfold strstr at isFound
      split at isFound
      · cases isFound
        exact List.suffix_rfl
      · cases isFound
  | cons b text ih =>
      unfold strstr at isFound
      split at isFound
      · cases isFound
        exact List.suffix_rfl
      · exact (ih isFound).trans (List.suffix_cons b text)

omit [DecidableEq α] in
theorem head_unlike (other : rest.head? ≠ some c) : ∀ d ∈ rest.head?, d ≠ c := by
  rintro d first rfl
  exact other first

omit [DecidableEq α] in
theorem not_prefix_head (unlike : ∀ d ∈ rest.head?, d ≠ c) : ¬ c :: needle <+: rest := by
  intro isPrefix
  cases rest with
  | nil => cases List.prefix_nil.mp isPrefix
  | cons d rest => exact unlike d rfl (List.cons_prefix_cons.mp isPrefix).1.symm

end Markers

/-! ## Words that stand behind a separator each -/

section Words
variable {α : Type} [DecidableEq α] {sep : α} {needle word rest : List α}

def sepWords (sep : α) (words : List (List α)) : List α := words.flatMap fun word => sep :: word

/-- The separator comes next, or nothing. -/
def Separated (sep : α) (rest : List α) : Prop := ∀ c ∈ rest.head?, c = sep

/-- The needle does not begin with the word, whatever words follow. -/
def Passed (sep : α) (needle word : List α) : Prop :=
  sep ∉ word ∧ ∀ rest, Separated sep rest → ¬ needle <+: word ++ rest

omit [DecidableEq α] in
theorem separated_words (words : List (List α)) (separated : Separated sep rest) :
    Separated sep (sepWords sep words ++ rest) := by
  cases words with
  | nil => exact separated
  | cons word words =>
      intro c first
      exact (Option.some.inj first).symm

omit [DecidableEq α] in
theorem passed_of_head {c : α} (whole : sep ∉ word) (apart : c ≠ sep)
    (unlike : ∀ d ∈ word.head?, d ≠ c) : Passed sep (c :: needle) word := by
  refine ⟨whole, fun rest separated => not_prefix_head fun d first => ?_⟩
  cases word with
  | nil =>
      rw [separated d first]
      exact apart.symm
  | cons b word => exact unlike d first

omit [DecidableEq α] in
theorem passed_of_absent {c : α} (whole : sep ∉ word) (apart : c ≠ sep) (absent : c ∉ word) :
    Passed sep (c :: needle) word := by
  refine passed_of_head whole apart fun d first same => ?_
  rw [same] at first
  exact absent (List.mem_of_mem_head? first)

omit [DecidableEq α] in
theorem passed_of_unlike (whole : sep ∉ word) (oneWord : sep ∉ needle)
    (unlike : ¬ needle <+: word) : Passed sep needle word := by
  refine ⟨whole, fun rest separated isPrefix => ?_⟩
  rcases Nat.lt_or_ge word.length needle.length with long | short
  · -- The needle would reach over the separator.
    cases rest with
    | nil =>
        rw [List.append_nil] at isPrefix
        exact unlike isPrefix
    | cons d rest =>
        have isSep := separated d rfl
        have whole : word ++ d :: rest = (word ++ [d]) ++ rest := by simp
        rw [whole] at isPrefix
        have reaches : word ++ [d] <+: needle := by
          refine List.prefix_of_prefix_length_le (List.prefix_append _ rest) isPrefix ?_
          rw [List.length_append]
          exact long
        refine oneWord (reaches.subset ?_)
        rw [isSep]
        simp
  · exact unlike (List.prefix_of_prefix_length_le isPrefix (List.prefix_append word rest) short)

theorem strstr_passed {words : List (List α)} (passed : ∀ word ∈ words, Passed sep needle word)
    (separated : Separated sep rest) :
    strstr (sep :: needle) (sepWords sep words ++ rest) = strstr (sep :: needle) rest := by
  induction words with
  | nil => rfl
  | cons word words ih =>
      obtain ⟨first, later⟩ := List.forall_mem_cons.mp passed
      have shape : sepWords sep (word :: words) ++ rest =
          sep :: (word ++ (sepWords sep words ++ rest)) := by
        simp [sepWords]
      rw [shape, strstr_word first.1 (first.2 _ (separated_words words separated)), ih later]

end Words

/-! ## Padded numerals -/

theorem length_printPadded_eq {width n : Nat} (positive : 0 < width) (fits : n < 16 ^ width) :
    (printPadded width n).length = width := by
  have short : (printHex n).length ≤ width :=
    (Nat.length_toDigits_le_iff (by decide) positive).mpr fits
  rw [printPadded, List.length_append, List.length_replicate]
  omega

/-- A padded numeral is read in its width, whatever follows it. -/
theorem scanHex_printPadded {width n : Nat} (two : 2 ≤ width) (fits : n < 16 ^ width)
    (rest : List Char) :
    scanHex width (printPadded width n ++ rest) = some (UInt64.ofNat n, rest) := by
  have digits := isxdigit_printPadded width n
  have length := length_printPadded_eq (by omega) fits
  have start : ∀ rest, (printPadded width n ++ rest).dropWhile isspace =
      printPadded width n ++ rest := by
    intro rest
    cases isDigits : printPadded width n with
    | nil =>
        rw [isDigits] at length
        cases length
        cases two
    | cons d more =>
        rw [isDigits] at digits
        exact List.dropWhile_cons_of_neg
          (by rw [isxdigit_not_isspace (digits d List.mem_cons_self)]; decide)
  have unsigned := skip_digits digits (by omega) []
  rw [start, List.append_nil] at unsigned
  have all : (printPadded width n).takeWhile isxdigit = printPadded width n :=
    List.takeWhile_eq_self_iff.mpr digits
  have none_ : (printPadded width n).dropWhile isxdigit = [] :=
    List.dropWhile_eq_nil_iff.mpr digits
  have some_ : printPadded width n ≠ [] := by
    intro empty
    rw [empty] at length
    cases length
    cases two
  unfold scanHex
  dsimp only
  rw [start, List.take_left' length, List.drop_left' length, unsigned.1, unsigned.2, all, none_,
    if_neg some_, hexValue_printPadded]
  rfl

theorem printDec_word (n : Nat) : IsWord (printDec n) :=
  ⟨printDec_ne_nil n, fun c member => isdigit_not_isspace (isdigit_printDec n c member)⟩

theorem scanUlong_printDec {n : Nat} (fits : n < 2 ^ 64) {rest : List Char}
    (ends : StopsAt isdigit rest) : scanUlong (printDec n ++ rest) = some (UInt64.ofNat n) := by
  have digits := isdigit_printDec n
  have start : ([] ++ (printDec n ++ rest)).dropWhile isspace = printDec n ++ rest :=
    dropWhile_gap (fun c member => absurd member List.not_mem_nil) ((printDec_word n).stops rest)
  rw [List.nil_append] at start
  unfold scanUlong
  rw [start, skipSign_digits]
  dsimp only
  rw [takeWhile_append_stop digits ends, if_neg (printDec_ne_nil n), decValue_printDec,
    if_neg (Nat.not_le.mpr fits), if_neg (by decide)]

end Umr.Lib
