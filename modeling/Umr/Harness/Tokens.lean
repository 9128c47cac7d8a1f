import Umr.Lib.Hex

/-!
# The tokenizer of the test harness

The `consume_*` functions of `testing_harness.c`.  A `const char *` into the
script is the text in front of the terminating NUL, so `**ptr` is zero exactly
when that text is empty.
-/

set_option autoImplicit false

namespace Umr.Harness

open Umr.Lib

/-- How a script stops otherwise than with a harness: `NULL` is returned; characters behind the
terminating NUL are read, which decide nothing, and then `NULL` is returned; the pointer moves
behind the NUL; or the loop goes on for ever. -/
inductive ScriptStop where
  | null
  | overread
  | overrun
  | hang
  deriving DecidableEq, Repr

/-! ## Blanks and comments -/

def chomp : List Char → List Char
  | [] => []
  | '\n' :: rest => rest
  | _ :: rest => chomp rest

def isBlank (c : Char) : Bool := c = ' ' ∨ c = '\t' ∨ c = '\n'

def whitespaceTurns : Nat → List Char → List Char
  | 0, text => text
  | turns + 1, text =>
      match text.dropWhile isBlank with
      | ';' :: rest => whitespaceTurns turns (chomp (';' :: rest))
      | rest => rest

/-- Each turn that finds a comment takes a character, so the turns suffice. -/
def consumeWhitespace (text : List Char) : List Char := whitespaceTurns (text.length + 1) text

def isNumeral (c : Char) : Bool := isxdigit c || c = 'x' || c = 'X'

def consumeHexdigits (text : List Char) : List Char := text.dropWhile isNumeral

/-! ## Numbers -/

/-- What `consume_xint64` and `consume_xint32` have in common: a number that is stored in its width. -/
def consumeXint {ι : Type} (stored : UInt64 → ι) (text : List Char) : Option ι × List Char :=
  let text := consumeWhitespace text
  match sscanfHex text with
  | some v => (some (stored v), consumeHexdigits text)
  | none => (none, text)

def consumeXint64 (text : List Char) : Option UInt64 × List Char := consumeXint id text

def consumeXint32 (text : List Char) : Option UInt32 × List Char := consumeXint UInt64.toUInt32 text

def nextdigit (text : List Char) : Option (Char × List Char) :=
  match text.dropWhile fun c => !isxdigit c with
  | [] => none
  | digit :: rest => some (digit, rest)

/-- Without a first digit `t` is the empty text, whatever is found behind the NUL for `t[1]`, and no
byte is read; without a second one `t[1]` is the NUL, and `*ptr` moves behind it. -/
def consumeXint8 (text : List Char) : Except ScriptStop (Option UInt8 × List Char) :=
  let text := consumeWhitespace text
  if text.head? = some '}' then .ok (none, text)
  else
    match nextdigit text with
    | none => .error .overread
    | some (high, text) =>
        match nextdigit text with
        | none => .error .overrun
        | some (low, text) => .ok (some (UInt8.ofNat (16 * hexVal high + hexVal low)), text)

/-! ## Lists -/

/-- The size at which `s + 32` overflows `int`, and `realloc` has nothing to give. -/
def bytesLimit : Nat := 2 ^ 31 - 32

/-- The bytes up to the closing brace; each takes two characters at least.  `x` have been stored
before; `none` stands for memory that has run out. -/
def bytesLoop : Nat → Nat → List Char → Except ScriptStop (Option (List UInt8) × List Char)
  | 0, _, text => .ok (some [], text)
  | turns + 1, x, text => do
      let (value, text) ← consumeXint8 text
      match value with
      | none => pure (some [], text)
      | some byte =>
          if x + 1 = bytesLimit then pure (none, text)
          else do
            let (bytes, text) ← bytesLoop turns (x + 1) text
            pure (bytes.map (byte :: ·), text)

/-- The size at which `s + 8` overflows `int`. -/
def wordsLimit : Nat := 2 ^ 31 - 8

/-- Words with commas between them; each takes a character at least. -/
def wordsLoop : Nat → Nat → List Char → Option (List UInt32) × List Char
  | 0, _, text => (some [], text)
  | turns + 1, x, text =>
      match consumeXint32 text with
      | (none, text) => (some [], text)
      | (some word, text) =>
          if x + 1 = wordsLimit then (none, text)
          else
            match consumeWhitespace text with
            | ',' :: rest =>
                ((wordsLoop turns (x + 1) rest).1.map (word :: ·),
                  (wordsLoop turns (x + 1) rest).2)
            | rest => (some [word], rest)

def consumeBrace (brace : Char) (text : List Char) : Option (List Char) :=
  match consumeWhitespace text with
  | [] => none
  | c :: rest => if c = brace then some rest else none

/-- `NULL`, which goes with a size of 0, is the empty list. -/
def consumeBytes (text : List Char) : Except ScriptStop (List UInt8 × List Char) :=
  match consumeBrace '{' text with
  | none => .ok ([], consumeWhitespace text)
  | some text => do
      let (bytes, text) ← bytesLoop (text.length + 1) 0 text
      match bytes with
      | none => pure ([], text)
      | some bytes =>
          match consumeBrace '}' text with
          | none => pure ([], consumeWhitespace text)
          | some text => pure (bytes, text)

def consumeWords (text : List Char) : List UInt32 × List Char :=
  match consumeBrace '{' text with
  | none => ([], consumeWhitespace text)
  | some text =>
      match wordsLoop (text.length + 1) 0 text with
      | (none, text) => ([], text)
      | (some words, text) =>
          match consumeBrace '}' text with
          | none => ([], consumeWhitespace text)
          | some rest => (words, rest)

/-- Whether the token is there, and the text behind it if it is.  Where the text is shorter than
the token, its NUL already differs: what `memcmp` reads behind it decides nothing. -/
def consumeWord (text token : List Char) : Bool × List Char :=
  let text := consumeWhitespace text
  if token.isPrefixOf text then (true, text.drop token.length) else (false, text)

/-! ## Blanks -/

section Blanks
variable {c : Char} {text : List Char}

theorem length_chomp_le (text : List Char) : (chomp text).length ≤ text.length := by
  fun_induction chomp text with
  | case1 => exact Nat.le_refl _
  | case2 rest => exact Nat.le_succ _
  | case3 c rest _ ih => exact Nat.le_succ_of_le ih

theorem chomp_line {note : List Char} (oneLine : '\n' ∉ note) (rest : List Char) :
    chomp (note ++ '\n' :: rest) = rest := by
  induction note with
  | nil => rfl
  | cons c note ih =>
      rw [List.mem_cons, not_or] at oneLine
      rw [List.cons_append, chomp]
      · exact ih oneLine.2
      · exact fun newline => oneLine.1 newline.symm

theorem whitespaceTurns_enough : ∀ (turns more : Nat) (text : List Char), text.length < turns →
    text.length < more → whitespaceTurns turns text = whitespaceTurns more text := by
  intro turns
  induction turns with
  | zero => intro more text enough; omega
  | succ turns ih =>
      intro more text enough more_enough
      cases more with
      | zero => omega
      | succ more =>
          have shorter := (List.dropWhile_suffix isBlank : text.dropWhile isBlank <:+ text).length_le
          unfold whitespaceTurns
          split
          · rename_i rest found
            have chomped : (chomp (';' :: rest)).length ≤ rest.length := length_chomp_le rest
            rw [found, List.length_cons] at shorter
            exact ih more (chomp (';' :: rest)) (by omega) (by omega)
          · rfl

theorem consumeWhitespace_blank (blank : isBlank c = true) (text : List Char) :
    consumeWhitespace (c :: text) = consumeWhitespace text := by
  have same : whitespaceTurns (text.length + 1 + 1) (c :: text) =
      whitespaceTurns (text.length + 1 + 1) text := by
    rw [whitespaceTurns, whitespaceTurns, List.dropWhile_cons_of_pos blank]
  exact same.trans (whitespaceTurns_enough _ _ text (by omega) (by omega))

theorem consumeWhitespace_stop (notBlank : isBlank c = false) (noComment : c ≠ ';')
    (text : List Char) : consumeWhitespace (c :: text) = c :: text := by
  rw [consumeWhitespace, whitespaceTurns, List.dropWhile_cons_of_neg (by simp [notBlank])]
  split
  · rename_i rest same
    exact absurd (List.cons.inj same).1 noComment
  · rfl

theorem consumeWhitespace_comment (text : List Char) :
    consumeWhitespace (';' :: text) = consumeWhitespace (chomp text) := by
  have chomped : (chomp text).length ≤ text.length := length_chomp_le text
  have turn : consumeWhitespace (';' :: text) = whitespaceTurns (text.length + 1) (chomp text) :=
    rfl
  rw [turn]
  exact whitespaceTurns_enough _ _ _ (by omega) (by omega)

theorem consumeWhitespace_nil : consumeWhitespace [] = [] := rfl

/-- A text that starts with a token: nothing to skip in front of it. -/
def Starts (text : List Char) : Prop :=
  ∀ c ∈ text.head?, isBlank c = false ∧ c ≠ ';'

theorem consumeWhitespace_starts (starts : Starts text) : consumeWhitespace text = text := by
  cases text with
  | nil => rfl
  | cons c text => exact consumeWhitespace_stop (starts c rfl).1 (starts c rfl).2 text

theorem consumeWhitespace_gap {gap : List Char} (blanks : ∀ c ∈ gap, isBlank c = true)
    (text : List Char) : consumeWhitespace (gap ++ text) = consumeWhitespace text := by
  induction gap with
  | nil => rfl
  | cons c gap ih =>
      rw [List.cons_append, consumeWhitespace_blank (blanks c (List.mem_cons_self ..))]
      exact ih fun c member => blanks c (List.mem_cons_of_mem _ member)

end Blanks

/-! ## Printed numbers are read back -/

section Printed
variable {text rest : List Char}

theorem stopsAt_isxdigit (stop : StopsAt isNumeral rest) : StopsAt isxdigit rest := by
  intro c first
  have notNumeral := stop c first
  simp only [isNumeral, Bool.or_eq_false_iff] at notNumeral
  exact notNumeral.1.1

theorem consumeHexdigits_printHex0x (n : Nat) (stop : StopsAt isNumeral rest) :
    consumeHexdigits (printHex0x n ++ rest) = rest := by
  have digits : ∀ c ∈ printHex0x n, isNumeral c = true := by
    intro c member
    rcases List.mem_cons.mp member with rfl | behind
    · decide
    · rcases List.mem_cons.mp behind with rfl | digit
      · decide
      · simp [isNumeral, isxdigit_printHex n c digit]
  exact dropWhile_append_stop digits stop

theorem consumeXint_printed {ι : Type} (stored : UInt64 → ι) {n : Nat} (fits : n < 2 ^ 64)
    (stop : StopsAt isNumeral rest) (skipped : consumeWhitespace text = printHex0x n ++ rest) :
    consumeXint stored text = (some (stored (UInt64.ofNat n)), rest) := by
  rw [consumeXint, skipped, sscanfHex_printHex0x fits (stopsAt_isxdigit stop),
    consumeHexdigits_printHex0x n stop]

theorem consumeXint32_printed {word : UInt32} (stop : StopsAt isNumeral rest)
    (skipped : consumeWhitespace text = printHex0x word.toNat ++ rest) :
    consumeXint32 text = (some word, rest) := by
  have fits : word.toNat < 2 ^ 64 := Nat.lt_of_lt_of_le word.toNat_lt (by decide)
  have narrowed : (UInt64.ofNat word.toNat).toUInt32 = word := by
    apply UInt32.toNat_inj.mp
    rw [UInt64.toNat_toUInt32, UInt64.toNat_ofNat', Nat.mod_eq_of_lt fits,
      Nat.mod_eq_of_lt word.toNat_lt]
  rw [consumeXint32, consumeXint_printed _ fits stop skipped, narrowed]

theorem printHex0x_starts (n : Nat) (rest : List Char) : Starts (printHex0x n ++ rest) := by
  rintro c ⟨⟩
  decide

theorem nextdigit_digitChar {d : Nat} (small : d < 16) (rest : List Char) :
    nextdigit (d.digitChar :: rest) = some (d.digitChar, rest) := by
  unfold nextdigit
  rw [List.dropWhile_cons_of_neg (by simp [isxdigit_digitChar small])]

theorem digitChar_token {d : Nat} (small : d < 16) :
    isBlank d.digitChar = false ∧ d.digitChar ≠ ';' ∧ d.digitChar ≠ '}' := by
  interval_cases d <;> decide

theorem printByte_starts (byte : UInt8) (rest : List Char) : Starts (printByte byte ++ rest) := by
  have high : byte.toNat / 16 < 16 := by have := byte.toNat_lt; omega
  rintro c ⟨⟩
  exact ⟨(digitChar_token high).1, (digitChar_token high).2.1⟩

theorem consumeXint8_printed {byte : UInt8}
    (skipped : consumeWhitespace text = printByte byte ++ rest) :
    consumeXint8 text = .ok (some byte, rest) := by
  have high : byte.toNat / 16 < 16 := by have := byte.toNat_lt; omega
  have low : byte.toNat % 16 < 16 := by omega
  have cut : consumeWhitespace text =
      (byte.toNat / 16).digitChar :: (byte.toNat % 16).digitChar :: rest := skipped
  have notBrace : ((byte.toNat / 16).digitChar :: (byte.toNat % 16).digitChar :: rest).head? ≠
      some '}' := fun same => (digitChar_token high).2.2 (Option.some.inj same)
  have value : UInt8.ofNat (16 * (byte.toNat / 16) + byte.toNat % 16) = byte := by
    rw [show 16 * (byte.toNat / 16) + byte.toNat % 16 = byte.toNat by omega]
    exact UInt8.ofNat_toNat
  unfold consumeXint8
  rw [cut]
  dsimp only
  rw [if_neg notBrace, nextdigit_digitChar high]
  dsimp only
  rw [nextdigit_digitChar low]
  dsimp only
  rw [hexVal_digitChar high, hexVal_digitChar low, value]

end Printed

/-! ## Printed lists are read back -/

section Lists
variable {text rest tail : List Char}

def printBytes (bytes : List UInt8) : List Char := bytes.flatMap printByte

def printWords : List UInt32 → List Char
  | [] => []
  | [word] => printHex0x word.toNat
  | word :: words => printHex0x word.toNat ++ ", ".toList ++ printWords words

theorem length_le_printBytes (bytes : List UInt8) : bytes.length ≤ (printBytes bytes).length := by
  induction bytes with
  | nil => exact Nat.le_refl _
  | cons byte bytes ih =>
      change bytes.length + 1 ≤ (printBytes bytes).length + 1 + 1
      omega

theorem bytesLoop_printed (closed : consumeWhitespace rest = '}' :: tail) (bytes : List UInt8) :
    ∀ (turns x : Nat) (text : List Char), bytes.length < turns →
      x + bytes.length < bytesLimit →
      consumeWhitespace text = consumeWhitespace (printBytes bytes ++ rest) →
      bytesLoop turns x text = .ok (some bytes, '}' :: tail) := by
  induction bytes with
  | nil =>
      intro turns x text enough room skipped
      cases turns with
      | zero => exact absurd enough (Nat.not_lt_zero _)
      | succ turns =>
          have brace : consumeWhitespace text = '}' :: tail := skipped.trans closed
          have stopped : consumeXint8 text = .ok (none, '}' :: tail) := by
            unfold consumeXint8
            rw [brace]
            rfl
          rw [bytesLoop, stopped]
          rfl
  | cons byte bytes ih =>
      intro turns x text enough room skipped
      cases turns with
      | zero => exact absurd enough (Nat.not_lt_zero _)
      | succ turns =>
          have cut : printBytes (byte :: bytes) ++ rest =
              printByte byte ++ (printBytes bytes ++ rest) := List.append_assoc ..
          rw [cut, consumeWhitespace_starts (printByte_starts byte _)] at skipped
          rw [List.length_cons] at room
          have more : x + 1 ≠ bytesLimit := by omega
          rw [bytesLoop, consumeXint8_printed skipped]
          change (if x + 1 = bytesLimit then _ else
            bytesLoop turns (x + 1) (printBytes bytes ++ rest) >>= _) = _
          rw [if_neg more, ih turns (x + 1) _ (Nat.lt_of_succ_lt_succ enough) (by omega) rfl]
          rfl

theorem bytesLoop_full (bytes : List UInt8) :
    ∀ (turns x : Nat) (text : List Char), bytes.length < turns → x < bytesLimit →
      bytesLimit ≤ x + bytes.length →
      consumeWhitespace text = consumeWhitespace (printBytes bytes ++ rest) →
      ∃ behind, bytesLoop turns x text = .ok (none, behind) := by
  induction bytes with
  | nil =>
      intro turns x text _ below full
      exact absurd below (Nat.not_lt.mpr full)
  | cons byte bytes ih =>
      intro turns x text enough below full skipped
      cases turns with
      | zero => exact absurd enough (Nat.not_lt_zero _)
      | succ turns =>
          have cut : printBytes (byte :: bytes) ++ rest =
              printByte byte ++ (printBytes bytes ++ rest) := List.append_assoc ..
          rw [cut, consumeWhitespace_starts (printByte_starts byte _)] at skipped
          rw [List.length_cons] at full
          rw [bytesLoop, consumeXint8_printed skipped]
          change ∃ behind, (if x + 1 = bytesLimit then _ else
            bytesLoop turns (x + 1) (printBytes bytes ++ rest) >>= _) = _
          by_cases last : x + 1 = bytesLimit
          · rw [if_pos last]
            exact ⟨_, rfl⟩
          · obtain ⟨behind, read⟩ := ih turns (x + 1) _ (Nat.lt_of_succ_lt_succ enough) (by omega)
              (by omega) rfl
            rw [if_neg last, read]
            exact ⟨behind, rfl⟩

theorem consumeBrace_found {brace : Char} (skipped : consumeWhitespace text = brace :: rest) :
    consumeBrace brace text = some rest := by
  unfold consumeBrace
  rw [skipped]
  exact if_pos rfl

section BytesText
variable {before : List Char} {bytes : List UInt8}

theorem length_lt_turns : bytes.length < (before ++ (printBytes bytes ++ rest)).length + 1 := by
  have printed := length_le_printBytes bytes
  rw [List.length_append, List.length_append]
  omega

theorem consumeBytes_printed (blanks : ∀ c ∈ before, isBlank c = true)
    (closed : consumeWhitespace rest = '}' :: tail) (room : bytes.length < bytesLimit)
    (opened : consumeWhitespace text = '{' :: (before ++ (printBytes bytes ++ rest))) :
    consumeBytes text = .ok (bytes, tail) := by
  unfold consumeBytes
  rw [consumeBrace_found opened]
  change (bytesLoop ((before ++ (printBytes bytes ++ rest)).length + 1) 0
    (before ++ (printBytes bytes ++ rest)) >>= _) = _
  rw [bytesLoop_printed closed bytes _ 0 _ length_lt_turns (by rwa [Nat.zero_add])
    (consumeWhitespace_gap blanks _)]
  rfl

theorem consumeBytes_full (blanks : ∀ c ∈ before, isBlank c = true)
    (full : bytesLimit ≤ bytes.length)
    (opened : consumeWhitespace text = '{' :: (before ++ (printBytes bytes ++ rest))) :
    ∃ behind, consumeBytes text = .ok ([], behind) := by
  obtain ⟨behind, read⟩ := @bytesLoop_full rest bytes
    ((before ++ (printBytes bytes ++ rest)).length + 1) 0 (before ++ (printBytes bytes ++ rest))
    length_lt_turns (by decide) (by rwa [Nat.zero_add]) (consumeWhitespace_gap blanks _)
  refine ⟨behind, ?_⟩
  unfold consumeBytes
  rw [consumeBrace_found opened]
  change (bytesLoop ((before ++ (printBytes bytes ++ rest)).length + 1) 0
    (before ++ (printBytes bytes ++ rest)) >>= _) = _
  rw [read]
  rfl

end BytesText

theorem printWords_cons_cons (word next : UInt32) (words : List UInt32) :
    printWords (word :: next :: words) =
      printHex0x word.toNat ++ (',' :: ' ' :: printWords (next :: words)) := by
  rw [printWords, List.append_assoc]
  · rfl
  · exact fun nothing => nomatch nothing

theorem printWords_starts (word : UInt32) (words : List UInt32) (rest : List Char) :
    Starts (printWords (word :: words) ++ rest) := by
  cases words with
  | nil => exact printHex0x_starts word.toNat rest
  | cons next words =>
      rw [printWords_cons_cons, List.append_assoc]
      exact printHex0x_starts word.toNat _

theorem length_le_printWords (words : List UInt32) : words.length ≤ (printWords words).length := by
  induction words with
  | nil => exact Nat.le_refl _
  | cons word words ih =>
      cases words with
      | nil => exact Nat.le_add_left 1 _
      | cons next words =>
          rw [printWords_cons_cons, List.length_append]
          change (next :: words).length + 1 ≤ _ + ((printWords (next :: words)).length + 1 + 1)
          omega

theorem wordsLoop_printed (stop : StopsAt isNumeral rest)
    (closed : consumeWhitespace rest = '}' :: tail) (words : List UInt32) :
    ∀ (word : UInt32) (turns x : Nat) (text : List Char), words.length < turns →
      x + (words.length + 1) < wordsLimit →
      consumeWhitespace text = consumeWhitespace (printWords (word :: words) ++ rest) →
      wordsLoop turns x text = (some (word :: words), '}' :: tail) := by
  induction words with
  | nil =>
      intro word turns x text enough room skipped
      cases turns with
      | zero => exact absurd enough (Nat.not_lt_zero _)
      | succ turns =>
          rw [List.length_nil] at room
          have more : x + 1 ≠ wordsLimit := by omega
          rw [consumeWhitespace_starts (printWords_starts word [] rest)] at skipped
          rw [wordsLoop, consumeXint32_printed stop skipped]
          dsimp only
          rw [if_neg more, closed]
          rfl
  | cons next words ih =>
      intro word turns x text enough room skipped
      cases turns with
      | zero => exact absurd enough (Nat.not_lt_zero _)
      | succ turns =>
          rw [List.length_cons] at room
          have more : x + 1 ≠ wordsLimit := by omega
          rw [consumeWhitespace_starts (printWords_starts word (next :: words) rest),
            printWords_cons_cons, List.append_assoc] at skipped
          have comma : StopsAt isNumeral
              ((',' :: ' ' :: printWords (next :: words)) ++ rest) := by
            rintro c ⟨⟩
            decide
          have behind : consumeWhitespace ((',' :: ' ' :: printWords (next :: words)) ++ rest) =
              ',' :: ' ' :: (printWords (next :: words) ++ rest) :=
            consumeWhitespace_stop (by decide) (by decide) _
          have further := ih next turns (x + 1) (' ' :: (printWords (next :: words) ++ rest))
            (Nat.lt_of_succ_lt_succ enough) (by omega) (consumeWhitespace_blank (by decide) _)
          rw [wordsLoop, consumeXint32_printed comma skipped]
          dsimp only
          rw [if_neg more, behind]
          change ((wordsLoop turns (x + 1) _).1.map _, (wordsLoop turns (x + 1) _).2) = _
          rw [further]
          rfl

theorem consumeWords_printed (stop : StopsAt isNumeral rest)
    (closed : consumeWhitespace rest = '}' :: tail) (word : UInt32) (words : List UInt32)
    (room : words.length + 1 < wordsLimit)
    (opened : consumeWhitespace text = '{' :: ' ' :: (printWords (word :: words) ++ rest)) :
    consumeWords text = (word :: words, tail) := by
  have turns : words.length < (' ' :: (printWords (word :: words) ++ rest)).length + 1 := by
    have printed := length_le_printWords (word :: words)
    rw [List.length_cons] at printed
    rw [List.length_cons, List.length_append]
    omega
  have blank : consumeWhitespace (' ' :: (printWords (word :: words) ++ rest)) =
      consumeWhitespace (printWords (word :: words) ++ rest) :=
    consumeWhitespace_blank (by decide) _
  have read := wordsLoop_printed stop closed words word _ 0 _ turns (by rwa [Nat.zero_add]) blank
  have last : consumeBrace '}' ('}' :: tail) = some tail :=
    consumeBrace_found (consumeWhitespace_stop (by decide) (by decide) tail)
  unfold consumeWords
  rw [consumeBrace_found opened]
  dsimp only
  rw [read]
  dsimp only
  rw [last]

theorem consumeWord_found {token : List Char} (skipped : consumeWhitespace text = token ++ rest) :
    consumeWord text token = (true, rest) := by
  unfold consumeWord
  rw [skipped]
  dsimp only
  rw [if_pos (by simp), List.drop_left]

end Lists

end Umr.Harness
