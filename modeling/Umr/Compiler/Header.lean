import Umr.Database.Soc15
import Umr.Lib.Markers

/-!
# The definitions of a header

`comp/compiler.c` finds the definitions of a C header line by line.  A text is what stands in front
of the terminator, so `**p` is zero where it is empty.
-/

set_option autoImplicit false

namespace Umr.Compiler

open Umr.Lib Umr.Database

/-! ## The scanner -/

def isBlank (c : Char) : Bool := c = ' ' ∨ c = '\t' ∨ c = '\n' ∨ c = '\r'

def whitespace (s : List Char) : List Char := s.dropWhile isBlank

/-- Each turn skips a line, so the turns suffice. -/
def defineTurns : Nat → List Char → Option (List Char)
  | 0, _ => none
  | turns + 1, s =>
      match whitespace s with
      | [] => none
      | c :: s =>
          if "#define".toList <+: c :: s then some ((c :: s).drop 7)
          else defineTurns turns ((c :: s).dropWhile (· ≠ '\n'))

/-- The text behind the next `#define`. -/
def define (s : List Char) : Option (List Char) := defineTurns (s.length + 1) s

/-- `isalnum` or an underscore. -/
def inSymbol (c : Char) : Bool :=
  isdigit c ∨ ('a' ≤ c ∧ c ≤ 'z') ∨ ('A' ≤ c ∧ c ≤ 'Z') ∨ c = '_'

theorem inSymbol_range {c : Char} (inside : inSymbol c = true) :
    48 ≤ c.toNat ∧ c.toNat < 128 ∧ c.toNat ≠ 64 := by
  simp only [inSymbol, isdigit, decide_eq_true_eq, Char.le_def, UInt32.le_iff_toNat_le] at inside
  change (((48 : Nat) ≤ c.toNat ∧ c.toNat ≤ 57) ∨ ((97 : Nat) ≤ c.toNat ∧ c.toNat ≤ 122) ∨
    ((65 : Nat) ≤ c.toNat ∧ c.toNat ≤ 90) ∨ c = '_') at inside
  rcases inside with digit | lower | upper | rfl
  · omega
  · omega
  · omega
  · decide

/-- The 256 characters of `dest` are not looked at. -/
def symbol (s : List Char) : List Char × List Char :=
  ((whitespace s).takeWhile inSymbol, (whitespace s).dropWhile inSymbol)

/-- A number that is not there is 0. -/
def numberValue : List Char → UInt64
  | [] => 0
  | c :: s => (sscanf0x (c :: s)).getD ((scanUlong (c :: s)).getD 0)

/-- Of a hexadecimal number no more than the `0` is skipped. -/
def number (s : List Char) : UInt64 × List Char :=
  (numberValue (whitespace s), (whitespace s).dropWhile isxdigit)

/-- The loops `while (*s)`: the definitions whose symbols are `wanted`, for which alone a number is
read.  Each turn takes a `#define`. -/
def definesTurns (wanted : List Char → Bool) : Nat → List Char → List (List Char × UInt64)
  | 0, _ => []
  | turns + 1, s =>
      match define s with
      | none => []
      | some s =>
          let sym := symbol s
          if wanted sym.1 then
            let v := number sym.2
            (sym.1, v.1) :: definesTurns wanted turns v.2
          else definesTurns wanted turns sym.2

def defines (wanted : List Char → Bool) (s : List Char) : List (List Char × UInt64) :=
  definesTurns wanted s.length s

/-! ## Enough turns -/

theorem whitespace_length (s : List Char) : (whitespace s).length ≤ s.length :=
  List.length_dropWhile_le _ _

theorem whitespace_not_blank {s : List Char} {c : Char} {rest : List Char}
    (text : whitespace s = c :: rest) : isBlank c = false := by
  have some_ : (whitespace s) ≠ [] := by simp [text]
  have first := @List.head_dropWhile_not _ isBlank s some_
  have head : (whitespace s).head some_ = c := by simp [text]
  change isBlank ((whitespace s).head some_) = false at first
  rwa [head] at first

theorem skipLine_length {c : Char} {s : List Char} (notBlank : isBlank c = false) :
    ((c :: s).dropWhile (· ≠ '\n')).length ≤ s.length := by
  have notNewline : c ≠ '\n' := by
    rintro rfl
    cases notBlank
  have skipped : (c :: s).dropWhile (· ≠ '\n') = s.dropWhile (· ≠ '\n') :=
    List.dropWhile_cons_of_pos (decide_eq_true notNewline)
  rw [skipped]
  exact List.length_dropWhile_le _ _

theorem defineTurns_enough {turns more : Nat} {s : List Char} (enough : s.length < turns)
    (enough' : s.length < more) : defineTurns turns s = defineTurns more s := by
  induction turns generalizing more s with
  | zero => omega
  | succ turns ih =>
      obtain ⟨more, rfl⟩ : ∃ less, more = less + 1 := ⟨more - 1, by omega⟩
      rw [defineTurns, defineTurns]
      cases text : whitespace s with
      | nil => rfl
      | cons c rest =>
          dsimp only
          have fewer := @skipLine_length c rest (whitespace_not_blank text)
          have length := whitespace_length s
          rw [text, List.length_cons] at length
          rw [@ih more ((c :: rest).dropWhile (· ≠ '\n')) (by omega) (by omega)]

theorem defineTurns_length {turns : Nat} {s rest : List Char} (found : defineTurns turns s = some rest) :
    rest.length + 7 ≤ s.length := by
  induction turns generalizing s with
  | zero => cases found
  | succ turns ih =>
      rw [defineTurns] at found
      cases text : whitespace s with
      | nil =>
          rw [text] at found
          cases found
      | cons c more =>
          have length := whitespace_length s
          rw [text] at found length
          dsimp only at found
          split at found
          · rename_i here
            cases found
            have long := here.length_le
            have seven : "#define".toList.length = 7 := rfl
            rw [List.length_drop]
            omega
          · have fewer := @skipLine_length c more (whitespace_not_blank text)
            have behind := ih found
            rw [List.length_cons] at length
            omega

theorem symbol_length (s : List Char) : (symbol s).2.length ≤ s.length :=
  (List.length_dropWhile_le _ _).trans (whitespace_length s)

theorem number_length (s : List Char) : (number s).2.length ≤ s.length :=
  (List.length_dropWhile_le _ _).trans (whitespace_length s)

theorem definesTurns_enough (wanted : List Char → Bool) {turns more : Nat} {s : List Char}
    (enough : s.length ≤ turns) (enough' : s.length ≤ more) :
    definesTurns wanted turns s = definesTurns wanted more s := by
  induction turns generalizing more s with
  | zero =>
      have none_ : s = [] := List.length_eq_zero_iff.mp (Nat.le_zero.mp enough)
      cases more with
      | zero => rfl
      | succ more => rw [none_]; rfl
  | succ turns ih =>
      cases more with
      | zero =>
          have none_ : s = [] := List.length_eq_zero_iff.mp (Nat.le_zero.mp enough')
          rw [none_]
          rfl
      | succ more =>
          rw [definesTurns, definesTurns]
          cases found : define s with
          | none => rfl
          | some rest =>
              have fewer := defineTurns_length found
              have behind := symbol_length rest
              have numbered := number_length (symbol rest).2
              dsimp only
              rw [@ih more (number (symbol rest).2).2 (by omega) (by omega),
                @ih more (symbol rest).2 (by omega) (by omega)]

theorem defines_eq (wanted : List Char → Bool) (s : List Char) :
    defines wanted s =
      match define s with
      | none => []
      | some s =>
          if wanted (symbol s).1 then
            ((symbol s).1, (number (symbol s).2).1) :: defines wanted (number (symbol s).2).2
          else defines wanted (symbol s).2 := by
  have one : defines wanted s = definesTurns wanted (s.length + 1) s :=
    definesTurns_enough wanted (Nat.le_refl _) (Nat.le_succ _)
  rw [one, definesTurns]
  cases found : define s with
  | none => rfl
  | some rest =>
      have fewer := defineTurns_length found
      have behind := symbol_length rest
      have numbered := number_length (symbol rest).2
      dsimp only
      rw [defines, defines, @definesTurns_enough wanted s.length _ (number (symbol rest).2).2
        (by omega) (Nat.le_refl _), @definesTurns_enough wanted s.length _ (symbol rest).2
        (by omega) (Nat.le_refl _)]

/-! ## Lines that are skipped -/

theorem define_eq (s : List Char) :
    define s =
      match whitespace s with
      | [] => none
      | c :: s =>
          if "#define".toList <+: c :: s then some ((c :: s).drop 7)
          else define ((c :: s).dropWhile (· ≠ '\n')) := by
  rw [define, defineTurns]
  cases text : whitespace s with
  | nil => rfl
  | cons c rest =>
      have fewer := @skipLine_length c rest (whitespace_not_blank text)
      have length := whitespace_length s
      rw [text, List.length_cons] at length
      dsimp only
      rw [define, @defineTurns_enough s.length _ ((c :: rest).dropWhile (· ≠ '\n')) (by omega)
        (Nat.lt_succ_self _)]

theorem whitespace_blanks {gap : List Char} (blank : ∀ c ∈ gap, isBlank c = true) (s : List Char) :
    whitespace (gap ++ s) = whitespace s := List.dropWhile_append_of_pos blank

theorem whitespace_start {c : Char} (notBlank : isBlank c = false) (s : List Char) :
    whitespace (c :: s) = c :: s := List.dropWhile_cons_of_neg (by rw [notBlank]; exact Bool.false_ne_true)

theorem whitespace_idem (s : List Char) : whitespace (whitespace s) = whitespace s := by
  cases text : whitespace s with
  | nil => rfl
  | cons c rest => exact whitespace_start (whitespace_not_blank text) rest

theorem define_whitespace (s : List Char) : define (whitespace s) = define s := by
  rw [define_eq (whitespace s), whitespace_idem, ← define_eq]

theorem define_blanks {gap : List Char} (blank : ∀ c ∈ gap, isBlank c = true) (s : List Char) :
    define (gap ++ s) = define s := by
  rw [define_eq (gap ++ s), whitespace_blanks blank, ← define_eq]

theorem define_here {lead : List Char} (blank : ∀ c ∈ lead, isBlank c = true) (s : List Char) :
    define (lead ++ ("#define".toList ++ s)) = some s := by
  rw [define_blanks blank, define_eq]
  exact if_pos (List.prefix_append _ _)

/-- A prefix does not reach over a character that it does not have. -/
theorem prefix_in_front {needle before rest : List Char} {c : Char} (apart : c ∉ needle)
    (isPrefix : needle <+: before ++ c :: rest) : needle <+: before := by
  have whole : before ++ c :: rest = (before ++ [c]) ++ rest := by simp
  rw [whole] at isPrefix
  rcases List.prefix_or_prefix_of_prefix isPrefix (List.prefix_append _ rest) with inside | past
  · rcases List.prefix_concat_iff.mp inside with rfl | front
    · exact absurd (List.mem_append_right _ List.mem_cons_self) apart
    · exact front
  · exact absurd (past.subset (List.mem_append_right _ List.mem_cons_self)) apart

/-- A needle is found where no occurrence begins before. -/
theorem strstr_first {needle before : List Char} (free : ¬ needle <:+: before ++ needle.dropLast)
    (some_ : needle ≠ []) (rest : List Char) :
    Lib.strstr needle (before ++ (needle ++ rest)) = some (needle ++ rest) := by
  induction before with
  | nil => exact strstr_here needle rest
  | cons b before ih =>
      have later : ¬ needle <:+: before ++ needle.dropLast := fun inside =>
        free (inside.trans (List.suffix_cons b (before ++ needle.dropLast)).isInfix)
      have notHere : ¬ needle <+: b :: (before ++ (needle ++ rest)) := by
        intro here
        have whole : b :: (before ++ (needle ++ rest)) =
            (b :: before ++ needle.dropLast) ++ (needle.getLast some_ :: rest) := by
          conv_lhs => rw [← List.dropLast_concat_getLast some_]
          simp
        have positive := List.length_pos_of_ne_nil some_
        rw [whole] at here
        refine free (List.prefix_of_prefix_length_le here (List.prefix_append _ _) ?_).isInfix
        rw [List.length_append, List.length_cons, List.length_dropLast]
        omega
      rw [List.cons_append, Lib.strstr, if_neg notHere, ih later]

/-- The rest of a line in which no definition starts. -/
theorem define_line {c : Char} {line : List Char} (notBlank : isBlank c = false)
    (one : '\n' ∉ line) (other : ¬ "#define".toList <+: c :: line) (s : List Char) :
    define (c :: (line ++ '\n' :: s)) = define s := by
  have notNewline : c ≠ '\n' := by
    rintro rfl
    cases notBlank
  have notHere : ¬ "#define".toList <+: c :: (line ++ '\n' :: s) := by
    exact fun here => other (@prefix_in_front _ (c :: line) s '\n' (by decide) here)
  have skipped : (c :: (line ++ '\n' :: s)).dropWhile (· ≠ '\n') = '\n' :: s := by
    refine @dropWhile_append_stop _ (c :: line) ('\n' :: s) ?_ ?_
    · intro d member
      refine decide_eq_true ?_
      rcases List.mem_cons.mp member with rfl | inside
      · exact notNewline
      · exact fun same => one (same ▸ inside)
    · intro d first
      cases first
      rfl
  rw [define_eq, whitespace_start notBlank]
  dsimp only
  rw [if_neg notHere, skipped]
  exact @define_blanks ['\n'] (List.all_eq_true.mp (by decide)) s

/-! ## Numerals -/

inductive Numeral where
  | hex (digits : List Char)
  | dec (digits : List Char)

def Numeral.text : Numeral → List Char
  | .hex digits => '0' :: 'x' :: digits
  | .dec digits => digits

def Numeral.value : Numeral → UInt64
  | .hex digits => UInt64.ofNat (hexValue digits)
  | .dec digits => UInt64.ofNat (decValue digits)

def Numeral.WellFormed : Numeral → Prop
  | .hex digits => digits ≠ [] ∧ (∀ c ∈ digits, isxdigit c = true) ∧ hexValue digits < 2 ^ 64
  | .dec digits => digits ≠ [] ∧ (∀ c ∈ digits, isdigit c = true) ∧ decValue digits < 2 ^ 64

def Numeral.left (rest : List Char) : Numeral → List Char
  | .hex digits => 'x' :: (digits ++ rest)
  | .dec _ => rest

def inNumeral (c : Char) : Bool := isxdigit c || c = 'x' || c = 'X'

theorem isdigit_isxdigit {c : Char} (digit : isdigit c = true) : isxdigit c = true := by
  simp only [isdigit, isxdigit, decide_eq_true_eq] at digit ⊢
  exact Or.inl digit

theorem isxdigit_not_isBlank {c : Char} (digit : isxdigit c = true) : isBlank c = false := by
  have solid := isxdigit_not_isspace digit
  cases blank : isBlank c with
  | false => rfl
  | true =>
      simp only [isBlank, decide_eq_true_eq] at blank
      rcases blank with rfl | rfl | rfl | rfl <;> cases solid

theorem stopsAt_mono {wide narrow : Char → Bool} {rest : List Char} (stop : StopsAt wide rest)
    (inside : ∀ c, narrow c = true → wide c = true) : StopsAt narrow rest := by
  intro c first
  cases within : narrow c with
  | false => rfl
  | true => exact absurd (inside c within) (by rw [stop c first]; exact Bool.false_ne_true)

/-- A digit in front is neither a blank nor a sign. -/
theorem skipSign_digit {c : Char} (digit : isxdigit c = true) (rest : List Char) :
    skipSign ((c :: rest).dropWhile isspace) = (false, c :: rest) := by
  have start : (c :: rest).dropWhile isspace = c :: rest :=
    List.dropWhile_cons_of_neg (by rw [isxdigit_not_isspace digit]; exact Bool.false_ne_true)
  rw [start, skipSign.eq_3]
  · rintro rest' same
    cases same
    cases digit
  · rintro rest' same
    cases same
    cases digit

/-- Digits have no `0x` of their own. -/
theorem skipPrefix_digits {digits rest : List Char} (some_ : digits ≠ [])
    (all : ∀ c ∈ digits, isxdigit c = true) (stop : StopsAt inNumeral rest) :
    skipPrefix (digits ++ rest) = digits ++ rest := by
  obtain ⟨first, more, rfl⟩ := List.exists_cons_of_ne_nil some_
  change skipPrefix (first :: (more ++ rest)) = first :: (more ++ rest)
  cases more with
  | nil =>
      cases rest with
      | nil => rw [skipPrefix.eq_3] <;> rintro rest' same <;> cases same
      | cons c rest =>
          have apart := stop c rfl
          rw [skipPrefix.eq_3]
          · rintro rest' same
            cases same
            cases apart
          · rintro rest' same
            cases same
            cases apart
  | cons second more =>
      have digit := all second (List.mem_cons_of_mem _ List.mem_cons_self)
      rw [skipPrefix.eq_3]
      · rintro rest' same
        cases same
        cases digit
      · rintro rest' same
        cases same
        cases digit

theorem sscanfHex_run {digits rest : List Char} (some_ : digits ≠ [])
    (all : ∀ c ∈ digits, isxdigit c = true) (fits : hexValue digits < 2 ^ 64)
    (stop : StopsAt inNumeral rest) :
    sscanfHex (digits ++ rest) = some (UInt64.ofNat (hexValue digits)) := by
  have digitsEnd : StopsAt isxdigit rest := stopsAt_mono stop fun c digit => by rw [inNumeral, digit]; rfl
  have body := skipPrefix_digits some_ all stop
  obtain ⟨first, more, rfl⟩ := List.exists_cons_of_ne_nil some_
  have signed := skipSign_digit (all first List.mem_cons_self) (more ++ rest)
  have taken := @takeWhile_append_stop isxdigit (first :: more) rest all digitsEnd
  rw [List.cons_append] at body taken ⊢
  rw [sscanfHex, signed]
  dsimp only
  rw [body, taken, if_neg some_, if_neg (by omega), if_neg Bool.false_ne_true]

theorem scanUlong_run {digits rest : List Char} (some_ : digits ≠ [])
    (all : ∀ c ∈ digits, isdigit c = true) (fits : decValue digits < 2 ^ 64)
    (stop : StopsAt isdigit rest) :
    scanUlong (digits ++ rest) = some (UInt64.ofNat (decValue digits)) := by
  obtain ⟨first, more, rfl⟩ := List.exists_cons_of_ne_nil some_
  have signed := skipSign_digit (isdigit_isxdigit (all first List.mem_cons_self)) (more ++ rest)
  have taken := @takeWhile_append_stop isdigit (first :: more) rest all stop
  change scanUlong (first :: (more ++ rest)) = _
  rw [scanUlong, signed]
  dsimp only
  rw [← List.cons_append, taken, if_neg some_, if_neg (by omega), if_neg Bool.false_ne_true]

/-- A number is read, and of a hexadecimal one the first character is skipped. -/
theorem number_numeral {gap : List Char} (blank : ∀ c ∈ gap, isBlank c = true) {num : Numeral}
    (wf : num.WellFormed) {rest : List Char} (stop : StopsAt inNumeral rest) :
    number (gap ++ (num.text ++ rest)) = (num.value, num.left rest) := by
  have digitsEnd : StopsAt isxdigit rest := stopsAt_mono stop fun c digit => by rw [inNumeral, digit]; rfl
  rw [number, whitespace_blanks blank]
  cases num with
  | hex digits =>
      obtain ⟨some_, all, fits⟩ := wf
      have start : whitespace ('0' :: 'x' :: (digits ++ rest)) = '0' :: 'x' :: (digits ++ rest) :=
        whitespace_start rfl _
      have scanned : sscanf0x ('0' :: 'x' :: (digits ++ rest)) =
          some (UInt64.ofNat (hexValue digits)) := sscanfHex_run some_ all fits stop
      dsimp only [Numeral.text, List.cons_append]
      rw [start, numberValue, scanned]
      rfl
  | dec digits =>
      obtain ⟨some_, all, fits⟩ := wf
      obtain ⟨first, more, rfl⟩ := List.exists_cons_of_ne_nil some_
      have xdigits : ∀ c ∈ first :: more, isxdigit c = true :=
        fun c member => isdigit_isxdigit (all c member)
      have start : whitespace (first :: more ++ rest) = first :: more ++ rest :=
        whitespace_start (isxdigit_not_isBlank (xdigits first List.mem_cons_self)) _
      have notHex : sscanf0x (first :: more ++ rest) = none := by
        cases more with
        | nil =>
            cases rest with
            | nil => rw [List.append_nil, sscanf0x.eq_2]; rintro rest' same; cases same
            | cons c rest =>
                have apart := stop c rfl
                change sscanf0x (first :: c :: rest) = none
                rw [sscanf0x.eq_2]
                rintro rest' same
                cases same
                cases apart
        | cons second more =>
            have digit := xdigits second (List.mem_cons_of_mem _ List.mem_cons_self)
            change sscanf0x (first :: second :: (more ++ rest)) = none
            rw [sscanf0x.eq_2]
            rintro rest' same
            cases same
            cases digit
      have scanned : scanUlong (first :: more ++ rest) = some (UInt64.ofNat (decValue (first :: more))) :=
        scanUlong_run some_ all fits (stopsAt_mono digitsEnd fun _ => isdigit_isxdigit)
      have value : numberValue (first :: more ++ rest) =
          (sscanf0x (first :: more ++ rest)).getD ((scanUlong (first :: more ++ rest)).getD 0) := rfl
      dsimp only [Numeral.text]
      rw [start, value, notHex, scanned, dropWhile_append_stop xdigits digitsEnd]
      rfl

/-! ## Headers -/

inductive HeaderLine where
  /-- a definition with its number -/
  | define (lead gap sym space : List Char) (num : Numeral) (tail : List Char)
  /-- a definition without one -/
  | guard (lead gap sym tail : List Char)
  | other (line : List Char)

def HeaderLine.text : HeaderLine → List Char
  | .define lead gap sym space num tail =>
      lead ++ ("#define".toList ++ (gap ++ (sym ++ (space ++ (num.text ++ tail)))))
  | .guard lead gap sym tail => lead ++ ("#define".toList ++ (gap ++ (sym ++ tail)))
  | .other line => line

def headerText (lines : List HeaderLine) : List Char :=
  lines.flatMap fun line => line.text ++ ['\n']

def HeaderLine.definition : HeaderLine → Option (List Char × UInt64)
  | .define _ _ sym _ num _ => some (sym, num.value)
  | .guard _ _ sym _ => some (sym, 0)
  | .other _ => none

def definitions (lines : List HeaderLine) : List (List Char × UInt64) :=
  lines.filterMap HeaderLine.definition

def Blanks (gap : List Char) : Prop := ∀ c ∈ gap, isBlank c = true

/-- A symbol for which there is room. -/
structure IsSymbol (sym : List Char) : Prop where
  nonempty : sym ≠ []
  all : ∀ c ∈ sym, inSymbol c = true
  short : sym.length < 256

/-- The rest of a line, in which no definition starts. -/
structure IsRest (line : List Char) : Prop where
  one : '\n' ∉ line
  other : ¬ "#define".toList <+: whitespace line

def begins (c : Char) : Bool := isxdigit c || isspace c || c = '+' || c = '-'

/-- What is asked of a line in front of a text: where there is no number, the text must not begin
with one. -/
def HeaderLine.Fits (behind : List Char) : HeaderLine → Prop
  | .define lead gap sym space num tail =>
      (Blanks lead ∧ Blanks gap ∧ Blanks space ∧ space ≠ []) ∧ IsSymbol sym ∧ num.WellFormed ∧
        IsRest tail ∧ StopsAt inNumeral tail
  | .guard lead gap sym tail =>
      (Blanks lead ∧ Blanks gap ∧ Blanks tail) ∧ IsSymbol sym ∧ StopsAt begins (whitespace behind)
  | .other line => IsRest line

def HeaderFits : List HeaderLine → Prop
  | [] => True
  | line :: lines => line.Fits (headerText lines) ∧ HeaderFits lines

theorem definitions_isSymbol {lines : List HeaderLine} (fits : HeaderFits lines) :
    ∀ d ∈ definitions lines, IsSymbol d.1 := by
  induction lines with
  | nil => exact fun d member => absurd member List.not_mem_nil
  | cons line lines ih =>
      obtain ⟨here, later⟩ := fits
      intro d member
      cases line with
      | define lead gap sym space num tail =>
          rcases List.mem_cons.mp member with rfl | behind
          · exact here.2.1
          · exact ih later d behind
      | guard lead gap sym tail =>
          rcases List.mem_cons.mp member with rfl | behind
          · exact here.2.1
          · exact ih later d behind
      | other line => exact ih later d member

theorem define_rest {line : List Char} (rest : IsRest line) (s : List Char) :
    define (line ++ '\n' :: s) = define s := by
  have split : line = line.takeWhile isBlank ++ whitespace line := List.takeWhile_append_dropWhile.symm
  have blank : ∀ c ∈ line.takeWhile isBlank, isBlank c = true := fun c => List.mem_takeWhile_imp
  obtain ⟨one, other⟩ := rest
  rw [split, List.append_assoc, define_blanks blank]
  cases text : whitespace line with
  | nil => exact @define_blanks ['\n'] (List.all_eq_true.mp (by decide)) s
  | cons c more =>
      rw [text] at other
      refine define_line (whitespace_not_blank text) (fun member => one ?_) other s
      rw [split, text]
      exact List.mem_append_right _ (List.mem_cons_of_mem _ member)

theorem inSymbol_not_isBlank {c : Char} (inside : inSymbol c = true) : isBlank c = false := by
  cases blank : isBlank c with
  | false => rfl
  | true =>
      simp only [isBlank, decide_eq_true_eq] at blank
      rcases blank with rfl | rfl | rfl | rfl <;> cases inside

theorem symbol_here {gap sym rest : List Char} (blank : Blanks gap) (isSymbol : IsSymbol sym)
    (stop : StopsAt inSymbol rest) : symbol (gap ++ (sym ++ rest)) = (sym, rest) := by
  obtain ⟨nonempty, all, -⟩ := isSymbol
  obtain ⟨c, more, rfl⟩ := List.exists_cons_of_ne_nil nonempty
  have start : whitespace (c :: more ++ rest) = c :: more ++ rest :=
    whitespace_start (inSymbol_not_isBlank (all c List.mem_cons_self)) _
  rw [symbol, whitespace_blanks blank, start, takeWhile_append_stop all stop,
    dropWhile_append_stop all stop]

theorem blanks_stop {gap : List Char} (blank : Blanks gap) (some_ : gap ≠ []) (rest : List Char) :
    StopsAt inSymbol (gap ++ rest) := by
  obtain ⟨c, more, rfl⟩ := List.exists_cons_of_ne_nil some_
  intro d first
  cases first
  have isBlank_ := blank c List.mem_cons_self
  cases inside : inSymbol c with
  | false => rfl
  | true =>
      rw [inSymbol_not_isBlank inside] at isBlank_
      cases isBlank_

theorem number_none {s : List Char} (stop : StopsAt begins (whitespace s)) :
    number s = (0, whitespace s) := by
  have digits : StopsAt isxdigit (whitespace s) := stopsAt_mono stop fun c digit => by
    rw [begins, digit]
    rfl
  rw [number, show (whitespace s).dropWhile isxdigit = whitespace s from
    @dropWhile_append_stop isxdigit [] _ (fun _ member => absurd member List.not_mem_nil) digits]
  cases text : whitespace s with
  | nil => rfl
  | cons c rest =>
      rw [text] at stop
      have apart := stop c rfl
      simp only [begins, Bool.or_eq_false_iff, decide_eq_false_iff_not] at apart
      obtain ⟨⟨⟨digit, space⟩, plus⟩, minus⟩ := apart
      have notHex : sscanf0x (c :: rest) = none := by
        rw [sscanf0x.eq_2]
        rintro rest' same
        cases same
        cases digit
      have start : (c :: rest).dropWhile isspace = c :: rest :=
        List.dropWhile_cons_of_neg (by rw [space]; exact Bool.false_ne_true)
      have unsigned : skipSign (c :: rest) = (false, c :: rest) := by
        rw [skipSign.eq_3]
        · rintro rest' same
          cases same
          exact minus rfl
        · rintro rest' same
          cases same
          exact plus rfl
      have none_ : (c :: rest).takeWhile isdigit = [] := by
        refine List.takeWhile_cons_of_neg fun isDigit => ?_
        rw [isdigit_isxdigit isDigit] at digit
        cases digit
      have unread : scanUlong (c :: rest) = none := by
        rw [scanUlong, start, unsigned]
        dsimp only
        rw [if_pos none_]
      rw [numberValue, notHex, unread]
      rfl

theorem defines_congr {wanted : List Char → Bool} {s t : List Char} (same : define s = define t) :
    defines wanted s = defines wanted t := by
  rw [defines_eq wanted s, defines_eq wanted t, same]

theorem stops_line {continues : Char → Bool} {tail : List Char} (stop : StopsAt continues tail)
    (newline : continues '\n' = false) (s : List Char) : StopsAt continues (tail ++ '\n' :: s) := by
  cases tail with
  | nil =>
      intro c first
      cases first
      exact newline
  | cons c tail => exact stop

theorem isRest_cons {c : Char} {line : List Char} (notBlank : isBlank c = false) (unlike : c ≠ '#')
    (one : '\n' ∉ line) : IsRest (c :: line) where
  one member := by
    rcases List.mem_cons.mp member with rfl | inside
    · cases notBlank
    · exact one inside
  other here := by
    rw [whitespace_start notBlank] at here
    exact unlike (List.cons_prefix_cons.mp here).1.symm

theorem isxdigit_not_newline {digits : List Char} (all : ∀ c ∈ digits, isxdigit c = true) :
    '\n' ∉ digits := by
  intro member
  have digit := all _ member
  cases digit

theorem numeral_isRest {num : Numeral} (wf : num.WellFormed) {tail : List Char} (rest : IsRest tail) :
    IsRest (num.text ++ tail) := by
  cases num with
  | hex digits =>
      obtain ⟨-, all, -⟩ := wf
      refine isRest_cons rfl (by decide) fun member => ?_
      rcases List.mem_cons.mp member with same | inside
      · cases same
      · rcases List.mem_append.mp inside with digit | behind
        · exact isxdigit_not_newline all digit
        · exact rest.one behind
  | dec digits =>
      obtain ⟨some_, all, -⟩ := wf
      have xdigits : ∀ c ∈ digits, isxdigit c = true := fun c member =>
        isdigit_isxdigit (all c member)
      obtain ⟨c, more, rfl⟩ := List.exists_cons_of_ne_nil some_
      have digit := xdigits c List.mem_cons_self
      refine isRest_cons (isxdigit_not_isBlank digit) ?_ fun member => ?_
      · rintro rfl
        cases digit
      · rcases List.mem_append.mp member with inside | behind
        · exact isxdigit_not_newline xdigits (List.mem_cons_of_mem _ inside)
        · exact rest.one behind

theorem define_number {num : Numeral} (wf : num.WellFormed) {tail : List Char} (rest : IsRest tail)
    (s : List Char) : define (num.left (tail ++ '\n' :: s)) = define s := by
  cases num with
  | hex digits =>
      have line : IsRest ('x' :: (digits ++ tail)) := by
        refine isRest_cons rfl (by decide) fun member => ?_
        rcases List.mem_append.mp member with digit | behind
        · exact isxdigit_not_newline wf.2.1 digit
        · exact rest.one behind
      have skipped := define_rest line s
      rwa [List.cons_append, List.append_assoc] at skipped
  | dec digits => exact define_rest rest s

/-- The definitions that are found are those of the lines, in their order. -/
theorem defines_header (wanted : List Char → Bool) {lines : List HeaderLine}
    (fits : HeaderFits lines) :
    defines wanted (headerText lines) = (definitions lines).filter fun d => wanted d.1 := by
  induction lines with
  | nil => rfl
  | cons line lines ih =>
      obtain ⟨here, later⟩ := fits
      have behind := ih later
      obtain ⟨s, isText⟩ : ∃ s, s = headerText lines := ⟨_, rfl⟩
      have text : headerText (line :: lines) = line.text ++ '\n' :: s := by
        simp [headerText, isText]
      rw [← isText] at behind here
      rw [text]
      cases line with
      | define lead gap sym space num tail =>
          obtain ⟨⟨blankLead, blankGap, blankSpace, apart⟩, isSymbol, isNumeral, isRest, stop⟩ := here
          have found : define ((HeaderLine.define lead gap sym space num tail).text ++ '\n' :: s) =
              some (gap ++ (sym ++ (space ++ (num.text ++ (tail ++ '\n' :: s))))) := by
            rw [← define_here blankLead]
            simp [HeaderLine.text]
          have named := symbol_here blankGap isSymbol
            (blanks_stop blankSpace apart (num.text ++ (tail ++ '\n' :: s)))
          have read := number_numeral blankSpace isNumeral (stops_line stop rfl s)
          have first : definitions (.define lead gap sym space num tail :: lines) =
              (sym, num.value) :: definitions lines := rfl
          rw [defines_eq, found]
          dsimp only
          rw [named, first]
          dsimp only
          by_cases isWanted : wanted sym = true
          · rw [if_pos isWanted, read, List.filter_cons, if_pos isWanted, ← behind]
            exact congrArg _ (defines_congr (define_number isNumeral isRest s))
          · have skipped := define_rest (numeral_isRest isNumeral isRest) s
            rw [List.append_assoc] at skipped
            rw [if_neg isWanted, List.filter_cons, if_neg isWanted, ← behind]
            exact defines_congr ((define_blanks blankSpace _).trans skipped)
      | guard lead gap sym tail =>
          obtain ⟨⟨blankLead, blankGap, blankTail⟩, isSymbol, stop⟩ := here
          have found : define ((HeaderLine.guard lead gap sym tail).text ++ '\n' :: s) =
              some (gap ++ (sym ++ (tail ++ '\n' :: s))) := by
            rw [← define_here blankLead]
            simp [HeaderLine.text]
          have blank : Blanks (tail ++ ['\n']) := by
            intro c member
            rcases List.mem_append.mp member with inside | last
            · exact blankTail c inside
            · rw [List.mem_singleton.mp last]
              rfl
          have line : tail ++ '\n' :: s = (tail ++ ['\n']) ++ s := by simp
          have named := symbol_here blankGap isSymbol
            (blanks_stop blank (List.append_ne_nil_of_right_ne_nil _ (List.cons_ne_nil _ _)) s)
          have behindLine : whitespace (tail ++ '\n' :: s) = whitespace s := by
            rw [line, whitespace_blanks blank]
          have read := @number_none (tail ++ '\n' :: s) (by rw [behindLine]; exact stop)
          have first : definitions (.guard lead gap sym tail :: lines) =
              (sym, 0) :: definitions lines := rfl
          rw [← line] at named
          rw [defines_eq, found]
          dsimp only
          rw [named, first]
          dsimp only
          by_cases isWanted : wanted sym = true
          · rw [if_pos isWanted, read, List.filter_cons, if_pos isWanted, ← behind, behindLine]
            exact congrArg _ (defines_congr (define_whitespace s))
          · rw [if_neg isWanted, List.filter_cons, if_neg isWanted, ← behind, line]
            exact defines_congr (define_blanks blank s)
      | other line => exact (defines_congr (define_rest here s)).trans behind

end Umr.Compiler
