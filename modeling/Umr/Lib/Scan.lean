import Umr.Lib.BigEndian

/-!
# Lines, words and numerals of a text file

`fgets` and the `%s`, `%d` and `%lx` conversions of `sscanf`: what was printed
is found again in front of a blank.
-/

set_option autoImplicit false

namespace Umr.Lib

/-- `fgets` into a buffer of `size` characters: up to the end of the line, and no more than fits
in front of the terminator. -/
def fgets (size : Nat) (text : List Char) : Option (List Char × List Char) :=
  if text = [] then none
  else
    let line := text.takeWhile (· ≠ '\n') ++ (text.dropWhile (· ≠ '\n')).take 1
    let kept := line.take (size - 1)
    some (kept, text.drop kept.length)

def nul : Char := Char.ofNat 0

/-- The string a buffer holds: what stands in front of the terminator. -/
def cString (buffer : List Char) : List Char := buffer.takeWhile (· ≠ nul)

/-- `fgets` whose result is not looked at: at the end of the file the buffer keeps what it
held. -/
def fgetsKeep (size : Nat) (line text : List Char) : List Char × List Char :=
  match fgets size text with
  | none => (line, text)
  | some (chunk, rest) => (cString chunk, rest)

def chunksFuel (size : Nat) : Nat → List Char → List (List Char)
  | 0, _ => []
  | fuel + 1, text =>
      match fgets size text with
      | none => []
      | some (chunk, rest) => cString chunk :: chunksFuel size fuel rest

/-- The strings that one `fgets` after the other finds in a file. -/
def chunks (size : Nat) (text : List Char) : List (List Char) := chunksFuel size text.length text

def scanWord (text : List Char) : Option (List Char × List Char) :=
  let start := text.dropWhile isspace
  let word := start.takeWhile fun c => !isspace c
  if word = [] then none else some (word, start.dropWhile fun c => !isspace c)

def isdigit (c : Char) : Bool := '0' ≤ c ∧ c ≤ '9'

def decValue (digits : List Char) : Nat :=
  digits.foldl (fun value c => 10 * value + (c.toNat - 48)) 0

def printDec (n : Nat) : List Char := Nat.toDigits 10 n

def printInt (value : Int) : List Char :=
  if value < 0 then '-' :: printDec value.natAbs else printDec value.natAbs

theorem printInt_natCast (n : Nat) : printInt n = printDec n := by
  rw [printInt, if_neg (Int.not_lt.mpr (Int.natCast_nonneg n)), Int.natAbs_natCast]

/-- What `%d` stores: `strtol` saturates at 64 bits, and the low 32 are kept. -/
def storeInt (value : Int) : Int := (max (-2 ^ 63) (min (2 ^ 63 - 1) value)).bmod (2 ^ 32)

def scanInt (text : List Char) : Option (Int × List Char) :=
  let signed := skipSign (text.dropWhile isspace)
  let digits := signed.2.takeWhile isdigit
  if digits = [] then none
  else some (storeInt (if signed.1 then -(decValue digits : Int) else decValue digits),
    signed.2.dropWhile isdigit)

/-! ## Lines -/

theorem fgets_line {size : Nat} {line : List Char} (one : '\n' ∉ line)
    (fits : line.length + 1 < size) (rest : List Char) :
    fgets size (line ++ '\n' :: rest) = some (line ++ ['\n'], rest) := by
  have inside : ∀ c ∈ line, decide (c ≠ '\n') = true := by
    intro c member
    exact decide_eq_true fun same => one (same ▸ member)
  have stop : StopsAt (fun c => decide (c ≠ '\n')) ('\n' :: rest) := by
    intro c first
    cases first
    rfl
  have nonempty : line ++ '\n' :: rest ≠ [] := by simp
  rw [fgets, if_neg nonempty]
  dsimp only
  rw [takeWhile_append_stop inside stop, dropWhile_append_stop inside stop]
  have whole : (line ++ ['\n']).take (size - 1) = line ++ ['\n'] := by
    apply List.take_of_length_le
    rw [List.length_append, List.length_singleton]
    omega
  change some ((line ++ ['\n']).take (size - 1),
    (line ++ '\n' :: rest).drop ((line ++ ['\n']).take (size - 1)).length) = _
  have behind : (line ++ '\n' :: rest).drop (line ++ ['\n']).length = rest := by
    rw [List.append_cons line '\n' rest, List.drop_left]
  rw [whole, behind]

theorem fgets_nil (size : Nat) : fgets size [] = none := rfl

/-- A call of `fgets` takes at least one character, and what it stores is no longer than
what it takes. -/
theorem fgets_takes {size : Nat} {text chunk rest : List Char} (room : 2 ≤ size)
    (read : fgets size text = some (chunk, rest)) :
    (cString chunk).length + rest.length ≤ text.length ∧ rest.length < text.length := by
  unfold fgets at read
  split at read
  · cases read
  · rename_i some_
    obtain ⟨isChunk, isRest⟩ := Prod.mk.inj (Option.some.inj read)
    rw [isChunk] at isRest
    have line : text.takeWhile (· ≠ '\n') ++ (text.dropWhile (· ≠ '\n')).take 1 ≠ [] := by
      intro none_
      obtain ⟨before, behind⟩ := List.append_eq_nil_iff.mp none_
      rcases List.take_eq_nil_iff.mp behind with zero | behind
      · cases zero
      · refine some_ ?_
        rw [← List.takeWhile_append_dropWhile (p := fun c => decide (c ≠ '\n')) (l := text),
          before, behind]
        rfl
    have short : (text.takeWhile (· ≠ '\n') ++ (text.dropWhile (· ≠ '\n')).take 1).length ≤
        text.length := by
      have parts := congrArg List.length
        (List.takeWhile_append_dropWhile (p := fun c => decide (c ≠ '\n')) (l := text))
      rw [List.length_append] at parts ⊢
      have one := List.length_take_le 1 (text.dropWhile fun c => decide (c ≠ '\n'))
      have fewer := List.length_take_le' 1 (text.dropWhile fun c => decide (c ≠ '\n'))
      omega
    have positive := List.length_pos_of_ne_nil line
    have kept : chunk.length = min (size - 1) (text.takeWhile (· ≠ '\n') ++
        (text.dropWhile (· ≠ '\n')).take 1).length := by
      rw [← isChunk, List.length_take]
    have left : rest.length = text.length - chunk.length := by
      rw [← isRest, List.length_drop]
    have stored : (cString chunk).length ≤ chunk.length :=
      (List.takeWhile_sublist _).length_le
    omega

theorem chunksFuel_enough {size : Nat} (room : 2 ≤ size) {fuel : Nat} {text : List Char}
    (enough : text.length ≤ fuel) : chunksFuel size fuel text = chunks size text := by
  suffices same : ∀ fuel more (text : List Char), text.length ≤ fuel → text.length ≤ more →
      chunksFuel size fuel text = chunksFuel size more text from
    same _ _ _ enough (Nat.le_refl _)
  clear enough
  intro fuel
  induction fuel with
  | zero =>
      intro more text enough _
      cases List.length_eq_zero_iff.mp (Nat.le_zero.mp enough)
      cases more <;> rfl
  | succ fuel ih =>
      intro more text enough enoughMore
      cases more with
      | zero =>
          cases List.length_eq_zero_iff.mp (Nat.le_zero.mp enoughMore)
          rfl
      | succ more =>
          unfold chunksFuel
          cases read : fgets size text with
          | none => rfl
          | some taken =>
              obtain ⟨chunk, rest⟩ := taken
              have fewer := (fgets_takes room read).2
              dsimp only
              rw [ih more rest (by omega) (by omega)]

theorem chunks_of_none {size : Nat} {text : List Char} (read : fgets size text = none) :
    chunks size text = [] := by
  unfold fgets at read
  split at read
  · rename_i empty
    rw [empty]
    rfl
  · cases read

theorem chunks_of_some {size : Nat} {text chunk rest : List Char} (room : 2 ≤ size)
    (read : fgets size text = some (chunk, rest)) :
    chunks size text = cString chunk :: chunks size rest := by
  have fewer := (fgets_takes room read).2
  obtain ⟨more, length⟩ : ∃ more, text.length = more + 1 := ⟨text.length - 1, by omega⟩
  rw [chunks, length, chunksFuel, read]
  dsimp only
  rw [chunksFuel_enough room (by omega)]

theorem chunks_lines {size : Nat} {lines : List (List Char)}
    (plain : ∀ line ∈ lines, '\n' ∉ line ∧ line.length + 1 < size) :
    chunks size (lines.flatMap fun line => line ++ ['\n']) =
      lines.map fun line => cString (line ++ ['\n']) := by
  induction lines with
  | nil => rfl
  | cons line lines ih =>
      obtain ⟨⟨one, fits⟩, later⟩ := List.forall_mem_cons.mp plain
      have read := fgets_line one fits (lines.flatMap fun line => line ++ ['\n'])
      rw [List.flatMap_cons, List.append_assoc, List.singleton_append,
        chunks_of_some (by omega) read, List.map_cons, ih later]

/-! ## Words -/

structure IsWord (word : List Char) : Prop where
  nonempty : word ≠ []
  solid : ∀ c ∈ word, isspace c = false

theorem dropWhile_gap {gap text : List Char} (blank : ∀ c ∈ gap, isspace c = true)
    (start : StopsAt isspace text) : (gap ++ text).dropWhile isspace = text :=
  dropWhile_append_stop blank start

theorem IsWord.stops {word : List Char} (isWord : IsWord word) (rest : List Char) :
    StopsAt isspace (word ++ rest) := by
  obtain ⟨nonempty, solid⟩ := isWord
  cases word with
  | nil => exact absurd rfl nonempty
  | cons c word =>
      intro first same
      cases same
      exact solid c List.mem_cons_self

def Blank (rest : List Char) : Prop := StopsAt (fun c => !isspace c) rest

theorem scanWord_word {gap word rest : List Char} (blank : ∀ c ∈ gap, isspace c = true)
    (isWord : IsWord word) (ends : Blank rest) :
    scanWord (gap ++ (word ++ rest)) = some (word, rest) := by
  have solid : ∀ c ∈ word, (!isspace c) = true := by
    intro c member
    rw [isWord.solid c member]
    rfl
  rw [scanWord, dropWhile_gap blank (isWord.stops rest), takeWhile_append_stop solid ends, if_neg isWord.nonempty,
    dropWhile_append_stop solid ends]

theorem IsWord.append {first second : List Char} (isFirst : IsWord first)
    (solid : ∀ c ∈ second, isspace c = false) : IsWord (first ++ second) where
  nonempty := by
    intro none_
    exact isFirst.nonempty (List.append_eq_nil_iff.mp none_).1
  solid := by
    intro c member
    rcases List.mem_append.mp member with here | there
    · exact isFirst.solid c here
    · exact solid c there

/-! ## Decimal numerals -/

theorem isdigit_digitChar {d : Nat} (small : d < 10) : isdigit d.digitChar = true := by
  interval_cases d <;> decide

theorem decValue_printDec (n : Nat) : decValue (printDec n) = n := by
  induction n using Nat.strongRecOn with
  | ind n ih =>
      unfold printDec
      by_cases small : n < 10
      · rw [Nat.toDigits_of_lt_base small]
        interval_cases n <;> rfl
      · have rest : decValue (Nat.toDigits 10 (n / 10)) = n / 10 := ih (n / 10) (by omega)
        have last : ((n % 10).digitChar.toNat - 48) = n % 10 := by
          have bound : n % 10 < 10 := Nat.mod_lt _ (by decide)
          generalize n % 10 = d at bound ⊢
          interval_cases d <;> rfl
        rw [decValue] at rest
        rw [Nat.toDigits_of_base_le (by decide) (by omega), decValue, List.foldl_append, rest]
        change 10 * (n / 10) + ((n % 10).digitChar.toNat - 48) = n
        rw [last]
        omega

theorem isdigit_printDec (n : Nat) : ∀ c ∈ printDec n, isdigit c = true := by
  induction n using Nat.strongRecOn with
  | ind n ih =>
      unfold printDec
      intro c member
      by_cases small : n < 10
      · rw [Nat.toDigits_of_lt_base small, List.mem_singleton] at member
        rw [member]
        exact isdigit_digitChar small
      · rw [Nat.toDigits_of_base_le (by decide) (by omega), List.mem_append,
          List.mem_singleton] at member
        rcases member with before | last
        · exact ih (n / 10) (by omega) c before
        · rw [last]
          exact isdigit_digitChar (by omega)

theorem printDec_ne_nil (n : Nat) : printDec n ≠ [] := Nat.toDigits_ne_nil

theorem isxdigit_not_isspace {c : Char} (digit : isxdigit c = true) : isspace c = false := by
  simp only [isxdigit, decide_eq_true_eq, Char.le_def, UInt32.le_iff_toNat_le] at digit
  have low : (48 : Nat) ≤ c.toNat := by
    change ((48 : Nat) ≤ c.toNat ∧ c.toNat ≤ 57) ∨ ((97 : Nat) ≤ c.toNat ∧ c.toNat ≤ 102) ∨
      ((65 : Nat) ≤ c.toNat ∧ c.toNat ≤ 70) at digit
    omega
  simp only [isspace, decide_eq_false_iff_not, not_or, not_and]
  refine ⟨?_, fun _ => by omega⟩
  rintro rfl
  exact absurd low (by decide)

theorem isdigit_not_isspace {c : Char} (digit : isdigit c = true) : isspace c = false := by
  refine isxdigit_not_isspace ?_
  simp only [isdigit, isxdigit, decide_eq_true_eq] at digit ⊢
  exact Or.inl digit

theorem skipSign_digits {n : Nat} (rest : List Char) :
    skipSign (printDec n ++ rest) = (false, printDec n ++ rest) := by
  have digits := isdigit_printDec n
  cases printed : printDec n with
  | nil => exact absurd printed (printDec_ne_nil n)
  | cons c more =>
      rw [printed] at digits
      have digit := digits c List.mem_cons_self
      rw [List.cons_append, skipSign.eq_3]
      · rintro rest' same
        cases same
        cases digit
      · rintro rest' same
        cases same
        cases digit

theorem printInt_word (value : Int) : IsWord (printInt value) := by
  have solid : ∀ c ∈ printDec value.natAbs, isspace c = false := fun c member =>
    isdigit_not_isspace (isdigit_printDec _ c member)
  rw [printInt]
  split
  · exact ⟨List.cons_ne_nil _ _, List.forall_mem_cons.mpr ⟨rfl, solid⟩⟩
  · exact ⟨printDec_ne_nil _, solid⟩

theorem storeInt_of_fits {value : Int} (low : -2 ^ 31 ≤ value) (high : value < 2 ^ 31) :
    storeInt value = value := by
  rw [storeInt, min_eq_right (by omega), max_eq_right (by omega)]
  exact Int.bmod_eq_of_le (by omega) (by omega)

theorem scanInt_printInt {gap rest : List Char} {value : Int} (low : -2 ^ 31 ≤ value)
    (high : value < 2 ^ 31) (blank : ∀ c ∈ gap, isspace c = true) (ends : StopsAt isdigit rest) :
    scanInt (gap ++ (printInt value ++ rest)) = some (value, rest) := by
  have digits := isdigit_printDec value.natAbs
  rw [scanInt, dropWhile_gap blank ((printInt_word value).stops rest)]
  by_cases negative : value < 0
  · have signed : skipSign (printInt value ++ rest) = (true, printDec value.natAbs ++ rest) := by
      rw [printInt, if_pos negative]
      rfl
    rw [signed]
    dsimp only
    rw [takeWhile_append_stop digits ends, if_neg (printDec_ne_nil _), decValue_printDec,
      dropWhile_append_stop digits ends, if_pos rfl]
    have sign : -((value.natAbs : Nat) : Int) = value := by omega
    rw [sign, storeInt_of_fits low high]
  · have signed : skipSign (printInt value ++ rest) = (false, printDec value.natAbs ++ rest) := by
      rw [printInt, if_neg negative, skipSign_digits]
    rw [signed]
    dsimp only
    rw [takeWhile_append_stop digits ends, if_neg (printDec_ne_nil _), decValue_printDec,
      dropWhile_append_stop digits ends, if_neg (by decide)]
    have sign : ((value.natAbs : Nat) : Int) = value := by omega
    rw [sign, storeInt_of_fits low high]

/-! ## Padded hexadecimal numerals -/

theorem isxdigit_printPadded (width n : Nat) : ∀ c ∈ printPadded width n, isxdigit c = true := by
  intro c member
  rcases List.mem_append.mp member with zero | digit
  · rw [List.eq_of_mem_replicate zero]
    rfl
  · exact isxdigit_printHex n c digit

theorem hexValue_printPadded (width n : Nat) : hexValue (printPadded width n) = n := by
  rw [printPadded, hexValue, List.foldl_append]
  have zeros : ∀ count, (List.replicate count '0').foldl
      (fun value c => 16 * value + hexVal c) 0 = 0 := by
    intro count
    induction count with
    | zero => rfl
    | succ count ih => exact ih
  rw [zeros]
  exact hexValue_printHex n

theorem length_printPadded (width n : Nat) : width ≤ (printPadded width n).length := by
  rw [printPadded, List.length_append, List.length_replicate]
  omega

/-- A numeral of two or more digits has no sign and no `0x` of its own. -/
theorem skip_digits {digits : List Char} (all : ∀ c ∈ digits, isxdigit c = true)
    (two : 2 ≤ digits.length) (rest : List Char) :
    skipPrefix (skipSign ((digits ++ rest).dropWhile isspace)).2 = digits ++ rest ∧
      (skipSign ((digits ++ rest).dropWhile isspace)).1 = false := by
  obtain ⟨first, second, more, rfl⟩ : ∃ first second more, digits = first :: second :: more := by
    match digits, two with
    | first :: second :: more, _ => exact ⟨first, second, more, rfl⟩
  have firstDigit := all first List.mem_cons_self
  have secondDigit := all second (List.mem_cons_of_mem _ List.mem_cons_self)
  have start : (first :: second :: more ++ rest).dropWhile isspace =
      first :: second :: (more ++ rest) :=
    List.dropWhile_cons_of_neg (by rw [isxdigit_not_isspace firstDigit]; decide)
  have unsigned : skipSign (first :: second :: (more ++ rest)) =
      (false, first :: second :: (more ++ rest)) := by
    rw [skipSign.eq_3]
    · rintro rest' same
      cases same
      cases firstDigit
    · rintro rest' same
      cases same
      cases firstDigit
  rw [start, unsigned]
  refine ⟨?_, rfl⟩
  dsimp only
  rw [skipPrefix.eq_3]
  · rfl
  · rintro rest' same
    cases same
    cases secondDigit
  · rintro rest' same
    cases same
    cases secondDigit

/-- A number without sign and `0x`, in front of a blank. -/
theorem sscanfHex_digits {digits rest : List Char} (some_ : digits ≠ [])
    (all : ∀ c ∈ digits, isxdigit c = true) (fits : hexValue digits < 2 ^ 64) (ends : Blank rest) :
    sscanfHex (digits ++ rest) = some (UInt64.ofNat (hexValue digits)) := by
  have stop : StopsAt isxdigit rest := by
    intro c first
    have blank : (!isspace c) = false := ends c first
    cases digit : isxdigit c with
    | false => rfl
    | true =>
        rw [isxdigit_not_isspace digit] at blank
        cases blank
  have solid : IsWord digits := ⟨some_, fun c member => isxdigit_not_isspace (all c member)⟩
  have start : (digits ++ rest).dropWhile isspace = digits ++ rest :=
    @dropWhile_append_stop isspace [] _ (fun _ member => absurd member List.not_mem_nil)
      (solid.stops rest)
  have unsigned : skipSign (digits ++ rest) = (false, digits ++ rest) := by
    obtain ⟨first, more, rfl⟩ := List.exists_cons_of_ne_nil some_
    have digit := all first List.mem_cons_self
    rw [List.cons_append, skipSign.eq_3]
    · rintro rest' same
      cases same
      cases digit
    · rintro rest' same
      cases same
      cases digit
  -- the character behind a first zero is a digit or a blank
  have second : ∀ first c more, digits ++ rest = first :: c :: more →
      isxdigit c = true ∨ isspace c = true := by
    intro first c more whole
    match digits, some_ with
    | [only], _ =>
        cases whole
        exact Or.inr (by simpa using ends c rfl)
    | _ :: next :: _, _ =>
        cases whole
        exact Or.inl (all c (List.mem_cons_of_mem _ List.mem_cons_self))
  have body : skipPrefix (digits ++ rest) = digits ++ rest := by
    rw [skipPrefix.eq_3]
    · intro rest' same
      rcases second _ _ _ same with digit | blank
      · cases digit
      · cases blank
    · intro rest' same
      rcases second _ _ _ same with digit | blank
      · cases digit
      · cases blank
  rw [sscanfHex, start, unsigned]
  dsimp only
  rw [body, takeWhile_append_stop all stop, if_neg some_, if_neg (by omega), if_neg (by decide)]

theorem sscanfHex_printPadded {width n : Nat} (two : 2 ≤ width) (fits : n < 2 ^ 64)
    {rest : List Char} (stop : StopsAt isxdigit rest) :
    sscanfHex (printPadded width n ++ rest) = some (UInt64.ofNat n) := by
  have long := Nat.le_trans two (length_printPadded width n)
  obtain ⟨body, positive⟩ := skip_digits (isxdigit_printPadded width n) long rest
  have some_ : printPadded width n ≠ [] := by
    intro none_
    rw [none_] at long
    cases long
  rw [sscanfHex, body, positive, takeWhile_append_stop (isxdigit_printPadded width n) stop, if_neg some_,
    hexValue_printPadded, if_neg (by omega), if_neg (by decide)]

end Umr.Lib
