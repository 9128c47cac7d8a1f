import Umr.Harness.Script

/-!
# Scripts on which the parser returns

The loop of `umr_create_test_harness` moves on only behind a token it knows, and
a list of bytes is read until its brace, wherever that is.  The parser returns
exactly on the scripts that have a token wherever a record ends and do not end
within a byte.
-/

set_option autoImplicit false

namespace Umr.Harness

open Umr.Lib

/-! ## What a script has to be like -/

/-- Taken byte by byte, with `x` bytes before it, the text comes to a closing brace, to a place with
no digit behind it or to the last byte there is room for, and not to its end within a byte. -/
inductive WholeBytes : Nat → List Char → Prop where
  | brace {x : Nat} {text : List Char} (closes : (consumeWhitespace text).head? = some '}') :
      WholeBytes x text
  | noDigit {x : Nat} {text : List Char} (ends : nextdigit (consumeWhitespace text) = none) :
      WholeBytes x text
  | full {x : Nat} {text behind rest : List Char} {high low : Char}
      (first : nextdigit (consumeWhitespace text) = some (high, behind))
      (second : nextdigit behind = some (low, rest)) (last : x + 1 = bytesLimit) :
      WholeBytes x text
  | byte {x : Nat} {text behind rest : List Char} {high low : Char}
      (first : nextdigit (consumeWhitespace text) = some (high, behind))
      (second : nextdigit behind = some (low, rest)) (tail : WholeBytes (x + 1) rest) :
      WholeBytes x text

/-- The script ends within a byte of a list. -/
def CutOff (text : List Char) : Prop :=
  ∃ kind address opened list, recordHeader (.ram kind) text = .ok (some address, opened) ∧
    consumeBrace '{' opened = some list ∧ ¬ WholeBytes 0 list

def TokenAt (record : Record) (text : List Char) : Prop :=
  record.token <+: consumeWhitespace text

/-- A whole record stands there, and behind it `rest`. -/
def RecordAt (record : Record) (text rest : List Char) : Prop :=
  ∃ address list th, recordHeader record text = .ok (some address, list) ∧
    recordBody record address list TestHarness.empty = .ok (rest, th)

/-- Where a script starts and where its records end. -/
inductive Boundary (script : List Char) : List Char → Prop where
  | start : Boundary script script
  | behind {text rest : List Char} (record : Record) (before : Boundary script text)
      (whole : RecordAt record text rest) : Boundary script rest

/-- Blanks up to the end of the script, or a token; no list that ends within a byte. -/
def Readable (text : List Char) : Prop :=
  (consumeWhitespace text = [] ∨ ∃ record, TokenAt record text) ∧ ¬ CutOff text

def RecordsThroughout (script : List Char) : Prop :=
  ∀ text, Boundary script text → Readable text

def GivesNull (stop : ScriptStop) : Prop := stop = .null ∨ stop = .overread

def Returned (result : Except ScriptStop TestHarness) : Prop :=
  (∃ th, result = .ok th) ∨ ∃ stop, GivesNull stop ∧ result = .error stop

/-! ## Blanks are skipped once -/

section Blanks
variable {text : List Char}

theorem whitespaceTurns_skips : ∀ (turns : Nat) (text : List Char), text.length < turns →
    Starts (whitespaceTurns turns text) := by
  intro turns
  induction turns with
  | zero => intro text enough; omega
  | succ turns ih =>
      intro text enough
      have shorter := (List.dropWhile_suffix isBlank : text.dropWhile isBlank <:+ text).length_le
      unfold whitespaceTurns
      split
      · rename_i rest found
        have chomped : (chomp (';' :: rest)).length ≤ rest.length := length_chomp_le rest
        rw [found, List.length_cons] at shorter
        exact ih _ (by omega)
      · rename_i rest noComment
        intro c first
        cases found : text.dropWhile isBlank with
        | nil => simp [found] at first
        | cons d behind =>
            rw [found] at first
            cases first
            have blank := List.dropWhile_get_zero_not isBlank text (by simp [found])
            simp only [found, List.get_eq_getElem, List.getElem_cons_zero] at blank
            refine ⟨by simpa using blank, ?_⟩
            intro comment
            exact noComment behind (by rw [found, comment])

theorem consumeWhitespace_skips (text : List Char) : Starts (consumeWhitespace text) :=
  whitespaceTurns_skips _ text (Nat.lt_succ_self _)

theorem consumeWhitespace_twice (text : List Char) :
    consumeWhitespace (consumeWhitespace text) = consumeWhitespace text :=
  consumeWhitespace_starts (consumeWhitespace_skips text)

theorem length_whitespaceTurns_le : ∀ (turns : Nat) (text : List Char),
    (whitespaceTurns turns text).length ≤ text.length := by
  intro turns
  induction turns with
  | zero => exact fun text => Nat.le_refl _
  | succ turns ih =>
      intro text
      have shorter := (List.dropWhile_suffix isBlank : text.dropWhile isBlank <:+ text).length_le
      unfold whitespaceTurns
      split
      · rename_i rest found
        have chomped : (chomp (';' :: rest)).length ≤ rest.length := length_chomp_le rest
        have turn := ih (chomp (';' :: rest))
        rw [found, List.length_cons] at shorter
        omega
      · exact shorter

theorem length_consumeWhitespace_le (text : List Char) :
    (consumeWhitespace text).length ≤ text.length := length_whitespaceTurns_le _ text

end Blanks

/-! ## What is read is taken off the text -/

section Lengths
variable {text rest : List Char}

theorem length_numeral_le (text : List Char) :
    (consumeHexdigits (consumeWhitespace text)).length ≤ text.length :=
  (List.dropWhile_suffix isNumeral).length_le.trans (length_consumeWhitespace_le text)

theorem length_consumeXint_le {ι : Type} (stored : UInt64 → ι) (text : List Char) :
    (consumeXint stored text).2.length ≤ text.length := by
  unfold consumeXint
  dsimp only
  split
  · exact length_numeral_le text
  · exact length_consumeWhitespace_le text

theorem length_consumeBrace_lt {brace : Char} (found : consumeBrace brace text = some rest) :
    rest.length < text.length := by
  have skipped := length_consumeWhitespace_le text
  unfold consumeBrace at found
  split at found
  · cases found
  · rename_i c behind split
    rw [split, List.length_cons] at skipped
    split at found
    · cases found
      omega
    · cases found

theorem length_nextdigit_lt {digit : Char} (found : nextdigit text = some (digit, rest)) :
    rest.length < text.length := by
  have dropped := (List.dropWhile_suffix fun c => !isxdigit c :
    text.dropWhile (fun c => !isxdigit c) <:+ text).length_le
  unfold nextdigit at found
  split at found
  · cases found
  · rename_i split
    cases found
    rw [split, List.length_cons] at dropped
    omega

theorem length_wordsLoop_le : ∀ (turns x : Nat) (text : List Char),
    (wordsLoop turns x text).2.length ≤ text.length := by
  intro turns
  induction turns with
  | zero => exact fun x text => Nat.le_refl _
  | succ turns ih =>
      intro x text
      have word : (consumeXint32 text).2.length ≤ text.length := length_consumeXint_le _ text
      unfold wordsLoop
      generalize consumeXint32 text = read at word
      obtain ⟨value, behind⟩ := read
      cases value with
      | none => exact word
      | some value =>
          have skipped := length_consumeWhitespace_le behind
          dsimp only at word ⊢
          split
          · exact word
          · split
            · rename_i rest comma
              rw [comma, List.length_cons] at skipped
              have further := ih (x + 1) rest
              dsimp only
              omega
            · exact skipped.trans word

theorem length_consumeWords_le (text : List Char) : (consumeWords text).2.length ≤ text.length := by
  have skipped := length_consumeWhitespace_le text
  unfold consumeWords
  split
  · exact skipped
  · rename_i list opened
    have inside := length_consumeBrace_lt opened
    have words := length_wordsLoop_le (list.length + 1) 0 list
    generalize wordsLoop (list.length + 1) 0 list = read at words
    obtain ⟨values, behind⟩ := read
    cases values with
    | none =>
        dsimp only at words ⊢
        omega
    | some values =>
        dsimp only at words ⊢
        split
        · have last := length_consumeWhitespace_le behind
          dsimp only
          omega
        · rename_i closed
          have last := length_consumeBrace_lt closed
          dsimp only
          omega

end Lengths

/-! ## Lists of bytes -/

section Bytes
variable {text : List Char}

/-- One turn: the brace, a byte, no digit any more, or one digit in front of the end. -/
theorem consumeXint8_cases (text : List Char) :
    ((consumeWhitespace text).head? = some '}' ∧
        consumeXint8 text = .ok (none, consumeWhitespace text)) ∨
      (consumeWhitespace text).head? ≠ some '}' ∧
        ((∃ high behind low rest byte, nextdigit (consumeWhitespace text) = some (high, behind) ∧
            nextdigit behind = some (low, rest) ∧ consumeXint8 text = .ok (some byte, rest)) ∨
          nextdigit (consumeWhitespace text) = none ∧ consumeXint8 text = .error .overread ∨
          (∃ high behind, nextdigit (consumeWhitespace text) = some (high, behind) ∧
            nextdigit behind = none) ∧ consumeXint8 text = .error .overrun) := by
  unfold consumeXint8
  dsimp only
  by_cases brace : (consumeWhitespace text).head? = some '}'
  · exact .inl ⟨brace, if_pos brace⟩
  · refine .inr ⟨brace, ?_⟩
    rw [if_neg brace]
    cases first : nextdigit (consumeWhitespace text) with
    | none => exact .inr (.inl ⟨rfl, rfl⟩)
    | some found =>
        obtain ⟨high, behind⟩ := found
        dsimp only
        cases second : nextdigit behind with
        | none => exact .inr (.inr ⟨⟨high, behind, rfl, second⟩, rfl⟩)
        | some found =>
            obtain ⟨low, rest⟩ := found
            exact .inl ⟨high, behind, low, rest, _, rfl, second, rfl⟩

/-- The loop of `consume_bytes` ends, without reading on or after it, or goes behind the end. -/
theorem bytesLoop_spec : ∀ (turns x : Nat) (text : List Char), text.length < turns →
    (WholeBytes x text ∧ ((∃ bytes rest, bytesLoop turns x text = .ok (bytes, rest) ∧
        rest.length ≤ text.length) ∨ bytesLoop turns x text = .error .overread)) ∨
      ¬ WholeBytes x text ∧ bytesLoop turns x text = .error .overrun := by
  intro turns
  induction turns with
  | zero => intro x text enough; omega
  | succ turns ih =>
      intro x text enough
      have skipped := length_consumeWhitespace_le text
      rw [bytesLoop]
      rcases consumeXint8_cases text with ⟨closes, stopped⟩ |
        ⟨further, read | ⟨ends, stopped⟩ | ⟨cut, stopped⟩⟩
      · rw [stopped]
        exact .inl ⟨.brace closes, .inl ⟨some [], _, rfl, skipped⟩⟩
      · obtain ⟨high, behind, low, rest, byte, first, second, read⟩ := read
        have firstLess := length_nextdigit_lt first
        have secondLess := length_nextdigit_lt second
        rw [read]
        change (_ ∧ ((∃ bytes last, (if x + 1 = bytesLimit then _
          else bytesLoop turns (x + 1) rest >>= _) = _ ∧ _) ∨ (if x + 1 = bytesLimit then _
          else bytesLoop turns (x + 1) rest >>= _) = _)) ∨
          _ ∧ (if x + 1 = bytesLimit then _ else bytesLoop turns (x + 1) rest >>= _) = _
        by_cases last : x + 1 = bytesLimit
        · simp only [if_pos last]
          exact .inl ⟨.full first second last, .inl ⟨none, rest, rfl, by omega⟩⟩
        · simp only [if_neg last]
          rcases ih (x + 1) rest (by omega) with ⟨whole, ⟨bytes, end_, tail, shorter⟩ | beyond⟩ |
            ⟨cut, tail⟩
          · rw [tail]
            exact .inl ⟨.byte first second whole, .inl ⟨_, end_, rfl, by omega⟩⟩
          · rw [beyond]
            exact .inl ⟨.byte first second whole, .inr rfl⟩
          · rw [tail]
            refine .inr ⟨?_, rfl⟩
            intro whole
            cases whole with
            | brace closes => exact further closes
            | noDigit ends =>
                rw [first] at ends
                cases ends
            | full _ _ last' => exact last last'
            | byte first' second' tail' =>
                rw [first] at first'
                cases first'
                rw [second] at second'
                cases second'
                exact cut tail'
      · rw [stopped]
        exact .inl ⟨.noDigit ends, .inr rfl⟩
      · rw [stopped]
        obtain ⟨high, behind, first, second⟩ := cut
        refine .inr ⟨?_, rfl⟩
        intro whole
        cases whole with
        | brace closes => exact further closes
        | noDigit ends =>
            rw [first] at ends
            cases ends
        | full first' second' _ | byte first' second' _ =>
            rw [first] at first'
            cases first'
            rw [second] at second'
            cases second'

theorem consumeBytes_cut {list : List Char} (opened : consumeBrace '{' text = some list)
    (cut : ¬ WholeBytes 0 list) : consumeBytes text = .error .overrun := by
  have read := bytesLoop_spec (list.length + 1) 0 list (Nat.lt_succ_self _)
  rcases read with ⟨whole, -⟩ | ⟨-, overrun⟩
  · exact absurd whole cut
  · unfold consumeBytes
    rw [opened]
    dsimp only
    rw [overrun]
    rfl

theorem consumeBytes_read (whole : ∀ list, consumeBrace '{' text = some list → WholeBytes 0 list) :
    (∃ bytes rest, consumeBytes text = .ok (bytes, rest) ∧ rest.length ≤ text.length) ∨
      consumeBytes text = .error .overread := by
  have skipped := length_consumeWhitespace_le text
  unfold consumeBytes
  cases opened : consumeBrace '{' text with
  | none => exact .inl ⟨[], _, rfl, skipped⟩
  | some list =>
      have inside := length_consumeBrace_lt opened
      have read := bytesLoop_spec (list.length + 1) 0 list (Nat.lt_succ_self _)
      rcases read with ⟨-, ⟨bytes, rest, read, shorter⟩ | beyond⟩ | ⟨cut, -⟩
      · dsimp only
        rw [read]
        dsimp only [bind, Except.bind]
        cases bytes with
        | none => exact .inl ⟨[], rest, rfl, by omega⟩
        | some bytes =>
            dsimp only
            cases last : consumeBrace '}' rest with
            | none =>
                have blanks := length_consumeWhitespace_le rest
                exact .inl ⟨[], _, rfl, by omega⟩
            | some tail =>
                have behind := length_consumeBrace_lt last
                exact .inl ⟨bytes, tail, rfl, by omega⟩
      · dsimp only
        rw [beyond]
        exact .inr rfl
      · exact absurd (whole list opened) cut

end Bytes

/-! ## One record -/

section Records
variable {record : Record} {text rest : List Char}

theorem token_length (record : Record) : 0 < record.token.length := by
  rcases record with (_ | _ | _ | _) | (_ | _ | _ | _ | _) | _ <;> decide

theorem TokenAt.ne_nil (token : TokenAt record text) : consumeWhitespace text ≠ [] := by
  intro ends
  have long := token_length record
  have inside := token.length_le
  rw [ends, List.length_nil] at inside
  omega

theorem tokenAt_skipped : TokenAt record (consumeWhitespace text) ↔ TokenAt record text := by
  rw [TokenAt, consumeWhitespace_twice, TokenAt]

theorem recordHeader_skipped (record : Record) (text : List Char) :
    recordHeader record (consumeWhitespace text) = recordHeader record text := by
  simp only [recordHeader, consumeWord, consumeWhitespace_twice]

theorem parseRecord_skipped (record : Record) (text : List Char) (th : TestHarness) :
    parseRecord (consumeWhitespace text, th) record = parseRecord (text, th) record := by
  simp only [parseRecord, recordHeader_skipped]

theorem recordHeader_absent (absent : ¬ TokenAt record text) :
    recordHeader record text = .ok (none, consumeWhitespace text) := by
  have missing : consumeWord text record.token = (false, consumeWhitespace text) := by
    unfold consumeWord
    dsimp only
    rw [if_neg (by rwa [List.isPrefixOf_iff_prefix])]
  unfold recordHeader
  rw [missing]

theorem parseRecord_absent (absent : ¬ TokenAt record text) (th : TestHarness) :
    parseRecord (text, th) record = .ok (consumeWhitespace text, th) := by
  unfold parseRecord
  dsimp only
  rw [recordHeader_absent absent]
  rfl

theorem length_consumeKey_le (width : KeyWidth) (text : List Char) :
    (consumeKey width text).2.length ≤ text.length := by
  cases width with
  | absent => exact Nat.le_refl _
  | xint32 => exact length_consumeXint_le UInt64.toUInt32 text
  | xint64 => exact length_consumeXint_le _ text

theorem length_consumeWord_le (text token : List Char) :
    (consumeWord text token).2.length ≤ text.length := by
  have skipped := length_consumeWhitespace_le text
  unfold consumeWord
  dsimp only
  split
  · rw [List.length_drop]
    omega
  · exact skipped

/-- A header is read whole, or the parser gives up. -/
theorem recordHeader_token (token : TokenAt record text) :
    recordHeader record text = .error .null ∨
      ∃ address list, recordHeader record text = .ok (some address, list) ∧
        list.length < text.length := by
  have skipped := length_consumeWhitespace_le text
  have long := token_length record
  have inside := token.length_le
  have found : consumeWord text record.token =
      (true, (consumeWhitespace text).drop record.token.length) := by
    unfold consumeWord
    dsimp only
    rw [if_pos (by rwa [List.isPrefixOf_iff_prefix])]
  have shorter : ((consumeWhitespace text).drop record.token.length).length < text.length := by
    rw [List.length_drop]
    omega
  unfold recordHeader
  rw [found]
  dsimp only
  generalize (consumeWhitespace text).drop record.token.length = behind at shorter
  have keyed := length_consumeKey_le record.key behind
  generalize consumeKey record.key behind = key at keyed
  obtain ⟨address, unequal⟩ := key
  cases address with
  | none => exact .inl rfl
  | some address =>
      have equals := length_consumeWord_le unequal "=".toList
      dsimp only at keyed ⊢
      split
      · exact .inl rfl
      · rename_i list there
        rw [there] at equals
        dsimp only at equals
        exact .inr ⟨address, list, rfl, by omega⟩

/-- What is made of the list does not hang on the harness read so far. -/
theorem recordBody_cases (record : Record) (list : List Char)
    (whole : ∀ kind inside, record = .ram kind → consumeBrace '{' list = some inside →
      WholeBytes 0 inside) :
    (∃ stop, GivesNull stop ∧ ∀ address th, recordBody record address list th = .error stop) ∨
      ∃ rest, rest.length ≤ list.length ∧
        ∀ address th, ∃ next, recordBody record address list th = .ok (rest, next) := by
  have words := length_consumeWords_le list
  cases record with
  | ram kind =>
      rcases consumeBytes_read fun inside opened => whole kind inside rfl opened with
        ⟨bytes, rest, read, shorter⟩ | beyond
      · by_cases empty : UInt32.ofNat bytes.length = 0
        · refine .inl ⟨.null, .inl rfl, fun address th => ?_⟩
          unfold recordBody
          dsimp only
          rw [read]
          exact if_pos empty
        · refine .inr ⟨rest, shorter, fun address th =>
            ⟨th.addRam kind ⟨address, UInt32.ofNat bytes.length, bytes⟩, ?_⟩⟩
          unfold recordBody
          dsimp only
          rw [read]
          exact if_neg empty
      · refine .inl ⟨.overread, .inr rfl, fun address th => ?_⟩
        unfold recordBody
        dsimp only
        rw [beyond]
        rfl
  | words kind =>
      by_cases empty : UInt32.ofNat (consumeWords list).1.length = 0
      · exact .inl ⟨.null, .inl rfl, fun address th => if_pos empty⟩
      · exact .inr ⟨_, words, fun address th => ⟨_, if_neg empty⟩⟩
  | sq =>
      by_cases empty : UInt32.ofNat (consumeWords list).1.length = 0
      · exact .inl ⟨.null, .inl rfl, fun address th => if_pos empty⟩
      · exact .inr ⟨_, words, fun address th => ⟨_, if_neg empty⟩⟩

theorem recordBody_cut {kind : RamKind} {list inside : List Char}
    (opened : consumeBrace '{' list = some inside) (cut : ¬ WholeBytes 0 inside)
    (address : UInt64) (th : TestHarness) :
    recordBody (.ram kind) address list th = .error .overrun := by
  unfold recordBody
  dsimp only
  rw [consumeBytes_cut opened cut]
  rfl

theorem parseRecord_header {address : UInt64} {list : List Char}
    (header : recordHeader record text = .ok (some address, list)) (th : TestHarness) :
    parseRecord (text, th) record = recordBody record address list th := by
  unfold parseRecord
  dsimp only
  rw [header]
  rfl

theorem tokenAt_of_header {address : UInt64} {list : List Char}
    (header : recordHeader record text = .ok (some address, list)) : TokenAt record text := by
  by_contra absent
  rw [recordHeader_absent absent] at header
  cases header

/-- Behind a token a record is read whole, or the parser gives up, unless it is cut off. -/
theorem parseRecord_token (token : TokenAt record text) (whole : ¬ CutOff text) :
    (∃ stop, GivesNull stop ∧ ∀ th, parseRecord (text, th) record = .error stop) ∨
      ∃ rest, RecordAt record text rest ∧ rest.length < text.length ∧
        ∀ th, ∃ next, parseRecord (text, th) record = .ok (rest, next) := by
  rcases recordHeader_token token with bad | ⟨address, list, header, shorter⟩
  · refine .inl ⟨.null, .inl rfl, fun th => ?_⟩
    unfold parseRecord
    dsimp only
    rw [bad]
    rfl
  · have inWhole : ∀ kind inside, record = .ram kind → consumeBrace '{' list = some inside →
        WholeBytes 0 inside := by
      intro kind inside same opened
      by_contra cut
      rw [same] at header
      exact whole ⟨kind, address, list, inside, header, opened, cut⟩
    rcases recordBody_cases record list inWhole with ⟨stop, gives, bad⟩ | ⟨rest, less, good⟩
    · exact .inl ⟨stop, gives, fun th => (parseRecord_header header th).trans (bad address th)⟩
    · obtain ⟨first, read⟩ := good address TestHarness.empty
      refine .inr ⟨rest, ⟨address, list, first, header, read⟩, by omega, fun th => ?_⟩
      obtain ⟨next, read⟩ := good address th
      exact ⟨next, (parseRecord_header header th).trans read⟩

theorem parseRecord_whole (whole : RecordAt record text rest) (th : TestHarness) :
    ∃ next, parseRecord (text, th) record = .ok (rest, next) := by
  obtain ⟨address, list, first, header, read⟩ := whole
  have inWhole : ∀ kind inside, record = .ram kind → consumeBrace '{' list = some inside →
      WholeBytes 0 inside := by
    intro kind inside same opened
    by_contra cut
    rw [same, recordBody_cut opened cut] at read
    cases read
  rcases recordBody_cases record list inWhole with ⟨stop, -, bad⟩ | ⟨behind, -, good⟩
  · rw [bad] at read
    cases read
  · obtain ⟨other, same⟩ := good address TestHarness.empty
    rw [read] at same
    cases same
    obtain ⟨next, read⟩ := good address th
    exact ⟨next, (parseRecord_header header th).trans read⟩

theorem parseRecord_cut (cut : CutOff text) :
    ∃ record, TokenAt record text ∧ ∀ th, parseRecord (text, th) record = .error .overrun := by
  obtain ⟨kind, address, list, inside, header, opened, cut⟩ := cut
  refine ⟨.ram kind, tokenAt_of_header header, fun th => ?_⟩
  exact (parseRecord_header header th).trans (recordBody_cut opened cut address th)

end Records

/-! ## The loop -/

section Loop
variable {record : Record} {text rest : List Char}

/-- The records a turn still tries, and `turns` more turns. -/
def runFrom (later : List Record) (turns : Nat) (state : List Char × TestHarness) :
    Except ScriptStop TestHarness := do
  let next ← later.foldlM parseRecord state
  scriptLoop turns next

theorem runFrom_cons {first : Record} {later : List Record} {state next : List Char × TestHarness}
    (parsed : parseRecord state first = .ok next) (turns : Nat) :
    runFrom (first :: later) turns state = runFrom later turns next := by
  unfold runFrom
  rw [List.foldlM_cons, parsed]
  rfl

theorem scriptLoop_succ (more : text ≠ []) (turns : Nat) (th : TestHarness) :
    scriptLoop (turns + 1) (text, th) = runFrom records turns (consumeWhitespace text, th) := by
  rw [scriptLoop, if_neg more]
  rfl

/-- Without its token the rest of the turn only skips blanks. -/
theorem runFrom_absent (later : List Record) (absent : ∀ record ∈ later, ¬ TokenAt record text) :
    ∃ after, (after = text ∨ after = consumeWhitespace text) ∧
      ∀ turns th, runFrom later turns (text, th) = scriptLoop turns (after, th) := by
  induction later generalizing text with
  | nil => exact ⟨text, .inl rfl, fun turns th => rfl⟩
  | cons first later ih =>
      have skipped : ∀ record ∈ later, ¬ TokenAt record (consumeWhitespace text) :=
        fun record member token =>
          absent record (List.mem_cons_of_mem _ member) (tokenAt_skipped.mp token)
      obtain ⟨after, place, run⟩ := ih skipped
      rw [consumeWhitespace_twice, or_self] at place
      refine ⟨after, .inr place, fun turns th => ?_⟩
      rw [runFrom_cons (parseRecord_absent (absent first List.mem_cons_self) th)]
      exact run turns th

/-- The record whose token stands there is the next one that is parsed. -/
theorem runFrom_mem (token : TokenAt record text) {later : List Record} (tried : record ∈ later) :
    ∃ behind, ∀ turns th, runFrom later turns (text, th) =
      (parseRecord (text, th) record >>= runFrom behind turns) := by
  induction later generalizing text with
  | nil => cases tried
  | cons first later ih =>
      by_cases own : first = record
      · subst own
        refine ⟨later, fun turns th => ?_⟩
        unfold runFrom
        rw [List.foldlM_cons, bind_assoc]
      · have others : record ∈ later :=
          (List.mem_cons.mp tried).resolve_left fun same => own same.symm
        have absent : ¬ TokenAt first text := fun same => own (token_unique token same).symm
        obtain ⟨behind, run⟩ := ih (tokenAt_skipped.mpr token) others
        refine ⟨behind, fun turns th => ?_⟩
        rw [runFrom_cons (parseRecord_absent absent th), run, parseRecord_skipped]

/-- It is parsed in this turn or in the next one. -/
theorem runFrom_token (token : TokenAt record text) (later : List Record) :
    ∃ behind, (∀ turns th, runFrom later turns (text, th) =
        (parseRecord (text, th) record >>= runFrom behind turns)) ∨
      (∀ th, runFrom later 0 (text, th) = .error .hang) ∧
        ∀ turns th, runFrom later (turns + 1) (text, th) =
          (parseRecord (text, th) record >>= runFrom behind turns) := by
  by_cases tried : record ∈ later
  · obtain ⟨behind, run⟩ := runFrom_mem token tried
    exact ⟨behind, .inl run⟩
  · obtain ⟨behind, run⟩ := runFrom_mem (tokenAt_skipped.mpr token) (mem_records record)
    obtain ⟨after, place, skip⟩ := runFrom_absent later fun other tried' same =>
      tried (token_unique token same ▸ tried')
    have same : consumeWhitespace after = consumeWhitespace text := by
      rcases place with rfl | rfl
      · rfl
      · exact consumeWhitespace_twice text
    have more : after ≠ [] := by
      rintro rfl
      exact token.ne_nil (by rw [← same, consumeWhitespace_nil])
    refine ⟨behind, .inr ⟨fun th => skip 0 th, fun turns th => ?_⟩⟩
    rw [skip, scriptLoop_succ more, same, run, parseRecord_skipped]

theorem not_returned {stop : ScriptStop} (gives : ¬ GivesNull stop) : ¬ Returned (.error stop) := by
  rintro (⟨th, same⟩ | ⟨other, givesOther, same⟩)
  · cases same
  · cases same
    exact gives givesOther

theorem not_returned_hang : ¬ Returned (.error .hang) :=
  not_returned fun gives => gives.elim (fun same => by cases same) (fun same => by cases same)

theorem not_returned_overrun : ¬ Returned (.error .overrun) :=
  not_returned fun gives => gives.elim (fun same => by cases same) (fun same => by cases same)

theorem Boundary.within {script text rest : List Char} (record : Record)
    (whole : RecordAt record script text) (later : Boundary text rest) : Boundary script rest := by
  induction later with
  | start => exact .behind record .start whole
  | behind next _ wholeNext ih => exact .behind next ih wholeNext

/-- One turn for each character and one to see the end are enough. -/
theorem runFrom_returns (text : List Char) (readable : RecordsThroughout text) :
    ∀ (later : List Record) (turns : Nat) (th : TestHarness), text.length < turns →
      Returned (runFrom later turns (text, th)) := by
  intro later turns th enough
  obtain ⟨turns, rfl⟩ : ∃ less, turns = less + 1 := ⟨turns - 1, by omega⟩
  obtain ⟨place, whole⟩ := readable text .start
  rcases place with blank | ⟨record, token⟩
  · have absent : ∀ text, consumeWhitespace text = [] → ∀ record, ¬ TokenAt record text :=
      fun _ ends record token => token.ne_nil ends
    obtain ⟨after, place, run⟩ := runFrom_absent later
      fun record _ => absent text blank record
    rw [run]
    by_cases ends : after = []
    · rw [ends]
      exact .inl ⟨th, rfl⟩
    · have same : after = text := place.resolve_right fun skipped => ends (skipped.trans blank)
      have long := List.length_pos_iff.mpr ends
      obtain ⟨turns, rfl⟩ : ∃ less, turns = less + 1 := ⟨turns - 1, by rw [same] at long; omega⟩
      obtain ⟨last, lastPlace, lastRun⟩ := runFrom_absent records
        fun record _ => absent [] consumeWhitespace_nil record
      rw [consumeWhitespace_nil, or_self] at lastPlace
      rw [scriptLoop_succ ends, same, blank, lastRun, lastPlace]
      exact .inl ⟨th, rfl⟩
  · obtain ⟨behind, run⟩ := runFrom_token token later
    have goesOn : ∃ less, text.length ≤ less ∧ runFrom later (turns + 1) (text, th) =
        (parseRecord (text, th) record >>= runFrom behind less) := by
      rcases run with run | ⟨-, run⟩
      · exact ⟨turns + 1, by omega, run (turns + 1) th⟩
      · exact ⟨turns, by omega, run turns th⟩
    obtain ⟨less, enough, run⟩ := goesOn
    rw [run]
    rcases parseRecord_token token whole with ⟨stop, gives, bad⟩ | ⟨rest, wholeRecord, shorter, good⟩
    · rw [bad]
      exact .inr ⟨stop, gives, rfl⟩
    · obtain ⟨next, read⟩ := good th
      rw [read]
      refine runFrom_returns rest ?_ behind less next (by omega)
      exact fun place reached => readable place (reached.within record wholeRecord)
termination_by text.length

def NeverReturns (text : List Char) : Prop :=
  ∀ (later : List Record) (turns : Nat) (th : TestHarness),
    ¬ Returned (runFrom later turns (text, th))

theorem neverReturns_of_token (token : TokenAt record text)
    (stops : ∀ behind turns th,
      ¬ Returned (parseRecord (text, th) record >>= runFrom behind turns)) :
    NeverReturns text := by
  intro later turns th
  obtain ⟨behind, run | ⟨hang, run⟩⟩ := runFrom_token token later
  · rw [run]
    exact stops behind turns th
  · cases turns with
    | zero =>
        rw [hang]
        exact not_returned_hang
    | succ turns =>
        rw [run]
        exact stops behind turns th

/-- A text that no token starts stays as it is in every turn. -/
theorem neverReturns_stuck (more : consumeWhitespace text ≠ [])
    (absent : ∀ record, ¬ TokenAt record text) : NeverReturns text := by
  intro later turns th
  induction turns generalizing later text with
  | zero =>
      obtain ⟨after, -, run⟩ := runFrom_absent later fun record _ => absent record
      rw [run]
      exact not_returned_hang
  | succ turns ih =>
      obtain ⟨after, place, run⟩ := runFrom_absent later fun record _ => absent record
      have same : consumeWhitespace after = consumeWhitespace text := by
        rcases place with rfl | rfl
        · rfl
        · exact consumeWhitespace_twice text
      have nonempty : after ≠ [] := by
        rintro rfl
        exact more (by rw [← same, consumeWhitespace_nil])
      rw [run, scriptLoop_succ nonempty, same]
      exact ih (by rwa [consumeWhitespace_twice])
        (fun record token => absent record (tokenAt_skipped.mp token)) records

theorem neverReturns_cut (cut : CutOff text) : NeverReturns text := by
  obtain ⟨record, token, overrun⟩ := parseRecord_cut cut
  refine neverReturns_of_token token fun behind turns th => ?_
  rw [overrun]
  exact not_returned_overrun

theorem NeverReturns.before (later : NeverReturns rest) (whole : RecordAt record text rest) :
    NeverReturns text := by
  obtain ⟨address, list, first, header, -⟩ := id whole
  refine neverReturns_of_token (tokenAt_of_header header) fun behind turns th => ?_
  obtain ⟨next, read⟩ := parseRecord_whole whole th
  rw [read]
  exact later behind turns next

theorem neverReturns_of_boundary {script : List Char} (reached : Boundary script text)
    (later : NeverReturns text) : NeverReturns script := by
  induction reached with
  | start => exact later
  | behind record _ whole ih => exact ih (later.before whole)

theorem neverReturns_of_unreadable (unreadable : ¬ Readable text) : NeverReturns text := by
  by_cases cut : CutOff text
  · exact neverReturns_cut cut
  · have noPlace : ¬ (consumeWhitespace text = [] ∨ ∃ record, TokenAt record text) :=
      fun place => unreadable ⟨place, cut⟩
    rw [not_or, not_exists] at noPlace
    exact neverReturns_stuck noPlace.1 noPlace.2

end Loop

/-- The parser returns, and its loop ends after any number of turns at all, exactly on the scripts
with a token at every boundary and no end within a byte. -/
theorem umrCreateTestHarness_returns_iff (script : List Char) :
    (Returned (umrCreateTestHarness script) ↔ RecordsThroughout script) ∧
      ((∃ turns, Returned (scriptLoop turns (script, TestHarness.empty))) ↔
        RecordsThroughout script) := by
  have only : ∀ turns, Returned (scriptLoop turns (script, TestHarness.empty)) →
      RecordsThroughout script := by
    intro turns returned text reached
    by_contra unreadable
    exact neverReturns_of_boundary reached (neverReturns_of_unreadable unreadable) [] turns
      TestHarness.empty returned
  have enough : RecordsThroughout script → Returned (umrCreateTestHarness script) :=
    fun readable => runFrom_returns script readable [] _ TestHarness.empty (Nat.lt_succ_self _)
  exact ⟨⟨only _, enough⟩, fun ⟨turns, returned⟩ => only turns returned,
    fun readable => ⟨_, enough readable⟩⟩

/-- A token of another kind keeps the loop where it is. -/
theorem unknown_token_hangs : ¬ ∀ script : List Char,
    ∃ turns, Returned (scriptLoop turns (script, TestHarness.empty)) := by
  intro returns
  obtain ⟨turns, returned⟩ := returns "GPR@0x0 = { 0x1 }".toList
  have noBlank : consumeWhitespace "GPR@0x0 = { 0x1 }".toList = "GPR@0x0 = { 0x1 }".toList := rfl
  have absent : ∀ record ∈ records,
      ¬ record.token <+: consumeWhitespace "GPR@0x0 = { 0x1 }".toList := by
    decide
  obtain ⟨after, place, run⟩ := runFrom_absent records absent
  rw [noBlank, or_self] at place
  rw [place] at run
  have stays : ∀ turns th, scriptLoop turns ("GPR@0x0 = { 0x1 }".toList, th) = .error .hang := by
    intro turns
    induction turns with
    | zero => exact fun th => rfl
    | succ turns ih =>
        intro th
        rw [scriptLoop_succ (by decide), noBlank, run]
        exact ih th
  rw [stays] at returned
  exact not_returned_hang returned

end Umr.Harness
