import Umr.Harness.Script

/-!
# Test logs

The lines the recorders print into a test log, and what the parser makes of a
log: the harness that has one block for each line.
-/

set_option autoImplicit false

namespace Umr.Harness

open Umr.Lib

/-- A line of a log.  The name of a register follows as a comment where it is
given. -/
inductive LogLine where
  | bytes (kind : RamKind) (address : UInt64) (contents : List UInt8)
  | words (kind : WordKind) (address : UInt64) (values : List UInt32) (name : Option (List Char))
  | sq (index : UInt64) (value : UInt32) (name : List Char)
  deriving DecidableEq, Repr

namespace LogLine

def record : LogLine → Record
  | .bytes kind _ _ => .ram kind
  | .words kind _ _ _ => .words kind
  | .sq _ _ _ => .sq

def address : LogLine → UInt64
  | .bytes _ address _ => address
  | .words _ address _ _ => address
  | .sq index _ _ => index

def count : LogLine → Nat
  | .bytes _ _ contents => contents.length
  | .words _ _ values _ => values.length
  | .sq _ _ _ => 1

/-- The number of values that the parser has no room for. -/
def limit : LogLine → Nat
  | .bytes _ _ _ => bytesLimit
  | .words _ _ _ _ | .sq _ _ _ => wordsLimit

/-! ## Printing -/

def keyText (line : LogLine) : List Char :=
  match line.record.key with
  | .absent => []
  | .xint32 | .xint64 => printHex0x line.address.toNat

/-- The blanks a recorder puts inside the braces. -/
def gaps : LogLine → List Char × List Char
  | .bytes .gcaconfig _ _ => ([' '], [' '])
  | .bytes .discovery _ _ => ([' '], [])
  | .bytes .sysram _ _ | .bytes .vram _ _ => ([], [])
  | .words _ _ _ none => ([' '], [])
  | .words _ _ _ (some _) | .sq _ _ _ => ([' '], [' '])

def items : LogLine → List Char
  | .bytes _ _ contents => printBytes contents
  | .words _ _ values _ => printWords values
  | .sq _ value _ => printWords [value]

def listText (line : LogLine) : List Char := line.gaps.1 ++ (line.items ++ line.gaps.2)

def name : LogLine → Option (List Char)
  | .bytes _ _ _ => none
  | .words _ _ _ name => name
  | .sq _ _ name => some name

def ending (line : LogLine) : List Char :=
  match line.name with
  | none => ['\n']
  | some name => ' ' :: ';' :: ' ' :: (name ++ ['\n'])

def text (line : LogLine) : List Char :=
  line.record.token ++ (line.keyText ++ (' ' :: '=' :: ' ' :: '{' ::
    (line.listText ++ '}' :: line.ending)))

/-- What the parser needs of a line: some values but not more than there is room for, an
address that fits the token, and no line break in a name. -/
structure Parsable (line : LogLine) : Prop where
  some_values : line.count ≠ 0
  room : line.count < line.limit
  unkeyed : line.record.key = .absent → line.address = 0
  narrow : line.record.key = .xint32 → line.address.toNat < 2 ^ 32
  oneLine : ∀ name ∈ line.name, '\n' ∉ name

theorem limit_le (line : LogLine) : line.limit ≤ 2 ^ 32 := by
  have bytes : bytesLimit ≤ 2 ^ 32 := by decide
  have words : wordsLimit ≤ 2 ^ 32 := by decide
  cases line with
  | bytes => exact bytes
  | words => exact words
  | sq => exact words

theorem Parsable.size_ne_zero {line : LogLine} (parsable : line.Parsable) :
    UInt32.ofNat line.count ≠ 0 := by
  intro zero
  have fits := Nat.lt_of_lt_of_le parsable.room line.limit_le
  have same := congrArg UInt32.toNat zero
  rw [UInt32.toNat_ofNat', Nat.mod_eq_of_lt fits] at same
  exact parsable.some_values same

end LogLine

def logText (lines : List LogLine) : List Char := lines.flatMap LogLine.text

def TestHarness.add (th : TestHarness) : LogLine → TestHarness
  | .bytes kind address contents =>
      th.addRam kind ⟨address, UInt32.ofNat contents.length, contents⟩
  | .words kind address values _ =>
      th.addMmio kind ⟨address, values, UInt32.ofNat values.length, 0⟩
  | .sq index value _ => th.addSq ⟨index.toUInt32, [value], 1, 0⟩

def harnessOf (lines : List LogLine) : TestHarness := lines.foldl TestHarness.add TestHarness.empty

/-! ## One line -/

section Line
variable {line : LogLine} {text rest : List Char}

theorem token_starts (record : Record) (rest : List Char) : Starts (record.token ++ rest) := by
  cases record with
  | ram kind => cases kind <;> (rintro c ⟨⟩; decide)
  | words kind => cases kind <;> (rintro c ⟨⟩; decide)
  | sq => rintro c ⟨⟩; decide

theorem consumeKey_keyText (parsable : line.Parsable) (stop : StopsAt isNumeral rest) :
    consumeKey line.record.key (line.keyText ++ rest) = (some line.address, rest) := by
  have skipped : consumeWhitespace (printHex0x line.address.toNat ++ rest) =
      printHex0x line.address.toNat ++ rest :=
    consumeWhitespace_starts (printHex0x_starts _ _)
  unfold consumeKey LogLine.keyText
  cases width : line.record.key with
  | absent =>
      rw [parsable.unkeyed width]
      rfl
  | xint32 =>
      have narrow := parsable.narrow width
      have same : line.address.toUInt32.toNat = line.address.toNat := by
        rw [UInt64.toNat_toUInt32, Nat.mod_eq_of_lt narrow]
      rw [← same] at skipped ⊢
      dsimp only
      rw [consumeXint32_printed stop skipped]
      have widened : line.address.toUInt32.toUInt64 = line.address := by
        apply UInt64.toNat_inj.mp
        rw [UInt32.toNat_toUInt64, same]
      change (some line.address.toUInt32.toUInt64, rest) = _
      rw [widened]
  | xint64 =>
      dsimp only
      rw [consumeXint64, consumeXint_printed id line.address.toNat_lt stop skipped, id,
        UInt64.ofNat_toNat]

theorem recordHeader_keyed
    (keyed : ∀ behind, StopsAt isNumeral behind →
      consumeKey line.record.key (line.keyText ++ behind) = (some line.address, behind))
    (skipped : consumeWhitespace text = line.text ++ rest) :
    recordHeader line.record text = .ok (some line.address,
      ' ' :: '{' :: (line.listText ++ ('}' :: (line.ending ++ rest)))) := by
  have cut : line.text ++ rest = line.record.token ++ (line.keyText ++
      (' ' :: '=' :: ' ' :: '{' :: (line.listText ++ ('}' :: (line.ending ++ rest))))) := by
    simp only [LogLine.text, List.append_assoc, List.cons_append]
  have stop : StopsAt isNumeral
      (' ' :: '=' :: ' ' :: '{' :: (line.listText ++ ('}' :: (line.ending ++ rest)))) := by
    rintro c ⟨⟩
    decide
  have equals : consumeWord
      (' ' :: '=' :: ' ' :: '{' :: (line.listText ++ ('}' :: (line.ending ++ rest)))) "=".toList =
      (true, ' ' :: '{' :: (line.listText ++ ('}' :: (line.ending ++ rest)))) :=
    consumeWord_found ((consumeWhitespace_blank (by decide) _).trans
      (consumeWhitespace_stop (by decide) (by decide) _))
  unfold recordHeader
  rw [consumeWord_found (skipped.trans cut)]
  dsimp only
  rw [keyed _ stop]
  dsimp only
  rw [equals]

theorem recordHeader_own (parsable : line.Parsable)
    (skipped : consumeWhitespace text = line.text ++ rest) :
    recordHeader line.record text = .ok (some line.address,
      ' ' :: '{' :: (line.listText ++ ('}' :: (line.ending ++ rest)))) :=
  recordHeader_keyed (fun _ stop => consumeKey_keyText parsable stop) skipped

theorem token_isPrefixOf_other {record other : Record} (different : record ≠ other)
    (rest : List Char) : record.token.isPrefixOf (other.token ++ rest) = false := by
  rw [Bool.eq_false_iff]
  intro begins
  exact different
    (token_unique (List.isPrefixOf_iff_prefix.mp begins) (List.prefix_append other.token rest))

theorem consumeWord_missed {token : List Char} (skipped : consumeWhitespace text = rest)
    (missed : token.isPrefixOf rest = false) : consumeWord text token = (false, rest) := by
  unfold consumeWord
  rw [skipped]
  dsimp only
  rw [if_neg (by simp [missed])]

structure Closes (after rest : List Char) : Prop where
  stop : StopsAt isNumeral (after ++ '}' :: rest)
  closed : consumeWhitespace (after ++ '}' :: rest) = '}' :: rest

theorem closes_tight (rest : List Char) : Closes [] rest where
  stop := by rintro c ⟨⟩; decide
  closed := consumeWhitespace_stop (by decide) (by decide) rest

theorem closes_blank (rest : List Char) : Closes [' '] rest where
  stop := by rintro c ⟨⟩; decide
  closed := (consumeWhitespace_blank (by decide) _).trans (closes_tight rest).closed

theorem gaps_closes (line : LogLine) (rest : List Char) : Closes line.gaps.2 rest := by
  cases line with
  | bytes kind address contents =>
      cases kind with
      | gcaconfig => exact closes_blank rest
      | discovery => exact closes_tight rest
      | sysram => exact closes_tight rest
      | vram => exact closes_tight rest
  | words kind address values name =>
      cases name with
      | none => exact closes_tight rest
      | some name => exact closes_blank rest
  | sq index value name => exact closes_blank rest

theorem gaps_blank (line : LogLine) : ∀ c ∈ line.gaps.1, isBlank c = true := by
  have one : ∀ c ∈ [' '], isBlank c = true := by
    intro c member
    rw [List.mem_singleton.mp member]
    decide
  have none : ∀ c ∈ ([] : List Char), isBlank c = true := fun c member => nomatch member
  cases line with
  | bytes kind address contents =>
      cases kind with
      | gcaconfig => exact one
      | discovery => exact one
      | sysram => exact none
      | vram => exact none
  | words kind address values name =>
      cases name with
      | none => exact one
      | some name => exact one
  | sq index value name => exact one

theorem opened (inside : List Char) : consumeWhitespace (' ' :: '{' :: inside) = '{' :: inside :=
  (consumeWhitespace_blank (by decide) _).trans (consumeWhitespace_stop (by decide) (by decide) _)

theorem listText_append (line : LogLine) (rest : List Char) :
    line.listText ++ rest = line.gaps.1 ++ (line.items ++ (line.gaps.2 ++ rest)) := by
  rw [LogLine.listText, List.append_assoc, List.append_assoc]

theorem recordBody_own (parsable : line.Parsable) (th : TestHarness) :
    recordBody line.record line.address (' ' :: '{' :: (line.listText ++ ('}' :: rest))) th =
      .ok (rest, th.add line) := by
  have closes := gaps_closes line rest
  have some_values := parsable.size_ne_zero
  have room := parsable.room
  rw [listText_append]
  cases line with
  | bytes kind address contents =>
      have read := consumeBytes_printed (gaps_blank (.bytes kind address contents)) closes.closed
        room (opened _)
      change (consumeBytes (' ' :: '{' :: _) >>= _) = _
      rw [LogLine.items, read]
      exact if_neg some_values
  | words kind address values name =>
      cases values with
      | nil => exact absurd rfl some_values
      | cons word words =>
          have read := consumeWords_printed closes.stop closes.closed word words room (opened _)
          have gap : (LogLine.words kind address (word :: words) name).gaps.1 = [' '] := by
            cases name <;> rfl
          rw [gap, LogLine.items]
          unfold recordBody
          dsimp only [LogLine.record, List.cons_append, List.nil_append]
          rw [read]
          exact if_neg some_values
  | sq index value name =>
      have read := consumeWords_printed closes.stop closes.closed value [] room (opened _)
      unfold recordBody
      dsimp only [LogLine.record, LogLine.gaps, LogLine.items, List.cons_append, List.nil_append]
      dsimp only [LogLine.gaps, List.cons_append, List.nil_append] at read
      rw [read]
      rfl

theorem parseRecord_own (parsable : line.Parsable) (th : TestHarness)
    (skipped : consumeWhitespace text = line.text ++ rest) :
    parseRecord (text, th) line.record = .ok (line.ending ++ rest, th.add line) := by
  unfold parseRecord
  dsimp only
  rw [recordHeader_own parsable skipped]
  exact recordBody_own parsable th

theorem parseRecord_other {record : Record} (different : record ≠ line.record) (th : TestHarness)
    (skipped : consumeWhitespace text = line.text ++ rest) :
    parseRecord (text, th) record = .ok (line.text ++ rest, th) := by
  have cut : line.text ++ rest = line.record.token ++ (line.keyText ++ (' ' :: '=' :: ' ' :: '{' ::
      (line.listText ++ '}' :: line.ending)) ++ rest) := List.append_assoc ..
  have missed : record.token.isPrefixOf (line.text ++ rest) = false := by
    rw [cut]
    exact token_isPrefixOf_other different _
  unfold parseRecord recordHeader
  dsimp only
  rw [consumeWord_missed skipped missed]
  rfl

theorem parseRecord_end (record : Record) (th : TestHarness)
    (skipped : consumeWhitespace text = []) : parseRecord (text, th) record = .ok ([], th) := by
  have missed : record.token.isPrefixOf [] = false := by
    cases record with
    | ram kind => cases kind <;> rfl
    | words kind => cases kind <;> rfl
    | sq => rfl
  unfold parseRecord recordHeader
  dsimp only
  rw [consumeWord_missed skipped missed]
  rfl

theorem consumeWhitespace_ending (parsable : line.Parsable) (rest : List Char) :
    consumeWhitespace (line.ending ++ rest) = consumeWhitespace rest := by
  unfold LogLine.ending
  cases named : line.name with
  | none => exact consumeWhitespace_blank (by decide) rest
  | some name =>
      have oneLine : '\n' ∉ ' ' :: name := by
        rw [List.mem_cons, not_or]
        exact ⟨by decide, parsable.oneLine name (by rw [named]; rfl)⟩
      have cut : ' ' :: ';' :: ' ' :: (name ++ ['\n']) ++ rest =
          ' ' :: ';' :: ((' ' :: name) ++ '\n' :: rest) := by
        simp only [List.cons_append, List.append_assoc, List.nil_append]
      dsimp only
      rw [cut, consumeWhitespace_blank (by decide), consumeWhitespace_comment, chomp_line oneLine]

end Line

/-! ## The whole log -/

section Whole
variable {lines : List LogLine} {text : List Char}

theorem logText_cons (line : LogLine) (lines : List LogLine) :
    logText (line :: lines) = line.text ++ logText lines := List.flatMap_cons ..

theorem logText_starts (lines : List LogLine) : Starts (logText lines) := by
  cases lines with
  | nil => exact fun c first => nomatch first
  | cons line lines =>
      rw [logText_cons, LogLine.text, List.append_assoc]
      exact token_starts line.record _

theorem two_le_text (line : LogLine) : 2 ≤ line.text.length := by
  rw [LogLine.text, List.length_append, List.length_append]
  change 2 ≤ _ + (_ + ((line.listText ++ '}' :: line.ending).length + 1 + 1 + 1 + 1))
  omega

theorem length_le_logText (lines : List LogLine) : 2 * lines.length ≤ (logText lines).length := by
  induction lines with
  | nil => exact Nat.le_refl _
  | cons line lines ih =>
      have long := two_le_text line
      rw [logText_cons, List.length_append, List.length_cons]
      omega

theorem foldlM_parseRecord_end (tried : List Record) (th : TestHarness) :
    tried.foldlM parseRecord ([], th) = .ok ([], th) := by
  induction tried with
  | nil => rfl
  | cons record tried ih =>
      rw [List.foldlM_cons, parseRecord_end record th consumeWhitespace_nil]
      exact ih

/-- The lines the tests take one after the other: the first one goes at the
latest when its own token is tried. -/
theorem foldlM_parseRecord (tried : List Record) : ∀ (lines : List LogLine) (text : List Char)
    (th : TestHarness), (∀ line ∈ lines, line.Parsable) → consumeWhitespace text = logText lines →
    ∃ taken rest left, lines = taken ++ rest ∧ consumeWhitespace left = logText rest ∧
      tried.foldlM parseRecord (text, th) = .ok (left, taken.foldl TestHarness.add th) ∧
      ∀ line ∈ lines.head?, line.record ∈ tried → taken ≠ [] := by
  induction tried with
  | nil =>
      intro lines text th _ skipped
      exact ⟨[], lines, text, rfl, skipped, rfl, fun _ _ tried => nomatch tried⟩
  | cons record tried ih =>
      intro lines text th parsable skipped
      cases lines with
      | nil =>
          obtain ⟨taken, rest, left, split, found, run, _⟩ :=
            ih [] [] th parsable consumeWhitespace_nil
          refine ⟨taken, rest, left, split, found, ?_, fun _ first => nomatch first⟩
          rw [List.foldlM_cons, parseRecord_end record th skipped]
          exact run
      | cons line lines =>
          have here : line.Parsable := parsable line (List.mem_cons_self ..)
          rw [logText_cons] at skipped
          by_cases own : record = line.record
          · subst own
            have behind : consumeWhitespace (line.ending ++ logText lines) = logText lines :=
              (consumeWhitespace_ending here _).trans
                (consumeWhitespace_starts (logText_starts lines))
            obtain ⟨taken, rest, left, split, found, run, _⟩ :=
              ih lines _ (th.add line)
                (fun line member => parsable line (List.mem_cons_of_mem _ member)) behind
            refine ⟨line :: taken, rest, left, by rw [split]; rfl, found, ?_,
              fun _ _ _ => List.cons_ne_nil _ _⟩
            rw [List.foldlM_cons, parseRecord_own here th skipped]
            exact run
          · have again : consumeWhitespace (line.text ++ logText lines) =
                logText (line :: lines) :=
              consumeWhitespace_starts (logText_starts (line :: lines))
            obtain ⟨taken, rest, left, split, found, run, first⟩ :=
              ih (line :: lines) _ th parsable again
            refine ⟨taken, rest, left, split, found, ?_, ?_⟩
            · rw [List.foldlM_cons, parseRecord_other own th skipped]
              exact run
            · intro head isHead member
              cases isHead
              exact first line rfl ((List.mem_cons.mp member).resolve_left (Ne.symm own))

theorem scriptLoop_log : ∀ (count : Nat) (lines : List LogLine) (text : List Char) (th : TestHarness)
    (turns : Nat), lines.length = count → (∀ line ∈ lines, line.Parsable) →
    consumeWhitespace text = logText lines → count + 2 ≤ turns →
    scriptLoop turns (text, th) = .ok (lines.foldl TestHarness.add th) := by
  intro count
  induction count using Nat.strongRecOn with
  | ind count ih =>
      intro lines text th turns length parsable skipped enough
      obtain ⟨turns, rfl⟩ : ∃ more, turns = more + 1 := ⟨turns - 1, by omega⟩
      rw [scriptLoop]
      cases lines with
      | nil =>
          by_cases done : text = []
          · rw [if_pos done]
            rfl
          · obtain ⟨turns, rfl⟩ : ∃ more, turns = more + 1 := ⟨turns - 1, by omega⟩
            have blank : scriptTurn (text, th) = .ok ([], th) := by
              unfold scriptTurn
              rw [skipped]
              exact foldlM_parseRecord_end records th
            rw [if_neg done, blank]
            rfl
      | cons line lines =>
          have more : text ≠ [] := by
            rintro rfl
            have lengths := congrArg List.length skipped
            rw [consumeWhitespace_nil, logText_cons, List.length_append] at lengths
            have long := two_le_text line
            change 0 = _ at lengths
            omega
          obtain ⟨taken, rest, left, split, found, run, first⟩ :=
            foldlM_parseRecord records (line :: lines) (consumeWhitespace text) th parsable
              (by rw [skipped]; exact consumeWhitespace_starts (logText_starts _))
          have progress := first line rfl (mem_records _)
          have shorter : rest.length < count := by
            have lengths := congrArg List.length split
            rw [length, List.length_append] at lengths
            have positive := List.length_pos_iff.mpr progress
            omega
          have turn : scriptTurn (text, th) = .ok (left, taken.foldl TestHarness.add th) := run
          have parsableRest : ∀ line ∈ rest, line.Parsable := by
            intro line member
            exact parsable line (by rw [split]; exact List.mem_append_right _ member)
          rw [if_neg more, turn, split, List.foldl_append]
          exact ih rest.length shorter rest left _ turns rfl parsableRest found (by omega)

theorem umrCreateTestHarness_logText (parsable : ∀ line ∈ lines, line.Parsable) :
    umrCreateTestHarness (logText lines) = .ok (harnessOf lines) := by
  cases lines with
  | nil => rfl
  | cons line lines =>
      have long := length_le_logText (line :: lines)
      rw [List.length_cons] at long
      exact scriptLoop_log _ (line :: lines) _ TestHarness.empty _ rfl parsable
        (consumeWhitespace_starts (logText_starts _)) (by rw [List.length_cons]; omega)

end Whole

/-! ## The blocks of a log -/

section Blocks
variable (lines : List LogLine)

def ramBlock (kind : RamKind) : LogLine → Option RamBlock
  | .bytes other address contents =>
      if other = kind then some ⟨address, UInt32.ofNat contents.length, contents⟩ else none
  | _ => none

def mmioBlock (kind : WordKind) : LogLine → Option MmioBlock
  | .words other address values _ =>
      if other = kind then some ⟨address, values, UInt32.ofNat values.length, 0⟩ else none
  | _ => none

def sqBlock : LogLine → Option SqBlock
  | .sq index value _ => some ⟨index.toUInt32, [value], 1, 0⟩
  | _ => none

theorem foldl_add_ram (kind : RamKind) : ∀ th : TestHarness,
    (lines.foldl TestHarness.add th).ram kind = th.ram kind ++ lines.filterMap (ramBlock kind) := by
  induction lines with
  | nil => exact fun th => (List.append_nil _).symm
  | cons line lines ih =>
      intro th
      rw [List.foldl_cons, ih]
      cases line with
      | bytes other address contents =>
          by_cases same : other = kind
          · subst same
            rw [TestHarness.add, TestHarness.addRam, List.filterMap_cons, ramBlock, if_pos rfl]
            dsimp only
            rw [Function.update_self, List.append_assoc]
            rfl
          · rw [TestHarness.add, TestHarness.addRam, List.filterMap_cons, ramBlock, if_neg same]
            dsimp only
            rw [Function.update_of_ne (Ne.symm same)]
      | words other address values name => rfl
      | sq index value name => rfl

theorem foldl_add_mmio (kind : WordKind) : ∀ th : TestHarness,
    (lines.foldl TestHarness.add th).mmio kind =
      th.mmio kind ++ lines.filterMap (mmioBlock kind) := by
  induction lines with
  | nil => exact fun th => (List.append_nil _).symm
  | cons line lines ih =>
      intro th
      rw [List.foldl_cons, ih]
      cases line with
      | bytes other address contents => rfl
      | words other address values name =>
          by_cases same : other = kind
          · subst same
            rw [TestHarness.add, TestHarness.addMmio, List.filterMap_cons, mmioBlock, if_pos rfl]
            dsimp only
            rw [Function.update_self, List.append_assoc]
            rfl
          · rw [TestHarness.add, TestHarness.addMmio, List.filterMap_cons, mmioBlock, if_neg same]
            dsimp only
            rw [Function.update_of_ne (Ne.symm same)]
      | sq index value name => rfl

theorem foldl_add_sq : ∀ th : TestHarness,
    (lines.foldl TestHarness.add th).sq = th.sq ++ lines.filterMap sqBlock := by
  induction lines with
  | nil => exact fun th => (List.append_nil _).symm
  | cons line lines ih =>
      intro th
      rw [List.foldl_cons, ih]
      cases line with
      | bytes other address contents => rfl
      | words other address values name => rfl
      | sq index value name => exact List.append_assoc ..

/-- No line sets an index register. -/
theorem foldl_add_indices : ∀ th : TestHarness,
    (lines.foldl TestHarness.add th).vramMmIndex = th.vramMmIndex ∧
      (lines.foldl TestHarness.add th).sqIndIndex = th.sqIndIndex := by
  induction lines with
  | nil => exact fun th => ⟨rfl, rfl⟩
  | cons line lines ih =>
      intro th
      have rest := ih (th.add line)
      cases line with
      | bytes other address contents => exact rest
      | words other address values name => exact rest
      | sq index value name => exact rest

theorem harnessOf_ram (kind : RamKind) :
    (harnessOf lines).ram kind = lines.filterMap (ramBlock kind) :=
  foldl_add_ram lines kind TestHarness.empty

theorem harnessOf_mmio (kind : WordKind) :
    (harnessOf lines).mmio kind = lines.filterMap (mmioBlock kind) :=
  foldl_add_mmio lines kind TestHarness.empty

theorem harnessOf_sq : (harnessOf lines).sq = lines.filterMap sqBlock :=
  foldl_add_sq lines TestHarness.empty

end Blocks

end Umr.Harness
