import Umr.Gui.EventFields

/-!
# Which fields are handled

When the documented formats are handled as they read, and for which texts the scanner
stays in the text.
-/

set_option autoImplicit false

namespace Umr.Gui.Trace

open Umr.Lib

/-! ## Where values begin and end -/

/-- A named field: separators, a name, `:` or `=`, and white space up to the value. -/
def Opening (cursor name value : List Char) : Prop :=
  ∃ gap sep blanks, cursor = gap ++ (name ++ sep :: (blanks ++ value)) ∧
    (∀ c ∈ gap, isGap c = true) ∧ StopsAt isGap (name ++ [sep]) ∧
    (∀ c ∈ name, inName c = true) ∧ (sep = ':' ∨ sep = '=') ∧
    (∀ c ∈ blanks, isspace c = true) ∧ StopsAt isspace value

def brackets : List (Char × Char) := [('(', ')'), ('{', '}')]

inductive ValueEnds : List Char → List Char → Prop where
  | bracket {pair : Char × Char} {inside next : List Char} (isPair : pair ∈ brackets)
      (first : pair.2 ∉ inside) : ValueEnds (pair.1 :: (inside ++ pair.2 :: next)) next
  | word {value next : List Char} (bare : ∀ pair ∈ brackets, (value ++ next).head? ≠ some pair.1)
      (solid : ∀ c ∈ value, inValue c = true) (stops : StopsAt inValue next) :
      ValueEnds (value ++ next) next

def Unclosed (value : List Char) : Prop :=
  ∃ pair ∈ brackets, value.head? = some pair.1 ∧ pair.2 ∉ value

inductive NamedFields (text : List Char) : List Char → Prop where
  | start : NamedFields text text
  | next {cursor name value next : List Char} (before : NamedFields text cursor)
      (opens : Opening cursor name value) (ends : ValueEnds value next) (more : next ≠ [])
      (noStack : next.head? ≠ some '|') : NamedFields text next

/-- Every bracket that a value of a named field begins with is closed. -/
def Closed (text : List Char) : Prop :=
  ∀ cursor, NamedFields text cursor → ∀ name value, Opening cursor name value → ¬ Unclosed value

/-! ## One turn -/

section Turns

theorem bracketTurn_closed (name : List Char) {open_ close : Char} (other : open_ ≠ close)
    {inside : List Char} (first : close ∉ inside) (next : List Char) :
    bracketTurn name close (open_ :: (inside ++ close :: next)) =
      .field (some name) (open_ :: (inside ++ [close])) next false := by
  have absent : close ∉ open_ :: inside := by
    intro member
    rcases List.mem_cons.mp member with same | within
    · exact other same.symm
    · exact first within
  have found : strchr close (open_ :: (inside ++ close :: next)) = some (close :: next) :=
    strchr_behind absent
  have length : (open_ :: (inside ++ close :: next)).length - (close :: next).length + 1 =
      (open_ :: (inside ++ [close])).length := by
    simp
    omega
  have shape : open_ :: (inside ++ close :: next) = (open_ :: (inside ++ [close])) ++ next := by
    simp
  rw [bracketTurn, found]
  dsimp only
  rw [length, shape, List.take_left, List.drop_one, List.tail_cons]

theorem bracketTurn_open (name : List Char) {close : Char} {value : List Char}
    (absent : close ∉ value) : bracketTurn name close value = .overread := by
  rw [bracketTurn, strchr_none absent]

theorem valueTurn_pair {pair : Char × Char} (isPair : pair ∈ brackets) (name : List Char)
    {value : List Char} (first : value.head? = some pair.1) :
    valueTurn name value = bracketTurn name pair.2 value := by
  unfold valueTurn
  rw [first]
  rcases List.mem_cons.mp isPair with rfl | isPair
  · rfl
  · cases List.mem_singleton.mp isPair
    rfl

theorem valueTurn_bare (name : List Char) {value : List Char}
    (bare : ∀ pair ∈ brackets, value.head? ≠ some pair.1) :
    valueTurn name value =
      .field (some name) (value.takeWhile inValue) (value.dropWhile inValue) false := by
  have round := bare ('(', ')') (by decide)
  have curly := bare ('{', '}') (by decide)
  rw [valueTurn, if_neg round, if_neg curly]

theorem brackets_differ {pair : Char × Char} (isPair : pair ∈ brackets) : pair.1 ≠ pair.2 := by
  rcases List.mem_cons.mp isPair with rfl | isPair
  · decide
  · cases List.mem_singleton.mp isPair
    decide

theorem stopsAt_dropWhile (continues : Char → Bool) (text : List Char) :
    StopsAt continues (text.dropWhile continues) := by
  intro c first
  have stops := List.head?_dropWhile_not continues text
  rw [Option.mem_def.mp first] at stops
  simpa using stops

theorem valueTurn_ends {value next : List Char} (ends : ValueEnds value next) (name : List Char) :
    ∃ text, valueTurn name value = .field (some name) text next false := by
  cases ends with
  | @bracket pair inside _ isPair first =>
      exact ⟨_, (valueTurn_pair isPair name rfl).trans
        (bracketTurn_closed name (brackets_differ isPair) first next)⟩
  | @word text _ bare solid stops =>
      refine ⟨text, ?_⟩
      rw [valueTurn_bare name bare, takeWhile_append_stop solid stops,
        dropWhile_append_stop solid stops]

theorem valueEnds_some {value next : List Char} (ends : ValueEnds value next) (more : next ≠ []) :
    value ≠ [] := by
  cases ends with
  | bracket isPair first => exact List.cons_ne_nil _ _
  | word bare solid stops => exact fun none_ => more (List.append_eq_nil_iff.mp none_).2

theorem valueTurn_unclosed {value : List Char} (unclosed : Unclosed value) (name : List Char) :
    valueTurn name value = .overread := by
  obtain ⟨pair, isPair, first, absent⟩ := unclosed
  rw [valueTurn_pair isPair name first, bracketTurn_open name absent]

theorem valueTurn_cases (name value : List Char) :
    (valueTurn name value = .overread ∧ Unclosed value) ∨
      ∃ text next, valueTurn name value = .field (some name) text next false ∧
        ValueEnds value next := by
  by_cases bare : ∀ pair ∈ brackets, value.head? ≠ some pair.1
  · refine .inr ⟨_, _, valueTurn_bare name bare, ?_⟩
    have split_ := List.takeWhile_append_dropWhile (p := inValue) (l := value)
    have ends : ValueEnds (value.takeWhile inValue ++ value.dropWhile inValue)
        (value.dropWhile inValue) := by
      refine .word ?_ (fun c member => List.mem_takeWhile_imp member) (stopsAt_dropWhile _ _)
      rwa [split_]
    rwa [split_] at ends
  · obtain ⟨pair, unlike⟩ := not_forall.mp bare
    obtain ⟨isPair, first⟩ := Classical.not_imp.mp unlike
    have opened := not_not.mp first
    rw [valueTurn_pair isPair name opened]
    by_cases closed : pair.2 ∈ value
    · obtain ⟨tail, rfl⟩ : ∃ tail, value = pair.1 :: tail := by
        cases value with
        | nil => cases opened
        | cons c tail => exact ⟨tail, by rw [Option.some.inj opened]⟩
      have inTail : pair.2 ∈ tail :=
        (List.mem_cons.mp closed).resolve_left (brackets_differ isPair).symm
      obtain ⟨inside, next, rfl, notBefore⟩ := List.eq_append_cons_of_mem inTail
      exact .inr ⟨_, next, bracketTurn_closed name (brackets_differ isPair) notBefore next,
        .bracket isPair notBefore⟩
    · exact .inl ⟨bracketTurn_open name closed, pair, isPair, opened, closed⟩

theorem fieldTurn_opening {cursor name value : List Char} (opens : Opening cursor name value)
    (some_ : value ≠ []) : fieldTurn cursor false = valueTurn name value := by
  obtain ⟨gap, sep, blanks, rfl, gapOk, starts, nameOk, isSep, blank, stops⟩ := opens
  have startsAll : StopsAt isGap (name ++ sep :: (blanks ++ value)) := by
    cases name with
    | nil => exact starts
    | cons c name => exact starts
  have start : (gap ++ (name ++ sep :: (blanks ++ value))).dropWhile isGap =
      name ++ sep :: (blanks ++ value) := dropWhile_append_stop gapOk startsAll
  have sepStops : StopsAt inName (sep :: (blanks ++ value)) := by
    intro c first
    cases first
    rcases isSep with rfl | rfl <;> rfl
  have notMark : ¬ ((name ++ sep :: (blanks ++ value)).head? = some '\n' ∨
      (name ++ sep :: (blanks ++ value)).head? = some '|') := by
    rintro (newline | bar)
    · have stop := startsAll '\n' newline
      cases stop
    · cases name with
      | nil =>
          cases bar
          rcases isSep with same | same <;> cases same
      | cons c name =>
          cases bar
          exact absurd (nameOk '|' List.mem_cons_self) (by decide)
  have behind : ¬ (false = false ∧ (sep :: (blanks ++ value) = [] ∨
      (sep :: (blanks ++ value)).head? = some '|')) := by
    rintro ⟨-, none_ | bar⟩
    · cases none_
    · cases bar
      rcases isSep with same | same <;> cases same
  have noComma : ¬ ((sep :: (blanks ++ value)).head? = some ',' ∨ false = true) := by
    rintro (comma | same)
    · cases comma
      rcases isSep with same | same <;> cases same
    · cases same
  have more : (sep :: (blanks ++ value)).drop 1 ≠ [] := by
    intro none_
    exact some_ (List.append_eq_nil_iff.mp none_).2
  unfold fieldTurn
  dsimp only
  rw [start, if_neg notMark, takeWhile_append_stop nameOk sepStops,
    dropWhile_append_stop nameOk sepStops, if_neg behind, if_neg noComma, if_neg more,
    List.drop_one, List.tail_cons, dropWhile_append_stop blank stops]

theorem opening_of_scan {cursor : List Char}
    (named : ¬ (false = false ∧ ((cursor.dropWhile isGap).dropWhile inName = [] ∨
      ((cursor.dropWhile isGap).dropWhile inName).head? = some '|')))
    (noComma : ¬ (((cursor.dropWhile isGap).dropWhile inName).head? = some ',' ∨ false = true)) :
    Opening cursor ((cursor.dropWhile isGap).takeWhile inName)
      ((((cursor.dropWhile isGap).dropWhile inName).drop 1).dropWhile isspace) := by
  have startsAll := stopsAt_dropWhile isGap cursor
  have gapSplit := List.takeWhile_append_dropWhile (p := isGap) (l := cursor)
  generalize cursor.dropWhile isGap = start at named noComma startsAll gapSplit ⊢
  have nameSplit := List.takeWhile_append_dropWhile (p := inName) (l := start)
  have sepStops := stopsAt_dropWhile inName start
  cases isBehind : start.dropWhile inName with
  | nil => exact absurd ⟨rfl, .inl isBehind⟩ named
  | cons sep rest =>
      rw [isBehind] at named noComma nameSplit sepStops
      have isSep : sep = ':' ∨ sep = '=' := by
        have stop : inName sep = false := sepStops sep rfl
        have notBar : sep ≠ '|' := fun same => named ⟨rfl, .inr (congrArg some same)⟩
        have notComma : sep ≠ ',' := fun same => noComma (.inl (congrArg some same))
        simp [inName] at stop
        tauto
      refine ⟨cursor.takeWhile isGap, sep, rest.takeWhile isspace, ?_,
        fun c member => List.mem_takeWhile_imp member, ?_,
        fun c member => List.mem_takeWhile_imp member, isSep,
        fun c member => List.mem_takeWhile_imp member, stopsAt_dropWhile isspace rest⟩
      · rw [List.drop_one, List.tail_cons, List.takeWhile_append_dropWhile, nameSplit, gapSplit]
      · rw [← nameSplit] at startsAll
        cases isName : start.takeWhile inName with
        | nil =>
            rw [isName] at startsAll
            exact startsAll
        | cons c name =>
            rw [isName] at startsAll
            exact startsAll

/-- A turn with names is the end, the first bare value, or a named field. -/
theorem fieldTurn_cases (cursor : List Char) :
    (∃ behind, fieldTurn cursor false = .stop behind) ∨
      (∃ value behind, fieldTurn cursor false = .field none value behind true) ∨
      ∃ name value, Opening cursor name value ∧ fieldTurn cursor false = valueTurn name value := by
  unfold fieldTurn
  dsimp only
  split
  · exact .inl ⟨_, rfl⟩
  · rename_i notMark
    split
    · exact .inl ⟨_, rfl⟩
    · rename_i behind
      split
      · exact .inr (.inl ⟨_, _, rfl⟩)
      · rename_i noComma
        split
        · exact .inl ⟨_, rfl⟩
        · exact .inr (.inr ⟨_, _, opening_of_scan behind noComma, rfl⟩)

theorem fieldTurn_nameless (cursor : List Char) :
    (∃ behind, fieldTurn cursor true = .stop behind) ∨
      ∃ value behind, fieldTurn cursor true = .field none value behind true := by
  unfold fieldTurn
  dsimp only
  split
  · exact .inl ⟨_, rfl⟩
  · rw [if_neg (by simp), if_pos (.inr rfl)]
    exact .inr ⟨_, _, rfl⟩

end Turns

/-! ## Nothing is read behind the end -/

section Reads
variable {text cursor : List Char}

theorem fieldLoop_nameless (fuel : Nat) (cursor : List Char) (calls : List FieldCall) :
    fieldLoop fuel cursor true calls ≠ .overread := by
  induction fuel generalizing cursor calls with
  | zero =>
      intro same
      cases same
  | succ fuel ih =>
      unfold fieldLoop
      rcases fieldTurn_nameless cursor with ⟨behind, isTurn⟩ | ⟨value, behind, isTurn⟩
      · rw [isTurn]
        intro same
        cases same
      · rw [isTurn]
        dsimp only
        split
        · intro same
          cases same
        · exact ih _ _

theorem open_of_overread {fuel : Nat} {calls : List FieldCall} (reached : NamedFields text cursor)
    (passed : fieldLoop fuel cursor false calls = .overread) : ¬ Closed text := by
  induction fuel generalizing cursor calls with
  | zero => cases passed
  | succ fuel ih =>
      unfold fieldLoop at passed
      rcases fieldTurn_cases cursor with ⟨behind, isTurn⟩ | ⟨value, behind, isTurn⟩ |
        ⟨name, value, opens, isTurn⟩
      · rw [isTurn] at passed
        cases passed
      · rw [isTurn] at passed
        dsimp only at passed
        split at passed
        · cases passed
        · exact absurd passed (fieldLoop_nameless _ _ _)
      · rcases valueTurn_cases name value with ⟨-, unclosed⟩ | ⟨field, behind, isField, ends⟩
        · exact fun closed => closed cursor reached name value opens unclosed
        · rw [isTurn, isField] at passed
          dsimp only at passed
          split at passed
          · cases passed
          · rename_i goesOn
            obtain ⟨more, noStack⟩ := not_or.mp goesOn
            exact ih (reached.next opens ends more noStack) passed

/-- The loop gets to the end of any row of named fields. -/
theorem fieldLoop_reaches (reached : NamedFields text cursor) :
    ∃ turns calls, ∀ fuel,
      fieldLoop (fuel + turns) text false [] = fieldLoop fuel cursor false calls := by
  induction reached with
  | start => exact ⟨0, [], fun fuel => rfl⟩
  | @next cursor name value next before opens ends more noStack ih =>
      obtain ⟨turns, calls, same⟩ := ih
      have some_ := valueEnds_some ends more
      obtain ⟨field, isField⟩ := valueTurn_ends ends name
      refine ⟨turns + 1, calls ++ [⟨calls.length, some name, field⟩], fun fuel => ?_⟩
      rw [Nat.add_comm turns, ← Nat.add_assoc, same, fieldLoop, fieldTurn_opening opens some_,
        isField]
      exact if_neg (not_or.mpr ⟨more, noStack⟩)

theorem overread_iff (text : List Char) :
    (∀ fuel, fieldLoop fuel text false [] ≠ .overread) ↔ Closed text := by
  constructor
  · intro safe cursor reached name value opens unclosed
    obtain ⟨turns, calls, same⟩ := fieldLoop_reaches reached
    have some_ : value ≠ [] := by
      rintro rfl
      obtain ⟨pair, -, first, -⟩ := unclosed
      cases first
    refine safe (1 + turns) ?_
    rw [same, fieldLoop, fieldTurn_opening opens some_, valueTurn_unclosed unclosed name]
  · intro closed fuel passed
    exact open_of_overread .start passed closed

end Reads

/-! ## The documented formats -/

section Formats

theorem FieldWord.apart (word : FieldWord) {mark : Char} (isMark : mark ∈ ",:=|(){}".toList) :
    ∀ c ∈ word.text, c ≠ mark := by
  rintro c member rfl
  exact (word.plain c member).2.1 isMark

theorem FieldWord.nameChars (word : FieldWord) : ∀ c ∈ word.text, inName c = true := by
  intro c member
  exact decide_eq_true ⟨word.apart (by decide) c member, word.apart (by decide) c member,
    word.apart (by decide) c member, word.apart (by decide) c member⟩

theorem FieldWord.valueChars (word : FieldWord) : ∀ c ∈ word.text, inValue c = true := by
  intro c member
  refine decide_eq_true ⟨word.apart (by decide) c member, ?_⟩
  rintro rfl
  exact absurd (word.plain ' ' member).1 (by decide)

theorem FieldWord.first (word : FieldWord) (rest : List Char) :
    ∃ c ∈ word.text, (word.text ++ rest).head? = some c := by
  have nonempty := word.nonempty
  cases isText : word.text with
  | nil => exact absurd isText nonempty
  | cons c text => exact ⟨c, List.mem_cons_self, rfl⟩

theorem FieldWord.starts (word : FieldWord) (rest : List Char) :
    StopsAt isGap (word.text ++ rest) ∧ StopsAt isspace (word.text ++ rest) := by
  obtain ⟨first, member, isFirst⟩ := word.first rest
  have solid := (word.plain first member).1
  have noComma := word.apart (by decide : ',' ∈ ",:=|(){}".toList) first member
  constructor
  · intro c isHead
    cases isFirst.symm.trans isHead
    simp [isGap, solid, noComma]
  · intro c isHead
    cases isFirst.symm.trans isHead
    exact solid

theorem scan_word (word : FieldWord) {gap behind : List Char} (gapOk : ∀ c ∈ gap, isGap c = true)
    (ends : StopsAt inName behind) (nameless : Bool) :
    fieldTurn (gap ++ (word.text ++ behind)) nameless =
      if nameless = false ∧ (behind = [] ∨ behind.head? = some '|') then .stop behind
      else if behind.head? = some ',' ∨ nameless then .field none word.text behind true
      else if behind.drop 1 = [] then .stop []
      else valueTurn word.text ((behind.drop 1).dropWhile isspace) := by
  have start := dropWhile_append_stop gapOk (word.starts behind).1
  obtain ⟨first, member, isFirst⟩ := word.first behind
  have notMark : ¬ ((word.text ++ behind).head? = some '\n' ∨
      (word.text ++ behind).head? = some '|') := by
    rw [isFirst]
    rintro (newline | bar)
    · cases newline
      exact absurd (word.plain '\n' member).1 (by decide)
    · exact word.apart (by decide) first member (Option.some.inj bar)
  unfold fieldTurn
  dsimp only
  rw [start, if_neg notMark, takeWhile_append_stop word.nameChars ends,
    dropWhile_append_stop word.nameChars ends]

theorem fieldTurn_bare (word : FieldWord) {gap behind : List Char}
    (gapOk : ∀ c ∈ gap, isGap c = true) (ends : StopsAt inName behind) :
    fieldTurn (gap ++ (word.text ++ behind)) true = .field none word.text behind true := by
  rw [scan_word word gapOk ends, if_neg (by simp), if_pos (.inr rfl)]

theorem fieldTurn_firstBare (word : FieldWord) (behind : List Char) :
    fieldTurn (word.text ++ ',' :: behind) false = .field none word.text (',' :: behind) true := by
  have none_ : ∀ c ∈ ([] : List Char), isGap c = true :=
    fun c member => absurd member List.not_mem_nil
  have ends : StopsAt inName (',' :: behind) := by
    intro c first
    cases first
    rfl
  have scanned := scan_word word none_ ends false
  rw [List.nil_append] at scanned
  rw [scanned, if_neg (by simp), if_pos (.inl rfl)]

theorem fieldTurn_named (field : NamedField) {gap : List Char}
    (gapOk : ∀ c ∈ gap, isGap c = true) (behind : List Char) :
    fieldTurn (gap ++ (field.text ++ behind)) false =
      .field (some field.name.text) (field.value.text ++ behind.takeWhile inValue)
        (behind.dropWhile inValue) false := by
  have shape : gap ++ (field.text ++ behind) =
      gap ++ (field.name.text ++ '=' :: ([] ++ (field.value.text ++ behind))) := by
    simp [NamedField.text]
  have opens : Opening (gap ++ (field.text ++ behind)) field.name.text
      (field.value.text ++ behind) :=
    ⟨gap, '=', [], shape, gapOk, (field.name.starts _).1, field.name.nameChars, .inr rfl,
      fun c member => absurd member List.not_mem_nil, (field.value.starts behind).2⟩
  have some_ : field.value.text ++ behind ≠ [] :=
    fun none_ => field.value.nonempty (List.append_eq_nil_iff.mp none_).1
  have bare : ∀ pair ∈ brackets, (field.value.text ++ behind).head? ≠ some pair.1 := by
    intro pair isPair opened
    obtain ⟨first, member, isFirst⟩ := field.value.first behind
    have same := Option.some.inj (isFirst.symm.trans opened)
    rcases List.mem_cons.mp isPair with rfl | isPair
    · exact field.value.apart (by decide) first member same
    · cases List.mem_singleton.mp isPair
      exact field.value.apart (by decide) first member same
  rw [fieldTurn_opening opens some_, valueTurn_bare _ bare,
    List.takeWhile_append_of_pos field.value.valueChars,
    List.dropWhile_append_of_pos field.value.valueChars]

theorem fieldLoop_mono {fuel : Nat} {cursor : List Char} {nameless : Bool} {calls : List FieldCall}
    {result : List FieldCall × Option (List Char)}
    (ran : fieldLoop fuel cursor nameless calls = .done result) (more : Nat) :
    fieldLoop (fuel + more) cursor nameless calls = .done result := by
  induction fuel generalizing cursor nameless calls with
  | zero => cases ran
  | succ fuel ih =>
      rw [Nat.add_right_comm]
      unfold fieldLoop at ran ⊢
      cases isTurn : fieldTurn cursor nameless with
      | stop behind =>
          rw [isTurn] at ran
          exact ran
      | overread =>
          rw [isTurn] at ran
          cases ran
      | field name value behind nameless =>
          rw [isTurn] at ran
          dsimp only at ran ⊢
          split
          · rename_i ends
            rw [if_pos ends] at ran
            exact ran
          · rename_i goesOn
            rw [if_neg goesOn] at ran
            exact ih ran

theorem fieldLoop_extends {fuel : Nat} {cursor : List Char} {nameless : Bool}
    {calls : List FieldCall} {result : List FieldCall × Option (List Char)}
    (ran : fieldLoop fuel cursor nameless calls = .done result) : calls <+: result.1 := by
  induction fuel generalizing cursor nameless calls with
  | zero => cases ran
  | succ fuel ih =>
      unfold fieldLoop at ran
      cases isTurn : fieldTurn cursor nameless with
      | stop behind =>
          rw [isTurn] at ran
          cases ran
          exact List.prefix_rfl
      | overread =>
          rw [isTurn] at ran
          cases ran
      | field name value behind nameless =>
          rw [isTurn] at ran
          dsimp only at ran
          split at ran
          · cases ran
            exact List.prefix_append _ _
          · exact (List.prefix_append _ _).trans (ih ran)

def moreBare (values : List FieldWord) : List Char :=
  values.flatMap fun value => ", ".toList ++ value.text

def moreNamed (fields : List (Bool × NamedField)) : List Char :=
  fields.flatMap fun field => gapText field.1 ++ field.2.text

def IsTail (tail : List Char) : Prop := tail = [] ∨ tail.head? = some '|'

theorem fieldLoop_bare {values : List FieldWord} (some_ : values ≠ []) {tail : List Char}
    (isTail : IsTail tail) (calls : List FieldCall) :
    fieldLoop values.length (moreBare values ++ tail) true calls =
      .done (calls ++ values.mapIdx (fun i value => bareCall value (calls.length + i)),
        stackAt tail) := by
  induction values generalizing calls with
  | nil => exact absurd rfl some_
  | cons value values ih =>
      have gapOk : ∀ c ∈ ", ".toList, isGap c = true := List.all_eq_true.mp (by decide)
      have shape : moreBare (value :: values) ++ tail =
          ", ".toList ++ (value.text ++ (moreBare values ++ tail)) := by
        simp [moreBare]
      have ends : StopsAt inName (moreBare values ++ tail) := by
        intro c first
        cases values with
        | nil =>
            rcases isTail with rfl | bar
            · cases first
            · cases bar.symm.trans first
              rfl
        | cons other values =>
            cases first
            rfl
      rw [shape, List.length_cons, fieldLoop, fieldTurn_bare value gapOk ends]
      dsimp only
      cases values with
      | nil => exact if_pos isTail
      | cons other values =>
          have goesOn : ¬ (moreBare (other :: values) ++ tail = [] ∨
              (moreBare (other :: values) ++ tail).head? = some '|') := by
            rintro (none_ | bar)
            · cases none_
            · cases bar
          rw [if_neg goesOn, ih (List.cons_ne_nil _ _), List.mapIdx_cons]
          simp [bareCall, Nat.add_assoc, Nat.add_comm 1]

/-- All named fields but the last are handled as they are, whatever the last one runs into. -/
theorem fieldLoop_named (field : NamedField) {gap : List Char}
    (gapOk : ∀ c ∈ gap, isGap c = true) (more : List (Bool × NamedField)) (tail : List Char)
    (calls : List FieldCall) :
    ∃ init last lastGap, field :: more.map Prod.snd = init ++ [last] ∧
      (∀ c ∈ lastGap, isGap c = true) ∧ ∀ fuel,
        fieldLoop (fuel + init.length) (gap ++ (field.text ++ (moreNamed more ++ tail))) false
            calls =
          fieldLoop fuel (lastGap ++ (last.text ++ tail)) false
            (calls ++ init.mapIdx fun i field => field.call (calls.length + i)) := by
  induction more generalizing field gap calls with
  | nil => exact ⟨[], field, gap, rfl, gapOk, fun fuel => by simp [moreNamed]⟩
  | cons next more ih =>
      obtain ⟨comma, next⟩ := next
      have nextGap : ∀ c ∈ gapText comma, isGap c = true := by
        cases comma <;> exact List.all_eq_true.mp (by decide)
      obtain ⟨init, last, lastGap, isSplit, lastOk, ran⟩ :=
        ih next nextGap (calls ++ [field.call calls.length])
      refine ⟨field :: init, last, lastGap, ?_, lastOk, fun fuel => ?_⟩
      · rw [List.map_cons, isSplit]
        rfl
      · have behind : ∃ first rest, moreNamed ((comma, next) :: more) ++ tail = first :: rest ∧
            inValue first = false ∧ first ≠ '|' := by
          cases comma <;> exact ⟨_, _, rfl, rfl, by decide⟩
        obtain ⟨first, rest, isBehind, stops, noBar⟩ := behind
        have goesOn : ¬ (first :: rest = [] ∨ (first :: rest).head? = some '|') := by
          rintro (none_ | bar)
          · cases none_
          · exact noBar (Option.some.inj bar)
        have shape : moreNamed ((comma, next) :: more) ++ tail =
            gapText comma ++ (next.text ++ (moreNamed more ++ tail)) := by
          simp [moreNamed]
        rw [List.length_cons, ← Nat.add_assoc, fieldLoop, fieldTurn_named field gapOk, isBehind,
          List.takeWhile_cons_of_neg (by rw [stops]; exact Bool.false_ne_true),
          List.dropWhile_cons_of_neg (by rw [stops]; exact Bool.false_ne_true)]
        dsimp only
        rw [if_neg goesOn, ← isBehind, shape, List.append_nil]
        have moved := ran fuel
        rw [List.mapIdx_cons]
        simp only [NamedField.call] at moved ⊢
        rw [moved]
        simp [Nat.add_assoc, Nat.add_comm 1]

def EventText.tail (event : EventText) : List Char :=
  (event.stack.map fun text => '|' :: text).getD []

theorem EventText.isTail (event : EventText) : IsTail event.tail := by
  unfold EventText.tail
  cases event.stack with
  | none => exact .inl rfl
  | some text => exact .inr rfl

theorem stackAt_tail (event : EventText) : stackAt event.tail = event.stack := by
  unfold EventText.tail
  cases event.stack <;> rfl

theorem handled_bare {event : EventText} {first second : FieldWord} {more : List FieldWord}
    (isBare : event.fields = .bare first second more) :
    ∃ fuel, fieldLoop fuel event.text false [] = .done (event.fields.calls, event.stack) := by
  have shape : event.text = first.text ++ ',' :: (' ' :: (second.text ++
      (moreBare more ++ event.tail))) := by
    have text : event.text = event.fields.text ++ event.tail := rfl
    rw [text, isBare]
    simp [FieldList.text, moreBare]
  have behind : ',' :: (' ' :: (second.text ++ (moreBare more ++ event.tail))) =
      moreBare (second :: more) ++ event.tail := by
    simp [moreBare]
  have goesOn : ¬ (',' :: (' ' :: (second.text ++ (moreBare more ++ event.tail))) = [] ∨
      (',' :: (' ' :: (second.text ++ (moreBare more ++ event.tail)))).head? = some '|') := by
    rintro (none_ | bar)
    · cases none_
    · cases bar
  refine ⟨(second :: more).length + 1, ?_⟩
  rw [shape, fieldLoop, fieldTurn_firstBare]
  dsimp only
  rw [if_neg goesOn, behind, fieldLoop_bare (List.cons_ne_nil _ _) event.isTail, stackAt_tail,
    isBare, FieldList.calls, List.mapIdx_cons]
  simp [bareCall, Nat.add_comm 1]

theorem calls_named {first : NamedField} {more : List (Bool × NamedField)} {init : List NamedField}
    {last : NamedField} (isSplit : first :: more.map Prod.snd = init ++ [last]) :
    (FieldList.named first more).calls =
      init.mapIdx (fun i field => field.call i) ++ [last.call init.length] := by
  rw [FieldList.calls, isSplit, List.mapIdx_concat]

theorem handled_named {event : EventText} {first : NamedField} {more : List (Bool × NamedField)}
    (isNamed : event.fields = .named first more) :
    (∃ fuel, fieldLoop fuel event.text false [] = .done (event.fields.calls, event.stack)) ↔
      event.stack = none := by
  have none_ : ∀ c ∈ ([] : List Char), isGap c = true :=
    fun c member => absurd member List.not_mem_nil
  obtain ⟨init, last, gap, isSplit, gapOk, ran⟩ :=
    fieldLoop_named first none_ more event.tail []
  have shape : event.text = [] ++ (first.text ++ (moreNamed more ++ event.tail)) := by
    have text : event.text = event.fields.text ++ event.tail := rfl
    rw [text, isNamed]
    simp [FieldList.text, moreNamed]
  rw [← shape] at ran
  have length : (init.mapIdx fun i field => field.call (([] : List FieldCall).length + i)).length =
      init.length := List.length_mapIdx
  rw [isNamed, calls_named isSplit]
  constructor
  · rintro ⟨fuel, handled⟩
    cases isStack : event.stack with
    | none => rfl
    | some text =>
        exfalso
        have isTail : event.tail = '|' :: text := by
          rw [EventText.tail, isStack]
          rfl
        have later := fieldLoop_mono handled (init.length + 1)
        have turns : fuel + (init.length + 1) = fuel + 1 + init.length := by omega
        have ends : inValue '|' = true := rfl
        rw [turns, ran, fieldLoop, fieldTurn_named last gapOk, isTail,
          List.takeWhile_cons_of_pos ends] at later
        have wrong : (init.mapIdx fun i field => field.call (([] : List FieldCall).length + i)) ++
            [⟨init.length, some last.name.text,
              last.value.text ++ '|' :: text.takeWhile inValue⟩] <+:
            init.mapIdx (fun i field => field.call i) ++ [last.call init.length] := by
          dsimp only at later
          rw [List.nil_append, length] at later
          split at later
          · injection later with same
            rw [← (Prod.mk.inj same).1]
          · exact fieldLoop_extends later
        have same := wrong.eq_of_length (by simp)
        have lastCall := (List.cons.inj (List.append_inj' same rfl).2).1
        have value := congrArg (fun call => call.value.length) lastCall
        simp [NamedField.call] at value
  · intro noStack
    have isTail : event.tail = [] := by
      rw [EventText.tail, noStack]
      rfl
    refine ⟨1 + init.length, ?_⟩
    rw [ran, fieldLoop, fieldTurn_named last gapOk, isTail, List.takeWhile_nil, List.dropWhile_nil,
      List.append_nil, List.nil_append, noStack]
    dsimp only
    rw [if_pos (.inl rfl), length]
    simp [NamedField.call, stackAt]

theorem handled_iff (event : EventText) :
    (∃ fuel, event.Handled (parseEventFields fuel event.text)) ↔
      (event.stack = none ∨ ∃ first second more, event.fields = .bare first second more) ∧
        event.text.length + 1 < 2 ^ 31 := by
  have run : (∃ fuel, fieldLoop fuel event.text false [] =
        .done (event.fields.calls, event.stack)) ↔
      (event.stack = none ∨ ∃ first second more, event.fields = .bare first second more) := by
    cases isFields : event.fields with
    | named first more =>
        have named := handled_named isFields
        rw [isFields] at named
        rw [named]
        simp
    | bare first second more =>
        have bare := handled_bare isFields
        rw [isFields] at bare
        exact iff_of_true bare (.inr ⟨first, second, more, rfl⟩)
  have count : (1 + event.text.length : Int).bmod (2 ^ 32) = event.text.length + 1 ↔
      event.text.length + 1 < 2 ^ 31 := by
    unfold Int.bmod
    dsimp only
    split <;> omega
  rw [← run, ← count]
  constructor
  · rintro ⟨fuel, handled⟩
    unfold EventText.Handled parseEventFields at handled
    cases ran : fieldLoop fuel event.text false [] with
    | more =>
        rw [ran] at handled
        cases handled
    | overread =>
        rw [ran] at handled
        cases handled
    | done result =>
        rw [ran] at handled
        dsimp only at handled
        injection handled with same
        injection same with calls stack consumed
        exact ⟨⟨fuel, by rw [ran, ← calls, ← stack]⟩, consumed⟩
  · rintro ⟨⟨fuel, ran⟩, consumed⟩
    refine ⟨fuel, ?_⟩
    rw [EventText.Handled, parseEventFields, ran]
    dsimp only
    rw [consumed]

/-- Both parts of what is expected of the function. -/
theorem parseEventFields_iff (event : EventText) (text : List Char) :
    ((∃ fuel, event.Handled (parseEventFields fuel event.text)) ↔
      (event.stack = none ∨ ∃ first second more, event.fields = .bare first second more) ∧
        event.text.length + 1 < 2 ^ 31) ∧
      ((∀ fuel, parseEventFields fuel text ≠ .overread) ↔ Closed text) := by
  refine ⟨handled_iff event, ?_⟩
  rw [← overread_iff]
  refine forall_congr' fun fuel => not_congr ?_
  unfold parseEventFields
  cases fieldLoop fuel text false [] <;> simp

def plainWord (text : List Char) (nonempty : text ≠ [])
    (plain : text.all (fun c => isspace c = false ∧ c ∉ ",:=|(){}".toList ∧ c ≠ nul) = true) :
    FieldWord :=
  ⟨text, nonempty, fun c member => of_decide_eq_true (List.all_eq_true.mp plain c member)⟩

def jobWithStack : EventText where
  fields := .named ⟨plainWord "sched_job_id".toList (by decide) (by decide),
    plainWord ['7'] (by decide) (by decide)⟩ []
  stack := some "drm_ioctl".toList
  terminated := by
    intro text member
    cases member
    decide

theorem jobWithStack_swallowed : ¬ ∃ fuel,
    jobWithStack.Handled (parseEventFields fuel jobWithStack.text) := by
  rintro ⟨fuel, handled⟩
  cases fuel with
  | zero => cases handled
  | succ fuel =>
      have read : fieldLoop 1 jobWithStack.text false [] =
          .done ([⟨0, some "sched_job_id".toList, "7|drm_ioctl".toList⟩], none) := by
        decide +kernel
      have ran := fieldLoop_mono read fuel
      rw [Nat.add_comm] at ran
      unfold EventText.Handled parseEventFields at handled
      rw [ran] at handled
      injection handled with same
      injection same with calls stack
      cases stack

/-- A bracket that is never closed is looked for behind the text. -/
example : parseEventFields 1 "dev=(0000:0b".toList = .overread := by
  decide +kernel

end Formats
end Umr.Gui.Trace
