import Umr.Gui.TraceEvents
import Umr.Lib.Markers

/-!
# Fields of a trace event

`Event::parse_event_fields` of `kernel_trace_event.cpp`: named fields up to the first that
has no name, bare values from there on, and the stack behind the first `|` that is reached.
-/

set_option autoImplicit false

namespace Umr.Gui.Trace

open Umr.Lib

/-! ## The scanner -/

/-- A call of `handle_field`; the name of a bare value is `NULL`. -/
structure FieldCall where
  fieldIdx : Nat
  name : Option (List Char)
  value : List Char
  deriving DecidableEq, Repr

/-- What a turn of the loop comes to.  `overread` is a search that passes the end of the text. -/
inductive FieldTurn where
  | stop (cursor : List Char)
  | field (name : Option (List Char)) (value cursor : List Char) (nameless : Bool)
  | overread
  deriving DecidableEq, Repr

def isGap (c : Char) : Bool := isspace c || c = ','

def inName (c : Char) : Bool := c ≠ ':' ∧ c ≠ '=' ∧ c ≠ ',' ∧ c ≠ '|'

def inValue (c : Char) : Bool := c ≠ ',' ∧ c ≠ ' '

/-- A value in brackets, up to the first that closes. -/
def bracketTurn (name : List Char) (close : Char) (value : List Char) : FieldTurn :=
  match strchr close value with
  | none => .overread
  | some found =>
      .field (some name) (value.take (value.length - found.length + 1)) (found.drop 1) false

def valueTurn (name value : List Char) : FieldTurn :=
  if value.head? = some '(' then bracketTurn name ')' value
  else if value.head? = some '{' then bracketTurn name '}' value
  else .field (some name) (value.takeWhile inValue) (value.dropWhile inValue) false

def fieldTurn (cursor : List Char) (nameless : Bool) : FieldTurn :=
  let start := cursor.dropWhile isGap
  let name := start.takeWhile inName
  let behind := start.dropWhile inName
  if start.head? = some '\n' ∨ start.head? = some '|' then .stop start
  else if nameless = false ∧ (behind = [] ∨ behind.head? = some '|') then .stop behind
  else if behind.head? = some ',' ∨ nameless then .field none name behind true
  else if behind.drop 1 = [] then .stop []
  else valueTurn name ((behind.drop 1).dropWhile isspace)

/-- `stacktrace`, which is not touched unless the loop ends at a `|`. -/
def stackAt (cursor : List Char) : Option (List Char) :=
  if cursor.head? = some '|' then some (cursor.drop 1) else none

structure EventFields where
  calls : List FieldCall
  stacktrace : Option (List Char)
  consumed : Int
  deriving DecidableEq, Repr

inductive FieldsRun (α : Type) where
  | more
  | overread
  | done (result : α)
  deriving DecidableEq, Repr

def fieldLoop : Nat → List Char → Bool → List FieldCall →
    FieldsRun (List FieldCall × Option (List Char))
  | 0, _, _, _ => .more
  | fuel + 1, cursor, nameless, calls =>
      match fieldTurn cursor nameless with
      | .stop behind => .done (calls, stackAt behind)
      | .overread => .overread
      | .field name value behind nameless =>
          let calls := calls ++ [⟨calls.length, name, value⟩]
          if behind = [] ∨ behind.head? = some '|' then .done (calls, stackAt behind)
          else fieldLoop fuel behind nameless calls

/-- The length is returned as an `int`. -/
def parseEventFields (fuel : Nat) (text : List Char) : FieldsRun EventFields :=
  match fieldLoop fuel text false [] with
  | .more => .more
  | .overread => .overread
  | .done (calls, stacktrace) =>
      .done ⟨calls, stacktrace, (1 + text.length : Int).bmod (2 ^ 32)⟩

/-! ## The documented formats -/

structure FieldWord where
  text : List Char
  nonempty : text ≠ []
  plain : ∀ c ∈ text, isspace c = false ∧ c ∉ ",:=|(){}".toList ∧ c ≠ nul

structure NamedField where
  name : FieldWord
  value : FieldWord

def gapText (comma : Bool) : List Char := if comma then ", ".toList else " ".toList

inductive FieldList where
  | named (first : NamedField) (more : List (Bool × NamedField))
  | bare (first second : FieldWord) (more : List FieldWord)

/-- The stack frames are appended behind a `|`, each one. -/
structure EventText where
  fields : FieldList
  stack : Option (List Char)
  terminated : ∀ text ∈ stack, nul ∉ text

def NamedField.text (field : NamedField) : List Char := field.name.text ++ '=' :: field.value.text

def FieldList.text : FieldList → List Char
  | .named first more => first.text ++ more.flatMap fun field => gapText field.1 ++ field.2.text
  | .bare first second more =>
      first.text ++ (second :: more).flatMap fun value => ", ".toList ++ value.text

def EventText.text (event : EventText) : List Char :=
  event.fields.text ++ (event.stack.map fun text => '|' :: text).getD []

/-! ## What is to be handled -/

def NamedField.call (field : NamedField) (idx : Nat) : FieldCall :=
  ⟨idx, some field.name.text, field.value.text⟩

def bareCall (value : FieldWord) (idx : Nat) : FieldCall := ⟨idx, none, value.text⟩

def FieldList.calls : FieldList → List FieldCall
  | .named first more => (first :: more.map Prod.snd).mapIdx fun idx field => field.call idx
  | .bare first second more => (first :: second :: more).mapIdx fun idx value => bareCall value idx

def EventText.Handled (event : EventText) (run : FieldsRun EventFields) : Prop :=
  run = .done ⟨event.fields.calls, event.stack, event.text.length + 1⟩

end Umr.Gui.Trace
