import Umr.Lib.Markers

/-!
# Lines of the trace buffer

`read_trace_buffer_thread` of `commands.c`: what is left of a line is moved to the front
of the buffer and the next read goes behind it.  The events are handed over whenever the
client has taken those before.
-/

set_option autoImplicit false

namespace Umr.Gui.Trace

open Umr.Lib

/-! ## The thread -/

/-- A call of `parse_one_event`: the line, and the record it encoded, without the terminator. -/
structure LineCall where
  line : List Char
  record : Option (List Char)
  deriving DecidableEq, Repr

/-- `parser` is what `parse_one_event` keeps between lines.  `taken` is what the client took so far,
and `calls` what was handed to `parse_one_event`. -/
structure Reader (σ : Type) where
  buffer : List Char
  left : Nat
  inStacktrace : Bool
  parser : σ
  store : List Char
  eventBuffer : Option (List Char)
  taken : List Char
  calls : List LineCall

/-- `parse_one_event`, which is given the line and sees what lies behind it in the buffer.  Its search
backwards for a `-` can leave the line; what lies in front of the line is not among the arguments. -/
abbrev ParseOneEvent (σ : Type) := σ → List Char → List Char → σ × Option (List Char)

section Thread
variable {σ : Type} (parseOneEvent : ParseOneEvent σ)

/-- `none` is a failed assertion. -/
def processFrame (frame : List Char) (reader : Reader σ) : Option (Reader σ) :=
  if reader.store = [] ∨ "trace_event".toList <+: frame then
    some { reader with inStacktrace := true }
  else if reader.store.getLast? = some nul then
    some { reader with
      inStacktrace := true
      store := reader.store.dropLast ++ '|' :: (frame ++ [nul]) }
  else none

def processEvent (line behind : List Char) (reader : Reader σ) : Reader σ :=
  let (parser, record) := parseOneEvent reader.parser line behind
  { reader with
    inStacktrace := false
    parser := parser
    store := reader.store ++ (record.map fun text => text ++ [nul]).getD []
    calls := reader.calls ++ [⟨line, record⟩] }

def processLine (line behind : List Char) (reader : Reader σ) : Option (Reader σ) :=
  if line.head? = some '#' then some { reader with inStacktrace := false }
  else if " => ".toList <+: line then processFrame (line.drop 4) reader
  else if (strstr "<stack trace>".toList line).isSome then
    some { reader with inStacktrace := false }
  else some (processEvent parseOneEvent line behind reader)

/-- `seen` lies between `line_start` and `i`, `data` between `i` and `n`, `stale` behind `n`. -/
def lineLoop : List Char → List Char → List Char → Reader σ → Option (Reader σ)
  | _, [], _, reader => some reader
  | seen, c :: data, stale, reader =>
      if c = '\n' then
        (processLine parseOneEvent seen (c :: (data ++ stale))
          { reader with left := data.length }).bind fun next => lineLoop [] data stale next
      else lineLoop (seen ++ [c]) data stale reader

/-- `memmove` of the last bytes of the buffer, and `fread` behind them. -/
def Reader.fill (reader : Reader σ) (chunk : List Char) : List Char :=
  let carried := reader.buffer.drop (4096 - reader.left)
  carried ++ (chunk ++ reader.buffer.drop (reader.left + chunk.length))

/-- The end of a turn: nothing is handed over in the middle of a stack trace. -/
def Reader.handOver (reader : Reader σ) : Reader σ :=
  if reader.inStacktrace then reader
  else
    match reader.eventBuffer with
    | some _ => reader
    | none => { reader with eventBuffer := some reader.store, store := [] }

/-- The data that is scanned; an empty read ends a stack trace. -/
def Reader.scanStart (reader : Reader σ) (chunk : List Char) : Reader σ :=
  { reader with
    buffer := reader.fill chunk
    left := reader.left + chunk.length
    inStacktrace := reader.inStacktrace && !chunk.isEmpty }

def scanTurn (chunk : List Char) (reader : Reader σ) : Option (Reader σ) :=
  let start := reader.scanStart chunk
  (lineLoop parseOneEvent [] (start.buffer.take start.left) (start.buffer.drop start.left)
    start).map Reader.handOver

/-- `fread` returns no more than there is room for. -/
def readTurn (chunk : List Char) (reader : Reader σ) : Option (Reader σ) :=
  if 4096 < reader.left + chunk.length then none
  else if chunk = [] ∧ reader.inStacktrace = false then
    some { reader with buffer := reader.fill chunk }
  else scanTurn parseOneEvent chunk reader

def Reader.take (reader : Reader σ) : Reader σ :=
  { reader with eventBuffer := none, taken := reader.taken ++ reader.eventBuffer.getD [] }

inductive ReaderStep where
  | read (chunk : List Char)
  | take

def Reader.run : List ReaderStep → Reader σ → Option (Reader σ)
  | [], reader => some reader
  | .read chunk :: steps, reader =>
      (readTurn parseOneEvent chunk reader).bind fun next => Reader.run steps next
  | .take :: steps, reader => Reader.run steps reader.take

/-- `garbage` is what the buffer holds before anything is read. -/
def Reader.init (garbage : List Char) (parser : σ) : Reader σ :=
  ⟨garbage, 0, false, parser, [], none, [], []⟩

end Thread

/-! ## The text -/

/-- The lines of a text that goes on with `seen`, and what is behind the last newline. -/
def splitFrom : List Char → List Char → List (List Char) × List Char
  | seen, [] => ([], seen)
  | seen, c :: text =>
      if c = '\n' then (seen :: (splitFrom [] text).1, (splitFrom [] text).2)
      else splitFrom (seen ++ [c]) text

def completeLines (text : List Char) : List (List Char) := (splitFrom [] text).1

def unfinishedLine (text : List Char) : List Char := (splitFrom [] text).2

/-- All but comments, stack frames and the headers of stack traces. -/
def isHanded (line : List Char) : Bool :=
  line.head? ≠ some '#' ∧ ¬ " => ".toList <+: line ∧ (strstr "<stack trace>".toList line).isNone

def isKeptFrame (line : List Char) : Bool :=
  " => ".toList <+: line ∧ ¬ "trace_event".toList <+: line.drop 4

def framed (records : List (List Char)) (frame : List Char) : List (List Char) :=
  match records.getLast? with
  | none => []
  | some last => records.dropLast ++ [last ++ '|' :: frame]

/-- What the lines of a text come to, with what `parse_one_event` returned for those handed to it:
the calls, and the records with their stack frames. -/
inductive Assembled : List (List Char) → List LineCall → List (List Char) → Prop where
  | nil : Assembled [] [] []
  | other {lines : List (List Char)} {calls : List LineCall} {records : List (List Char)}
      (before : Assembled lines calls records) {line : List Char}
      (notHanded : isHanded line = false) (notKept : isKeptFrame line = false) : Assembled (lines ++ [line]) calls records
  | frame {lines : List (List Char)} {calls : List LineCall} {records : List (List Char)}
      (before : Assembled lines calls records) {line : List Char}
      (isKept : isKeptFrame line = true) :
      Assembled (lines ++ [line]) calls (framed records (line.drop 4))
  | event {lines : List (List Char)} {calls : List LineCall} {records : List (List Char)}
      (before : Assembled lines calls records) (call : LineCall)
      (handed : isHanded call.line = true) :
      Assembled (lines ++ [call.line]) (calls ++ [call]) (records ++ call.record.toList)

def recordBytes (records : List (List Char)) : List Char :=
  records.flatMap fun record => record ++ [nul]

section Right
variable {σ : Type}

/-- Everything that was encoded, whoever holds it. -/
def Reader.bytes (reader : Reader σ) : List Char :=
  reader.taken ++ (reader.eventBuffer.getD [] ++ reader.store)

structure LinesRight (text : List Char) (reader : Reader σ) : Prop where
  handed : reader.calls.map LineCall.line = (completeLines text).filter isHanded
  records : ∃ records, Assembled (completeLines text) reader.calls records ∧
    reader.bytes = recordBytes records

end Right

/-! ## When the lines are right -/

section Meets
variable {σ : Type} (parseOneEvent : ParseOneEvent σ)

def frameInPlace (line : List Char) (reader : Reader σ) : Bool :=
  isKeptFrame line = false ∨ reader.store ≠ [] ∨ reader.calls.all fun call => call.record.isNone

def framesInPlace : List Char → List Char → List Char → Reader σ → Bool
  | _, [], _, _ => true
  | seen, c :: data, stale, reader =>
      if c = '\n' then
        frameInPlace seen reader &&
          ((processLine parseOneEvent seen (c :: (data ++ stale))
            { reader with left := data.length }).map fun next =>
              framesInPlace [] data stale next).getD true
      else framesInPlace (seen ++ [c]) data stale reader

/-- If the buffer is scanned, its last `left` characters are the unfinished line. -/
def turnMeets (text chunk : List Char) (reader : Reader σ) : Bool :=
  reader.left + chunk.length ≤ 4096 ∧ ((chunk = [] ∧ reader.inStacktrace = false) ∨
    (reader.buffer.drop (4096 - reader.left) = unfinishedLine text ∧
      framesInPlace parseOneEvent []
        ((reader.scanStart chunk).buffer.take (reader.scanStart chunk).left)
        ((reader.scanStart chunk).buffer.drop (reader.scanStart chunk).left)
        (reader.scanStart chunk)))

/-- Every step meets its condition; `text` is what was read before. -/
def runMeets : List Char → List ReaderStep → Reader σ → Bool
  | _, [], _ => true
  | text, .read chunk :: steps, reader =>
      turnMeets parseOneEvent text chunk reader &&
        ((readTurn parseOneEvent chunk reader).map fun next =>
          runMeets (text ++ chunk) steps next).getD true
  | text, .take :: steps, reader => runMeets text steps reader.take

def delivered : List ReaderStep → List Char
  | [] => []
  | .read chunk :: steps => chunk ++ delivered steps
  | .take :: steps => delivered steps

end Meets
end Umr.Gui.Trace
