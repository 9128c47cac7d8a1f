import Umr.Lib.Bytes
import Umr.Lib.Records

/-!
# Trace events from the reader thread to the client

The reader thread encodes events into a store of its own and publishes the store when the shared
slot is empty; `read-trace-buffer` takes the slot and sends it with the names collected so far.
Task and process names travel by index.  The client reads the buffer back event by event.
-/

set_option autoImplicit false

namespace Umr.Gui.Trace

open Umr.Lib

inductive EventType where
  | unknown | drmSchedJob | drmRunJob | drmSchedProcessJob | drmSchedJobWaitDep | amdgpuSchedRunJob
  | amdgpuDeviceWreg
  deriving DecidableEq, Repr

def EventType.code : EventType → UInt32
  | .unknown => 0
  | .drmSchedJob => 1
  | .drmRunJob => 2
  | .drmSchedProcessJob => 3
  | .drmSchedJobWaitDep => 4
  | .amdgpuSchedRunJob => 5
  | .amdgpuDeviceWreg => 6

/-- What `parse_one_event` has found in a line when it comes to encode it.  The timestamp is the
bit pattern of a double; `extraData` is the PCI name of the GPU if the line does not name one. -/
structure TraceLine where
  task : CString
  process : CString
  pid : UInt32
  tgid : UInt32
  ts : UInt64
  type : EventType
  known : type ≠ .unknown
  line : CString
  extraData : Option CString

/-! ## Growing buffers -/

/-- Doubles a capacity until it is enough; `none` if it would reach `limit`, where the arithmetic
of `int` ends. -/
def doubleUntil (enough : Nat → Bool) (limit : Nat) : Nat → Nat → Option Nat
  | 0, _ => none
  | steps + 1, capacity =>
      if enough capacity then some capacity
      else if 2 * capacity < limit then doubleUntil enough limit steps (2 * capacity)
      else none

def ensureCapacity (capacity used extra : Nat) : Option Nat :=
  doubleUntil (fun capacity => decide (used + extra < capacity)) (2 ^ 31) 32 capacity

/-- `struct string_array`: the strings lie one behind the other in the order of their ids. -/
structure StringArray where
  names : List CString
  lenOffCapacity : Nat
  stringsCapacity : Nat

def StringArray.init : StringArray := ⟨[], 8, 128⟩

def StringArray.used (arr : StringArray) : Nat := (arr.names.map fun name => name.bytes.length).sum

/-- Both arrays are allocated with `capacity * 2`, computed in `int`. -/
def StringArray.growLenOff (arr : StringArray) : Option Nat :=
  if arr.names.length = arr.lenOffCapacity then
    if 2 * arr.lenOffCapacity < 2 ^ 30 then some (2 * arr.lenOffCapacity) else none
  else some arr.lenOffCapacity

def StringArray.push (arr : StringArray) (name : CString) : Option (Nat × StringArray) := do
  let lenOffCapacity ← arr.growLenOff
  let stringsCapacity ← doubleUntil (fun capacity =>
    decide (arr.used + name.bytes.length < capacity)) (2 ^ 30) 32 arr.stringsCapacity
  some (arr.names.length, ⟨arr.names ++ [name], lenOffCapacity, stringsCapacity⟩)

def StringArray.lookupOrPush (arr : StringArray) (name : CString) : Option (Nat × StringArray) :=
  match arr.names.findIdx? fun other => decide (other = name) with
  | some id => some (id, arr)
  | none => arr.push name

/-! ## The names of an answer -/

def isCont (byte : UInt8) : Bool := decide (byte &&& 0xC0 = 0x80)

def numBytesInUtf8Sequence (c : UInt8) : Nat :=
  if c = 0xC0 ∨ c = 0xC1 ∨ 0xF4 < c ∨ isCont c then 0
  else if c &&& 0x80 = 0 then 1
  else if c &&& 0xE0 = 0xC0 then 2
  else if c &&& 0xF0 = 0xE0 then 3
  else if c &&& 0xF8 = 0xF0 then 4
  else 0

def codePoint : List UInt8 → Option (Nat × Nat)
  | [] => none
  | c :: rest =>
      let low (byte : UInt8) : Nat := (byte &&& 0x3F).toNat
      match numBytesInUtf8Sequence c, rest with
      | 1, _ => some (c.toNat, 1)
      | 2, c1 :: _ =>
          if isCont c1 then some ((c &&& 0x1F).toNat <<< 6 ||| low c1, 2) else none
      | 3, c1 :: c2 :: _ =>
          if isCont c1 && isCont c2 then
            some (((c &&& 0xF).toNat <<< 6 ||| low c1) <<< 6 ||| low c2, 3)
          else none
      | 4, c1 :: c2 :: c3 :: _ =>
          if isCont c1 && isCont c2 && isCont c3 then
            some ((((c &&& 0x7).toNat <<< 6 ||| low c1) <<< 6 ||| low c2) <<< 6 ||| low c3, 4)
          else none
      | _, _ => none

def verifyUtf8Sequence (string : List UInt8) : Option Nat :=
  match codePoint string with
  | none => none
  | some (cp, len) =>
      if (cp < 0x80 ∧ 1 < len) ∨ (cp < 0x800 ∧ 2 < len) ∨ (cp < 0x10000 ∧ 3 < len) then none
      else if 0x10FFFF < cp then none
      else if 0xD800 ≤ cp ∧ cp ≤ 0xDFFF then none
      else some len

/-- `while (string < string_end)`; the last sequence may reach beyond the end. -/
def validFrom : Nat → List UInt8 → Nat → Bool
  | 0, _, left => decide (left = 0)
  | steps + 1, string, left =>
      if left = 0 then true
      else
        match verifyUtf8Sequence string with
        | none => false
        | some len => validFrom steps (string.drop len) (left - len)

/-- The check of the `stringLen` bytes at the front of what lies in memory. -/
def isValidUtf8 (string : List UInt8) (stringLen : Nat) : Bool := validFrom stringLen string stringLen

/-- The names an answer gets: `json_array_append_string_with_len` refuses a name that is not valid
and leaves it out.  The check can read into the name behind, or into `slack` behind the last. -/
def sentNames (slack : List UInt8) : List CString → List CString
  | [] => []
  | name :: names =>
      if isValidUtf8 (name.bytes ++ ((names.flatMap CString.bytes) ++ slack)) name.bytes.length then
        name :: sentNames slack names
      else sentNames slack names

/-! ## The steps of the two threads -/

structure Capture where
  tasks : StringArray
  store : List UInt8
  storeCapacity : Nat
  eventBuffer : Option (List UInt8)
  /-- The buffers taken so far with the names sent along. -/
  taken : List (List UInt8 × List CString)

def Capture.init : Capture := ⟨StringArray.init, [], 32768, none, []⟩

def textOf (line : TraceLine) : List UInt8 :=
  line.line.bytes ++
    match line.extraData with
    | none => []
    | some name => [44, 100, 101, 118, 61] ++ name.bytes

def eventBytes (taskNameId processNameId : Nat) (line : TraceLine) (text : List UInt8) :
    List UInt8 :=
  wordBytes taskNameId.toUInt32 ++ (wordBytes processNameId.toUInt32 ++ (wordBytes line.pid ++
    (wordBytes line.tgid ++ (wordBytes (loWord line.ts) ++ (wordBytes (hiWord line.ts) ++
      (wordBytes line.type.code ++ (text ++ [0])))))))

inductive Step where
  | event (line : TraceLine)
  | frame (text : CString)
  | publish
  | take (slack : List UInt8)

/-- The end of `parse_one_event`: nothing is done for a line without text. -/
def parseOneEvent (line : TraceLine) (capture : Capture) : Option Capture :=
  if line.line.bytes = [] then some capture
  else do
    let (processNameId, tasks) ← capture.tasks.lookupOrPush line.process
    let (taskNameId, tasks) ← tasks.lookupOrPush line.task
    let bytes := eventBytes taskNameId processNameId line (textOf line)
    let storeCapacity ← ensureCapacity capture.storeCapacity capture.store.length bytes.length
    some { capture with
      tasks := tasks
      store := capture.store ++ bytes
      storeCapacity := storeCapacity }

/-- A stack frame replaces the terminator of the last event; frames of `trace_event` and frames
whose event was already published are ignored. -/
def appendFrame (text : CString) (capture : Capture) : Option Capture :=
  if capture.store = [] ∨ [116, 114, 97, 99, 101, 95, 101, 118, 101, 110, 116] <+: text.bytes then
    some capture
  else do
    let storeCapacity ← ensureCapacity capture.storeCapacity capture.store.length
      (1 + text.bytes.length + 1)
    some { capture with
      store := capture.store.dropLast ++ (124 :: (text.bytes ++ [0]))
      storeCapacity := storeCapacity }

/-- `none` stands for a step that is not completed. -/
def Capture.step : Step → Capture → Option Capture
  | .event line, capture => parseOneEvent line capture
  | .frame text, capture => appendFrame text capture
  | .publish, capture =>
      match capture.eventBuffer with
      | none => some { capture with eventBuffer := some capture.store, store := [] }
      | some _ => some capture
  | .take slack, capture =>
      match capture.eventBuffer with
      | none => some capture
      | some buffer =>
          some { capture with
            eventBuffer := none
            taken := capture.taken ++ [(buffer, sentNames slack capture.tasks.names)] }

def Capture.run : List Step → Capture → Option Capture
  | [], capture => some capture
  | step :: steps, capture => (Capture.step step capture).bind (Capture.run steps)

/-! ## The client -/

structure RawEvent where
  taskNameId : UInt32
  processNameId : UInt32
  pid : UInt32
  tgid : UInt32
  timestamp : UInt64
  type : UInt32
  deriving DecidableEq, Repr

structure EventBase where
  task : CString
  process : CString
  pid : UInt32
  tgid : UInt32
  timestamp : UInt64
  type : UInt32
  deriving DecidableEq

def readWordAt (input : List UInt8) (consumed : Nat) : UInt32 :=
  bytesWord ((input.drop consumed).take 4)

def readHeader (input : List UInt8) : Option (RawEvent × List UInt8) :=
  if input.length < 28 then none
  else
    some ({ taskNameId := readWordAt input 0
            processNameId := readWordAt input 4
            pid := readWordAt input 8
            tgid := readWordAt input 12
            timestamp := joinWords (readWordAt input 16) (readWordAt input 20)
            type := readWordAt input 24 }, input.drop 28)

/-- `Event::parse_raw_event_buffer`; `none` stands for a failed assertion or a read beyond the
buffer. -/
def parseRawEventBuffer (names : List CString) (input : List UInt8) :
    Option (EventBase × List UInt8) := do
  let (raw, rest) ← readHeader input
  let task ← names[raw.taskNameId.toNat]?
  let process ← names[raw.processNameId.toNat]?
  if raw.type = EventType.unknown.code then none
  else some (⟨task, process, raw.pid, raw.tgid, raw.timestamp, raw.type⟩, rest)

def skipText (input : List UInt8) : Option (List UInt8) :=
  match input.dropWhile (· ≠ 0) with
  | [] => none
  | _ :: rest => some rest

def nextEvent (names : List CString) (input : List UInt8) : Option (EventBase × List UInt8) := do
  let (event, rest) ← parseRawEventBuffer names input
  let rest ← skipText rest
  some (event, rest)

def nextRaw (input : List UInt8) : Option (RawEvent × List UInt8) := do
  let (raw, rest) ← readHeader input
  let rest ← skipText rest
  some (raw, rest)

def decodeEvents (names : List CString) (buffer : List UInt8) : Option (List EventBase) :=
  readRecords (nextEvent names) buffer

end Umr.Gui.Trace
