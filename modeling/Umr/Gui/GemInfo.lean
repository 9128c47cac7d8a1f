import Umr.Gui.VmInfo

/-!
# Buffers by handle

`parse_gem_info` of `commands.c`, and the text it is for.  The lines are split first,
without the blanks in front of them; a line that begins with `pid` is a new process.
-/

set_option autoImplicit false

namespace Umr.Gui

open Umr.Lib Umr.Registers Umr.Gui.Trace

/-! ## The lines -/

structure LineArray where
  lines : List (List Char)
  maxLines : Nat

/-- `none` is a store behind the array. -/
def LineArray.store (array : LineArray) (line : List Char) : Option LineArray :=
  if array.lines.length < array.maxLines then some { array with lines := array.lines ++ [line] }
  else none

/-- `max_lines` is an `int`. -/
def LineArray.grow (array : LineArray) : Option LineArray :=
  if array.lines.length + 1 < array.maxLines then some array
  else if 2 ^ 30 ≤ array.maxLines then none
  else some { array with maxLines := 2 * array.maxLines }

def LineArray.add (array : LineArray) (line : List Char) : Option LineArray :=
  (array.store line).bind LineArray.grow

/-- `strndup(ptr, endline - ptr)`; behind the end of the line there is no limit. -/
def lineCopy (start endline : List Char) : List Char :=
  if start.length < endline.length then start else start.take (start.length - endline.length)

def splitLines : Nat → List Char → LineArray → Option (List (List Char))
  | 0, _, _ => none
  | fuel + 1, ptr, array =>
      let start := ptr.dropWhile isspace
      match strchr '\n' ptr with
      | none => if start = [] then some array.lines else (array.store start).map LineArray.lines
      | some endline =>
          (array.add (lineCopy start endline)).bind fun grown =>
            splitLines fuel (endline.drop 1) grown

/-! ## The parser -/

/-- `process_name` is `NULL` if there is no name. -/
structure PidExported where
  pid : UInt32
  processName : Option (List Char)
  exported : List (List Char)
  deriving DecidableEq, Repr

/-- The object of a buffer; `size` and `ino` are numbers, and `unpinned` the `pinned` that is set
to false. -/
structure GemBo where
  handle : UInt32
  size : Nat
  unpinned : Bool
  gtt : Bool
  cpu : Bool
  visible : Bool
  ino : Option Nat
  deriving DecidableEq, Repr

structure GemApp where
  pid : UInt32
  command : Option (List Char)
  bos : List GemBo
  deriving DecidableEq, Repr

structure AppState where
  app : GemApp
  pidOverriden : Bool
  deriving DecidableEq, Repr

/-- The inode, and the text that is looked for in the mapping. -/
def exportedText (cursor : List Char) : Option (Option (Option UInt32 × List Char)) :=
  match strstr "exported as".toList cursor with
  | none => some none
  | some exportedAs =>
      let behind := exportedAs.drop 12
      if exportedAs.length < 12 then none
      else
        some (some (((scanLiteral "ino:".toList behind).bind scanUlong).map UInt64.toUInt32,
          exportedAs.take (12 + (behind.takeWhile fun c => !isspace c).length)))

/-- `none` is a value that was not set, or a read behind the line. -/
def parseGemBo (line : List Char) : Option (GemBo × Option (List Char)) := do
  let kmsHandle ← (scanLiteral "0x".toList line).bind sscanfHex
  let cursor := (line.drop 11).dropWhile isspace
  let size ← scanUlong cursor
  let exported ← exportedText cursor
  if line.length < 11 then none
  else
    pure (⟨kmsHandle.toUInt32, size.toUInt32.toNat, (strstr "pin count".toList cursor).isNone,
      (strstr " GTT".toList cursor).isSome, (strstr " CPU_ACCESS_REQUIRED".toList cursor).isSome,
      (strstr " VISIBLE".toList cursor).isSome, (exported.bind Prod.fst).map UInt32.toNat⟩,
      exported.map Prod.snd)

def AppState.addBo (state : AppState) (bo : GemBo) : AppState :=
  { state with app := { state.app with bos := state.app.bos ++ [bo] } }

/-- The process that exported the buffer, if it is the only one. -/
def AppState.override (pidsExp : List PidExported) (state : AppState) :
    Option (List Char) → AppState
  | none => state
  | some txt =>
      if state.pidOverriden then state
      else
        match pidsExp.flatMap fun exp => (exp.exported.filter (· = txt)).map fun _ => exp with
        | [exp] =>
            let name := exp.processName.bind fun name => jsonStringWithLen name name.length
            ⟨{ state.app with pid := exp.pid, command := name.or state.app.command }, true⟩
        | _ => state

def appBos (pidsExp : List PidExported) :
    List (List Char) → AppState → Option (GemApp × List (List Char))
  | [], state => some (state.app, [])
  | line :: lines, state =>
      if "pid".toList <+: line then some (state.app, line :: lines)
      else do
        let (bo, txt) ← parseGemBo line
        appBos pidsExp lines ((state.addBo bo).override pidsExp txt)

def parseApp (line : List Char) : Option GemApp := do
  let cursor := (line.drop 3).dropWhile isspace
  let pid ← scanUlong cursor
  let found ← strstr "command".toList cursor
  let cursor := (found.drop 7).dropWhile isspace
  let ends ← strchr ':' cursor
  pure ⟨pid.toUInt32, jsonStringWithLen cursor (cursor.length - ends.length), []⟩

/-- `some none` is `NULL`. -/
def parseApps (pidsExp : List PidExported) :
    Nat → List (List Char) → List GemApp → Option (Option (List GemApp))
  | 0, _, _ => none
  | _ + 1, [], apps => some (some apps)
  | fuel + 1, line :: lines, apps =>
      if "pid".toList <+: line then do
        let app ← parseApp line
        let (app, rest) ← appBos pidsExp lines ⟨app, false⟩
        parseApps pidsExp fuel rest (apps ++ [app])
      else some none

def parseGemInfo (pidsExp : List PidExported) (content : List Char) :
    Option (Option (List GemApp)) := do
  let lines ← splitLines (content.length + 1) content ⟨[], 128⟩
  parseApps pidsExp (lines.length + 1) lines []

/-! ## The text of the kernel -/

/-- No flag of the kernel begins with the name of a placement. -/
structure GemLine where
  tabs : Nat
  line : BoLine
  other : ∀ word, .flag word ∈ line.attributes → ¬ "GTT".toList <+: word.name

structure GemProcess where
  pid : UInt32
  command : List Char
  plain : ∀ c ∈ command, c ≠ ':' ∧ c ≠ nul
  lines : List GemLine

def GemLine.text (line : GemLine) : List Char :=
  List.replicate line.tabs '\t' ++ (line.line.entry ++ ['\n'])

def GemProcess.heading (process : GemProcess) : List Char :=
  "pid ".toList ++ (alignRight 8 (printDec process.pid.toNat) ++ (" command ".toList ++
    (process.command ++ [':'])))

def GemProcess.text (process : GemProcess) : List Char :=
  process.heading ++ '\n' :: process.lines.flatMap GemLine.text

def gemInfo (processes : List GemProcess) : List Char := processes.flatMap GemProcess.text

def lineCount (processes : List GemProcess) : Nat :=
  (processes.map fun process => process.lines.length + 1).sum

/-! ## What is to be returned -/

structure BoRight (line : GemLine) (bo : GemBo) : Prop where
  handle : bo.handle = line.line.id
  size : bo.size = line.line.size.toNat
  pinned : bo.unpinned = !line.line.attributes.any BoAttribute.isPinCount
  gtt : bo.gtt = decide (line.line.placement = .gtt)
  cpu : bo.cpu = line.line.attributes.any BoAttribute.isCpuAccess
  visible : bo.visible = line.line.attributes.any BoAttribute.isVisible
  ino : bo.ino = line.line.inode.map UInt64.toNat

structure AppRight (process : GemProcess) (app : GemApp) : Prop where
  pid : app.pid = process.pid
  command : app.command = some process.command
  bos : List.Forall₂ BoRight process.lines app.bos

/-- The command is in one piece and taken by the JSON library, sizes and inodes have 32 bits. -/
structure GemProcess.Readable (process : GemProcess) : Prop where
  oneLine : '\n' ∉ process.command
  starts : ∀ c ∈ process.command.head?, isspace c = false
  utf8 : isValidUtf8 (ascii process.command ++ [0]) process.command.length = true
  sizes : ∀ line ∈ process.lines, line.line.size.toNat < 2 ^ 32
  inodes : ∀ line ∈ process.lines, line.line.ShortInode

end Umr.Gui
