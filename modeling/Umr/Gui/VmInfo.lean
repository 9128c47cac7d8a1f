import Umr.Gui.FenceInfo

/-!
# Buffers of the processes

`parse_vm_info` of `commands.c`, and the text it is for.  The parser hops from
marker to marker; the placement of a buffer is expected directly behind `byte` and
one blank.
-/

set_option autoImplicit false

namespace Umr.Gui

open Umr.Lib Umr.Registers Umr.Gui.Trace

/-- The double nearest to a number, the even one of two. -/
def toDouble (n : Nat) : Nat :=
  let step := 2 ^ (n.log2 - 52)
  if step < 2 * (n % step) ∨ (step = 2 * (n % step) ∧ n / step % 2 = 1) then
    (n / step + 1) * step
  else n / step * step

/-- The object of a buffer, with numbers; `unpinned` is the `pinned` that is set to false. -/
structure Bo where
  size : Nat
  placement : Nat
  cpu : Bool
  unpinned : Bool
  visible : Bool
  ino : Option Nat
  deriving DecidableEq, Repr

structure Fd where
  command : Option (List Char)
  bos : List Bo
  total : Nat
  deriving DecidableEq, Repr

structure PidEntry where
  pid : UInt32
  process : Option (List Char)
  fds : List Fd
  deriving DecidableEq, Repr

/-! ## The parser -/

def placements : List (List Char × Nat) :=
  [("CPU".toList, 1), ("GTT".toList, 2), ("VRAM".toList, 3), ("GDS".toList, 4), ("GWS".toList, 5),
    ("OA".toList, 6), ("DOORBELL".toList, 7)]

/-- 0 for none of them. -/
def placementOf (ptr : List Char) : Nat :=
  ((placements.find? fun placement => placement.1 <+: ptr).map Prod.snd).getD 0

/-- `memmem` in the line; the inode is read from the text behind it. -/
def exportedIno (ptr line : List Char) : Option UInt32 := do
  let exportedAs ← strstr "exported as".toList line
  let rest ← scanLiteral "ino:".toList (ptr.drop (line.length - exportedAs.length + 12))
  let ino ← scanUlong rest
  pure ino.toUInt32

/-- A buffer and its size, between `0x` and the end of the line. -/
def parseBo (id endOfLine : List Char) : Option (Bo × UInt64) := do
  let size := (id.drop 11).dropWhile (· = ' ')
  let b ← strstr "byte".toList size
  let sz ← scanUlong size
  let ptr := b.drop 5
  let line := ptr.take (ptr.length - endOfLine.length)
  if id.length < 11 ∨ ptr.length < endOfLine.length then none
  else
    pure (⟨toDouble sz.toNat, placementOf ptr, (strstr " CPU_ACCESS_REQUIRED".toList line).isSome,
      (strstr " pin count".toList line).isNone, (strstr " VISIBLE".toList line).isSome,
      (exportedIno ptr line).map UInt32.toNat⟩, sz)

def boLines : Nat → List Char → Option (List (Bo × UInt64) × List Char)
  | 0, _ => none
  | fuel + 1, ptr =>
      match strstr "0x".toList ptr, strchr '\n' ptr with
      | some id, some endOfLine =>
          if endOfLine.length < id.length then do
            let bo ← parseBo id endOfLine
            let (bos, rest) ← boLines fuel (endOfLine.drop 1)
            pure (bo :: bos, rest)
          else some ([], ptr)
      | _, _ => some ([], ptr)

def categories : List (List Char) :=
  ["Idle".toList, "Evicted".toList, "Relocated".toList, "Moved".toList, "Invalidated".toList,
    "Done".toList]

def categoryBos : List (List Char) → List Char → Option (List (Bo × UInt64) × List Char)
  | [], ptr => some ([], ptr)
  | category :: more, ptr => do
      let found ← strstr category ptr
      let nextLine ← strchr '\n' found
      let (bos, rest) ← boLines nextLine.length (nextLine.drop 1)
      let (later, rest) ← categoryBos more rest
      pure (bos ++ later, rest)

/-- `json_object_set_string_with_len`, of a text with a terminator behind it. -/
def jsonStringWithLen (text : List Char) (len : Nat) : Option (List Char) :=
  if isValidUtf8 (ascii text ++ [0]) len then some (text.take len) else none

/-- The text behind `Process:`. -/
def parseFd (ptr : List Char) : Option (Fd × List Char) := do
  let nextSpace ← strchr ' ' ptr
  let (bos, rest) ← categoryBos categories (nextSpace.drop 1)
  let pidTotal : UInt64 := (bos.map Prod.snd).sum
  pure (⟨jsonStringWithLen ptr (ptr.length - nextSpace.length), bos.map Prod.fst,
    toDouble pidTotal.toNat⟩, rest)

section Pids
variable (comm : UInt32 → Option (List Char))

/-- `comm` is what `/proc/%d/comm` holds. -/
def addFd (pid : UInt32) (fd : Fd) : List PidEntry → List PidEntry
  | [] =>
      [⟨pid, ((comm pid).filter (· ≠ [])).bind fun cmd => jsonStringWithLen cmd (cmd.length - 1),
        [fd]⟩]
  | p :: pids => if p.pid = pid then { p with fds := p.fds ++ [fd] } :: pids else p :: addFd pid fd pids

def parsePids : Nat → List Char → List PidEntry → Option (List PidEntry)
  | 0, _, _ => none
  | fuel + 1, ptr, pids =>
      match strstr "pid:".toList ptr with
      | none => some pids
      | some nextPid => do
          let nextSpace ← strchr '\t' nextPid
          match scanUlong (nextPid.drop 4) with
          | none => parsePids fuel (nextSpace.drop 1) pids
          | some pid =>
              if nextSpace.length < 9 then none
              else do
                let (fd, rest) ← parseFd (nextSpace.drop 9)
                parsePids fuel rest (addFd comm pid.toUInt32 fd pids)

def parseVmInfo (content : List Char) : Option (List PidEntry) :=
  parsePids comm (content.length + 1) content []

end Pids

/-! ## The text of the kernel -/

inductive Placement where
  | cpu | gtt | vram | gds | gws | oa | doorbell
  deriving DecidableEq, Repr

def Placement.name : Placement → List Char
  | .cpu => "CPU".toList
  | .gtt => "GTT".toList
  | .vram => "VRAM".toList
  | .gds => "GDS".toList
  | .gws => "GWS".toList
  | .oa => "OA".toList
  | .doorbell => "DOORBELL".toList

def Placement.code : Placement → Nat
  | .cpu => 1
  | .gtt => 2
  | .vram => 3
  | .gds => 4
  | .gws => 5
  | .oa => 6
  | .doorbell => 7

def isFlagChar (c : Char) : Bool := ('A' ≤ c ∧ c ≤ 'Z') ∨ ('0' ≤ c ∧ c ≤ '9') ∨ c = '_'

/-- A flag that is not one of those looked for. -/
structure FlagWord where
  name : List Char
  capital : ∀ c ∈ name, isFlagChar c = true
  other : ¬ "CPU_ACCESS_REQUIRED".toList <+: name ∧ ¬ "VISIBLE".toList <+: name

inductive BoAttribute where
  | flag (word : FlagWord)
  | cpuAccessRequired
  | visible
  | pinCount (count : Nat)
  | importedFrom (ino : Nat)
  | exportedIno (ino : UInt64)
  | exportedAs (name : UInt64)

def BoAttribute.text : BoAttribute → List Char
  | .flag word => ' ' :: word.name
  | .cpuAccessRequired => " CPU_ACCESS_REQUIRED".toList
  | .visible => " VISIBLE".toList
  | .pinCount count => " pin count ".toList ++ printDec count
  | .importedFrom ino => " imported from ino:".toList ++ printDec ino
  | .exportedIno ino => " exported as ino:".toList ++ printDec ino.toNat
  | .exportedAs name => " exported as ".toList ++ printPadded 16 name.toNat

/-- A line of a buffer; `padding` blanks align the placement. -/
structure BoLine where
  id : UInt32
  size : UInt64
  padding : Nat
  placement : Placement
  attributes : List BoAttribute

def alignRight (width : Nat) (text : List Char) : List Char :=
  List.replicate (width - text.length) ' ' ++ text

def BoLine.behindByte (line : BoLine) : List Char :=
  List.replicate line.padding ' ' ++ (line.placement.name ++ line.attributes.flatMap BoAttribute.text)

def BoLine.entry (line : BoLine) : List Char :=
  "0x".toList ++ (printPadded 8 line.id.toNat ++ (": ".toList ++
    (alignRight 12 (printDec line.size.toNat) ++ (" byte ".toList ++ line.behindByte))))

def BoLine.text (line : BoLine) : List Char := "\t\t".toList ++ (line.entry ++ ['\n'])

structure VmSection where
  pid : UInt32
  command : List Char
  oneLine : '\n' ∉ command
  idle : List BoLine
  evicted : List BoLine
  relocated : List BoLine
  moved : List BoLine
  invalidated : List BoLine
  done : List BoLine

def VmSection.lists (sec : VmSection) : List (List BoLine) :=
  [sec.idle, sec.evicted, sec.relocated, sec.moved, sec.invalidated, sec.done]

def VmSection.lines (sec : VmSection) : List BoLine := sec.lists.flatten

def totalLabels : List (List Char) :=
  ["\tTotal idle size:        ".toList, "\tTotal evicted size:     ".toList,
    "\tTotal relocated size:   ".toList, "\tTotal moved size:       ".toList,
    "\tTotal invalidated size: ".toList, "\tTotal done size:        ".toList]

def sizeSum (lines : List BoLine) : Nat := (lines.map fun line => line.size.toNat).sum

def listText (category : List Char) (lines : List BoLine) : List Char :=
  '\t' :: (category ++ (" BOs:\n".toList ++ lines.flatMap BoLine.text))

def totalText (label : List Char) (lines : List BoLine) : List Char :=
  label ++ (alignRight 12 (printDec (sizeSum lines)) ++ ("\tobjs:\t".toList ++
    (printDec lines.length ++ ['\n'])))

def VmSection.text (sec : VmSection) : List Char :=
  "pid:".toList ++ (printDec sec.pid.toNat ++ ("\tProcess:".toList ++ (sec.command ++
    (" ----------\n".toList ++ ((List.zipWith listText categories sec.lists).flatten ++
      (List.zipWith totalText totalLabels sec.lists).flatten)))))

def vmInfo (sections : List VmSection) : List Char := sections.flatMap VmSection.text

/-! ## What is to be returned -/

def BoAttribute.isCpuAccess : BoAttribute → Bool
  | .cpuAccessRequired => true
  | _ => false

def BoAttribute.isVisible : BoAttribute → Bool
  | .visible => true
  | _ => false

def BoAttribute.isPinCount : BoAttribute → Bool
  | .pinCount _ => true
  | _ => false

def BoAttribute.exported : BoAttribute → Option (Option UInt64)
  | .exportedIno ino => some (some ino)
  | .exportedAs _ => some none
  | _ => none

def BoLine.inode (line : BoLine) : Option UInt64 :=
  (line.attributes.findSome? BoAttribute.exported).join

def BoLine.bo (line : BoLine) : Bo where
  size := line.size.toNat
  placement := line.placement.code
  cpu := line.attributes.any BoAttribute.isCpuAccess
  unpinned := !line.attributes.any BoAttribute.isPinCount
  visible := line.attributes.any BoAttribute.isVisible
  ino := line.inode.map UInt64.toNat

structure FdRight (sec : VmSection) (fd : Fd) : Prop where
  bos : fd.bos = sec.lines.map BoLine.bo
  total : fd.total = sizeSum sec.lines

/-- One entry for each pid, with its sections in order. -/
structure VmRight (sections : List VmSection) (pids : List PidEntry) : Prop where
  grouped : pids.map PidEntry.pid = (sections.map VmSection.pid).eraseDups
  fds : ∀ p ∈ pids,
    List.Forall₂ FdRight (sections.filter fun sec => sec.pid = p.pid) p.fds

def BoLine.ShortInode (line : BoLine) : Prop := ∀ ino, line.inode = some ino → ino.toNat < 2 ^ 32

def VmSection.behindBlank (sec : VmSection) : List Char :=
  (sec.command.dropWhile (· ≠ ' ')).drop 1

structure Readable (sec : VmSection) : Prop where
  /-- The buffers of the first category are not passed over. -/
  idle : sec.idle = [] ∨ ¬ "Idle".toList <:+: sec.behindBlank
  placements : ∀ line ∈ sec.lines, line.padding = 0
  sizes : ∀ line ∈ sec.lines, toDouble line.size.toNat = line.size.toNat
  total : toDouble (sizeSum sec.lines % 2 ^ 64) = sizeSum sec.lines
  inodes : ∀ line ∈ sec.lines, line.ShortInode

end Umr.Gui
