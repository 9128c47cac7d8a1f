import Umr.Harness.Tokens
import Mathlib.Logic.Function.Basic

/-!
# Test scripts

`umr_create_test_harness` of `testing_harness.c`, and the lines of a test log as
`mmio.c`, `mem.c`, `read_gprwave.c` and the other recorders print them.  Parsing
a log gives back its lines, one block each, in the order of the log.
-/

set_option autoImplicit false

namespace Umr.Harness

open Umr.Lib

/-! ## The harness -/

structure RamBlock where
  baseAddress : UInt64
  size : UInt32
  contents : List UInt8
  deriving DecidableEq, Repr

/-- `struct umr_test_harness_mmio_blocks` and `struct umr_test_harness_sq_blocks`,
which differ in the width of the address. -/
structure SlotBlock (Key : Type) where
  address : Key
  values : List UInt32
  noValues : UInt32
  curSlot : UInt32
  deriving DecidableEq, Repr

abbrev MmioBlock := SlotBlock UInt64

abbrev SqBlock := SlotBlock UInt32

inductive RamKind where
  | gcaconfig
  | discovery
  | sysram
  | vram
  deriving DecidableEq, Repr

inductive WordKind where
  | mmio
  | vgpr
  | sgpr
  | wavestatus
  | ringdata
  deriving DecidableEq, Repr

/-- The filled blocks of each list.  Behind them stands one more block that is
all zero, the one the parser would fill next. -/
structure TestHarness where
  ram : RamKind → List RamBlock
  mmio : WordKind → List MmioBlock
  sq : List SqBlock
  vramMmIndex : UInt64
  sqIndIndex : UInt32

def TestHarness.empty : TestHarness where
  ram := fun _ => []
  mmio := fun _ => []
  sq := []
  vramMmIndex := 0
  sqIndIndex := 0

def TestHarness.addRam (th : TestHarness) (kind : RamKind) (block : RamBlock) : TestHarness :=
  { th with ram := Function.update th.ram kind (th.ram kind ++ [block]) }

def TestHarness.addMmio (th : TestHarness) (kind : WordKind) (block : MmioBlock) : TestHarness :=
  { th with mmio := Function.update th.mmio kind (th.mmio kind ++ [block]) }

def TestHarness.addSq (th : TestHarness) (block : SqBlock) : TestHarness :=
  { th with sq := th.sq ++ [block] }

/-! ## The parser -/

inductive Record where
  | ram (kind : RamKind)
  | words (kind : WordKind)
  | sq
  deriving DecidableEq, Repr

def Record.token : Record → List Char
  | .ram .gcaconfig => "GCACONFIG".toList
  | .ram .discovery => "DISCOVERY".toList
  | .ram .sysram => "SYSRAM@".toList
  | .ram .vram => "VRAM@".toList
  | .words .mmio => "MMIO@".toList
  | .words .vgpr => "VGPR@".toList
  | .words .sgpr => "SGPR@".toList
  | .words .wavestatus => "WAVESTATUS@".toList
  | .words .ringdata => "RINGDATA".toList
  | .sq => "SQ@".toList

inductive KeyWidth where
  | absent
  | xint32
  | xint64
  deriving DecidableEq, Repr

def Record.key : Record → KeyWidth
  | .ram .gcaconfig | .ram .discovery | .words .ringdata => .absent
  | .words .mmio | .sq => .xint32
  | _ => .xint64

/-- The order of the tests in the loop. -/
def records : List Record :=
  [.ram .gcaconfig, .ram .discovery, .ram .sysram, .ram .vram, .words .mmio, .words .vgpr,
    .words .sgpr, .words .wavestatus, .words .ringdata, .sq]

def consumeKey (width : KeyWidth) (text : List Char) : Option UInt64 × List Char :=
  match width with
  | .absent => (some 0, text)
  | .xint32 => ((consumeXint32 text).1.map UInt32.toUInt64, (consumeXint32 text).2)
  | .xint64 => consumeXint64 text

def recordHeader (record : Record) (text : List Char) :
    Except ScriptStop (Option UInt64 × List Char) :=
  match consumeWord text record.token with
  | (false, text) => .ok (none, text)
  | (true, text) =>
      match consumeKey record.key text with
      | (none, _) => .error .null
      | (some address, text) =>
          match consumeWord text "=".toList with
          | (false, _) => .error .null
          | (true, text) => .ok (some address, text)

def recordBody (record : Record) (address : UInt64) (text : List Char) (th : TestHarness) :
    Except ScriptStop (List Char × TestHarness) :=
  match record with
  | .ram kind => do
      let (contents, text) ← consumeBytes text
      let size := UInt32.ofNat contents.length
      if size = 0 then .error .null
      else pure (text, th.addRam kind ⟨address, size, contents⟩)
  | .words kind =>
      let (values, text) := consumeWords text
      let noValues := UInt32.ofNat values.length
      if noValues = 0 then .error .null
      else .ok (text, th.addMmio kind ⟨address, values, noValues, 0⟩)
  | .sq =>
      let (values, text) := consumeWords text
      let noValues := UInt32.ofNat values.length
      if noValues = 0 then .error .null
      else .ok (text, th.addSq ⟨address.toUInt32, values, noValues, 0⟩)

def parseRecord (state : List Char × TestHarness) (record : Record) :
    Except ScriptStop (List Char × TestHarness) := do
  let (address, text) ← recordHeader record state.1
  match address with
  | none => pure (text, state.2)
  | some address => recordBody record address text state.2

def scriptTurn (state : List Char × TestHarness) : Except ScriptStop (List Char × TestHarness) :=
  records.foldlM parseRecord (consumeWhitespace state.1, state.2)

/-- A turn that does anything takes a character, so a script that outlasts its
own length never ends. -/
def scriptLoop : Nat → List Char × TestHarness → Except ScriptStop TestHarness
  | 0, _ => .error .hang
  | turns + 1, state =>
      if state.1 = [] then .ok state.2
      else do
        let next ← scriptTurn state
        scriptLoop turns next

def umrCreateTestHarness (script : List Char) : Except ScriptStop TestHarness :=
  scriptLoop (script.length + 1) (script, TestHarness.empty)

/-! ## The tokens -/

theorem mem_records (record : Record) : record ∈ records := by
  cases record with
  | ram kind => cases kind <;> decide
  | words kind => cases kind <;> decide
  | sq => decide

/-- No token is the beginning of another one. -/
theorem token_unique {record other : Record} {text : List Char} (token : record.token <+: text)
    (same : other.token <+: text) : record = other := by
  have apart : ∀ a b : Record, a.token <+: b.token → a = b := by
    intro a b
    rcases a with (_ | _ | _ | _) | (_ | _ | _ | _ | _) | _ <;>
      rcases b with (_ | _ | _ | _) | (_ | _ | _ | _ | _) | _ <;> decide
  rcases List.prefix_or_prefix_of_prefix token same with shorter | longer
  · exact apart record other shorter
  · exact (apart other record longer).symm

end Umr.Harness
