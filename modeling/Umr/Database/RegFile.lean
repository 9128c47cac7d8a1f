import Umr.Database.Soc15
import Umr.Database.Scan
import Umr.Harness.Discovery

/-!
# Register files

`read_ip_block` of `discover_by_ip_table.c` and `umr_database_read_ipblock` of
`database/read_ip.c`.  Both read the same text: the number of registers, then for
each register a line with its fields followed by one line per bit-field.  Only
the second stops at the announced number; the first goes on to the end of the
file.
-/

set_option autoImplicit false

namespace Umr.Database

open Umr.Lib Umr.Harness

/-! ## The fields of a line -/

def scanUnsigned (text : List Char) : Option (UInt32 × List Char) :=
  let signed := skipSign (text.dropWhile isspace)
  let digits := signed.2.takeWhile isdigit
  if digits = [] then none
  else
    let value : UInt32 :=
      if 2 ^ 64 ≤ decValue digits then 0xFFFFFFFF
      else if signed.1 then 0 - UInt32.ofNat (decValue digits)
      else UInt32.ofNat (decValue digits)
    some (value, signed.2.dropWhile isdigit)

/-- ` 0x%lx`: the value and the text behind the number. -/
def scan0x (text : List Char) : Option (UInt64 × List Char) :=
  match text.dropWhile isspace with
  | '0' :: 'x' :: rest =>
      let digits := skipPrefix (skipSign (rest.dropWhile isspace)).2
      (sscanfHex rest).map fun value => (value, digits.dropWhile isxdigit)
  | _ => none

structure RegFields where
  name : List Char
  type : Int
  addr : UInt64
  nobits : UInt32
  is64 : UInt32
  idx : UInt32
  deriving DecidableEq, Repr

/-- `%s %d 0x%lx %u %u %u`: the fields, each stored at once, and whether all six were found. -/
def scanReg (fields : RegFields) (linebuf : List Char) : RegFields × Bool :=
  match scanWord linebuf with
  | none => (fields, false)
  | some (name, rest) =>
  let fields := { fields with name := name }
  match scanInt rest with
  | none => (fields, false)
  | some (type, rest) =>
  let fields := { fields with type := type }
  match scan0x rest with
  | none => (fields, false)
  | some (addr, rest) =>
  let fields := { fields with addr := addr }
  match scanUnsigned rest with
  | none => (fields, false)
  | some (nobits, rest) =>
  let fields := { fields with nobits := nobits }
  match scanUnsigned rest with
  | none => (fields, false)
  | some (is64, rest) =>
  let fields := { fields with is64 := is64 }
  match scanUnsigned rest with
  | none => (fields, false)
  | some (idx, _) => ({ fields with idx := idx }, true)

structure BitFields where
  name : List Char
  start : Int
  stop : Int
  deriving DecidableEq, Repr

/-- `\t%s %d %d`; whether all three were found is not looked at. -/
def scanBit (fields : BitFields) (linebuf : List Char) : BitFields × Bool :=
  match scanWord linebuf with
  | none => (fields, false)
  | some (name, rest) =>
  let fields := { fields with name := name }
  match scanInt rest with
  | none => (fields, false)
  | some (start, rest) =>
  let fields := { fields with start := start }
  match scanInt rest with
  | none => (fields, false)
  | some (stop, _) => ({ fields with stop := stop }, true)

/-! ## One register -/

structure Bitfield where
  regname : List Char
  start : UInt8
  stop : UInt8
  deriving DecidableEq, Repr

structure Register where
  regname : List Char
  type : Int
  addr : UInt64
  noBits : UInt32
  bit64 : UInt32
  bits : List Bitfield
  deriving DecidableEq, Repr

inductive RegFault where
  /-- `%s` stores more than the 128 characters of `name` -/
  | name
  /-- a segment outside the table -/
  | segment
  deriving DecidableEq, Repr

/-- What the locals hold before a line is scanned into them. -/
structure Stale where
  linebuf : List Char
  noRegs : UInt32
  reg : Nat → RegFields
  bit : Nat → Nat → BitFields

def regMmio : Int := 0

def charOfInt (value : Int) : UInt8 := UInt8.ofNat (value % 256).toNat

def checkName (name : List Char) : Except RegFault Unit :=
  if name.length < 128 then .ok () else .error .name

/-- The loop over the bit-fields: `left` lines from the `y`th on, into a buffer of `size`. -/
def readBits (size : Nat) (stale : Nat → BitFields) :
    Nat → Nat → List Char → List Char → Except RegFault (List Bitfield × List Char)
  | 0, _, _, text => .ok ([], text)
  | left + 1, y, linebuf, text => do
      let read := fgetsKeep size linebuf text
      let fields := (scanBit (stale y) read.1).1
      checkName fields.name
      let (bits, text) ← readBits size stale left (y + 1) read.1 read.2
      pure (⟨fields.name, charOfInt fields.start, charOfInt fields.stop⟩ :: bits, text)

def invalidRegfileLine (linebuf : List Char) : List Char :=
  "[ERROR]: Invalid regfile line [".toList ++ linebuf ++ "]\n".toList

/-- The address of a register: one bound to MMIO is relative to its segment.  Without a table the
address stays as it is. -/
def placed (segments : Option (Nat → Option UInt64)) (fields : RegFields) :
    Except RegFault UInt64 :=
  match segments with
  | none => .ok fields.addr
  | some table =>
      if fields.type = regMmio then
        match table fields.idx.toNat with
        | none => .error .segment
        | some segment => .ok (fields.addr + segment)
      else .ok fields.addr

/-- The body of the register loop, the same in both readers: the register in slot `x`, what was
printed, and the rest of the file. -/
def readRegister (size : Nat) (segments : Option (Nat → Option UInt64)) (stale : Stale) (x : Nat)
    (linebuf text : List Char) : Except RegFault (Register × List (List Char) × List Char) := do
  let scanned := scanReg (stale.reg x) linebuf
  let fields := scanned.1
  checkName fields.name
  let addr ← placed segments fields
  let (bits, text) ← readBits size (stale.bit x) fields.nobits.toNat 0 linebuf text
  pure (⟨fields.name, fields.type, addr, fields.nobits, fields.is64, bits⟩,
    if scanned.2 then [] else [invalidRegfileLine linebuf], text)

/-- The registers that were stored, slot after slot from 0 on, and what was printed. -/
structure RegsRead where
  regs : List Register
  errors : List (List Char)
  deriving DecidableEq, Repr

def RegsRead.cons (reg : Register) (errors : List (List Char)) (read : RegsRead) : RegsRead :=
  ⟨reg :: read.regs, errors ++ read.errors⟩

/-- The register loop, which `goes` on for slot `x` as long as there is a line. -/
def readRegisters (size : Nat) (goes : Nat → Bool) (segments : Option (Nat → Option UInt64))
    (stale : Stale) : Nat → Nat → List Char → Except RegFault RegsRead
  | 0, _, _ => .ok ⟨[], []⟩
  | fuel + 1, x, text =>
      if goes x then
        match fgets size text with
        | none => .ok ⟨[], []⟩
        | some (chunk, rest) => do
            let (reg, errors, rest) ← readRegister size segments stale x (cString chunk) rest
            let further ← readRegisters size goes segments stale fuel (x + 1) rest
            pure (further.cons reg errors)
      else .ok ⟨[], []⟩

/-! ## The readers -/

structure Discoverable where
  die : Int
  maj : Int
  min : Int
  rev : Int
  inst : Int
  logicalInst : Int
  deriving DecidableEq, Repr

structure IpBlock where
  ipname : List Char
  noRegs : UInt32
  regs : List Register
  discoverable : Discoverable
  deriving DecidableEq, Repr

abbrev BlockRead := Except RegFault (Option IpBlock × List (List Char))

/-- The number of registers on the first line; a line without one leaves `stale`. -/
def announced (stale : UInt32) (linebuf : List Char) : UInt32 :=
  ((scanUnsigned linebuf).map Prod.fst).getD stale

/-- Names of the discovery table that differ from those of the headers. -/
def headerNames : List (String × String) :=
  [("gc", "gfx"), ("uvd", "vcn"), ("dmu", "dcn"), ("nbif", "nbio")]

def headerName (ipname : List UInt8) : List UInt8 :=
  match headerNames.find? fun names => cstring names.1 = ipname with
  | some names => cstring names.2
  | none => ipname

def blockName (det : DiscoveryEntry) : List Char :=
  let ipcmn := (headerName (CString.ofBuffer det.ipname.toList).bytes).map fun b => Char.ofNat b.toNat
  let version := printInt det.maj ++ printInt det.min ++ printInt det.rev
  if 0 < det.logicalInst then
    ipcmn ++ version ++ "\x7b".toList ++ printInt det.logicalInst ++ "\x7d".toList
  else ipcmn ++ version

def detSegments (det : DiscoveryEntry) (idx : Nat) : Option UInt64 := det.segments[idx]?

/-- `file` is what `fopen` finds under the item's path. -/
def readIpBlock (stale : Stale) (det : DiscoveryEntry) (nit : ScanItem)
    (file : Option (List Char)) : BlockRead :=
  let path := nit.path ++ '/' :: nit.fname
  match file with
  | none => .ok (none, ["Could not open file ".toList ++ path ++ ['\n']])
  | some text => do
      let first := fgetsKeep 511 path text
      let noRegs := announced stale.noRegs first.1
      let read ← readRegisters 512 (fun _ => true) (some (detSegments det)) stale first.2.length 0
        first.2
      pure (some ⟨blockName det, noRegs, read.regs,
        ⟨det.die, det.maj, det.min, det.rev, det.inst, det.logicalInst⟩⟩, read.errors)

def soc15Segments (soc15 : Soc15) (inst idx : Nat) : Option UInt64 :=
  if inst < maxInst ∧ idx < maxSeg then some (soc15.off inst idx) else none

/-- `fill_ipver_from_path`: the numbers behind the last three underscores, or the last two. -/
def fillIpverFromPath (path : List Char) : Discoverable :=
  let pos := (path.tails.filter fun rest => rest.head? = some '_').reverse
  let version (k : Nat) := (pos[k]?.map (scanVersion emptyItem)).getD (emptyItem, 0)
  if (version 2).2 = 3 then ⟨0, (version 2).1.maj, (version 2).1.min, (version 2).1.rev, 0, 0⟩
  else if 2 ≤ (version 1).2 then ⟨0, (version 1).1.maj, (version 1).1.min, 0, 0, 0⟩
  else ⟨0, 0, 0, 0, 0, 0⟩

def unknownIpName (soc15name : List Char) : List Char :=
  "[ERROR]: Cannot find IP name [".toList ++ soc15name ++ "] in the SOC15 table\n".toList

def noRegisterFile (filename : List Char) : List (List Char) :=
  ["[ERROR]: IP register file [".toList ++ filename ++ "] not found\n".toList,
   "[ERROR]: These files are typically found in the source tree under [database/ip/]\n".toList,
   ("[ERROR]: If you have manually relocated the database tree use the '-dbp' option to tell " ++
     "UMR where they are\n").toList]

/-- Without a table (`soc15` is `NULL`) addresses stay as they are.  `file` is what
`umr_database_open` finds. -/
def umrDatabaseReadIpblock (stale : Stale) (soc15 : Option (List Soc15)) (file : Option (List Char))
    (filename cmnname soc15name : List Char) (inst : Nat) : BlockRead :=
  let entry := soc15.map fun table => table.find? fun entry => decide (entry.ipname = soc15name)
  if entry.any Option.isNone then .ok (none, [unknownIpName soc15name])
  else
    match file with
    | none => .ok (none, noRegisterFile filename)
    | some text => do
        let first := fgetsKeep 256 stale.linebuf text
        let noRegs := announced stale.noRegs first.1
        let segments := entry.join.map fun entry => soc15Segments entry inst
        let read ← readRegisters 256 (fun x => decide (x ≠ noRegs.toNat)) segments stale
          first.2.length 0 first.2
        pure (some ⟨cmnname, noRegs, read.regs,
          fillIpverFromPath (((scanWord filename).map Prod.fst).getD first.1)⟩, read.errors)

/-! ## Well-formed files -/

def ShortLines (text : List Char) : Prop :=
  ∀ before line behind, text = before ++ line ++ behind → '\n' ∉ line → line.length + 1 < 256

structure RegRecord where
  line : List Char
  bits : List (List Char)

def RegRecord.lines (record : RegRecord) : List (List Char) := record.line :: record.bits

def blankReg : RegFields := ⟨[], 0, 0, 0, 0, 0⟩

def blankBit : BitFields := ⟨[], 0, 0⟩

def RegRecord.fields (record : RegRecord) : RegFields := (scanReg blankReg record.line).1

def bitOf (line : List Char) : BitFields := (scanBit blankBit line).1

structure RegRecord.WellFormed (record : RegRecord) : Prop where
  fields : (scanReg blankReg record.line).2 = true
  nobits : record.fields.nobits.toNat = record.bits.length
  bits : ∀ line ∈ record.bits, (scanBit blankBit line).2 = true
  idx : record.fields.idx.toNat < 32

def RegRecord.register (segments : Nat → UInt64) (record : RegRecord) : Register where
  regname := record.fields.name
  type := record.fields.type
  addr :=
    if record.fields.type = regMmio then
      record.fields.addr + segments record.fields.idx.toNat
    else record.fields.addr
  noBits := record.fields.nobits
  bit64 := record.fields.is64
  bits := record.bits.map fun line =>
    ⟨(bitOf line).name, charOfInt (bitOf line).start, charOfInt (bitOf line).stop⟩

def RegRecord.NamesFit (record : RegRecord) : Prop :=
  record.fields.name.length < 128 ∧ ∀ line ∈ record.bits, (bitOf line).name.length < 128

instance (record : RegRecord) : Decidable record.NamesFit :=
  inferInstanceAs (Decidable (_ ∧ _))

theorem scanReg_stale {linebuf : List Char} (all : (scanReg blankReg linebuf).2 = true)
    (stale : RegFields) : scanReg stale linebuf = ((scanReg blankReg linebuf).1, true) := by
  unfold scanReg at all ⊢
  cases name : scanWord linebuf with
  | none => simp [name] at all
  | some word =>
  cases type : scanInt word.2 with
  | none => simp [name, type] at all
  | some int =>
  cases addr : scan0x int.2 with
  | none => simp [name, type, addr] at all
  | some hex =>
  cases nobits : scanUnsigned hex.2 with
  | none => simp [name, type, addr, nobits] at all
  | some first =>
  cases is64 : scanUnsigned first.2 with
  | none => simp [name, type, addr, nobits, is64] at all
  | some second =>
  cases idx : scanUnsigned second.2 with
  | none => simp [name, type, addr, nobits, is64, idx] at all
  | some third => simp [type, addr, nobits, is64, idx]

theorem scanBit_stale {linebuf : List Char} (all : (scanBit blankBit linebuf).2 = true)
    (stale : BitFields) : scanBit stale linebuf = (bitOf linebuf, true) := by
  unfold bitOf
  unfold scanBit at all ⊢
  cases name : scanWord linebuf with
  | none => simp [name] at all
  | some word =>
  cases start : scanInt word.2 with
  | none => simp [name, start] at all
  | some first =>
  cases stop : scanInt first.2 with
  | none => simp [name, start, stop] at all
  | some second => simp [start, stop]

/-! ## Lines -/

theorem ShortLines.suffix {before text : List Char} (short : ShortLines (before ++ text)) :
    ShortLines text := by
  intro prior line behind whole one
  refine short (before ++ prior) line behind ?_ one
  rw [whole]
  simp

/-- Where lines are short, the size of the buffer does not matter. -/
theorem ShortLines.fgets_eq {text : List Char} (short : ShortLines text) {size : Nat}
    (room : 256 ≤ size) : fgets size text = fgets 256 text := by
  have first : (text.takeWhile (· ≠ '\n')).length + 1 < 256 := by
    refine short [] _ (text.dropWhile (· ≠ '\n')) ?_ ?_
    · rw [List.nil_append, List.takeWhile_append_dropWhile]
    · intro inside
      exact absurd (List.mem_takeWhile_imp inside) (by decide)
  have line : (text.takeWhile (· ≠ '\n') ++ (text.dropWhile (· ≠ '\n')).take 1).length < 256 := by
    have one := List.length_take_le 1 (text.dropWhile (· ≠ '\n'))
    rw [List.length_append]
    omega
  have whole : ∀ room, 256 ≤ room → (text.takeWhile (· ≠ '\n') ++
      (text.dropWhile (· ≠ '\n')).take 1).take (room - 1) =
      text.takeWhile (· ≠ '\n') ++ (text.dropWhile (· ≠ '\n')).take 1 := by
    intro room large
    exact List.take_of_length_le (by omega)
  unfold fgets
  dsimp only
  rw [whole size room, whole 256 (Nat.le_refl _)]

theorem fgets_rest {size : Nat} {text chunk rest : List Char}
    (read : fgets size text = some (chunk, rest)) : text = text.take chunk.length ++ rest := by
  unfold fgets at read
  split at read
  · cases read
  · obtain ⟨isChunk, isRest⟩ := Prod.mk.inj (Option.some.inj read)
    rw [isChunk] at isRest
    rw [← isRest, List.take_append_drop]

theorem fgets_of_chunks {text line : List Char} {more : List (List Char)}
    (short : ShortLines text) (first : chunks 256 text = line :: more) {size : Nat}
    (room : 256 ≤ size) :
    ∃ chunk rest, fgets size text = some (chunk, rest) ∧ cString chunk = line ∧
      ShortLines rest ∧ chunks 256 rest = more := by
  cases read : fgets 256 text with
  | none =>
      rw [chunks_of_none read] at first
      cases first
  | some taken =>
      obtain ⟨chunk, rest⟩ := taken
      rw [chunks_of_some (by decide) read, List.cons.injEq] at first
      refine ⟨chunk, rest, (short.fgets_eq room).trans read, first.1, ?_, first.2⟩
      rw [fgets_rest read] at short
      exact short.suffix

theorem fgets_ended {text : List Char} (ended : chunks 256 text = []) (size : Nat) :
    fgets size text = none := by
  cases read : fgets 256 text with
  | none =>
      unfold fgets at read ⊢
      split at read
      · rename_i empty
        rw [if_pos empty]
      · cases read
  | some taken =>
      rw [chunks_of_some (by decide) read] at ended
      cases ended

/-! ## Records -/

/-- The table that both readers are given, in the place where a record looks. -/
def SameSegments (table : Nat → Option UInt64) (segments : Nat → UInt64) : Prop :=
  ∀ idx, idx < 32 → table idx = some (segments idx)

theorem readBits_lines {size : Nat} (room : 256 ≤ size) (stale : Nat → BitFields)
    {more : List (List Char)} (bits : List (List Char)) :
    ∀ {y : Nat} {linebuf text : List Char}, ShortLines text →
      (∀ line ∈ bits, (scanBit blankBit line).2 = true) → chunks 256 text = bits ++ more →
      ∃ rest, ShortLines rest ∧ chunks 256 rest = more ∧
        readBits size stale bits.length y linebuf text =
          if ∀ line ∈ bits, (bitOf line).name.length < 128 then
            .ok (bits.map fun line =>
              ⟨(bitOf line).name, charOfInt (bitOf line).start, charOfInt (bitOf line).stop⟩, rest)
          else .error .name := by
  induction bits with
  | nil =>
      intro y linebuf text short _ lines
      exact ⟨text, short, lines, by simp [readBits]⟩
  | cons line bits ih =>
      intro y linebuf text short found lines
      obtain ⟨chunk, rest, read, isLine, restShort, restLines⟩ := fgets_of_chunks short lines room
      obtain ⟨behind, behindShort, behindLines, behindRead⟩ := ih restShort
        (fun other member => found other (List.mem_cons_of_mem _ member)) restLines
      refine ⟨behind, behindShort, behindLines, ?_⟩
      have kept : fgetsKeep size linebuf text = (line, rest) := by
        rw [fgetsKeep, read]
        dsimp only
        rw [isLine]
      rw [List.length_cons, readBits, kept]
      dsimp only
      rw [scanBit_stale (found line List.mem_cons_self), checkName]
      have both : (∀ other ∈ line :: bits, (bitOf other).name.length < 128) ↔
          (bitOf line).name.length < 128 ∧ ∀ other ∈ bits, (bitOf other).name.length < 128 :=
        List.forall_mem_cons
      by_cases fits : (bitOf line).name.length < 128
      · rw [if_pos fits, behindRead]
        by_cases rest_ : ∀ other ∈ bits, (bitOf other).name.length < 128
        · rw [if_pos rest_, if_pos (both.mpr ⟨fits, rest_⟩)]
          rfl
        · rw [if_neg rest_, if_neg fun all => rest_ (both.mp all).2]
          rfl
      · rw [if_neg fits, if_neg fun all => fits (both.mp all).1]
        rfl

theorem placed_record {table : Nat → Option UInt64} {segments : Nat → UInt64}
    (same : SameSegments table segments) {record : RegRecord} (wf : record.WellFormed) :
    placed (some table) record.fields = .ok (record.register segments).addr := by
  unfold placed RegRecord.register
  dsimp only
  by_cases mmio : record.fields.type = regMmio
  · rw [if_pos mmio, if_pos mmio, same _ wf.idx]
  · rw [if_neg mmio, if_neg mmio]

theorem readRegister_record {size : Nat} (room : 256 ≤ size) {table : Nat → Option UInt64}
    {segments : Nat → UInt64} (same : SameSegments table segments) (stale : Stale) (x : Nat)
    {record : RegRecord} (wf : record.WellFormed) {text : List Char} (short : ShortLines text)
    {more : List (List Char)} (lines : chunks 256 text = record.bits ++ more) :
    ∃ rest, ShortLines rest ∧ chunks 256 rest = more ∧
      readRegister size (some table) stale x record.line text =
        if record.NamesFit then .ok (record.register segments, [], rest) else .error .name := by
  obtain ⟨rest, restShort, restLines, bits⟩ := @readBits_lines size room (stale.bit x) more
    record.bits 0 record.line text short wf.bits lines
  refine ⟨rest, restShort, restLines, ?_⟩
  have fields : (scanReg blankReg record.line).1 = record.fields := rfl
  rw [readRegister, scanReg_stale wf.fields]
  dsimp only
  rw [fields, checkName]
  by_cases fits : record.fields.name.length < 128
  · rw [if_pos fits, placed_record same wf, wf.nobits, bits]
    by_cases all : ∀ line ∈ record.bits, (bitOf line).name.length < 128
    · have both : record.NamesFit := ⟨fits, all⟩
      rw [if_pos all, if_pos both]
      rfl
    · have not_ : ¬ record.NamesFit := fun both => all both.2
      rw [if_neg all, if_neg not_]
      rfl
  · have not_ : ¬ record.NamesFit := fun both => fits both.1
    rw [if_neg fits, if_neg not_]
    rfl

def recordLines (records : List RegRecord) : List (List Char) := records.flatMap RegRecord.lines

def reached (goes : Nat → Bool) : Nat → List RegRecord → List RegRecord
  | _, [] => []
  | x, record :: records => if goes x then record :: reached goes (x + 1) records else []

theorem reached_all (x : Nat) (records : List RegRecord) :
    reached (fun _ => true) x records = records := by
  induction records generalizing x with
  | nil => rfl
  | cons record records ih => rw [reached, if_pos rfl, ih]

theorem reached_announced {noRegs x : Nat} (below : x ≤ noRegs) (records : List RegRecord) :
    reached (fun x => decide (x ≠ noRegs)) x records = records.take (noRegs - x) := by
  induction records generalizing x with
  | nil => rw [reached, List.take_nil]
  | cons record records ih =>
      by_cases last : x = noRegs
      · rw [reached, last, if_neg (by simp), Nat.sub_self, List.take_zero]
      · have more : noRegs - x = noRegs - (x + 1) + 1 := by omega
        rw [reached, if_pos (decide_eq_true last), ih (by omega), more, List.take_succ_cons]

theorem readRegisters_records {size : Nat} (room : 256 ≤ size) (goes : Nat → Bool)
    {table : Nat → Option UInt64} {segments : Nat → UInt64} (same : SameSegments table segments)
    (stale : Stale) (records : List RegRecord) :
    ∀ {fuel x : Nat} {text : List Char}, (∀ record ∈ records, record.WellFormed) →
      ShortLines text → chunks 256 text = recordLines records → records.length ≤ fuel →
      readRegisters size goes (some table) stale fuel x text =
        if ∀ record ∈ reached goes x records, record.NamesFit then
          .ok ⟨(reached goes x records).map (RegRecord.register segments), []⟩
        else .error .name := by
  induction records with
  | nil =>
      intro fuel x text _ _ lines _
      cases fuel with
      | zero => simp [readRegisters, reached]
      | succ fuel => simp [readRegisters, reached, fgets_ended lines]
  | cons record records ih =>
      intro fuel x text wf short lines enough
      obtain ⟨fuel, rfl⟩ : ∃ more, fuel = more + 1 :=
        ⟨fuel - 1, by rw [List.length_cons] at enough; omega⟩
      have first : chunks 256 text = record.line :: (record.bits ++ recordLines records) := lines
      obtain ⟨chunk, rest, read, isLine, restShort, restLines⟩ := fgets_of_chunks short first room
      obtain ⟨behind, behindShort, behindLines, stored⟩ := readRegister_record room same stale x
        (wf record List.mem_cons_self) restShort restLines
      have further := @ih fuel (x + 1) behind
        (fun other member => wf other (List.mem_cons_of_mem _ member)) behindShort behindLines
        (Nat.le_of_succ_le_succ enough)
      rw [readRegisters, reached]
      by_cases going : goes x = true
      · rw [if_pos going, if_pos going, read]
        dsimp only
        rw [isLine, stored]
        have both : (∀ other ∈ record :: reached goes (x + 1) records, other.NamesFit) ↔
            record.NamesFit ∧ ∀ other ∈ reached goes (x + 1) records, other.NamesFit :=
          List.forall_mem_cons
        by_cases fits : record.NamesFit
        · rw [if_pos fits]
          change (do
            let further ← readRegisters size goes (some table) stale fuel (x + 1) behind
            pure (further.cons (record.register segments) [])) = _
          rw [further]
          by_cases rest_ : ∀ other ∈ reached goes (x + 1) records, other.NamesFit
          · rw [if_pos rest_, if_pos (both.mpr ⟨fits, rest_⟩)]
            rfl
          · rw [if_neg rest_, if_neg fun all => rest_ (both.mp all).2]
            rfl
        · rw [if_neg fits, if_neg fun all => fits (both.mp all).1]
          rfl
      · rw [if_neg going, if_neg going]
        simp

/-! ## Agreement -/

structure RegFile (text : List Char) (n : UInt32) (records : List RegRecord) : Prop where
  short : ShortLines text
  lines : ∃ first, chunks 256 text = first :: recordLines records ∧
    (scanUnsigned first).map Prod.fst = some n
  records : ∀ record ∈ records, record.WellFormed

def entrySegments (det : DiscoveryEntry) (idx : Nat) : UInt64 := (det.segments[idx]?).getD 0

theorem detSegments_same (det : DiscoveryEntry) :
    SameSegments (detSegments det) (entrySegments det) := by
  intro idx inside
  simp [detSegments, entrySegments, inside]

theorem soc15Segments_same {soc15 : Soc15} {inst : Nat} {segments : Nat → UInt64}
    (row : inst < maxInst) (same : ∀ idx, idx < 32 → soc15.off inst idx = segments idx) :
    SameSegments (soc15Segments soc15 inst) segments := by
  intro idx inside
  have fits : inst < maxInst ∧ idx < maxSeg := ⟨row, Nat.lt_of_lt_of_le inside (by decide)⟩
  rw [soc15Segments, if_pos fits, same idx inside]

theorem chunks_length_le (size : Nat) (text : List Char) :
    (chunks size text).length ≤ text.length := by
  suffices bound : ∀ fuel text, (chunksFuel size fuel text).length ≤ fuel from bound _ _
  intro fuel
  induction fuel with
  | zero => exact fun _ => Nat.le_refl _
  | succ fuel ih =>
      intro text
      unfold chunksFuel
      split
      · exact Nat.zero_le _
      · exact Nat.succ_le_succ (ih _)

theorem length_le_recordLines (records : List RegRecord) :
    records.length ≤ (recordLines records).length := by
  induction records with
  | nil => exact Nat.le_refl _
  | cons record records ih =>
      rw [recordLines, List.flatMap_cons, List.length_append, RegRecord.lines, List.length_cons,
        List.length_cons]
      change records.length + 1 ≤ record.bits.length + 1 + (recordLines records).length
      omega

/-- The first line of a register file is read the same way into both buffers. -/
theorem RegFile.first {text : List Char} {n : UInt32} {records : List RegRecord}
    (file : RegFile text n records) (stale : UInt32) :
    ∃ first rest, (∀ size linebuf, 256 ≤ size → fgetsKeep size linebuf text = (first, rest)) ∧
      announced stale first = n ∧ ShortLines rest ∧ chunks 256 rest = recordLines records ∧
      records.length ≤ rest.length := by
  obtain ⟨first, lines, number⟩ := file.lines
  obtain ⟨chunk, rest, read, isFirst, restShort, restLines⟩ :=
    fgets_of_chunks file.short lines (Nat.le_refl 256)
  refine ⟨first, rest, fun size linebuf room => ?_, ?_, restShort, restLines, ?_⟩
  · rw [fgetsKeep, file.short.fgets_eq room, read]
    dsimp only
    rw [isFirst]
  · rw [announced, number]
    rfl
  · have bound := chunks_length_le 256 rest
    rw [restLines] at bound
    exact Nat.le_trans (length_le_recordLines records) bound

section Agreement
variable {text : List Char} {n : UInt32} {records : List RegRecord}
variable (stale other : Stale) (det : DiscoveryEntry) (nit : ScanItem) (table : List Soc15)
variable (filename cmnname soc15name : List Char) (inst : Nat)

theorem readIpBlock_file (file : RegFile text n records) :
    readIpBlock stale det nit (some text) =
      if ∀ record ∈ records, record.NamesFit then
        .ok (some ⟨blockName det, n, records.map (RegRecord.register (entrySegments det)),
          ⟨det.die, det.maj, det.min, det.rev, det.inst, det.logicalInst⟩⟩, [])
      else .error .name := by
  obtain ⟨first, rest, read, number, short, lines, enough⟩ := file.first stale.noRegs
  have regs := @readRegisters_records 512 (by decide) (fun _ => true) _ _ (detSegments_same det)
    stale records rest.length 0 rest file.records short lines enough
  rw [reached_all] at regs
  rw [readIpBlock]
  rw [read 511 _ (by decide), number, regs]
  split <;> rfl

variable {entry : Soc15}

theorem umrDatabaseReadIpblock_file (file : RegFile text n records)
    (found : table.find? (fun entry => decide (entry.ipname = soc15name)) = some entry)
    (row : inst < maxInst) (same : ∀ idx, idx < 32 → entry.off inst idx = entrySegments det idx) :
    ∃ discoverable, umrDatabaseReadIpblock stale (some table) (some text) filename cmnname soc15name
        inst =
      if ∀ record ∈ records.take n.toNat, record.NamesFit then
        .ok (some ⟨cmnname, n,
          (records.take n.toNat).map (RegRecord.register (entrySegments det)), discoverable⟩, [])
      else .error .name := by
  obtain ⟨first, rest, read, number, short, lines, enough⟩ := file.first stale.noRegs
  have regs := @readRegisters_records 256 (by decide) (fun x => decide (x ≠ n.toNat)) _ _
    (soc15Segments_same row same) stale records rest.length 0 rest file.records short lines enough
  rw [reached_announced (Nat.zero_le _), Nat.sub_zero] at regs
  refine ⟨fillIpverFromPath (((scanWord filename).map Prod.fst).getD first), ?_⟩
  rw [umrDatabaseReadIpblock, Option.map_some, found]
  dsimp only
  rw [if_neg (by simp), read 256 _ (by decide)]
  dsimp only [Option.join_some, Option.map_some]
  rw [number, regs]
  split <;> rfl

/-- Both readers store the first registers of the file, as many as were announced, and none behind
the slots that were allocated. -/
def ReadersAgree (text : List Char) (n : UInt32) (records : List RegRecord) : Prop :=
  let stored := (records.take (min n.toNat records.length)).map
    (RegRecord.register (entrySegments det))
  ∃ block errors otherBlock otherErrors,
    readIpBlock stale det nit (some text) = .ok (some block, errors) ∧
    umrDatabaseReadIpblock other (some table) (some text) filename cmnname soc15name inst =
      .ok (some otherBlock, otherErrors) ∧
    block.regs = stored ∧ otherBlock.regs = stored ∧
    block.regs.length ≤ n.toNat ∧ otherBlock.regs.length ≤ n.toNat

theorem readersAgree_iff (file : RegFile text n records)
    (found : table.find? (fun entry => decide (entry.ipname = soc15name)) = some entry)
    (row : inst < maxInst) (same : ∀ idx, idx < 32 → entry.off inst idx = entrySegments det idx) :
    ReadersAgree stale other det nit table filename cmnname soc15name inst text n records ↔
      records.length ≤ n.toNat ∧ ∀ record ∈ records, record.NamesFit := by
  have mmio := readIpBlock_file stale det nit file
  obtain ⟨discoverable, database⟩ := umrDatabaseReadIpblock_file other det table filename cmnname
    soc15name inst file found row same
  constructor
  · rintro ⟨block, errors, -, -, read, -, -, -, within, -⟩
    rw [mmio] at read
    split at read
    · rename_i fits
      cases read
      rw [List.length_map] at within
      exact ⟨within, fits⟩
    · cases read
  · rintro ⟨few, fits⟩
    have all : records.take n.toNat = records := List.take_of_length_le few
    rw [if_pos fits] at mmio
    rw [all, if_pos fits] at database
    refine ⟨_, _, _, _, mmio, database, ?_⟩
    rw [Nat.min_eq_right few, List.take_length, List.length_map]
    exact ⟨rfl, rfl, few, few⟩

end Agreement

/-! ## A file of one line more than announced -/

def zeroStale : Stale := ⟨[], 0, fun _ => blankReg, fun _ _ => blankBit⟩

def oneReg : RegRecord := ⟨"mmA 0 0x1 1 0 0\n".toList, ["\tLOW 0 7\n".toList]⟩

def otherReg : RegRecord := ⟨"mmB 1 0x2 0 0 0\n".toList, []⟩

def announcesOne (records : List RegRecord) : List Char :=
  "1\n".toList ++ (recordLines records).flatten

theorem blank_segments (idx : Nat) : Soc15.empty.off 0 idx = entrySegments .blank idx := by
  rw [entrySegments, DiscoveryEntry.blank]
  cases found : (Vector.replicate 32 (0 : UInt64))[idx]? with
  | none => rfl
  | some segment =>
      have zero : segment = 0 := by
        rw [Vector.getElem?_replicate] at found
        split at found
        · exact (Option.some.inj found).symm
        · cases found
      rw [zero]
      rfl

theorem shortLines_of_length {text : List Char} (short : text.length + 1 < 256) :
    ShortLines text := by
  intro before line behind whole _
  rw [whole, List.length_append, List.length_append] at short
  omega

theorem oneReg_file : RegFile (announcesOne [oneReg]) 1 [oneReg] where
  short := shortLines_of_length (by decide)
  lines := ⟨"1\n".toList, by decide, by decide⟩
  records := by
    intro record member
    rw [List.mem_singleton.mp member]
    exact ⟨by decide, by decide, by decide, by decide⟩

theorem readersAgree_oneReg :
    ReadersAgree zeroStale zeroStale .blank emptyItem [.empty] [] [] [] 0 (announcesOne [oneReg]) 1
      [oneReg] :=
  (readersAgree_iff zeroStale zeroStale .blank emptyItem [.empty] [] [] [] 0 oneReg_file rfl
    (by decide) fun idx _ => blank_segments idx).mpr ⟨by decide, by decide⟩

theorem twoRegs_file : RegFile (announcesOne [oneReg, otherReg]) 1 [oneReg, otherReg] where
  short := shortLines_of_length (by decide)
  lines := ⟨"1\n".toList, by decide, by decide⟩
  records := by
    intro record member
    rcases List.mem_pair.mp member with rfl | rfl
    · exact ⟨by decide, by decide, by decide, by decide⟩
    · exact ⟨by decide, by decide, by decide, by decide⟩

/-- The second register is stored behind the only slot. -/
theorem readersAgree_not_twoRegs :
    RegFile (announcesOne [oneReg, otherReg]) 1 [oneReg, otherReg] ∧
      ¬ ReadersAgree zeroStale zeroStale .blank emptyItem [.empty] [] [] [] 0
        (announcesOne [oneReg, otherReg]) 1 [oneReg, otherReg] := by
  refine ⟨twoRegs_file, ?_⟩
  rintro ⟨block, errors, -, -, read, -, -, -, within, -⟩
  rw [readIpBlock_file zeroStale .blank emptyItem twoRegs_file, if_pos (by decide)] at read
  cases read
  exact absurd within (by decide)

end Umr.Database
