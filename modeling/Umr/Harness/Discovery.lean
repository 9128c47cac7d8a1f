import Umr.Harness.Log
import Umr.Lib.BigEndian
import Umr.Lib.Bytes
import Umr.Lib.Codec

/-!
# The IP discovery table

`dump_discovery_to_log` and `import_det_from_log` of `discover_by_ip_table.c`: a
recorded run writes its discovery table as one line of bytes, a replay reads the
table back from the parsed line.  No byte of a record stands for the harvest
flag.
-/

set_option autoImplicit false

namespace Umr.Harness

open Umr.Lib

/-- `struct umr_discovery_table_entry`; a table is the chain of its entries. -/
@[ext] structure DiscoveryEntry where
  ipname : Vector UInt8 128
  die : Int
  inst : Int
  maj : Int
  min : Int
  rev : Int
  logicalInst : Int
  segments : Vector UInt64 32
  harvest : UInt8
  deriving DecidableEq

def DiscoveryEntry.blank : DiscoveryEntry where
  ipname := Vector.replicate 128 0
  die := 0
  inst := 0
  maj := 0
  min := 0
  rev := 0
  logicalInst := 0
  segments := Vector.replicate 32 0
  harvest := 0

/-- The table `umr_parse_ip_discovery` builds: behind the entries stands the one
that was allocated last and never filled. -/
def discoveryTable (entries : List DiscoveryEntry) : List DiscoveryEntry :=
  entries ++ [DiscoveryEntry.blank]

structure DiscoveryEntry.InRange (det : DiscoveryEntry) : Prop where
  die : 0 ≤ det.die ∧ det.die < 65536
  inst : 0 ≤ det.inst ∧ det.inst < 65536
  maj : 0 ≤ det.maj ∧ det.maj < 65536
  min : 0 ≤ det.min ∧ det.min < 65536
  rev : 0 ≤ det.rev ∧ det.rev < 65536
  logicalInst : -32768 ≤ det.logicalInst ∧ det.logicalInst ≤ 32767

instance (det : DiscoveryEntry) : Decidable det.InRange :=
  decidable_of_iff
    ((0 ≤ det.die ∧ det.die < 65536) ∧ (0 ≤ det.inst ∧ det.inst < 65536) ∧
      (0 ≤ det.maj ∧ det.maj < 65536) ∧ (0 ≤ det.min ∧ det.min < 65536) ∧
      (0 ≤ det.rev ∧ det.rev < 65536) ∧ -32768 ≤ det.logicalInst ∧ det.logicalInst ≤ 32767)
    ⟨fun ⟨die, inst, maj, min, rev, logicalInst⟩ => ⟨die, inst, maj, min, rev, logicalInst⟩,
      fun ⟨die, inst, maj, min, rev, logicalInst⟩ => ⟨die, inst, maj, min, rev, logicalInst⟩⟩

/-! ## The blocks of a table -/

def cstring (text : String) : List UInt8 := text.toList.map fun c => UInt8.ofNat c.toNat

def commonNames : List (String × String) :=
  [("clka", "clk"), ("clkb", "clk"), ("mp0", "mp"), ("mp1", "mp"), ("sdma1", "sdma"),
    ("uvd", "vcn"), ("dmu", "dcn"), ("nbif", "nbio")]

def commonName (ipname : List UInt8) : List UInt8 :=
  match commonNames.find? fun names => cstring names.1 = ipname with
  | some names => cstring names.2
  | none => ipname

/-- The loop of `umr_discover_asic_by_discovery_table`, over any database and any
reading of a block's file.  An entry that is harvested gets no block. -/
def ipBlocks {Item Block : Type} (findIp : List UInt8 → Int → Int → Int → Option Item)
    (readIpBlock : DiscoveryEntry → Item → Block) (table : List DiscoveryEntry) : List Block :=
  table.filterMap fun det =>
    let cmnname := commonName (CString.ofBuffer det.ipname.toList).bytes
    match findIp cmnname det.maj det.min det.rev with
    | none => none
    | some nit => if det.harvest = 0 then some (readIpBlock det nit) else none

/-! ## Writing -/

def unsigned (value : Int) : Nat := (value % 2 ^ 32).toNat

def dumpInt (value : Int) : List Char :=
  printPadded 2 (unsigned (value >>> (8 : Nat))) ++ printPadded 2 (unsigned value &&& 0xFF)

/-- The upper byte of this one is masked. -/
def dumpLogicalInst (value : Int) : List Char :=
  printPadded 2 (unsigned (value >>> (8 : Nat)) &&& 0xFF) ++ printPadded 2 (unsigned value &&& 0xFF)

def dumpEntry (det : DiscoveryEntry) : List Char :=
  det.ipname.toList.flatMap (fun byte => printPadded 2 byte.toNat) ++ (dumpInt det.die ++
    (dumpInt det.inst ++ (dumpInt det.maj ++ (dumpInt det.min ++ (dumpInt det.rev ++
      (dumpLogicalInst det.logicalInst ++
        det.segments.toList.flatMap fun segment => printPadded 16 segment.toNat))))))

def dumpDiscoveryToLog (table : List DiscoveryEntry) : List Char :=
  "DISCOVERY = \x7b ".toList ++ (table.flatMap dumpEntry ++ "\x7d\n".toList)

/-! ## Reading -/

abbrev ImportM := StateT (List UInt8) Option

/-- The next bytes behind `data`; `none` is a read beyond the contents. -/
def takeBytes (count : Nat) : ImportM (List UInt8) := fun data =>
  if count ≤ data.length then some (data.take count, data.drop count) else none

def importInt : ImportM Int := do
  let data ← takeBytes 2
  pure (((data.getD 0 0).toNat <<< 8 ||| (data.getD 1 0).toNat : Nat) : Int)

def importLogicalInst : ImportM Int := do
  let value ← importInt
  pure (if value.toNat &&& 0x8000 ≠ 0 then value - 65536 else value)

def importSegment : ImportM UInt64 := do
  let data ← takeBytes 8
  pure (data.foldl shiftIn 0)

def storedInto {α : Type} [Zero α] (count : Nat) (values : List α) : Vector α count :=
  Vector.ofFn fun i => values.getD i 0

/-- One turn of the loop.  It has no counterpart to `harvest`, which stays as
`calloc` left it. -/
def importEntry : ImportM DiscoveryEntry := do
  let ipname ← takeBytes 128
  let die ← importInt
  let inst ← importInt
  let maj ← importInt
  let min ← importInt
  let rev ← importInt
  let logicalInst ← importLogicalInst
  let segments ← readMany importSegment 32
  pure { DiscoveryEntry.blank with
    ipname := storedInto 128 ipname, die := die, inst := inst, maj := maj, min := min, rev := rev
    logicalInst := logicalInst, segments := storedInto 32 segments }

def detRecSize : Nat := 128 + 6 * 2 + 8 * 32

/-- `th->discovery` is the first of the `DISCOVERY` blocks.  A table of one entry
counts as no table at all. -/
def importDetFromLog (th : TestHarness) : Except ScriptStop (List DiscoveryEntry) :=
  let discovery := (th.ram .discovery).headD ⟨0, 0, []⟩
  let nblocks := discovery.size.toNat / detRecSize
  match readMany importEntry nblocks discovery.contents with
  | none => .error .overrun
  | some (table, _) => if nblocks ≤ 1 then .error .null else .ok table

def replayedTable (log : List Char) : Except ScriptStop (List DiscoveryEntry) := do
  let th ← umrCreateTestHarness log
  importDetFromLog th

/-! ## The bytes of a record -/

section Bytes

def entryBytes (det : DiscoveryEntry) : List UInt8 :=
  det.ipname.toList ++ (bigEndian 2 det.die.toNat ++ (bigEndian 2 det.inst.toNat ++
    (bigEndian 2 det.maj.toNat ++ (bigEndian 2 det.min.toNat ++ (bigEndian 2 det.rev.toNat ++
      (bigEndian 2 (det.logicalInst % 65536).toNat ++
        det.segments.toList.flatMap fun segment => bigEndian 8 segment.toNat))))))

theorem bytePair_printed {high low n : Nat} (isHigh : high = n / 256 % 256)
    (isLow : low = n % 256) :
    printPadded 2 high ++ printPadded 2 low = printBytes (bigEndian 2 n) := by
  have highByte : (UInt8.ofNat (n / 256)).toNat = high := isHigh.symm
  have lowByte : (UInt8.ofNat n).toNat = low := isLow.symm
  rw [← highByte, ← lowByte, printPadded_byte, printPadded_byte]
  change _ = printByte (UInt8.ofNat (n / 256)) ++ (printByte (UInt8.ofNat n) ++ [])
  rw [List.append_nil]

theorem and_255 (n : Nat) : n &&& 0xFF = n % 256 := Nat.and_two_pow_sub_one_eq_mod n 8

theorem shiftRight_8 (value : Int) : value >>> (8 : Nat) = value / 256 := Int.shiftRight_eq_div_pow value 8

theorem dumpInt_bytes {value : Int} (range : 0 ≤ value ∧ value < 65536) :
    dumpInt value = printBytes (bigEndian 2 value.toNat) := by
  apply bytePair_printed
  · rw [unsigned, shiftRight_8]
    omega
  · rw [and_255, unsigned]
    omega

theorem dumpLogicalInst_bytes (value : Int) :
    dumpLogicalInst value = printBytes (bigEndian 2 (value % 65536).toNat) := by
  apply bytePair_printed
  · rw [and_255, unsigned, shiftRight_8]
    omega
  · rw [and_255, unsigned]
    omega

theorem printBytes_append (left right : List UInt8) :
    printBytes (left ++ right) = printBytes left ++ printBytes right := List.flatMap_append

theorem segment_lt (segment : UInt64) : segment.toNat < 256 ^ 8 := by
  have bound : segment.toNat < 2 ^ 64 := segment.toNat_lt
  omega

theorem dumpEntry_bytes {det : DiscoveryEntry} (inRange : det.InRange) :
    dumpEntry det = printBytes (entryBytes det) := by
  have name : det.ipname.toList.flatMap (fun byte => printPadded 2 byte.toNat) =
      printBytes det.ipname.toList :=
    List.flatMap_congr fun byte _ => printPadded_byte byte
  have segments : (det.segments.toList.flatMap fun segment => printPadded 16 segment.toNat) =
      printBytes (det.segments.toList.flatMap fun segment => bigEndian 8 segment.toNat) := by
    rw [printBytes, List.flatMap_assoc]
    exact List.flatMap_congr fun segment _ => printPadded_bigEndian 7 (segment_lt segment)
  rw [dumpEntry, entryBytes, name, dumpInt_bytes inRange.die, dumpInt_bytes inRange.inst,
    dumpInt_bytes inRange.maj, dumpInt_bytes inRange.min, dumpInt_bytes inRange.rev,
    dumpLogicalInst_bytes, segments]
  simp only [printBytes_append]

theorem length_entryBytes (det : DiscoveryEntry) : (entryBytes det).length = detRecSize := by
  have segments : (det.segments.toList.flatMap fun segment => bigEndian 8 segment.toNat).length =
      32 * 8 := by
    rw [List.length_flatMap, List.map_congr_left (g := fun _ => 8)
      fun segment _ => length_bigEndian 8 segment.toNat]
    simp
  simp only [entryBytes, List.length_append, length_bigEndian, segments, Vector.length_toList]
  rfl

theorem length_flatMap_entryBytes (table : List DiscoveryEntry) :
    (table.flatMap entryBytes).length = detRecSize * table.length := by
  induction table with
  | nil => rfl
  | cons det table ih =>
      rw [List.flatMap_cons, List.length_append, length_entryBytes, ih, List.length_cons]
      rw [Nat.mul_succ, Nat.add_comm]

def discoveryLine (table : List DiscoveryEntry) : LogLine :=
  .bytes .discovery 0 (table.flatMap entryBytes)

theorem discoveryLine_text (table : List DiscoveryEntry) :
    (discoveryLine table).text =
      "DISCOVERY = \x7b ".toList ++ (printBytes (table.flatMap entryBytes) ++ "\x7d\n".toList) := by
  have opening : "DISCOVERY = \x7b ".toList = "DISCOVERY".toList ++ [' ', '=', ' ', '{', ' '] := rfl
  have closing : "\x7d\n".toList = ['}', '\n'] := rfl
  have line : (discoveryLine table).text = "DISCOVERY".toList ++ ([] ++ (' ' :: '=' :: ' ' :: '{' ::
      (([' '] ++ (printBytes (table.flatMap entryBytes) ++ [])) ++ '}' :: ['\n']))) := rfl
  rw [line, opening, closing]
  simp only [List.append_assoc, List.nil_append, List.cons_append]

theorem dumpDiscoveryToLog_eq {table : List DiscoveryEntry}
    (inRange : ∀ det ∈ table, det.InRange) :
    dumpDiscoveryToLog table = logText [discoveryLine table] := by
  have printed : table.flatMap dumpEntry = printBytes (table.flatMap entryBytes) := by
    rw [printBytes, List.flatMap_assoc]
    exact List.flatMap_congr fun det member => dumpEntry_bytes (inRange det member)
  rw [logText, List.flatMap_singleton, discoveryLine_text, ← printed]
  rfl

end Bytes

/-! ## Importing the bytes -/

section Import

def Imports {α : Type} (reader : ImportM α) (bytes : List UInt8) (value : α) : Prop :=
  Reads (fun _ => True) id reader bytes value

theorem takeBytes_imports {count : Nat} {bytes : List UInt8} (exact : bytes.length = count) :
    Imports (takeBytes count) bytes bytes := by
  intro data rest _ split
  change data = bytes ++ rest at split
  refine ⟨rest, ?_, trivial, rfl⟩
  subst split exact
  rw [takeBytes, if_pos (by rw [List.length_append]; omega), List.take_left, List.drop_left]

theorem importInt_imports {n : Nat} (fits : n < 65536) :
    Imports importInt (bigEndian 2 n) (n : Int) := by
  have joined : ((bigEndian 2 n).getD 0 0).toNat <<< 8 ||| ((bigEndian 2 n).getD 1 0).toNat = n := by
    change (n / 256 % 2 ^ 8) <<< 8 ||| (n % 2 ^ 8) = n
    rw [← Nat.shiftLeft_add_eq_or_of_lt (by omega), Nat.shiftLeft_eq]
    omega
  have read := Reads.map
    (fun data : List UInt8 => (((data.getD 0 0).toNat <<< 8 ||| (data.getD 1 0).toNat : Nat) : Int))
    (takeBytes_imports (length_bigEndian 2 n))
  rw [joined] at read
  exact read

theorem importInt_imports_toNat {value : Int} (range : 0 ≤ value ∧ value < 65536) :
    Imports importInt (bigEndian 2 value.toNat) value := by
  have read := importInt_imports (n := value.toNat) (by omega)
  rwa [Int.toNat_of_nonneg range.1] at read

theorem importLogicalInst_imports {value : Int} (range : -32768 ≤ value ∧ value ≤ 32767) :
    Imports importLogicalInst (bigEndian 2 (value % 65536).toNat) value := by
  have read := Reads.map (fun value : Int => if value.toNat &&& 0x8000 ≠ 0 then value - 65536 else value)
    (importInt_imports (n := (value % 65536).toNat) (by omega))
  have signed : (if (((value % 65536).toNat : Int)).toNat &&& 0x8000 ≠ 0
      then ((value % 65536).toNat : Int) - 65536 else ((value % 65536).toNat : Int)) = value := by
    rw [Int.toNat_natCast, show 0x8000 = 2 ^ 15 by rfl, Nat.and_two_pow,
      Nat.testBit_eq_decide_div_mod_eq]
    by_cases negative : value < 0
    · have bit : (value % 65536).toNat / 2 ^ 15 % 2 = 1 := by omega
      rw [decide_eq_true bit, if_pos (by decide)]
      omega
    · have bit : ¬(value % 65536).toNat / 2 ^ 15 % 2 = 1 := by omega
      rw [decide_eq_false bit, if_neg (by decide)]
      omega
  rw [signed] at read
  exact read

theorem importSegment_imports (segment : UInt64) :
    Imports importSegment (bigEndian 8 segment.toNat) segment := by
  have read := Reads.map (fun data : List UInt8 => data.foldl shiftIn 0)
    (takeBytes_imports (length_bigEndian 8 segment.toNat))
  rw [foldl_shiftIn, bigEndianValue_bigEndian 8 (segment_lt segment), UInt64.ofNat_toNat] at read
  exact read

theorem storedInto_toList {α : Type} [Zero α] {count : Nat} (values : Vector α count) :
    storedInto count values.toList = values := by
  apply Vector.ext
  intro i small
  rw [storedInto, Vector.getElem_ofFn]
  simp [small]

def DiscoveryEntry.unharvested (det : DiscoveryEntry) : DiscoveryEntry := { det with harvest := 0 }

theorem importEntry_imports {det : DiscoveryEntry} (inRange : det.InRange) :
    Imports importEntry (entryBytes det) det.unharvested := by
  have segments : Imports (readMany importSegment 32)
      (det.segments.toList.flatMap fun segment => bigEndian 8 segment.toNat)
      det.segments.toList := by
    have each := Reads.readMany (fun segment : UInt64 => bigEndian 8 segment.toNat) id
      det.segments.toList fun segment _ => importSegment_imports segment
    rwa [Vector.length_toList, List.map_id] at each
  have built : det.unharvested = { DiscoveryEntry.blank with
      ipname := storedInto 128 det.ipname.toList, die := det.die, inst := det.inst, maj := det.maj
      min := det.min, rev := det.rev, logicalInst := det.logicalInst
      segments := storedInto 32 det.segments.toList } := by
    rw [storedInto_toList, storedInto_toList]
    rfl
  rw [built]
  exact Reads.bind (takeBytes_imports (Vector.length_toList ..)) <|
    Reads.bind (importInt_imports_toNat inRange.die) <|
    Reads.bind (importInt_imports_toNat inRange.inst) <|
    Reads.bind (importInt_imports_toNat inRange.maj) <|
    Reads.bind (importInt_imports_toNat inRange.min) <|
    Reads.bind (importInt_imports_toNat inRange.rev) <|
    Reads.bind (importLogicalInst_imports inRange.logicalInst) <|
    Reads.map _ segments

end Import

/-! ## The replayed table -/

section Replay
variable {table : List DiscoveryEntry}

theorem discoveryLine_count (table : List DiscoveryEntry) :
    (discoveryLine table).count = detRecSize * table.length := length_flatMap_entryBytes table

theorem importDetFromLog_discoveryLine (inRange : ∀ det ∈ table, det.InRange)
    (fits : detRecSize * table.length < bytesLimit) :
    importDetFromLog (harnessOf [discoveryLine table]) =
      if table.length ≤ 1 then .error .null else .ok (table.map DiscoveryEntry.unharvested) := by
  have blocks : (harnessOf [discoveryLine table]).ram .discovery =
      [⟨0, UInt32.ofNat (table.flatMap entryBytes).length, table.flatMap entryBytes⟩] :=
    harnessOf_ram [discoveryLine table] .discovery
  have small : bytesLimit ≤ 2 ^ 32 := by decide
  have covered : (UInt32.ofNat (table.flatMap entryBytes).length).toNat / detRecSize =
      table.length := by
    rw [UInt32.toNat_ofNat', length_flatMap_entryBytes,
      Nat.mod_eq_of_lt (Nat.lt_of_lt_of_le fits small), Nat.mul_div_cancel_left _ (by decide)]
  have reads := Reads.readMany entryBytes DiscoveryEntry.unharvested table
    fun det member => importEntry_imports (inRange det member)
  obtain ⟨rest, read, _, _⟩ := reads (table.flatMap entryBytes) [] trivial (List.append_nil _).symm
  unfold importDetFromLog
  rw [blocks]
  dsimp only [List.headD_cons]
  rw [covered, read]

theorem parseRecord_full {text : List Char} (full : bytesLimit ≤ detRecSize * table.length)
    (th : TestHarness) (skipped : consumeWhitespace text = (discoveryLine table).text ++ []) :
    parseRecord (text, th) (.ram .discovery) = .error .null := by
  have header : recordHeader (.ram .discovery) text = .ok (some 0, ' ' :: '{' ::
      ((discoveryLine table).listText ++ ('}' :: ((discoveryLine table).ending ++ [])))) :=
    recordHeader_keyed (fun _ _ => rfl) skipped
  rw [← length_flatMap_entryBytes] at full
  obtain ⟨behind, read⟩ := consumeBytes_full (gaps_blank (discoveryLine table)) full
    (opened ((discoveryLine table).gaps.1 ++ (printBytes (table.flatMap entryBytes) ++
      ((discoveryLine table).gaps.2 ++ ('}' :: ((discoveryLine table).ending ++ []))))))
  rw [listText_append] at header
  unfold parseRecord
  dsimp only
  rw [header]
  change (consumeBytes (' ' :: '{' :: _) >>= _) = _
  rw [show (discoveryLine table).items = printBytes (table.flatMap entryBytes) from rfl, read]
  rfl

/-- A table there is no room for stops the parser. -/
theorem umrCreateTestHarness_full (full : bytesLimit ≤ detRecSize * table.length) :
    umrCreateTestHarness (logText [discoveryLine table]) = .error .null := by
  have starts : Starts ((discoveryLine table).text ++ []) := logText_starts [discoveryLine table]
  have skipped := consumeWhitespace_starts starts
  have different : Record.ram .gcaconfig ≠ Record.ram .discovery := by decide
  have some_text : (discoveryLine table).text ++ [] ≠ [] := by
    intro empty
    have long := two_le_text (discoveryLine table)
    rw [List.append_nil] at empty
    rw [empty] at long
    exact absurd long (by decide)
  have turn : scriptTurn ((discoveryLine table).text ++ [], TestHarness.empty) = .error .null := by
    unfold scriptTurn records
    dsimp only
    rw [skipped, List.foldlM_cons, parseRecord_other different TestHarness.empty skipped]
    change ((_ : List Record).foldlM parseRecord ((discoveryLine table).text ++ [], _)) = _
    rw [List.foldlM_cons, parseRecord_full full TestHarness.empty skipped]
    rfl
  rw [logText_cons, umrCreateTestHarness, scriptLoop]
  change (if (discoveryLine table).text ++ [] = [] then _ else _) = _
  rw [if_neg some_text]
  change (scriptTurn ((discoveryLine table).text ++ [], TestHarness.empty) >>= _) = _
  rw [turn]
  rfl

/-- The replay has the entries of a table that there is room for, none of them harvested. -/
theorem replayedTable_dump (inRange : ∀ det ∈ table, det.InRange) (filled : table ≠ []) :
    replayedTable (dumpDiscoveryToLog table) =
      if bytesLimit ≤ detRecSize * table.length ∨ table.length ≤ 1 then .error .null
      else .ok (table.map DiscoveryEntry.unharvested) := by
  rw [dumpDiscoveryToLog_eq inRange, replayedTable]
  by_cases full : bytesLimit ≤ detRecSize * table.length
  · rw [umrCreateTestHarness_full full, if_pos (.inl full)]
    rfl
  · have parsable : (discoveryLine table).Parsable := by
      refine ⟨?_, ?_, fun _ => rfl, (fun wide => nomatch wide), fun name named => nomatch named⟩
      · rw [discoveryLine_count]
        exact Nat.mul_ne_zero (by decide) (mt List.length_eq_zero_iff.mp filled)
      · rw [discoveryLine_count]
        exact Nat.lt_of_not_le full
    have parsed : umrCreateTestHarness (logText [discoveryLine table]) =
        .ok (harnessOf [discoveryLine table]) :=
      umrCreateTestHarness_logText fun line member => by
        rw [List.mem_singleton.mp member]
        exact parsable
    rw [parsed]
    simp only [full, false_or]
    exact importDetFromLog_discoveryLine inRange (Nat.lt_of_not_le full)

theorem unharvested_eq_self_iff {det : DiscoveryEntry} :
    det.unharvested = det ↔ det.harvest = 0 := by
  constructor
  · intro same
    rw [← same]
    rfl
  · intro unset
    apply DiscoveryEntry.ext <;> first | rfl | exact unset.symm

theorem map_unharvested_eq_self_iff :
    table.map DiscoveryEntry.unharvested = table ↔ ∀ det ∈ table, det.harvest = 0 := by
  constructor
  · intro same det member
    have kept := List.map_inj_left.mp (same.trans (List.map_id table).symm) det member
    exact unharvested_eq_self_iff.mp kept
  · intro unset
    have kept : table.map DiscoveryEntry.unharvested = table.map id :=
      List.map_congr_left fun det member => unharvested_eq_self_iff.mpr (unset det member)
    rw [kept, List.map_id]

theorem blank_inRange : DiscoveryEntry.blank.InRange := by decide

theorem discoveryTable_inRange {entries : List DiscoveryEntry}
    (inRange : ∀ det ∈ entries, det.InRange) : ∀ det ∈ discoveryTable entries, det.InRange := by
  intro det member
  rcases List.mem_append.mp member with filled | last
  · exact inRange det filled
  · rw [List.mem_singleton.mp last]
    exact blank_inRange

/-- The table a replay builds its device from is the recorded one. -/
def DiscoveryReplays (table : List DiscoveryEntry) : Prop :=
  replayedTable (dumpDiscoveryToLog table) = .ok table

/-- Every table of at least one entry comes back whose records there is room for and
whose harvest flags are all zero, and no other one does. -/
theorem discoveryReplays_iff {entries : List DiscoveryEntry}
    (inRange : ∀ det ∈ entries, det.InRange) :
    DiscoveryReplays (discoveryTable entries) ↔
      entries ≠ [] ∧ detRecSize * (entries.length + 1) < 2 ^ 31 - 32 ∧
        ∀ det ∈ entries, det.harvest = 0 := by
  have length : (discoveryTable entries).length = entries.length + 1 := List.length_append
  have replayed := replayedTable_dump (discoveryTable_inRange inRange)
    (List.append_ne_nil_of_right_ne_nil entries (List.cons_ne_nil _ _))
  unfold DiscoveryReplays
  rw [replayed, length]
  constructor
  · intro same
    by_cases few : bytesLimit ≤ detRecSize * (entries.length + 1) ∨ entries.length + 1 ≤ 1
    · rw [if_pos few] at same
      nomatch same
    · rw [if_neg few, Except.ok.injEq] at same
      rw [not_or] at few
      refine ⟨?_, Nat.lt_of_not_le few.1, ?_⟩
      · rintro rfl
        exact few.2 (Nat.le_refl 1)
      · intro det member
        exact map_unharvested_eq_self_iff.mp same det (List.mem_append_left _ member)
  · rintro ⟨filled, fits, unset⟩
    have positive := List.length_pos_iff.mpr filled
    have room : ¬ (bytesLimit ≤ detRecSize * (entries.length + 1) ∨ entries.length + 1 ≤ 1) := by
      rw [not_or]
      exact ⟨Nat.not_le.mpr fits, by omega⟩
    rw [if_neg room]
    have unsetTable : ∀ det ∈ discoveryTable entries, det.harvest = 0 := by
      intro det member
      rcases List.mem_append.mp member with listed | last
      · exact unset det listed
      · rw [List.mem_singleton.mp last]
        rfl
    rw [map_unharvested_eq_self_iff.mpr unsetTable]

def gcEntry : DiscoveryEntry := { DiscoveryEntry.blank with
  ipname := storedInto 128 [0x67, 0x63]
  maj := 11
  segments := storedInto 32 [0x1260, 0xA000] }

def harvestedGc : DiscoveryEntry := { gcEntry with inst := 1, logicalInst := -1, harvest := 1 }

def gcOnly (cmnname : List UInt8) (_ _ _ : Int) : Option Unit :=
  if cmnname = cstring "gc" then some () else none

theorem oneInstance_replays : DiscoveryReplays (discoveryTable [gcEntry]) := by
  refine (discoveryReplays_iff ?_).mpr ⟨List.cons_ne_nil _ _, by decide, ?_⟩
  · intro det member
    rw [List.mem_singleton.mp member]
    decide
  · intro det member
    rw [List.mem_singleton.mp member]
    rfl

/-- The replay builds a block for the instance that is not there. -/
theorem harvestedGc_lost :
    ¬DiscoveryReplays (discoveryTable [gcEntry, harvestedGc]) ∧
      replayedTable (dumpDiscoveryToLog (discoveryTable [gcEntry, harvestedGc])) =
        .ok (discoveryTable [gcEntry, harvestedGc.unharvested]) ∧
      ipBlocks gcOnly (fun det _ => det.inst) (discoveryTable [gcEntry, harvestedGc]) = [0] ∧
      ipBlocks gcOnly (fun det _ => det.inst) (discoveryTable [gcEntry, harvestedGc.unharvested]) =
        [0, 1] := by
  have inRange : ∀ det ∈ discoveryTable [gcEntry, harvestedGc], det.InRange := by decide
  have replayed : replayedTable (dumpDiscoveryToLog (discoveryTable [gcEntry, harvestedGc])) =
      .ok (discoveryTable [gcEntry, harvestedGc.unharvested]) :=
    replayedTable_dump inRange (List.cons_ne_nil _ _)
  refine ⟨?_, replayed, ?_, ?_⟩
  · intro same
    have tables := Except.ok.inj (replayed.symm.trans same)
    have flags : ([0, 0, 0] : List UInt8) = [0, 1, 0] :=
      congrArg (List.map DiscoveryEntry.harvest) tables
    exact absurd flags (by decide)
  · decide
  · decide

end Replay

end Umr.Harness
