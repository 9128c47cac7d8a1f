import Umr.Database.RegFile

/-!
# Register files, with any table of segments

`read_ip_block` and `umr_database_read_ipblock` on a file whose lines are scanned.  A register bound to
MMIO is placed by its segment, if the table has it.
-/

set_option autoImplicit false

namespace Umr.Database

open Umr.Lib Umr.Harness

/-! ## Words and lines -/

theorem fgetsKeep_whole {size : Nat} {line : List Char} (one : '\n' ∉ line) (plain : nul ∉ line)
    (short : line.length + 1 < size) (linebuf rest : List Char) :
    fgetsKeep size linebuf (line ++ '\n' :: rest) = (line ++ ['\n'], rest) := by
  have whole : cString (line ++ ['\n']) = line ++ ['\n'] := by
    refine List.takeWhile_eq_self_iff.mpr fun c member => decide_eq_true ?_
    rcases List.mem_append.mp member with inside | last
    · exact fun same => plain (same ▸ inside)
    · rw [List.mem_singleton.mp last]
      decide
  rw [fgetsKeep, fgets_line one short rest]
  dsimp only
  rw [whole]

def IsName (word : List Char) : Prop := IsWord word ∧ nul ∉ word

theorem IsName.append {first second : List Char} (isFirst : IsName first)
    (solid : ∀ c ∈ second, isspace c = false ∧ c ≠ nul) : IsName (first ++ second) := by
  refine ⟨isFirst.1.append fun c member => (solid c member).1, fun member => ?_⟩
  rcases List.mem_append.mp member with here | there
  · exact isFirst.2 here
  · exact (solid _ there).2 rfl

theorem isdigit_ne_nul {c : Char} (digit : isdigit c = true) : c ≠ nul := by
  rintro rfl
  revert digit
  decide

theorem printInt_solid (value : Int) : ∀ c ∈ printInt value, isspace c = false ∧ c ≠ nul := by
  intro c member
  refine ⟨(printInt_word value).solid c member, ?_⟩
  rw [printInt] at member
  split at member
  · rcases List.mem_cons.mp member with rfl | digit
    · decide
    · exact isdigit_ne_nul (isdigit_printDec _ c digit)
  · exact isdigit_ne_nul (isdigit_printDec _ c member)

theorem blank_space (rest : List Char) : Blank (' ' :: rest) := by
  intro c first
  cases first
  rfl

theorem blank_newline : Blank ['\n'] := by
  intro c first
  cases first
  rfl

theorem space_is_gap : ∀ c ∈ [' '], isspace c = true := by
  intro c member
  rw [List.mem_singleton.mp member]
  rfl

theorem none_is_gap : ∀ c ∈ ([] : List Char), isspace c = true := fun _ member => by cases member

theorem blank_not_isdigit {rest : List Char} (ends : Blank rest) : StopsAt isdigit rest := by
  intro c first
  cases digit : isdigit c with
  | false => rfl
  | true =>
      have blank : (!isspace c) = false := ends c first
      rw [isdigit_not_isspace digit] at blank
      cases blank

theorem scanWord_first {word rest : List Char} (isWord : IsWord word) (ends : Blank rest) :
    scanWord (word ++ rest) = some (word, rest) := scanWord_word none_is_gap isWord ends

theorem scanWord_next {word rest : List Char} (isWord : IsWord word) (ends : Blank rest) :
    scanWord (' ' :: (word ++ rest)) = some (word, rest) := scanWord_word space_is_gap isWord ends

theorem scanInt_next {value : Int} {rest : List Char} (low : -2 ^ 31 ≤ value)
    (high : value < 2 ^ 31) (ends : Blank rest) :
    scanInt (' ' :: (printInt value ++ rest)) = some (value, rest) :=
  scanInt_printInt low high space_is_gap (blank_not_isdigit ends)

/-! ## Registers, with any table of segments -/

theorem mapM_forall₂ {α β γ ε : Type} {f : α → Except ε β} {R : β → γ → Prop} {as : List α}
    {cs : List γ} : (∃ bs, as.mapM f = .ok bs ∧ List.Forall₂ R bs cs) ↔
      List.Forall₂ (fun a c => ∃ b, f a = .ok b ∧ R b c) as cs := by
  induction as generalizing cs with
  | nil =>
      constructor
      · rintro ⟨bs, ran, all⟩
        cases ran
        cases all
        exact .nil
      · intro all
        cases all
        exact ⟨[], rfl, .nil⟩
  | cons a as ih =>
      rw [List.mapM_cons]
      constructor
      · rintro ⟨bs, ran, all⟩
        cases first : f a with
        | error fault =>
            rw [first] at ran
            cases ran
        | ok b =>
            cases later : as.mapM f with
            | error fault =>
                rw [first, later] at ran
                cases ran
            | ok more =>
                rw [first, later] at ran
                cases ran
                cases all with
                | cons here behind => exact .cons ⟨b, first, here⟩ (ih.mp ⟨more, later, behind⟩)
      · intro all
        cases all with
        | cons here behind =>
            obtain ⟨b, first, related⟩ := here
            obtain ⟨more, later, rest⟩ := ih.mpr behind
            refine ⟨b :: more, ?_, .cons related rest⟩
            rw [first, later]
            rfl

structure RegRecord.Scans (record : RegRecord) : Prop where
  fields : (scanReg blankReg record.line).2 = true
  nobits : record.fields.nobits.toNat = record.bits.length
  bits : ∀ line ∈ record.bits, (scanBit blankBit line).2 = true
  names : record.NamesFit

theorem RegRecord.WellFormed.scans {record : RegRecord} (wf : record.WellFormed)
    (names : record.NamesFit) : record.Scans := ⟨wf.fields, wf.nobits, wf.bits, names⟩

def placeRecord (segments : Option (Nat → Option UInt64)) (record : RegRecord) :
    Except RegFault Register :=
  (placed segments record.fields).map fun addr =>
    { record.register (fun _ => 0) with addr := addr }

theorem placeRecord_congr {table other : Nat → Option UInt64} {record : RegRecord}
    (same : table record.fields.idx.toNat = other record.fields.idx.toNat) :
    placeRecord (some table) record = placeRecord (some other) record := by
  unfold placeRecord placed
  dsimp only
  rw [same]

theorem readRegister_place {size : Nat} (room : 256 ≤ size)
    (segments : Option (Nat → Option UInt64)) (stale : Stale) (x : Nat) {record : RegRecord}
    (scans : record.Scans) {text : List Char} (short : ShortLines text)
    {more : List (List Char)} (lines : chunks 256 text = record.bits ++ more) :
    ∃ rest, ShortLines rest ∧ chunks 256 rest = more ∧
      readRegister size segments stale x record.line text =
        (placeRecord segments record).map fun reg => (reg, [], rest) := by
  obtain ⟨rest, restShort, restLines, bits⟩ := @readBits_lines size room (stale.bit x) more
    record.bits 0 record.line text short scans.bits lines
  refine ⟨rest, restShort, restLines, ?_⟩
  have fields : (scanReg blankReg record.line).1 = record.fields := rfl
  rw [if_pos scans.names.2, ← scans.nobits] at bits
  rw [readRegister, scanReg_stale scans.fields]
  dsimp only
  rw [fields, checkName, if_pos scans.names.1, placeRecord]
  cases placed segments record.fields with
  | error fault => rfl
  | ok addr =>
      dsimp only [bind, Except.bind]
      rw [bits]
      rfl

theorem readRegisters_place {size : Nat} (room : 256 ≤ size) (goes : Nat → Bool)
    (segments : Option (Nat → Option UInt64)) (stale : Stale) (records : List RegRecord) :
    ∀ {fuel x : Nat} {text : List Char}, (∀ record ∈ records, record.Scans) → ShortLines text →
      chunks 256 text = recordLines records → records.length ≤ fuel →
      readRegisters size goes segments stale fuel x text =
        ((reached goes x records).mapM (placeRecord segments)).map fun regs => ⟨regs, []⟩ := by
  induction records with
  | nil =>
      intro fuel x text _ _ lines _
      cases fuel with
      | zero => rfl
      | succ fuel =>
          rw [readRegisters, reached, fgets_ended lines]
          exact ite_self _
  | cons record records ih =>
      intro fuel x text scans short lines enough
      obtain ⟨fuel, rfl⟩ : ∃ more, fuel = more + 1 :=
        ⟨fuel - 1, by rw [List.length_cons] at enough; omega⟩
      obtain ⟨scansHere, scansLater⟩ := List.forall_mem_cons.mp scans
      have first : chunks 256 text = record.line :: (record.bits ++ recordLines records) := lines
      obtain ⟨chunk, rest, read, isLine, restShort, restLines⟩ := fgets_of_chunks short first room
      obtain ⟨behind, behindShort, behindLines, stored⟩ := readRegister_place room segments stale
        x scansHere restShort restLines
      have further := @ih fuel (x + 1) behind scansLater behindShort behindLines
        (Nat.le_of_succ_le_succ enough)
      rw [readRegisters, reached]
      by_cases going : goes x = true
      · rw [if_pos going, if_pos going, read]
        dsimp only
        rw [isLine, stored, List.mapM_cons]
        cases placeRecord segments record with
        | error fault => rfl
        | ok reg =>
            change (do
              let further ← readRegisters size goes segments stale fuel (x + 1) behind
              pure (further.cons reg [])) = _
            rw [further]
            cases (reached goes (x + 1) records).mapM (placeRecord segments) with
            | error fault => rfl
            | ok regs => rfl
      · rw [if_neg going, if_neg going]
        rfl

/-! ## The files -/

structure RegContents where
  noRegs : UInt32
  records : List RegRecord

structure RegContents.Scans (contents : RegContents) (text : List Char) : Prop where
  short : ShortLines text
  lines : ∃ first, chunks 256 text = first :: recordLines contents.records ∧
    (scanUnsigned first).map Prod.fst = some contents.noRegs
  records : ∀ record ∈ contents.records, record.Scans
  slots : contents.records.length ≤ contents.noRegs.toNat

/-- A well-formed file whose registers have slots and whose names have room. -/
structure RegContents.In (contents : RegContents) (text : List Char) : Prop where
  file : RegFile text contents.noRegs contents.records
  slots : contents.records.length ≤ contents.noRegs.toNat
  names : ∀ record ∈ contents.records, record.NamesFit

theorem RegContents.In.scans {contents : RegContents} {text : List Char}
    (holds : contents.In text) : contents.Scans text :=
  ⟨holds.file.short, holds.file.lines,
    fun record member => (holds.file.records record member).scans (holds.names record member),
    holds.slots⟩

section Files
variable {contents : RegContents} {text : List Char}

/-- The first line is read the same way into both buffers. -/
theorem RegContents.Scans.first (holds : contents.Scans text) (stale : UInt32) :
    ∃ first rest, (∀ size linebuf, 256 ≤ size → fgetsKeep size linebuf text = (first, rest)) ∧
      announced stale first = contents.noRegs ∧ ShortLines rest ∧
      chunks 256 rest = recordLines contents.records ∧ contents.records.length ≤ rest.length := by
  obtain ⟨first, lines, number⟩ := holds.lines
  obtain ⟨chunk, rest, read, isFirst, restShort, restLines⟩ :=
    fgets_of_chunks holds.short lines (Nat.le_refl 256)
  refine ⟨first, rest, fun size linebuf room => ?_, ?_, restShort, restLines, ?_⟩
  · rw [fgetsKeep, holds.short.fgets_eq room, read]
    dsimp only
    rw [isFirst]
  · rw [announced, number]
    rfl
  · have bound := chunks_length_le 256 rest
    rw [restLines] at bound
    exact Nat.le_trans (length_le_recordLines contents.records) bound

theorem readIpBlock_contents (holds : contents.In text) (stale : Stale) (det : DiscoveryEntry)
    (nit : ScanItem) :
    readIpBlock stale det nit (some text) =
      .ok (some ⟨blockName det, contents.noRegs,
        contents.records.map (RegRecord.register (entrySegments det)),
        ⟨det.die, det.maj, det.min, det.rev, det.inst, det.logicalInst⟩⟩, []) := by
  rw [readIpBlock_file stale det nit holds.file, if_pos holds.names]

def NamesEntry (soc15 : Option (List Soc15)) (soc15name : List Char) (entry : Option Soc15) : Prop :=
  soc15.map (fun table => table.find? fun entry => decide (entry.ipname = soc15name)) =
    entry.map some

theorem umrDatabaseReadIpblock_contents (holds : contents.Scans text) (stale : Stale)
    {soc15 : Option (List Soc15)} {entry : Option Soc15} {soc15name : List Char}
    (cmnname : List Char) {filename : List Char} (named : IsWord filename)
    (found : NamesEntry soc15 soc15name entry) (inst : Nat) :
    umrDatabaseReadIpblock stale soc15 (some text) filename cmnname soc15name inst =
      (contents.records.mapM
        (placeRecord (entry.map fun entry => soc15Segments entry inst))).map fun regs =>
          (some ⟨cmnname, contents.noRegs, regs, fillIpverFromPath filename⟩, []) := by
  obtain ⟨first, rest, read, number, short, lines, enough⟩ := holds.first stale.noRegs
  have regs := @readRegisters_place 256 (by decide) (fun x => decide (x ≠ contents.noRegs.toNat))
    (entry.map fun entry => soc15Segments entry inst) stale contents.records rest.length 0 rest
    holds.records short lines enough
  rw [reached_announced (Nat.zero_le _), Nat.sub_zero, List.take_of_length_le holds.slots] at regs
  have word : scanWord filename = some (filename, []) := by
    have whole := @scanWord_first filename [] named fun c first => by cases first
    rwa [List.append_nil] at whole
  have known : (entry.map some).any Option.isNone = false := by cases entry <;> rfl
  have joined : (entry.map some).join = entry := by cases entry <;> rfl
  rw [umrDatabaseReadIpblock]
  dsimp only
  rw [found, known, if_neg Bool.false_ne_true, read 256 _ (by decide), word, joined]
  dsimp only [Option.map_some]
  rw [number, regs]
  cases contents.records.mapM
      (placeRecord (entry.map fun entry => soc15Segments entry inst)) with
  | error fault => rfl
  | ok regs => rfl

end Files

end Umr.Database
