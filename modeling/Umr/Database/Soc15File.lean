import Umr.Database.Soc15

/-!
# Well-formed offset files

A file is printed from its sections and read back.  Every section but the last
comes back as it is; the rows that the last section lacks are filled with copies
of its last row.
-/

set_option autoImplicit false

namespace Umr.Database

open Umr.Lib

/-! ## The format -/

structure Cell where
  digits : List Char
  gap : List Char

def Cell.text (cell : Cell) : List Char := '0' :: 'x' :: (cell.digits ++ cell.gap)

def Cell.value (cell : Cell) : UInt64 := UInt64.ofNat (hexValue cell.digits)

structure Cell.WellFormed (cell : Cell) : Prop where
  some_ : cell.digits ≠ []
  digits : ∀ c ∈ cell.digits, isxdigit c = true
  fits : hexValue cell.digits < 2 ^ 64
  blank : ∀ c ∈ cell.gap, isBlank c = true

structure Row where
  lead : List Char
  cells : List Cell

def Row.line (row : Row) : List Char := row.lead ++ row.cells.flatMap Cell.text

def Row.values (row : Row) : List UInt64 := row.cells.map Cell.value

structure Row.WellFormed (row : Row) : Prop where
  lead : ∀ c ∈ row.lead, isBlank c = true
  cells : ∀ cell ∈ row.cells, cell.WellFormed
  /-- the blanks between two offsets -/
  apart : row.cells.IsChain fun cell _ => cell.gap ≠ []
  enough : 8 ≤ row.cells.length
  fits : row.cells.length ≤ maxSeg
  short : row.line.length + 1 < 1024

structure IpSection where
  name : List Char
  rows : List Row

def rowsText (rows : List Row) : List Char := rows.flatMap fun row => row.line ++ ['\n']

def IpSection.text (ip : IpSection) : List Char := ip.name ++ '\n' :: rowsText ip.rows

structure IpSection.WellFormed (ip : IpSection) : Prop where
  short : ip.name.length < 64
  plain : ∀ c ∈ ip.name, c ≠ '\n' ∧ c ≠ nul
  /-- behind its blanks, the name is not read as a hexadecimal number -/
  unnumbered : sscanf0x ((ip.name ++ ['\n']).dropWhile isBlank) = none
  some_ : ip.rows ≠ []
  fits : ip.rows.length ≤ maxInst
  rows : ∀ row ∈ ip.rows, row.WellFormed

def fileText (sections : List IpSection) : List Char := sections.flatMap IpSection.text

def IpSection.entry (ip : IpSection) : Soc15 where
  ipname := ip.name
  off i j := (ip.rows[i]?.bind fun row => row.values[j]?).getD 0

/-! ## A row -/

theorem isBlank_isspace {c : Char} (blank : isBlank c = true) : isspace c = true := by
  rcases of_decide_eq_true blank with rfl | rfl <;> decide

theorem isBlank_ne_newline {c : Char} (blank : isBlank c = true) : c ≠ '\n' := by
  rcases of_decide_eq_true blank with rfl | rfl <;> decide

theorem isBlank_ne_nul {c : Char} (blank : isBlank c = true) : c ≠ nul := by
  rcases of_decide_eq_true blank with rfl | rfl <;> decide

theorem isxdigit_ne_newline {c : Char} (digit : isxdigit c = true) : c ≠ '\n' := by
  rintro rfl
  revert digit
  decide

theorem isxdigit_ne_nul {c : Char} (digit : isxdigit c = true) : c ≠ nul := by
  rintro rfl
  revert digit
  decide

/-- What follows an offset: the blanks in front of the next one, or the end of the line. -/
theorem blank_behind {cell : Cell} {cells : List Cell} (wf : cell.WellFormed)
    (apart : (cell :: cells).IsChain fun cell _ => cell.gap ≠ []) :
    Blank (cell.gap ++ (cells.flatMap Cell.text ++ ['\n'])) := by
  intro c first
  cases gap : cell.gap with
  | cons blank more =>
      rw [gap] at first
      cases first
      change (!isspace c) = false
      rw [isBlank_isspace (wf.blank _ (gap ▸ List.mem_cons_self))]
      rfl
  | nil =>
      cases cells with
      | nil =>
          rw [gap] at first
          cases first
          rfl
      | cons next cells => exact absurd gap (List.isChain_cons_cons.mp apart).1

theorem segmentLoop_cells (cells : List Cell) :
    ∀ {left : Nat}, (∀ cell ∈ cells, cell.WellFormed) →
      cells.IsChain (fun cell _ => cell.gap ≠ []) → cells.length ≤ left →
      segmentLoop left (cells.flatMap Cell.text ++ ['\n']) = cells.map Cell.value := by
  induction cells with
  | nil =>
      intro left _ _ _
      cases left <;> rfl
  | cons cell cells ih =>
      intro left wf apart room
      obtain ⟨left, rfl⟩ : ∃ more, left = more + 1 :=
        ⟨left - 1, by rw [List.length_cons] at room; omega⟩
      have here := wf cell List.mem_cons_self
      have tail := ih (fun other member => wf other (List.mem_cons_of_mem _ member)) apart.of_cons
        (Nat.le_of_succ_le_succ room)
      have behind := blank_behind here apart
      have whole : (cell :: cells).flatMap Cell.text ++ ['\n'] =
          '0' :: 'x' :: (cell.digits ++ (cell.gap ++ (cells.flatMap Cell.text ++ ['\n']))) := by
        simp [Cell.text]
      have scanned : sscanf0x ('0' :: 'x' :: (cell.digits ++ (cell.gap ++
          (cells.flatMap Cell.text ++ ['\n'])))) = some cell.value :=
        sscanfHex_digits here.some_ here.digits here.fits behind
      have number : ('0' :: 'x' :: (cell.digits ++ (cell.gap ++ (cells.flatMap Cell.text ++
          ['\n'])))).dropWhile (fun c => decide (c = 'x' ∨ isxdigit c = true)) =
          cell.gap ++ (cells.flatMap Cell.text ++ ['\n']) := by
        refine @dropWhile_append_stop _ ('0' :: 'x' :: cell.digits) _ ?_ ?_
        · simp only [List.forall_mem_cons, decide_eq_true_eq]
          exact ⟨Or.inr rfl, Or.inl trivial, fun c member => Or.inr (here.digits c member)⟩
        · intro c first
          have blank : (!isspace c) = false := behind c first
          refine decide_eq_false ?_
          rintro (rfl | digit)
          · cases blank
          · rw [isxdigit_not_isspace digit] at blank
            cases blank
      have gap : (cell.gap ++ (cells.flatMap Cell.text ++ ['\n'])).dropWhile isBlank =
          cells.flatMap Cell.text ++ ['\n'] := by
        refine dropWhile_append_stop here.blank ?_
        cases cells with
        | nil =>
            intro c first
            cases first
            rfl
        | cons next cells =>
            intro c first
            cases first
            rfl
      rw [whole, segmentLoop, if_neg (by simp), scanned]
      dsimp only
      rw [number, gap, tail]
      rfl

theorem Row.parse {row : Row} (wf : row.WellFormed) :
    parseSegments (row.line ++ ['\n']) = row.values := by
  have start : (row.line ++ ['\n']).dropWhile isBlank = row.cells.flatMap Cell.text ++ ['\n'] := by
    rw [Row.line, List.append_assoc]
    refine dropWhile_append_stop wf.lead ?_
    intro c first
    cases cells : row.cells with
    | nil =>
        rw [cells] at first
        cases first
        rfl
    | cons cell cells_ =>
        rw [cells] at first
        cases first
        rfl
  rw [parseSegments, start]
  exact segmentLoop_cells row.cells wf.cells wf.apart wf.fits

theorem Row.values_length (row : Row) : row.values.length = row.cells.length := List.length_map _

theorem Row.values_ne_nil {row : Row} (wf : row.WellFormed) : row.values ≠ [] := by
  intro none_
  have enough := wf.enough
  rw [← row.values_length, none_] at enough
  cases enough

theorem Row.plain {row : Row} (wf : row.WellFormed) : ∀ c ∈ row.line, c ≠ '\n' ∧ c ≠ nul := by
  intro c member
  rcases List.mem_append.mp member with lead | inCells
  · exact ⟨isBlank_ne_newline (wf.lead c lead), isBlank_ne_nul (wf.lead c lead)⟩
  · obtain ⟨cell, isCell, inCell⟩ := List.mem_flatMap.mp inCells
    have cellWf := wf.cells cell isCell
    rw [Cell.text, List.mem_cons, List.mem_cons, List.mem_append] at inCell
    rcases inCell with rfl | rfl | digit | gap
    · decide
    · decide
    · exact ⟨isxdigit_ne_newline (cellWf.digits c digit), isxdigit_ne_nul (cellWf.digits c digit)⟩
    · exact ⟨isBlank_ne_newline (cellWf.blank c gap), isBlank_ne_nul (cellWf.blank c gap)⟩

theorem fgetsKeep_line {line : List Char} (plain : ∀ c ∈ line, c ≠ '\n' ∧ c ≠ nul)
    (short : line.length + 1 < 1024) (linebuf rest : List Char) :
    fgets 1024 (line ++ '\n' :: rest) = some (line ++ ['\n'], rest) ∧
      cString (line ++ ['\n']) = line ++ ['\n'] ∧
      fgetsKeep 1024 linebuf (line ++ '\n' :: rest) = (line ++ ['\n'], rest) := by
  have read := fgets_line (fun inside => (plain _ inside).1 rfl) short rest
  have whole : cString (line ++ ['\n']) = line ++ ['\n'] := by
    refine List.takeWhile_eq_self_iff.mpr ?_
    intro c member
    refine decide_eq_true ?_
    rcases List.mem_append.mp member with inside | last
    · exact (plain c inside).2
    · rw [List.mem_singleton.mp last]
      decide
  refine ⟨read, whole, ?_⟩
  rw [fgetsKeep, read]
  dsimp only
  rw [whole]

theorem IpSection.parse_name {ip : IpSection} (wf : ip.WellFormed) :
    parseSegments (ip.name ++ ['\n']) = [] := by
  change segmentLoop (255 + 1) ((ip.name ++ ['\n']).dropWhile isBlank) = []
  rw [segmentLoop, wf.unnumbered]
  exact ite_self _

/-! ## The rows of a section -/

def lastLine (linebuf : List Char) : List Row → List Char
  | [] => linebuf
  | row :: rows => lastLine (row.line ++ ['\n']) rows

theorem readRows_rows (more : Nat) (rest : List Char) (rows : List Row)
    (wf : ∀ row ∈ rows, row.WellFormed) (linebuf : List Char) :
    readRows (rows.length + more) linebuf (rowsText rows ++ rest) =
      { readRows more (lastLine linebuf rows) rest with
        rows := rows.map Row.values ++ (readRows more (lastLine linebuf rows) rest).rows } := by
  induction rows generalizing linebuf with
  | nil => simp [rowsText, lastLine]
  | cons row rows ih =>
      have rowWf := wf row List.mem_cons_self
      have line := (fgetsKeep_line (Row.plain rowWf) rowWf.short linebuf (rowsText rows ++ rest)).2.2
      have text : rowsText (row :: rows) ++ rest = row.line ++ '\n' :: (rowsText rows ++ rest) := by
        simp [rowsText]
      have valid : ¬ row.values.length < 8 := by
        rw [row.values_length]
        exact Nat.not_lt.mpr rowWf.enough
      have behind := ih (fun other member => wf other (List.mem_cons_of_mem _ member))
        (row.line ++ ['\n'])
      rw [text, List.length_cons, Nat.add_right_comm, readRows]
      dsimp only
      rw [line, row.parse rowWf, if_neg (row.values_ne_nil rowWf), if_neg valid, behind]
      rfl

/-- At the end of the file the row in the buffer is stored again and again. -/
theorem readRows_repeat {linebuf : List Char} {segs : List UInt64}
    (row : parseSegments linebuf = segs) (some_ : segs ≠ []) (enough : 8 ≤ segs.length) (more : Nat) :
    readRows more linebuf [] = ⟨List.replicate more segs, [], false, linebuf, []⟩ := by
  induction more with
  | zero => rfl
  | succ more ih =>
      rw [readRows, fgetsKeep, fgets_nil]
      dsimp only
      rw [row, if_neg some_, if_neg (Nat.not_lt.mpr enough), ih]
      rfl

theorem lastLine_getLast {rows : List Row} (some_ : rows ≠ []) (linebuf : List Char) :
    lastLine linebuf rows = (rows.getLast some_).line ++ ['\n'] := by
  induction rows generalizing linebuf with
  | nil => exact absurd rfl some_
  | cons row rows ih =>
      cases rows with
      | nil => rfl
      | cons next rows => exact ih (List.cons_ne_nil _ _) (row.line ++ ['\n'])

/-! ## The file -/

def IpSection.lastValues (ip : IpSection) : List UInt64 :=
  (ip.rows.getLast?.map Row.values).getD []

def IpSection.filled (ip : IpSection) : List (List UInt64) :=
  ip.rows.map Row.values ++ List.replicate (maxInst - ip.rows.length) ip.lastValues

def entriesRead : List IpSection → List Soc15
  | [] => [.empty]
  | [ip] => [Soc15.ofRows ip.name ip.filled, .empty]
  | ip :: next :: rest =>
      Soc15.ofRows ip.name (ip.rows.map Row.values) :: entriesRead (next :: rest)

theorem IpSection.lastValues_getLast {ip : IpSection} (some_ : ip.rows ≠ []) :
    ip.lastValues = (ip.rows.getLast some_).values := by
  rw [IpSection.lastValues, List.getLast?_eq_some_getLast some_]
  rfl

theorem readRows_lastSection {ip : IpSection} (wf : ip.WellFormed) (linebuf : List Char) :
    readRows maxInst linebuf (rowsText ip.rows) =
      ⟨ip.filled, [], false, lastLine linebuf ip.rows, []⟩ := by
  have all := readRows_rows (maxInst - ip.rows.length) [] ip.rows wf.rows linebuf
  have rowWf := wf.rows _ (List.getLast_mem wf.some_)
  have last : parseSegments (lastLine linebuf ip.rows) = ip.lastValues := by
    rw [lastLine_getLast wf.some_, Row.parse rowWf, IpSection.lastValues_getLast wf.some_]
  have values := IpSection.lastValues_getLast wf.some_
  have again := readRows_repeat last (values ▸ Row.values_ne_nil rowWf)
    (by rw [values, Row.values_length]; exact rowWf.enough) (maxInst - ip.rows.length)
  rw [Nat.add_sub_cancel' wf.fits, List.append_nil, again] at all
  exact all

/-- The rows of a section are followed by a name: in its place, or behind all 256 rows. -/
theorem readRows_section {ip next : IpSection} (wf : ip.WellFormed) (nextWf : next.WellFormed)
    (linebuf rest : List Char) :
    ∃ read, readRows maxInst linebuf (rowsText ip.rows ++ (next.name ++ '\n' :: rest)) = read ∧
      read.rows = ip.rows.map Row.values ∧ read.errors = [] ∧
      (read.atName = true ∧ read.linebuf = next.name ++ ['\n'] ∧ read.text = rest ∨
        read.atName = false ∧ read.text = next.name ++ '\n' :: rest) := by
  have all := readRows_rows (maxInst - ip.rows.length) (next.name ++ '\n' :: rest) ip.rows wf.rows
    linebuf
  rw [Nat.add_sub_cancel' wf.fits] at all
  refine ⟨_, all, ?_⟩
  have fits : next.name.length + 1 < 1024 := Nat.lt_of_lt_of_le (Nat.succ_lt_succ nextWf.short) (by decide)
  cases maxInst - ip.rows.length with
  | zero => exact ⟨List.append_nil _, rfl, Or.inr ⟨rfl, rfl⟩⟩
  | succ more =>
      have line := (fgetsKeep_line nextWf.plain fits (lastLine linebuf ip.rows) rest).2.2
      rw [readRows]
      dsimp only
      rw [line, if_pos (IpSection.parse_name nextWf)]
      exact ⟨List.append_nil _, rfl, Or.inl ⟨rfl, rfl, rfl⟩⟩

theorem readBlocks_sections (rest : List IpSection) (restWf : ∀ ip ∈ rest, ip.WellFormed) :
    ∀ {ip : IpSection} {fuel : Nat}, ip.WellFormed →
      (ip.name ++ ['\n']).length + (rowsText ip.rows ++ fileText rest).length < fuel →
      readBlocks fuel (ip.name ++ ['\n']) (rowsText ip.rows ++ fileText rest) =
        .done (entriesRead (ip :: rest)) [] := by
  induction rest with
  | nil =>
      intro ip fuel wf enough
      obtain ⟨fuel, rfl⟩ : ∃ more, fuel = more + 1 := ⟨fuel - 1, by omega⟩
      have text : rowsText ip.rows ++ fileText [] = rowsText ip.rows := List.append_nil _
      rw [text, readBlocks, if_neg (by simp), List.dropLast_concat]
      dsimp only
      rw [readRows_lastSection wf, if_neg Bool.false_ne_true, fgets_nil]
      rfl
  | cons next rest ih =>
      intro ip fuel wf enough
      obtain ⟨fuel, rfl⟩ : ∃ more, fuel = more + 1 := ⟨fuel - 1, by omega⟩
      have nextWf := restWf next List.mem_cons_self
      have fits : next.name.length + 1 < 1024 :=
        Nat.lt_of_lt_of_le (Nat.succ_lt_succ nextWf.short) (by decide)
      have text : fileText (next :: rest) =
          next.name ++ '\n' :: (rowsText next.rows ++ fileText rest) := by
        simp [fileText, IpSection.text]
      have behind : readBlocks fuel (next.name ++ ['\n']) (rowsText next.rows ++ fileText rest) =
          .done (entriesRead (next :: rest)) [] := by
        refine ih (fun other member => restWf other (List.mem_cons_of_mem _ member)) nextWf ?_
        rw [text] at enough
        simp only [List.length_append, List.length_cons, List.length_nil] at enough ⊢
        omega
      obtain ⟨read, isRead, rows, errors, stop⟩ := readRows_section wf nextWf ip.name
        (rowsText next.rows ++ fileText rest)
      rw [text, readBlocks, if_neg (by simp), List.dropLast_concat]
      dsimp only
      rw [isRead, rows, errors]
      rcases stop with ⟨atName, linebuf, left⟩ | ⟨atName, left⟩
      · rw [atName, if_pos rfl, linebuf, left, behind]
        rfl
      · obtain ⟨line, whole, -⟩ := fgetsKeep_line nextWf.plain fits []
          (rowsText next.rows ++ fileText rest)
        rw [atName, if_neg Bool.false_ne_true, left, line]
        dsimp only
        rw [whole, behind]
        rfl

theorem umrDatabaseReadSoc15_sections (filename : List Char) (sections : List IpSection)
    (wf : ∀ ip ∈ sections, ip.WellFormed) :
    umrDatabaseReadSoc15 filename (some (fileText sections)) = .done (entriesRead sections) [] := by
  cases sections with
  | nil => rfl
  | cons ip rest =>
      have ipWf := wf ip List.mem_cons_self
      have fits : ip.name.length + 1 < 1024 :=
        Nat.lt_of_lt_of_le (Nat.succ_lt_succ ipWf.short) (by decide)
      have text : fileText (ip :: rest) = ip.name ++ '\n' :: (rowsText ip.rows ++ fileText rest) := by
        simp [fileText, IpSection.text]
      obtain ⟨line, whole, -⟩ := fgetsKeep_line ipWf.plain fits [] (rowsText ip.rows ++ fileText rest)
      rw [umrDatabaseReadSoc15, text, line]
      dsimp only
      rw [whole]
      refine readBlocks_sections rest (fun other member => wf other (List.mem_cons_of_mem _ member))
        ipWf ?_
      simp only [List.length_append, List.length_cons, List.length_nil]
      omega

/-! ## What comes back -/

theorem spilled_of_short {name : List Char} (short : name.length < 64) (j : Nat) :
    spilled name j = 0 := by
  rw [spilled, List.drop_eq_nil_of_le (by omega)]
  rfl

theorem IpSection.ofRows_entry {ip : IpSection} (wf : ip.WellFormed) :
    Soc15.ofRows ip.name (ip.rows.map Row.values) = ip.entry := by
  rw [Soc15.ofRows, IpSection.entry, Soc15.mk.injEq]
  refine ⟨rfl, funext fun i => funext fun j => ?_⟩
  rw [spilled_of_short wf.short, ite_self, List.getElem?_map]
  cases ip.rows[i]? <;> rfl

theorem IpSection.filled_getElem (ip : IpSection) (i : Nat) :
    ip.filled[i]? =
      if i < ip.rows.length then ip.rows[i]?.map Row.values
      else if i < maxInst then some ip.lastValues else none := by
  rw [IpSection.filled]
  split
  · rename_i inside
    rw [List.getElem?_append_left (by rwa [List.length_map]), List.getElem?_map]
  · rename_i outside
    have shift : i - ip.rows.length < maxInst - ip.rows.length ↔ i < maxInst := by omega
    rw [List.getElem?_append_right (by rw [List.length_map]; omega), List.length_map,
      List.getElem?_replicate]
    simp only [shift]

/-- No row is missing, or a missing row looks like the last one. -/
def IpSection.FilledRight (ip : IpSection) : Prop :=
  ip.rows.length = maxInst ∨ ∀ value ∈ ip.lastValues, value = 0

theorem IpSection.ofRows_filled {ip : IpSection} (wf : ip.WellFormed) :
    Soc15.ofRows ip.name ip.filled = ip.entry ↔ ip.FilledRight := by
  have positive := List.length_pos_of_ne_nil wf.some_
  have fits := wf.fits
  constructor
  · intro same
    by_cases full : ip.rows.length = maxInst
    · exact Or.inl full
    refine Or.inr fun value member => ?_
    obtain ⟨j, isValue⟩ := List.getElem?_of_mem member
    have here := congrFun (congrFun (congrArg Soc15.off same) ip.rows.length) j
    have missing : ip.filled[ip.rows.length]? = some ip.lastValues := by
      rw [ip.filled_getElem, if_neg (Nat.lt_irrefl _), if_pos (by omega)]
    have none_ : ip.rows[ip.rows.length]? = none := List.getElem?_eq_none (Nat.le_refl _)
    simpa [Soc15.ofRows, IpSection.entry, missing, none_, isValue] using here
  · rintro (full | zero)
    · have whole : ip.filled = ip.rows.map Row.values := by
        rw [IpSection.filled, full, Nat.sub_self]
        exact List.append_nil _
      rw [whole]
      exact IpSection.ofRows_entry wf
    · rw [← IpSection.ofRows_entry wf, Soc15.ofRows, Soc15.ofRows, Soc15.mk.injEq]
      refine ⟨rfl, funext fun i => funext fun j => ?_⟩
      rw [spilled_of_short wf.short, ite_self, ip.filled_getElem, List.getElem?_map]
      by_cases inside : i < ip.rows.length
      · rw [if_pos inside]
      · rw [if_neg inside, List.getElem?_eq_none (Nat.le_of_not_lt inside)]
        split
        · cases found : ip.lastValues[j]? with
          | none => simp [found]
          | some value => simp [found, zero value (List.mem_of_getElem? found)]
        · rfl

theorem entriesRead_length (sections : List IpSection) :
    (entriesRead sections).length = sections.length + 1 := by
  induction sections with
  | nil => rfl
  | cons ip rest ih =>
      cases rest with
      | nil => rfl
      | cons next rest => simpa [entriesRead] using ih

theorem entriesRead_iff {sections : List IpSection} (wf : ∀ ip ∈ sections, ip.WellFormed) :
    entriesRead sections = sections.map IpSection.entry ++ [.empty] ↔
      ∀ last ∈ sections.getLast?, last.FilledRight := by
  induction sections with
  | nil => exact iff_of_true rfl fun last member => by cases member
  | cons ip rest ih =>
      have ipWf := wf ip List.mem_cons_self
      cases rest with
      | nil =>
          have only : entriesRead [ip] = [ip].map IpSection.entry ++ [.empty] ↔
              Soc15.ofRows ip.name ip.filled = ip.entry := by
            simp [entriesRead]
          rw [only, IpSection.ofRows_filled ipWf]
          simp
      | cons next rest =>
          have behind := ih fun other member => wf other (List.mem_cons_of_mem _ member)
          rw [List.getLast?_cons_cons, ← behind, entriesRead, IpSection.ofRows_entry ipWf]
          simp

/-- The file's sections come back in order, with at most one empty entry behind them. -/
def ReturnsSections (filename : List Char) (sections : List IpSection) : Prop :=
  ∃ behind errors, umrDatabaseReadSoc15 filename (some (fileText sections)) =
    .done (sections.map IpSection.entry ++ behind) errors ∧ (behind = [] ∨ behind = [.empty])

theorem returnsSections_entries (filename : List Char) {sections : List IpSection}
    (wf : ∀ ip ∈ sections, ip.WellFormed) :
    ReturnsSections filename sections ↔
      entriesRead sections = sections.map IpSection.entry ++ [.empty] := by
  have read := umrDatabaseReadSoc15_sections filename sections wf
  constructor
  · rintro ⟨behind, errors, answer, few⟩
    obtain ⟨entries, -⟩ := Soc15Read.done.inj (read.symm.trans answer)
    rcases few with rfl | rfl
    · have lengths := congrArg List.length entries
      rw [entriesRead_length, List.append_nil, List.length_map] at lengths
      omega
    · exact entries
  · intro entries
    exact ⟨[.empty], [], by rw [read, entries], Or.inr rfl⟩

theorem returnsSections_iff (filename : List Char) {sections : List IpSection}
    (wf : ∀ ip ∈ sections, ip.WellFormed) :
    ReturnsSections filename sections ↔ ∀ last ∈ sections.getLast?, last.FilledRight :=
  (returnsSections_entries filename wf).trans (entriesRead_iff wf)

def eightOf (digit : Char) : Row := ⟨['\t'], List.replicate 8 ⟨[digit], [' ']⟩⟩

theorem eightOf_wellFormed {digit : Char} (isDigit : digit ∈ ['0', '1', '2', '3']) :
    (eightOf digit).WellFormed := by
  have few : digit = '0' ∨ digit = '1' ∨ digit = '2' ∨ digit = '3' := by simpa using isDigit
  refine ⟨by simp [eightOf, isBlank], fun cell isCell => ?_, by simp [eightOf], ?_, ?_, ?_⟩
  · rw [List.eq_of_mem_replicate isCell]
    rcases few with rfl | rfl | rfl | rfl <;>
      exact ⟨by decide, by simp [isxdigit], by decide, by simp [isBlank]⟩
  all_goals rcases few with rfl | rfl | rfl | rfl <;> decide

/-- Sections whose rows differ; the last row is one of zeros. -/
def threeSections : List IpSection :=
  [⟨"GC".toList, [eightOf '1', eightOf '2']⟩, ⟨"HDP".toList, [eightOf '3']⟩,
    ⟨"MP0".toList, [eightOf '2', eightOf '0']⟩]

theorem threeSections_wellFormed : ∀ ip ∈ threeSections, ip.WellFormed := by
  have row : ∀ {digit : Char}, digit ∈ ['0', '1', '2', '3'] → (eightOf digit).WellFormed :=
    fun isDigit => eightOf_wellFormed isDigit
  intro ip member
  simp only [threeSections, List.mem_cons, List.not_mem_nil, or_false] at member
  rcases member with rfl | rfl | rfl
  · exact ⟨by decide, by simp [nul], by decide, by decide, by decide,
      List.forall_mem_cons.mpr ⟨row (by decide), List.forall_mem_singleton.mpr (row (by decide))⟩⟩
  · exact ⟨by decide, by simp [nul], by decide, by decide, by decide,
      List.forall_mem_singleton.mpr (row (by decide))⟩
  · exact ⟨by decide, by simp [nul], by decide, by decide, by decide,
      List.forall_mem_cons.mpr ⟨row (by decide), List.forall_mem_singleton.mpr (row (by decide))⟩⟩

theorem returnsSections_three :
    (∀ ip ∈ threeSections, ip.WellFormed) ∧
      ReturnsSections "soc15.dat".toList threeSections := by
  refine ⟨threeSections_wellFormed, (returnsSections_iff _ threeSections_wellFormed).mpr ?_⟩
  intro last isLast
  cases isLast
  refine Or.inr fun value member => ?_
  have zeros : (eightOf '0').values = List.replicate 8 0 := by decide +kernel
  have here : value ∈ (eightOf '0').values := member
  rw [zeros] at here
  exact List.eq_of_mem_replicate here

def oneRow : List IpSection := [⟨"GC".toList, [eightOf '1']⟩]

/-- A single row is stored for all 256 instances. -/
theorem returnsSections_one_row :
    (∀ ip ∈ oneRow, ip.WellFormed) ∧ ¬ ReturnsSections "soc15.dat".toList oneRow := by
  have wf : ∀ ip ∈ oneRow, ip.WellFormed := by
    intro ip member
    rw [List.mem_singleton.mp member]
    exact ⟨by decide, by simp [nul], by decide, by decide, by decide,
      List.forall_mem_singleton.mpr (eightOf_wellFormed (by decide))⟩
  refine ⟨wf, ?_⟩
  rw [returnsSections_entries _ wf, entriesRead_iff wf]
  intro right
  rcases right _ rfl with full | zero
  · exact absurd full (by decide)
  · exact absurd (zero 1 (by decide)) (by decide)

end Umr.Database
