import Umr.Lib.Scan

/-!
# The table of segment offsets

`umr_database_read_soc15` of `database/read_soc15.c`.  A file is a list of IP
sections, a name followed by one row of offsets per instance.  The reader takes
rows until a line holds no offset, which is then the next name.  A failed
`fgets` leaves the line buffer as it is: after the last row the reader goes on
storing that row, and after a last name it goes on chomping it.
-/

set_option autoImplicit false

namespace Umr.Database

open Umr.Lib

def maxInst : Nat := 256
def maxSeg : Nat := 256

/-! ## One line of offsets -/

def isBlank (c : Char) : Bool := c = '\t' ∨ c = ' '

def sscanf0x : List Char → Option UInt64
  | '0' :: 'x' :: rest => sscanfHex rest
  | _ => none

def segmentLoop : Nat → List Char → List UInt64
  | 0, _ => []
  | left + 1, linebuf =>
      if linebuf.head? = none ∨ linebuf.head? = some '\n' then []
      else
        match sscanf0x linebuf with
        | none => []
        | some seg =>
            let behind := linebuf.dropWhile fun c => c = 'x' ∨ isxdigit c
            seg :: segmentLoop left (behind.dropWhile isBlank)

def parseSegments (linebuf : List Char) : List UInt64 :=
  segmentLoop maxSeg (linebuf.dropWhile isBlank)

/-! ## The reader -/

structure Soc15 where
  ipname : List Char
  off : Nat → Nat → UInt64

def Soc15.empty : Soc15 := ⟨[], fun _ _ => 0⟩

/-- A name of 64 characters and more runs on into the offsets behind it. -/
def spilled (name : List Char) (j : Nat) : UInt64 :=
  UInt64.ofNat (bigEndianValue
    (((name.drop (64 + 8 * j)).take 8).map fun c => c.toNat.toUInt8).reverse)

def Soc15.ofRows (name : List Char) (rows : List (List UInt64)) : Soc15 where
  ipname := name
  off i j := ((rows[i]?.bind (·[j]?)).getD (if i = 0 then spilled name j else 0))

def invalidLine (linebuf : List Char) : List Char :=
  "[ERROR]: Invalid SOC15 offset line [".toList ++ linebuf ++ "]\n".toList

/-- What the row loop leaves: the rows it stored, what it printed, whether it stopped at a line
without offsets, the line buffer and the rest of the file. -/
structure RowsRead where
  rows : List (List UInt64)
  errors : List (List Char)
  atName : Bool
  linebuf : List Char
  text : List Char

def readRows : Nat → List Char → List Char → RowsRead
  | 0, linebuf, text => ⟨[], [], false, linebuf, text⟩
  | left + 1, linebuf, text =>
      let read := fgetsKeep 1024 linebuf text
      let segs := parseSegments read.1
      if segs = [] then ⟨[], [], true, read.1, read.2⟩
      else
        let behind := readRows left read.1 read.2
        let error := if segs.length < 8 then [invalidLine read.1] else []
        { behind with rows := segs :: behind.rows, errors := error ++ behind.errors }

inductive Soc15Read where
  | notFound (errors : List (List Char))
  /-- `linebuf[-1]` is written. -/
  | underflow
  | running
  | done (entries : List Soc15) (errors : List (List Char))

def Soc15Read.behind (entry : Soc15) (errors : List (List Char)) : Soc15Read → Soc15Read
  | .done entries more => .done (entry :: entries) (errors ++ more)
  | other => other

/-- From `retry8` on. -/
def readBlocks : Nat → List Char → List Char → Soc15Read
  | 0, _, _ => .running
  | fuel + 1, linebuf, text =>
      if linebuf = [] then .underflow
      else
        let name := linebuf.dropLast
        let read := readRows maxInst name text
        let entry := Soc15.ofRows name read.rows
        if read.atName then (readBlocks fuel read.linebuf read.text).behind entry read.errors
        else
          match fgets 1024 read.text with
          | none => .done [entry, .empty] read.errors
          | some (chunk, rest) => (readBlocks fuel (cString chunk) rest).behind entry read.errors

def notFoundErrors (filename : List Char) : List (List Char) :=
  ["[ERROR]: SOC15 offset file [".toList ++ filename ++ "] not found\n".toList,
   "[ERROR]: These files are typically found in the source tree under [database/]\n".toList,
   ("[ERROR]: If you have manually relocated the database tree use the '-dbp' option to tell " ++
     "UMR where they are\n").toList]

/-- The file is what `umr_database_open` finds. -/
def umrDatabaseReadSoc15 (filename : List Char) (file : Option (List Char)) : Soc15Read :=
  match file with
  | none => .notFound (notFoundErrors filename)
  | some contents =>
      match fgets 1024 contents with
      | none => .done [.empty] []
      | some (chunk, rest) => readBlocks (contents.length + 1) (cString chunk) rest

/-! ## Termination -/

theorem parseSegments_nil : parseSegments [] = [] := rfl

theorem fgetsKeep_shrinks (linebuf text : List Char) :
    (fgetsKeep 1024 linebuf text).1.length + (fgetsKeep 1024 linebuf text).2.length ≤
      linebuf.length + text.length := by
  unfold fgetsKeep
  cases read : fgets 1024 text with
  | none => exact Nat.le_refl _
  | some taken =>
      have fewer := fgets_takes (by decide) read
      dsimp only
      omega

theorem readRows_shrinks (left : Nat) (linebuf text : List Char) :
    (readRows left linebuf text).linebuf.length + (readRows left linebuf text).text.length ≤
      linebuf.length + text.length := by
  induction left generalizing linebuf text with
  | zero => exact Nat.le_refl _
  | succ left ih =>
      have first := fgetsKeep_shrinks linebuf text
      have behind := ih (fgetsKeep 1024 linebuf text).1 (fgetsKeep 1024 linebuf text).2
      unfold readRows
      dsimp only
      split
      · exact first
      · exact Nat.le_trans behind first

theorem Soc15Read.behind_eq_underflow {entry : Soc15} {errors : List (List Char)}
    {read : Soc15Read} : read.behind entry errors = .underflow ↔ read = .underflow := by
  cases read <;> simp [Soc15Read.behind]

theorem Soc15Read.behind_eq_running {entry : Soc15} {errors : List (List Char)}
    {read : Soc15Read} : read.behind entry errors = .running ↔ read = .running := by
  cases read <;> simp [Soc15Read.behind]

theorem readBlocks_ends {fuel : Nat} {linebuf text : List Char}
    (enough : linebuf.length + text.length < fuel) :
    readBlocks fuel linebuf text ≠ .running := by
  induction fuel generalizing linebuf text with
  | zero => omega
  | succ fuel ih =>
      unfold readBlocks
      by_cases empty : linebuf = []
      · rw [if_pos empty]
        simp
      · have positive := List.length_pos_of_ne_nil empty
        have rows := readRows_shrinks maxInst linebuf.dropLast text
        rw [List.length_dropLast] at rows
        rw [if_neg empty]
        dsimp only
        split
        · rw [Ne, Soc15Read.behind_eq_running]
          exact ih (by omega)
        · cases read : fgets 1024 (readRows maxInst linebuf.dropLast text).text with
          | none => simp
          | some taken =>
              have fewer := fgets_takes (by decide) read
              rw [Ne, Soc15Read.behind_eq_running]
              exact ih (by omega)

/-- The lines of the file that are read in the place of a name are not empty, and the last line
is not one of them unless some beginning of it is read as a row.  At most `left` of the lines
belong to the section before. -/
def NamesReadable : Nat → List (List Char) → Prop
  | _, [] => True
  | left, line :: rest =>
      if 0 < left ∧ parseSegments line ≠ [] then NamesReadable (left - 1) rest
      else
        line ≠ [] ∧
        (rest = [] → ∃ kept ∈ line.dropLast.inits, parseSegments kept ≠ []) ∧
        NamesReadable maxInst rest

theorem namesReadable_name {left : Nat} {line : List Char} {rest : List (List Char)}
    (isName : left = 0 ∨ parseSegments line = []) :
    NamesReadable left (line :: rest) ↔ line ≠ [] ∧
      (rest = [] → ∃ kept ∈ line.dropLast.inits, parseSegments kept ≠ []) ∧
      NamesReadable maxInst rest := by
  have unrow : ¬ (0 < left ∧ parseSegments line ≠ []) := by
    rintro ⟨some_, row⟩
    rcases isName with none_ | name
    · omega
    · exact row name
  rw [NamesReadable, if_neg unrow]

theorem namesReadable_row {left : Nat} {line : List Char} {rest : List (List Char)}
    (row : parseSegments line ≠ []) :
    NamesReadable (left + 1) (line :: rest) ↔ NamesReadable left rest := by
  rw [NamesReadable, if_pos ⟨Nat.succ_pos left, row⟩, Nat.add_sub_cancel]

/-- What is asked of a line in the place of a name, in front of `text`. -/
def NameReadable (linebuf text : List Char) : Prop :=
  linebuf ≠ [] ∧
  (chunks 1024 text = [] → ∃ kept ∈ linebuf.dropLast.inits, parseSegments kept ≠ []) ∧
  NamesReadable maxInst (chunks 1024 text)

theorem namesReadable_zero {text chunk rest : List Char}
    (read : fgets 1024 text = some (chunk, rest)) :
    NamesReadable 0 (chunks 1024 text) ↔ NameReadable (cString chunk) rest := by
  rw [chunks_of_some (by decide) read, namesReadable_name (Or.inl rfl)]
  exact Iff.rfl

/-- The row loop takes the rows away from the front of the file. -/
theorem readRows_names (left : Nat) (linebuf text : List Char)
    (row : chunks 1024 text = [] → parseSegments linebuf ≠ []) :
    NamesReadable left (chunks 1024 text) ↔
      if (readRows left linebuf text).atName then
        NameReadable (readRows left linebuf text).linebuf (readRows left linebuf text).text
      else NamesReadable 0 (chunks 1024 (readRows left linebuf text).text) := by
  induction left generalizing linebuf text with
  | zero => exact Iff.rfl
  | succ left ih =>
      unfold readRows fgetsKeep
      cases read : fgets 1024 text with
      | none =>
          have ended := chunks_of_none read
          have again := ih linebuf text row
          dsimp only
          rw [if_neg (row ended)]
          rw [ended] at again ⊢
          exact again
      | some taken =>
          obtain ⟨chunk, rest⟩ := taken
          have first := chunks_of_some (by decide) read
          dsimp only
          rw [first]
          by_cases name : parseSegments (cString chunk) = []
          · rw [if_pos name, namesReadable_name (Or.inr name)]
            exact Iff.rfl
          · rw [if_neg name, namesReadable_row name]
            exact ih (cString chunk) rest fun _ => name

/-- Behind the last line the name is chomped until it is empty or read as a row. -/
theorem readRows_ended (left : Nat) (linebuf : List Char) :
    (readRows (left + 1) linebuf []).atName = decide (parseSegments linebuf = []) ∧
      (parseSegments linebuf = [] → readRows (left + 1) linebuf [] = ⟨[], [], true, linebuf, []⟩) ∧
      (readRows (left + 1) linebuf []).text = [] := by
  induction left with
  | zero =>
      unfold readRows
      rw [fgetsKeep, fgets_nil]
      by_cases name : parseSegments linebuf = [] <;> simp [name, readRows]
  | succ left ih =>
      unfold readRows
      rw [fgetsKeep, fgets_nil]
      by_cases name : parseSegments linebuf = []
      · simp [name]
      · simp [name, ih]

/-- Chomping a name that is read as one does not change whether it is readable. -/
theorem nameReadable_dropLast {linebuf : List Char} (some_ : linebuf ≠ [])
    (name : parseSegments linebuf.dropLast = []) :
    NameReadable linebuf.dropLast [] ↔ NameReadable linebuf [] := by
  have ended : chunks 1024 [] = [] := rfl
  unfold NameReadable
  rw [ended]
  constructor
  · rintro ⟨-, beginning, -⟩
    obtain ⟨kept, isKept, row⟩ := beginning rfl
    refine ⟨some_, fun _ => ⟨kept, ?_, row⟩, trivial⟩
    rw [List.mem_inits] at isKept ⊢
    exact isKept.trans (List.dropLast_prefix _)
  · rintro ⟨-, beginning, -⟩
    obtain ⟨kept, isKept, row⟩ := beginning rfl
    rw [List.mem_inits] at isKept
    have short : kept ≠ linebuf.dropLast := fun same => row (same ▸ name)
    have inner : kept <+: linebuf.dropLast.dropLast := by
      obtain ⟨rest, whole⟩ := isKept
      have more : rest ≠ [] := by
        rintro rfl
        exact short (by rw [← whole, List.append_nil])
      rw [← whole, List.dropLast_append_of_ne_nil more]
      exact List.prefix_append _ _
    refine ⟨?_, fun _ => ⟨kept, (List.mem_inits _ _).mpr inner, row⟩, trivial⟩
    rintro empty
    rw [empty] at inner
    rw [List.prefix_nil.mp inner] at row
    exact row parseSegments_nil

theorem readBlocks_readable {fuel : Nat} {linebuf text : List Char}
    (enough : linebuf.length + text.length < fuel) :
    readBlocks fuel linebuf text ≠ .underflow ↔ NameReadable linebuf text := by
  induction fuel generalizing linebuf text with
  | zero => omega
  | succ fuel ih =>
      unfold readBlocks
      by_cases empty : linebuf = []
      · rw [if_pos empty]
        simp [NameReadable, empty]
      have positive := List.length_pos_of_ne_nil empty
      have rows := readRows_shrinks maxInst linebuf.dropLast text
      rw [List.length_dropLast] at rows
      rw [if_neg empty]
      dsimp only
      cases read : fgets 1024 text with
      | none =>
          have isNil : text = [] := by
            unfold fgets at read
            split at read
            · assumption
            · cases read
          subst isNil
          obtain ⟨atName, stopped, rest⟩ := readRows_ended 255 linebuf.dropLast
          change (readRows maxInst linebuf.dropLast []).atName = _ at atName
          change (readRows maxInst linebuf.dropLast []).text = _ at rest
          by_cases name : parseSegments linebuf.dropLast = []
          · have here := stopped name
            change readRows maxInst linebuf.dropLast [] = _ at here
            rw [here, if_pos rfl, Ne, Soc15Read.behind_eq_underflow,
              ← nameReadable_dropLast empty name]
            refine ih ?_
            rw [List.length_dropLast]
            rw [List.length_nil] at enough ⊢
            omega
          · rw [atName, rest, decide_eq_false name, if_neg Bool.false_ne_true, fgets_nil]
            refine iff_of_true (by simp) ⟨empty, fun _ => ⟨linebuf.dropLast, ?_, name⟩, trivial⟩
            exact (List.mem_inits _ _).mpr List.prefix_rfl
      | some taken =>
          have more : chunks 1024 text ≠ [] := by
            rw [chunks_of_some (by decide) read]
            exact List.cons_ne_nil _ _
          have names := readRows_names maxInst linebuf.dropLast text (absurd · more)
          have here : NameReadable linebuf text ↔ NamesReadable maxInst (chunks 1024 text) :=
            ⟨fun readable => readable.2.2, fun readable => ⟨empty, (absurd · more), readable⟩⟩
          rw [here, names]
          split
          · rw [Ne, Soc15Read.behind_eq_underflow]
            exact ih (by omega)
          · cases next : fgets 1024 (readRows maxInst linebuf.dropLast text).text with
            | none =>
                rw [chunks_of_none next]
                exact iff_of_true (by simp) trivial
            | some taken =>
                obtain ⟨chunk, rest⟩ := taken
                have fewer := fgets_takes (by decide) next
                rw [namesReadable_zero next, Ne, Soc15Read.behind_eq_underflow]
                exact ih (by omega)

/-- The reader returns, and writes nothing in front of its line buffer. -/
def ReadsSafely (filename contents : List Char) : Prop :=
  umrDatabaseReadSoc15 filename (some contents) ≠ .running ∧
    umrDatabaseReadSoc15 filename (some contents) ≠ .underflow

theorem readsSafely_iff (filename contents : List Char) :
    ReadsSafely filename contents ↔ NamesReadable 0 (chunks 1024 contents) := by
  unfold ReadsSafely umrDatabaseReadSoc15
  cases read : fgets 1024 contents with
  | none =>
      rw [chunks_of_none read]
      simp [NamesReadable, read]
  | some taken =>
      obtain ⟨chunk, rest⟩ := taken
      have enough : (cString chunk).length + rest.length < contents.length + 1 :=
        Nat.lt_succ_of_le (fgets_takes (by decide) read).1
      simp only [read]
      rw [namesReadable_zero read, ← readBlocks_readable enough]
      exact and_iff_right (readBlocks_ends enough)

/-- A file that is one name: chomped away character by character. -/
theorem readsSafely_name_only :
    ¬ ReadsSafely "soc15.dat".toList "GC\n".toList := by
  intro safe
  exact safe.2 rfl

end Umr.Database
