import Umr.Database.ExportModel
import Umr.Database.Soc15File
import Umr.Lib.Interning

/-!
# The offset table of an exported model

There is one section for each name, with a row for each matched entry of that name, in the order
of the table.  A section has 32 rows at least; the missing ones are zero.
-/

set_option autoImplicit false

namespace Umr.Database

open Umr.Lib Umr.Harness

/-! ## The sections -/

def ipNames (exps : List ExportData) : List (List Char) :=
  (exps.map ExportData.ipname).eraseDups

def rowsOf (exps : List ExportData) (name : List Char) : List ExportData :=
  exps.filter fun exp => exp.ipname = name

def segmentsRow (segments : List UInt64) : Row where
  lead := ['\t']
  cells := segments.map fun segment => ⟨printPadded 8 segment.toNat, [' ']⟩

def entryRow (det : DiscoveryEntry) : Row := segmentsRow det.segments.toList

def blankRow : Row where
  lead := ['\t']
  cells := List.replicate 31 ⟨"00000000".toList, [' ']⟩ ++ [⟨"00000000".toList, []⟩]

def ipSection (exps : List ExportData) (name : List Char) : IpSection where
  name := name
  rows := (rowsOf exps name).map (fun exp => entryRow exp.det) ++
    List.replicate (32 - (rowsOf exps name).length) blankRow

theorem entryRow_line (det : DiscoveryEntry) : (entryRow det).line = offsetRow det := by
  unfold entryRow segmentsRow Row.line offsetRow
  rw [List.flatMap_map]
  refine congrArg ('\t' :: ·) (List.flatMap_congr fun segment _ => ?_)
  rw [Cell.text, List.append_assoc]
  rfl

theorem blankRow_line : blankRow.line = zeroRow := by
  unfold blankRow Row.line zeroRow
  rw [List.flatMap_append, List.flatMap_singleton, List.flatMap_def, List.map_replicate]
  rfl

theorem ipSection_text (exps : List ExportData) (name : List Char) :
    (ipSection exps name).text =
      name ++ '\n' :: (((rowsOf exps name).flatMap fun exp => offsetRow exp.det ++ ['\n']) ++
        (List.replicate (32 - (rowsOf exps name).length) (zeroRow ++ ['\n'])).flatten) := by
  unfold ipSection IpSection.text rowsText
  rw [List.flatMap_append, List.flatMap_map, ← blankRow_line]
  simp only [entryRow_line, List.flatMap_def, List.map_replicate]

/-- The entries whose names were printed are marked. -/
def flagged (printed : List (List Char)) (exp : ExportData) : ExportData :=
  { exp with soc15 := printed.contains exp.ipname }

theorem flagged_ipname (printed : List (List Char)) (exp : ExportData) :
    (flagged printed exp).ipname = exp.ipname := rfl

section Flagged
variable {printed : List (List Char)} {name : List Char}

theorem due_flagged (new : name ∉ printed) (exp : ExportData) :
    (flagged printed exp).due name = decide (exp.ipname = name) := by
  rw [ExportData.due, flagged_ipname]
  by_cases same : exp.ipname = name
  · simp [flagged, same, new]
  · simp [same]

theorem mark_flagged (new : name ∉ printed) (exp : ExportData) :
    (flagged printed exp).mark name = flagged (name :: printed) exp := by
  rw [ExportData.mark, due_flagged new]
  by_cases same : exp.ipname = name
  · rw [if_pos (decide_eq_true same)]
    simp [flagged, same]
  · rw [if_neg (by simpa using same)]
    simp [flagged, same]

theorem rowsOf_cons_ne {exp : ExportData} (other : exp.ipname ≠ name) (exps : List ExportData) :
    rowsOf (exp :: exps) name = rowsOf exps name := by
  rw [rowsOf, List.filter_cons, if_neg (by simpa using other)]
  rfl

theorem ipSection_cons_ne {exp : ExportData} (other : exp.ipname ≠ name) (exps : List ExportData) :
    ipSection (exp :: exps) name = ipSection exps name := by
  rw [ipSection, ipSection, rowsOf_cons_ne other]

end Flagged

def unprinted (printed : List (List Char)) (exps : List ExportData) : List ExportData :=
  exps.filter fun exp => !printed.contains exp.ipname

theorem mem_unprinted {printed : List (List Char)} {exps : List ExportData} {exp : ExportData} :
    exp ∈ unprinted printed exps ↔ exp ∈ exps ∧ exp.ipname ∉ printed := by
  simp [unprinted]

theorem unprinted_cons (printed : List (List Char)) (exp : ExportData) (exps : List ExportData) :
    unprinted printed (exp :: exps) =
      if exp.ipname ∈ printed then unprinted printed exps else exp :: unprinted printed exps := by
  by_cases old : exp.ipname ∈ printed <;> simp [unprinted, old]

theorem mem_ipNames {exps : List ExportData} {name : List Char} :
    name ∈ ipNames exps ↔ ∃ exp ∈ exps, exp.ipname = name := by
  rw [ipNames, List.mem_eraseDups, List.mem_map]

theorem ipNames_unprinted_cons {printed : List (List Char)} {exp : ExportData}
    (new : exp.ipname ∉ printed) (exps : List ExportData) :
    ipNames (unprinted printed (exp :: exps)) =
      exp.ipname :: ipNames (unprinted (exp.ipname :: printed) exps) := by
  rw [unprinted_cons, if_neg new]
  unfold ipNames unprinted
  rw [List.map_cons, List.eraseDups_cons, List.filter_map, List.filter_filter]
  refine congrArg (fun exps => exp.ipname :: (List.map ExportData.ipname exps).eraseDups) ?_
  refine List.filter_congr fun other _ => ?_
  by_cases same : other.ipname = exp.ipname <;> simp [same]

section Text
variable {last : ExportData}

theorem soc15Text_flagged (unnamed : last.ipname = []) (exps : List ExportData) :
    ∀ printed : List (List Char), (∀ exp ∈ exps, exp.ipname ≠ []) →
      soc15Text ((exps ++ [last]).map (flagged printed)) =
        fileText ((ipNames (unprinted printed exps)).map (ipSection exps)) := by
  induction exps with
  | nil =>
      intro printed _
      have ended : (flagged printed last).ipname = [] := unnamed
      change soc15Text [flagged printed last] = []
      rw [soc15Text, if_pos ended]
  | cons exp exps ih =>
      intro printed named
      obtain ⟨here, later⟩ := List.forall_mem_cons.mp named
      rw [List.cons_append, List.map_cons, soc15Text, flagged_ipname, if_neg here]
      by_cases old : exp.ipname ∈ printed
      · have isDone : (flagged printed exp).soc15 = true :=
          List.contains_iff_mem.mpr old
        have same : unprinted printed (exp :: exps) = unprinted printed exps := by
          rw [unprinted_cons, if_pos old]
        rw [if_pos isDone, ih printed later, same]
        refine congrArg fileText (List.map_congr_left fun name member => ?_)
        obtain ⟨other, isOther, rfl⟩ := mem_ipNames.mp member
        have new := (mem_unprinted.mp isOther).2
        have apart : exp.ipname ≠ other.ipname := fun same => new (same ▸ old)
        exact (ipSection_cons_ne apart exps).symm
      · have isNew : (flagged printed exp).soc15 = false :=
          Bool.eq_false_iff.mpr (mt List.contains_iff_mem.mp old)
        have due : (((exp :: (exps ++ [last])).map (flagged printed)).filter
            (ExportData.due exp.ipname)) = (rowsOf (exp :: exps) exp.ipname).map (flagged printed) := by
          have unlike : last.ipname ≠ exp.ipname := fun same => here (same ▸ unnamed)
          rw [List.filter_map, ← List.cons_append, List.filter_append, rowsOf]
          refine congrArg (List.map (flagged printed)) ?_
          have lastOut : [last].filter (ExportData.due exp.ipname ∘ flagged printed) = [] := by
            rw [List.filter_singleton, Function.comp, due_flagged old, decide_eq_false unlike]
            rfl
          rw [lastOut, List.append_nil]
          exact List.filter_congr fun other _ => due_flagged old other
        have marked : ((exps ++ [last]).map (flagged printed)).map (ExportData.mark exp.ipname) =
            (exps ++ [last]).map (flagged (exp.ipname :: printed)) := by
          rw [List.map_map]
          exact List.map_congr_left fun other _ => mark_flagged old other
        have behind : (ipNames (unprinted (exp.ipname :: printed) exps)).map (ipSection exps) =
            (ipNames (unprinted (exp.ipname :: printed) exps)).map (ipSection (exp :: exps)) := by
          refine List.map_congr_left fun name member => ?_
          obtain ⟨other, isOther, rfl⟩ := mem_ipNames.mp member
          have new := (mem_unprinted.mp isOther).2
          have apart : exp.ipname ≠ other.ipname := fun same => new (same ▸ List.mem_cons_self)
          exact (ipSection_cons_ne apart exps).symm
        rw [if_neg (by rw [isNew]; exact Bool.false_ne_true), ← List.map_cons, due, marked,
          ih _ later, ipNames_unprinted_cons old, List.map_cons, behind]
        unfold fileText
        dsimp only
        rw [List.flatMap_cons, ipSection_text, List.flatMap_map, List.length_map, List.append_assoc,
          List.cons_append, List.append_assoc]
        rfl

/-- What is written for entries that have names, in front of the one that was never filled. -/
theorem soc15Text_sections (unnamed : last.ipname = []) {exps : List ExportData}
    (named : ∀ exp ∈ exps, exp.ipname ≠ []) (unmarked : ∀ exp ∈ exps ++ [last], exp.soc15 = false) :
    soc15Text (exps ++ [last]) = fileText ((ipNames exps).map (ipSection exps)) := by
  have all := soc15Text_flagged unnamed exps [] named
  have same : (exps ++ [last]).map (flagged []) = exps ++ [last] := by
    refine (List.map_congr_left fun exp member => ?_).trans (List.map_id _)
    have off : List.contains [] exp.ipname = exp.soc15 := (unmarked exp member).symm
    rw [flagged, id, off]
  have every : unprinted [] exps = exps := List.filter_eq_self.mpr fun _ _ => rfl
  rw [same, every] at all
  exact all

end Text

/-! ## The sections are well formed -/

theorem segmentsRow_values (segments : List UInt64) : (segmentsRow segments).values = segments := by
  unfold segmentsRow Row.values
  rw [List.map_map]
  refine (List.map_congr_left fun segment _ => ?_).trans (List.map_id _)
  rw [Function.comp, Cell.value, hexValue_printPadded, UInt64.ofNat_toNat]
  rfl

theorem entryRow_values (det : DiscoveryEntry) : (entryRow det).values = det.segments.toList :=
  segmentsRow_values _

theorem blankRow_values : blankRow.values = List.replicate 32 0 := by
  unfold blankRow Row.values
  rw [List.map_append, List.map_replicate, List.map_singleton]
  rfl

theorem segmentsRow_wellFormed {segments : List UInt64} (length : segments.length = 32) :
    (segmentsRow segments).WellFormed where
  lead c member := by
    rw [List.mem_singleton.mp member]
    rfl
  cells cell member := by
    obtain ⟨segment, -, rfl⟩ := List.mem_map.mp member
    refine ⟨?_, isxdigit_printPadded _ _, ?_, ?_⟩
    · exact List.ne_nil_of_length_pos (Nat.lt_of_lt_of_le (by decide) (length_printPadded 8 _))
    · rw [hexValue_printPadded]
      exact segment.toNat_lt
    · intro c blank
      rw [List.mem_singleton.mp blank]
      rfl
  apart := by
    refine List.Pairwise.isChain (List.pairwise_of_forall_mem_list fun cell member _ _ => ?_)
    obtain ⟨segment, -, rfl⟩ := List.mem_map.mp member
    exact List.cons_ne_nil _ _
  enough := by
    rw [segmentsRow, List.length_map, length]
    decide
  fits := by
    rw [segmentsRow, List.length_map, length]
    decide
  short := by
    have digits : ∀ segment : UInt64, (printPadded 8 segment.toNat).length ≤ 16 := by
      intro segment
      have most : (printHex segment.toNat).length ≤ 16 :=
        (Nat.length_toDigits_le_iff (by decide) (by decide)).mpr segment.toNat_lt
      rw [printPadded, List.length_append, List.length_replicate]
      omega
    have cells : ((segmentsRow segments).cells.flatMap Cell.text).length ≤ 32 * 19 := by
      rw [List.length_flatMap, segmentsRow, List.map_map]
      refine (List.sum_le_card_nsmul _ 19 ?_).trans ?_
      · intro length member
        obtain ⟨segment, -, rfl⟩ := List.mem_map.mp member
        have few := digits segment
        change (Cell.text ⟨printPadded 8 segment.toNat, [' ']⟩).length ≤ 19
        rw [Cell.text, List.length_cons, List.length_cons, List.length_append]
        exact Nat.add_le_add_right (Nat.add_le_add_right few 1) 2
      · rw [List.length_map, length]
        rfl
    rw [Row.line, List.length_append]
    change 1 + _ + 1 < 1024
    omega

theorem entryRow_wellFormed (det : DiscoveryEntry) : (entryRow det).WellFormed :=
  segmentsRow_wellFormed Vector.length_toList

theorem blankRow_cell {cell : Cell} (member : cell ∈ blankRow.cells) :
    cell = ⟨"00000000".toList, [' ']⟩ ∨ cell = ⟨"00000000".toList, []⟩ := by
  rcases List.mem_append.mp member with front | back
  · exact .inl (List.eq_of_mem_replicate front)
  · exact .inr (List.mem_singleton.mp back)

theorem blankRow_wellFormed : blankRow.WellFormed where
  lead c member := by
    rw [List.mem_singleton.mp member]
    rfl
  cells cell member := by
    rcases blankRow_cell member with rfl | rfl
    · exact ⟨by decide, List.all_eq_true.mp (by decide), by decide, List.all_eq_true.mp (by decide)⟩
    · exact ⟨by decide, List.all_eq_true.mp (by decide), by decide, List.all_eq_true.mp (by decide)⟩
  apart := by
    have gaps : (List.replicate 31 (⟨"00000000".toList, [' ']⟩ : Cell)).Pairwise
        fun cell _ => cell.gap ≠ [] := List.pairwise_replicate.mpr (.inr (List.cons_ne_nil _ _))
    refine List.isChain_append.mpr ⟨gaps.isChain, List.isChain_singleton _, ?_⟩
    intro cell isLast _ _
    rw [List.eq_of_mem_replicate (List.mem_of_getLast? isLast)]
    exact List.cons_ne_nil _ _
  enough := by
    rw [blankRow, List.length_append, List.length_replicate]
    decide
  fits := by
    rw [blankRow, List.length_append, List.length_replicate]
    decide
  short := by
    rw [blankRow_line, zeroRow, List.length_cons, List.length_append, List.length_flatten,
      List.map_replicate, List.sum_replicate]
    decide

structure NameFits (exps : List ExportData) (name : List Char) : Prop where
  word : IsWord name
  plain : nul ∉ name
  short : name.length < 64
  unnumbered : sscanf0x (name ++ ['\n']) = none
  rows : (rowsOf exps name).length ≤ maxInst

theorem isWord_not_newline {word : List Char} (isWord : IsWord word) : '\n' ∉ word := by
  intro member
  have solid := isWord.solid _ member
  cases solid

theorem rowsOf_ne_nil {exps : List ExportData} {name : List Char} (member : name ∈ ipNames exps) :
    rowsOf exps name ≠ [] := by
  obtain ⟨exp, isExp, named⟩ := mem_ipNames.mp member
  exact List.ne_nil_of_mem (List.mem_filter.mpr ⟨isExp, decide_eq_true named⟩)

theorem ipSection_wellFormed {exps : List ExportData} {name : List Char}
    (fits : NameFits exps name) (member : name ∈ ipNames exps) :
    (ipSection exps name).WellFormed where
  short := fits.short
  plain c inside :=
    ⟨fun same => isWord_not_newline fits.word (same ▸ inside),
      fun same => fits.plain (same ▸ inside)⟩
  unnumbered := by
    have start : ((ipSection exps name).name ++ ['\n']).dropWhile isBlank = name ++ ['\n'] := by
      change (name ++ ['\n']).dropWhile isBlank = _
      obtain ⟨c, more, rfl⟩ := List.exists_cons_of_ne_nil fits.word.nonempty
      have solid := fits.word.solid c List.mem_cons_self
      refine List.dropWhile_cons_of_neg fun blank => ?_
      rw [isBlank_isspace blank] at solid
      cases solid
    rw [start]
    exact fits.unnumbered
  some_ none_ := rowsOf_ne_nil member (List.map_eq_nil_iff.mp (List.append_eq_nil_iff.mp none_).1)
  fits := by
    have rows := fits.rows
    have wide : 32 ≤ maxInst := by decide
    rw [ipSection, List.length_append, List.length_map, List.length_replicate]
    omega
  rows row isRow := by
    rcases List.mem_append.mp isRow with entry | blank
    · obtain ⟨exp, -, rfl⟩ := List.mem_map.mp entry
      exact entryRow_wellFormed exp.det
    · rw [List.eq_of_mem_replicate blank]
      exact blankRow_wellFormed

/-! ## What is read -/

/-- The section that is found is the first one of its name; only the last of the file is filled. -/
theorem entriesRead_find {sections : List IpSection} {name : List Char} {ip : IpSection}
    (nodup : (sections.map IpSection.name).Nodup)
    (found : sections.find? (fun ip => decide (ip.name = name)) = some ip) :
    (entriesRead sections).find? (fun entry => decide (entry.ipname = name)) =
      some (Soc15.ofRows ip.name
        (if (sections.map IpSection.name).getLast? = some name then ip.filled
         else ip.rows.map Row.values)) := by
  induction sections with
  | nil => cases found
  | cons first rest ih =>
      rw [List.find?_cons] at found
      by_cases here : first.name = name
      · rw [decide_eq_true here] at found
        cases found
        have isFirst : ∀ rows, decide ((Soc15.ofRows ip.name rows).ipname = name) = true :=
          fun _ => decide_eq_true here
        cases rest with
        | nil =>
            have last : ([ip].map IpSection.name).getLast? = some name := congrArg some here
            rw [entriesRead, List.find?_cons, isFirst, if_pos last]
        | cons next rest =>
            have notLast : ((ip :: next :: rest).map IpSection.name).getLast? ≠ some name := by
              rw [List.map_cons, List.map_cons, List.getLast?_cons_cons]
              intro last
              rw [List.map_cons, List.nodup_cons] at nodup
              exact nodup.1 (here ▸ List.mem_of_getLast? last)
            rw [entriesRead, List.find?_cons, isFirst, if_neg notLast]
      · rw [decide_eq_false here] at found
        cases rest with
        | nil => cases found
        | cons next rest =>
            have behind := ih (List.nodup_cons.mp nodup).2 found
            have notFirst : decide ((Soc15.ofRows first.name
                (first.rows.map Row.values)).ipname = name) = false := decide_eq_false here
            have names : ((first :: next :: rest).map IpSection.name).getLast? =
                ((next :: rest).map IpSection.name).getLast? := by
              rw [List.map_cons, List.map_cons, List.getLast?_cons_cons]
            rw [entriesRead, List.find?_cons, notFirst, names]
            exact behind

theorem ipNames_nodup (exps : List ExportData) : (ipNames exps).Nodup := by
  unfold ipNames
  convert nodup_eraseDups (exps.map ExportData.ipname)

theorem sections_names (exps : List ExportData) :
    ((ipNames exps).map (ipSection exps)).map IpSection.name = ipNames exps := by
  rw [List.map_map]
  exact List.map_id _

theorem sections_find {exps : List ExportData} {name : List Char} (member : name ∈ ipNames exps) :
    ((ipNames exps).map (ipSection exps)).find? (fun ip => decide (ip.name = name)) =
      some (ipSection exps name) := by
  have only : (ipNames exps).find? (fun other => decide (other = name)) = some name := by
    cases found : (ipNames exps).find? fun other => decide (other = name) with
    | none => exact absurd (decide_eq_true (Eq.refl name)) (List.find?_eq_none.mp found name member)
    | some other =>
        have same : decide (other = name) = true :=
          @List.find?_some _ (fun other => decide (other = name)) _ _ found
        rw [of_decide_eq_true same]
  rw [List.find?_map]
  change ((ipNames exps).find? (fun other => decide (other = name))).map _ = _
  rw [only]
  rfl

/-- The offset in the row of an instance: the rows of the name come first, then rows of zeros up to
32; behind the last section its last row is repeated. -/
def rowRead (exps : List ExportData) (name : List Char) (inst idx : Nat) : UInt64 :=
  match (rowsOf exps name)[inst]? with
  | some exp => entrySegments exp.det idx
  | none =>
      if 32 ≤ (rowsOf exps name).length ∧ (ipNames exps).getLast? = some name then
        (((rowsOf exps name).getLast?).map fun exp => entrySegments exp.det idx).getD 0
      else 0

theorem segments_getD (det : DiscoveryEntry) (idx : Nat) :
    (det.segments.toList[idx]?).getD 0 = entrySegments det idx := by
  rw [entrySegments, Vector.getElem?_toList]

section Rows
variable {exps : List ExportData} {name : List Char}

def rowValues (exps : List ExportData) (name : List Char) : List (List UInt64) :=
  (rowsOf exps name).map (fun exp => exp.det.segments.toList) ++
    List.replicate (32 - (rowsOf exps name).length) (List.replicate 32 0)

theorem ipSection_values : (ipSection exps name).rows.map Row.values = rowValues exps name := by
  rw [ipSection, List.map_append, List.map_map, List.map_replicate, blankRow_values]
  refine congrArg (· ++ _) (List.map_congr_left fun exp _ => entryRow_values exp.det)

theorem rowValues_length :
    (rowValues exps name).length =
      (rowsOf exps name).length + (32 - (rowsOf exps name).length) := by
  rw [rowValues, List.length_append, List.length_map, List.length_replicate]

theorem rowValues_entry {inst : Nat} {exp : ExportData}
    (entry : (rowsOf exps name)[inst]? = some exp) :
    (rowValues exps name)[inst]? = some exp.det.segments.toList := by
  obtain ⟨inside, -⟩ := List.getElem?_eq_some_iff.mp entry
  rw [rowValues, List.getElem?_append_left (by rwa [List.length_map]), List.getElem?_map, entry]
  rfl

theorem rowValues_zero {inst : Nat} (missing : (rowsOf exps name)[inst]? = none)
    (padded : inst < 32) : (rowValues exps name)[inst]? = some (List.replicate 32 0) := by
  have outside := List.getElem?_eq_none_iff.mp missing
  rw [rowValues, List.getElem?_append_right (by rwa [List.length_map]), List.length_map,
    List.getElem?_replicate, if_pos (by omega)]

theorem ipSection_lastValues (exps : List ExportData) (name : List Char) :
    (ipSection exps name).lastValues =
      if 32 ≤ (rowsOf exps name).length then
        (((rowsOf exps name).getLast?).map fun exp => exp.det.segments.toList).getD []
      else List.replicate 32 0 := by
  rw [IpSection.lastValues, ← List.getLast?_map, ipSection_values, rowValues]
  split
  · rename_i full
    have none_ : 32 - (rowsOf exps name).length = 0 := by omega
    rw [none_, List.replicate_zero, List.append_nil, List.getLast?_map]
  · rename_i few
    obtain ⟨more, some_⟩ : ∃ more, 32 - (rowsOf exps name).length = more + 1 :=
      ⟨31 - (rowsOf exps name).length, by omega⟩
    rw [some_, List.replicate_succ', ← List.append_assoc, List.getLast?_concat]
    rfl

theorem zeros_getD (idx : Nat) : ((List.replicate 32 (0 : UInt64))[idx]?).getD 0 = 0 := by
  rw [List.getElem?_replicate]
  split <;> rfl

theorem ofRows_rowRead (fits : NameFits exps name) {inst : Nat} (inside : inst < maxInst) (idx : Nat) :
    (Soc15.ofRows (ipSection exps name).name
      (if (ipNames exps).getLast? = some name then (ipSection exps name).filled
       else (ipSection exps name).rows.map Row.values)).off inst idx =
      rowRead exps name inst idx := by
  have unspilled : (if inst = 0 then spilled (ipSection exps name).name idx else 0) = 0 := by
    change (if inst = 0 then spilled name idx else 0) = 0
    rw [spilled_of_short fits.short, ite_self]
  have rows : (ipSection exps name).rows.length = (rowValues exps name).length := by
    rw [← ipSection_values, List.length_map]
  rw [Soc15.ofRows]
  dsimp only
  rw [unspilled, rowRead]
  cases entry : (rowsOf exps name)[inst]? with
  | some exp =>
      have value := rowValues_entry entry
      have within := (List.getElem?_eq_some_iff.mp value).1
      have row : (if (ipNames exps).getLast? = some name then (ipSection exps name).filled
          else (ipSection exps name).rows.map Row.values)[inst]? = some exp.det.segments.toList := by
        split
        · rw [IpSection.filled_getElem, if_pos (rows ▸ within), ← List.getElem?_map,
            ipSection_values, value]
        · rw [ipSection_values, value]
      rw [row]
      exact segments_getD exp.det idx
  | none =>
      dsimp only
      by_cases padded : inst < 32
      · have value := rowValues_zero entry padded
        have within := (List.getElem?_eq_some_iff.mp value).1
        have row : (if (ipNames exps).getLast? = some name then (ipSection exps name).filled
            else (ipSection exps name).rows.map Row.values)[inst]? = some (List.replicate 32 0) := by
          split
          · rw [IpSection.filled_getElem, if_pos (rows ▸ within), ← List.getElem?_map,
              ipSection_values, value]
          · rw [ipSection_values, value]
        have few : ¬ 32 ≤ (rowsOf exps name).length := by
          have outside := List.getElem?_eq_none_iff.mp entry
          omega
        rw [row, if_neg fun both => few both.1]
        exact zeros_getD idx
      · have outside : ¬ inst < (rowValues exps name).length := by
          have short := List.getElem?_eq_none_iff.mp entry
          rw [rowValues_length]
          omega
        by_cases last : (ipNames exps).getLast? = some name
        · rw [if_pos last, IpSection.filled_getElem, if_neg (rows ▸ outside), if_pos inside,
            ipSection_lastValues]
          by_cases full : 32 ≤ (rowsOf exps name).length
          · rw [if_pos full, if_pos ⟨full, last⟩]
            cases (rowsOf exps name).getLast? with
            | none => rfl
            | some exp => exact segments_getD exp.det idx
          · rw [if_neg full, if_neg fun both => full both.1]
            exact zeros_getD idx
        · rw [if_neg last, ipSection_values, List.getElem?_eq_none (Nat.not_lt.mp outside),
            if_neg fun both => last both.2]
          rfl

end Rows

/-- What the offset table says of a name, read back from what is written. -/
theorem umrDatabaseReadSoc15_exported (filename : List Char) {exps : List ExportData}
    (fits : ∀ name ∈ ipNames exps, NameFits exps name) :
    ∃ entries, umrDatabaseReadSoc15 filename
        (some (fileText ((ipNames exps).map (ipSection exps)))) = .done entries [] ∧
      ∀ name ∈ ipNames exps, ∃ entry,
        entries.find? (fun entry => decide (entry.ipname = name)) = some entry ∧
          ∀ inst idx, inst < maxInst → entry.off inst idx = rowRead exps name inst idx := by
  have wf : ∀ ip ∈ (ipNames exps).map (ipSection exps), ip.WellFormed := by
    intro ip member
    obtain ⟨name, isName, rfl⟩ := List.mem_map.mp member
    exact ipSection_wellFormed (fits name isName) isName
  refine ⟨_, umrDatabaseReadSoc15_sections filename _ wf, fun name member => ?_⟩
  have nodup := ipNames_nodup exps
  rw [← sections_names exps] at nodup
  have found := entriesRead_find nodup (sections_find member)
  rw [sections_names] at found
  exact ⟨_, found, fun inst idx inside => ofRows_rowRead (fits name member) inside idx⟩

end Umr.Database
