import Umr.Compiler.Header
import Umr.Database.ExportedOffsets
import Umr.Lib.Keyed

/-!
# Compiled segment offsets

`compile_soc15` of `comp/compiler.c`, and what `umr_database_read_soc15` reads in the file that
`main` prints.
-/

set_option autoImplicit false

namespace Umr.Compiler

open Umr.Lib Umr.Database

/-! ## The compiler -/

structure Soc where
  name : List Char
  off : Nat → Nat → UInt64

def socs : Keyed (List Char) Soc where
  key := Soc.name
  new name := ⟨name, fun _ _ => 0⟩
  key_new _ := rfl

/-- `find_soc`, which adds an entry for a new name, and what is stored there. -/
def findSoc (ipname : List Char) (store : (Nat → Nat → UInt64) → Nat → Nat → UInt64) :
    socs.Change where
  key := ipname
  change soc := ⟨soc.name, store soc.off⟩
  keeps _ := rfl

def storeAt (inst seg : Nat) (v : UInt64) (off : Nat → Nat → UInt64) (x y : Nat) : UInt64 :=
  if x = inst ∧ y = seg then v else off x y

def baseInst : List Char := "_BASE__INST".toList

def isOffset (sym : List Char) : Bool := (Lib.strstr baseInst sym).isSome

def scanInstSeg (text : List Char) : Option (Int × Int) := do
  let rest ← scanLiteral "INST".toList text
  let (inst, rest) ← scanInt rest
  let rest ← scanLiteral "_SEG".toList rest
  let (seg, _) ← scanInt rest
  pure (inst, seg)

/-- The body of the loop; `none` where the program stores behind the array. -/
def storeOffset (soc : List Soc) (d : List Char × UInt64) : Option (List Soc) :=
  match Lib.strstr baseInst d.1 with
  | none => some soc
  | some sp =>
      let ipname := d.1.take (d.1.length - sp.length)
      match scanInstSeg (sp.drop 7) with
      | none => some (socs.upsert (findSoc ipname id) soc)
      | some (inst, seg) =>
          if 0 ≤ inst ∧ inst < 256 ∧ 0 ≤ seg ∧ seg < 256 then
            some (socs.upsert (findSoc ipname (storeAt inst.toNat seg.toNat d.2)) soc)
          else none

def compileSoc15 (s : List Char) : Option (List Soc) := (defines isOffset s).foldlM storeOffset []

def Soc.text (soc : Soc) : List Char :=
  soc.name ++ '\n' :: (List.range 32).flatMap fun x =>
    '\t' :: ((List.range 32).flatMap fun y =>
      "0x".toList ++ printPadded 8 (soc.off x y).toNat ++ [' ']) ++ ['\n']

def offsetsText (soc : List Soc) : List Char := soc.flatMap Soc.text

/-! ## The symbols of offsets -/

structure OffsetDef where
  ip : List Char
  inst : Nat
  seg : Nat
  value : UInt64

def OffsetDef.symbol (d : OffsetDef) : List Char :=
  d.ip ++ (baseInst ++ (printDec d.inst ++ ("_SEG".toList ++ printDec d.seg)))

structure OffsetDef.Fits (d : OffsetDef) : Prop where
  symbols : ∀ c ∈ d.ip, inSymbol c = true
  short : d.ip.length < 64
  unnumbered : d.ip.head? ≠ some '0'
  plain : ¬ baseInst <:+: d.ip ++ baseInst.dropLast
  inst : d.inst < 256
  seg : d.seg < 256

theorem scanLiteral_here : ∀ (format rest : List Char), (∀ c ∈ format, isspace c = false) →
    scanLiteral format (format ++ rest) = some rest
  | [], _, _ => rfl
  | f :: format, rest, solid => by
      obtain ⟨here, later⟩ := List.forall_mem_cons.mp solid
      rw [List.cons_append, scanLiteral, if_neg (by rw [here]; exact Bool.false_ne_true), if_pos rfl,
        scanLiteral_here format rest later]

theorem scanInt_printDec {n : Nat} (fits : n < 256) {rest : List Char} (ends : StopsAt isdigit rest) :
    scanInt (printDec n ++ rest) = some ((n : Int), rest) := by
  have scanned := @scanInt_printInt [] rest (n : Int) (by omega) (by omega)
    (fun _ member => absurd member List.not_mem_nil) ends
  rwa [printInt_natCast] at scanned

theorem storeOffset_symbol {d : OffsetDef} (fits : d.Fits) (soc : List Soc) :
    storeOffset soc (d.symbol, d.value) =
      some (socs.upsert (findSoc d.ip (storeAt d.inst d.seg d.value)) soc) := by
  have found := strstr_first fits.plain (by decide) (printDec d.inst ++ ("_SEG".toList ++ printDec d.seg))
  have ipname : d.symbol.take (d.symbol.length - (baseInst ++ (printDec d.inst ++
      ("_SEG".toList ++ printDec d.seg))).length) = d.ip := by
    rw [OffsetDef.symbol, List.length_append, Nat.add_sub_cancel, List.take_left]
  have dropped : (baseInst ++ (printDec d.inst ++ ("_SEG".toList ++ printDec d.seg))).drop 7 =
      "INST".toList ++ (printDec d.inst ++ ("_SEG".toList ++ printDec d.seg)) := rfl
  have first := @scanInt_printDec d.inst fits.inst ("_SEG".toList ++ printDec d.seg) (by
    intro c isFirst
    cases isFirst
    rfl)
  have second := @scanInt_printDec d.seg fits.seg [] (by
    intro c isFirst
    cases isFirst)
  have scanned : scanInstSeg ("INST".toList ++ (printDec d.inst ++ ("_SEG".toList ++ printDec d.seg))) =
      some ((d.inst : Int), (d.seg : Int)) := by
    rw [List.append_nil] at second
    rw [scanInstSeg, scanLiteral_here _ _ (List.forall_iff_forall_mem.mp (by decide))]
    simp only [Option.bind_eq_bind, Option.bind_some, first]
    rw [scanLiteral_here _ _ (List.forall_iff_forall_mem.mp (by decide))]
    simp only [Option.bind_some, second]
    rfl
  have inside : (0 : Int) ≤ d.inst ∧ (d.inst : Int) < 256 ∧ (0 : Int) ≤ d.seg ∧ (d.seg : Int) < 256 := by
    have inst := fits.inst
    have seg := fits.seg
    omega
  have sp : Lib.strstr baseInst d.symbol =
      some (baseInst ++ (printDec d.inst ++ ("_SEG".toList ++ printDec d.seg))) := found
  rw [storeOffset, sp]
  dsimp only
  rw [ipname, dropped, scanned]
  dsimp only
  rw [if_pos inside, Int.toNat_natCast, Int.toNat_natCast]

/-! ## The table -/

def OffsetDef.change (d : OffsetDef) : socs.Change := findSoc d.ip (storeAt d.inst d.seg d.value)

theorem storeOffsets {offsets : List OffsetDef} (fits : ∀ d ∈ offsets, d.Fits) (soc : List Soc) :
    (offsets.map fun d => (d.symbol, d.value)).foldlM storeOffset soc =
      some (socs.upsertAll (offsets.map OffsetDef.change) soc) := by
  induction offsets generalizing soc with
  | nil => rfl
  | cons d offsets ih =>
      obtain ⟨here, later⟩ := List.forall_mem_cons.mp fits
      rw [List.map_cons, List.foldlM_cons, storeOffset_symbol here]
      exact ih later _

def lastOffset (offsets : List OffsetDef) (ip : List Char) (inst seg : Nat) : UInt64 :=
  ((offsets.filter fun d => d.ip = ip ∧ d.inst = inst ∧ d.seg = seg).getLast?.map
    OffsetDef.value).getD 0

theorem lastOffset_concat (offsets : List OffsetDef) (d : OffsetDef) (ip : List Char)
    (inst seg : Nat) :
    lastOffset (offsets ++ [d]) ip inst seg =
      if d.ip = ip ∧ d.inst = inst ∧ d.seg = seg then d.value else lastOffset offsets ip inst seg := by
  unfold lastOffset
  rw [List.filter_append, List.filter_singleton]
  by_cases here : d.ip = ip ∧ d.inst = inst ∧ d.seg = seg
  · rw [if_pos here, decide_eq_true here, cond_true, List.getLast?_concat]
    rfl
  · rw [if_neg here, decide_eq_false here, cond_false, List.append_nil]

theorem entryOf_off (offsets : List OffsetDef) (ip : List Char) (inst seg : Nat) :
    (socs.entryOf (offsets.map OffsetDef.change) ip).off inst seg = lastOffset offsets ip inst seg := by
  induction offsets using List.reverseRecOn with
  | nil => rfl
  | append_singleton offsets d ih =>
      rw [List.map_append, List.map_singleton, Keyed.entryOf_concat, lastOffset_concat]
      by_cases here : d.ip = ip
      · have isChange : d.change.key = ip := here
        rw [if_pos isChange]
        change (if inst = d.inst ∧ seg = d.seg then d.value else _) = _
        rw [ih]
        simp only [here, true_and, eq_comm]
      · have other : d.change.key ≠ ip := here
        rw [if_neg other, if_neg fun all => here all.1, ih]

/-! ## The file -/

def Soc.section (soc : Soc) : IpSection where
  name := soc.name
  rows := (List.range 32).map fun x => segmentsRow ((List.range 32).map fun y => soc.off x y)

theorem offsetsText_sections (soc : List Soc) :
    offsetsText soc = fileText (soc.map Soc.section) := by
  unfold offsetsText fileText
  rw [List.flatMap_map]
  refine List.flatMap_congr fun soc _ => ?_
  unfold Soc.text IpSection.text rowsText Soc.section
  dsimp only
  rw [List.flatMap_map]
  refine congrArg (fun text => soc.name ++ '\n' :: text) (List.flatMap_congr fun x _ => ?_)
  unfold segmentsRow Row.line
  dsimp only
  rw [List.flatMap_map, List.flatMap_map]
  refine congrArg (fun text => '\t' :: text ++ ['\n']) (List.flatMap_congr fun y _ => ?_)
  rw [Cell.text, List.append_assoc]
  rfl

theorem inSymbol_plain {c : Char} (inside : inSymbol c = true) : c ≠ '\n' ∧ c ≠ nul := by
  constructor
  · rintro rfl
    cases inside
  · rintro rfl
    cases inside

theorem section_wellFormed {soc : Soc} {d : OffsetDef} (fits : d.Fits) (name : soc.name = d.ip) :
    soc.section.WellFormed where
  short := by
    change soc.name.length < 64
    rw [name]
    exact fits.short
  plain c member := by
    change c ∈ soc.name at member
    rw [name] at member
    exact inSymbol_plain (fits.symbols c member)
  unnumbered := by
    change sscanf0x ((soc.name ++ ['\n']).dropWhile Database.isBlank) = none
    rw [name]
    cases ip : d.ip with
    | nil => rfl
    | cons c more =>
        have solid := fits.symbols c (by rw [ip]; exact List.mem_cons_self)
        have unlike : c ≠ '0' := fun same => fits.unnumbered (by rw [ip, same]; rfl)
        have start : (c :: more ++ ['\n']).dropWhile Database.isBlank = c :: more ++ ['\n'] := by
          refine List.dropWhile_cons_of_neg fun blank => ?_
          rcases of_decide_eq_true blank with rfl | rfl <;> cases solid
        rw [start, List.cons_append, sscanf0x.eq_2]
        intro rest same
        exact unlike (List.cons.inj same).1
  some_ := by
    intro none_
    have length := congrArg List.length none_
    rw [Soc.section, List.length_map, List.length_range] at length
    cases length
  fits := by
    rw [Soc.section, List.length_map, List.length_range]
    decide
  rows row member := by
    obtain ⟨x, -, rfl⟩ := List.mem_map.mp member
    exact segmentsRow_wellFormed (by rw [List.length_map, List.length_range])

theorem section_values (soc : Soc) :
    soc.section.rows.map Row.values =
      (List.range 32).map fun x => (List.range 32).map fun y => soc.off x y := by
  rw [Soc.section, List.map_map]
  exact List.map_congr_left fun x _ => segmentsRow_values _

/-- The rows that were printed are the first ones that are read, in the last section too. -/
theorem section_off {soc : Soc} (last : Prop) [Decidable last]
    {inst seg : Nat} (isInst : inst < 32) (isSeg : seg < 32) :
    (Soc15.ofRows soc.section.name (if last then soc.section.filled
      else soc.section.rows.map Row.values)).off inst seg = soc.off inst seg := by
  have length : soc.section.rows.length = 32 := by
    rw [Soc.section, List.length_map, List.length_range]
  have row : (soc.section.rows.map Row.values)[inst]? =
      some ((List.range 32).map fun y => soc.off inst y) := by
    rw [section_values, List.getElem?_map, List.getElem?_range isInst]
    rfl
  have either : (if last then soc.section.filled else soc.section.rows.map Row.values)[inst]? =
      some ((List.range 32).map fun y => soc.off inst y) := by
    split
    · rw [IpSection.filled_getElem, length, if_pos isInst, ← List.getElem?_map, row]
    · exact row
  rw [Soc15.ofRows]
  dsimp only
  rw [either, Option.bind_some, List.getElem?_map, List.getElem?_range isSeg]
  rfl

theorem entriesRead_names {sections : List IpSection} {entry : Soc15}
    (member : entry ∈ entriesRead sections) :
    entry.ipname = [] ∨ entry.ipname ∈ sections.map IpSection.name := by
  induction sections with
  | nil =>
      rw [entriesRead, List.mem_singleton] at member
      exact Or.inl (by rw [member]; rfl)
  | cons ip rest ih =>
      cases rest with
      | nil =>
          rw [entriesRead, List.mem_pair] at member
          rcases member with rfl | rfl
          · exact Or.inr List.mem_cons_self
          · exact Or.inl rfl
      | cons next rest =>
          rw [entriesRead, List.mem_cons] at member
          rcases member with rfl | behind
          · exact Or.inr List.mem_cons_self
          · exact (ih behind).imp_right (List.mem_cons_of_mem _)

/-- Every offset that a header defines is read back as it was defined last. -/
theorem compiledOffsets_read (filename : List Char) {lines : List HeaderLine}
    (header : HeaderFits lines) {offsets : List OffsetDef}
    (named : (definitions lines).filter (fun d => isOffset d.1) =
      offsets.map fun d => (d.symbol, d.value)) (fits : ∀ d ∈ offsets, d.Fits) :
    ∃ soc entries, compileSoc15 (headerText lines) = some soc ∧
      umrDatabaseReadSoc15 filename (some (offsetsText soc)) = .done entries [] ∧
      (∀ entry ∈ entries, entry.ipname = [] ∨ ∃ d ∈ offsets, d.ip = entry.ipname) ∧
      ∀ d ∈ offsets, ∃ entry,
        entries.find? (fun entry => decide (entry.ipname = d.ip)) = some entry ∧
          ∀ inst seg, inst < 32 → seg < 32 →
            entry.off inst seg = lastOffset offsets d.ip inst seg := by
  obtain ⟨ips, isIps⟩ : ∃ ips, ips = socs.keys (offsets.map OffsetDef.change) := ⟨_, rfl⟩
  obtain ⟨entry, isEntry⟩ : ∃ entry, entry = socs.entryOf (offsets.map OffsetDef.change) := ⟨_, rfl⟩
  have names : ∀ ip, (entry ip).name = ip := fun ip => isEntry ▸
    @Keyed.key_entryOf _ _ _ socs (offsets.map OffsetDef.change) ip
  have compiled : compileSoc15 (headerText lines) = some (ips.map entry) := by
    rw [compileSoc15, defines_header isOffset header, named, storeOffsets fits, Keyed.upsertAll_eq,
      isIps, isEntry]
  have isIp : ∀ ip, ip ∈ ips ↔ ∃ d ∈ offsets, d.ip = ip := by
    intro ip
    rw [isIps, Keyed.mem_keys]
    constructor
    · rintro ⟨change, member, same⟩
      obtain ⟨d, isDef, rfl⟩ := List.mem_map.mp member
      exact ⟨d, isDef, same⟩
    · rintro ⟨d, isDef, same⟩
      exact ⟨d.change, List.mem_map.mpr ⟨d, isDef, rfl⟩, same⟩
  have sectionNames : ((ips.map entry).map Soc.section).map IpSection.name = ips := by
    rw [List.map_map, List.map_map]
    exact (List.map_congr_left fun ip _ => names ip).trans (List.map_id _)
  have wf : ∀ ip ∈ (ips.map entry).map Soc.section, ip.WellFormed := by
    intro ip member
    obtain ⟨soc, isSoc, rfl⟩ := List.mem_map.mp member
    obtain ⟨name, isName, rfl⟩ := List.mem_map.mp isSoc
    obtain ⟨d, isDef, same⟩ := (isIp name).mp isName
    exact section_wellFormed (fits d isDef) ((names name).trans same.symm)
  refine ⟨ips.map entry, entriesRead ((ips.map entry).map Soc.section), compiled, ?_, ?_, ?_⟩
  · rw [offsetsText_sections]
    exact umrDatabaseReadSoc15_sections filename _ wf
  · intro read member
    refine (entriesRead_names member).imp_right fun isName => ?_
    rw [sectionNames] at isName
    exact (isIp _).mp isName
  · intro d isDef
    have member : d.ip ∈ ips := (isIp d.ip).mpr ⟨d, isDef, rfl⟩
    have nodup : (((ips.map entry).map Soc.section).map IpSection.name).Nodup := by
      rw [sectionNames, isIps]
      exact Keyed.keys_nodup _
    have found : ((ips.map entry).map Soc.section).find? (fun ip => decide (ip.name = d.ip)) =
        some (entry d.ip).section := by
      have only := @Keyed.find_map _ _ _ socs entry names ips d.ip member
      rw [List.find?_map]
      exact congrArg (Option.map Soc.section) only
    refine ⟨_, entriesRead_find nodup found, fun inst seg isInst isSeg => ?_⟩
    rw [section_off _ isInst isSeg, isEntry, entryOf_off]

/-- Two definitions of one offset behind the guard of the header. -/
def gcHeader : List HeaderLine :=
  [.guard [] [' '] "_gc_OFFSET_HEADER".toList [],
    .define [] [' '] "GC_BASE__INST0_SEG1".toList [' '] (.hex "0000A000".toList) [],
    .other "// moved".toList,
    .define [] [' '] "GC_BASE__INST0_SEG1".toList [' '] (.hex "02402C00".toList) [],
    .define [] [' '] "GC_BASE__INST1_SEG0".toList [' '] (.dec "4704".toList) [' ']]

def gcOffsets : List OffsetDef :=
  [⟨"GC".toList, 0, 1, 0xA000⟩, ⟨"GC".toList, 0, 1, 0x02402C00⟩, ⟨"GC".toList, 1, 0, 4704⟩]

theorem gcHeader_fits : HeaderFits gcHeader := by
  have symbols : ∀ {sym : List Char}, sym ≠ [] ∧ sym.length < 256 →
      (sym.all fun c => inSymbol c) = true → IsSymbol sym :=
    fun lengths all => ⟨lengths.1, List.all_eq_true.mp all, lengths.2⟩
  have digits : ∀ {num : List Char}, (num.all fun c => isxdigit c) = true →
      ∀ c ∈ num, isxdigit c = true := fun all => List.all_eq_true.mp all
  have blanks : ∀ {gap : List Char}, (gap.all fun c => isBlank c) = true → Blanks gap :=
    fun all => List.all_eq_true.mp all
  have stops : ∀ continues : Char → Bool, StopsAt continues [] := fun _ _ first => by cases first
  refine ⟨⟨⟨blanks rfl, blanks rfl, blanks rfl⟩, symbols (by decide) (by decide), ?_⟩, ?_, ?_, ?_, ?_,
    trivial⟩
  · intro c first
    cases first
    decide
  · exact ⟨⟨blanks rfl, blanks rfl, blanks rfl, by decide⟩, symbols (by decide) (by decide),
      ⟨by decide, digits (by decide), by decide⟩, ⟨by decide, by decide⟩, stops _⟩
  · exact ⟨by decide, by decide⟩
  · exact ⟨⟨blanks rfl, blanks rfl, blanks rfl, by decide⟩, symbols (by decide) (by decide),
      ⟨by decide, digits (by decide), by decide⟩, ⟨by decide, by decide⟩, stops _⟩
  · refine ⟨⟨blanks rfl, blanks rfl, blanks rfl, by decide⟩, symbols (by decide) (by decide),
      ⟨by decide, List.all_eq_true.mp (by decide), by decide⟩, ⟨by decide, by decide⟩, ?_⟩
    intro c first
    cases first
    rfl

theorem compiledOffsets_gc :
    ∃ soc entries, compileSoc15 (headerText gcHeader) = some soc ∧
      umrDatabaseReadSoc15 "gc.soc15".toList (some (offsetsText soc)) = .done entries [] ∧
      (∀ entry ∈ entries, entry.ipname = [] ∨ ∃ d ∈ gcOffsets, d.ip = entry.ipname) ∧
      ∀ d ∈ gcOffsets, ∃ entry,
        entries.find? (fun entry => decide (entry.ipname = d.ip)) = some entry ∧
          ∀ inst seg, inst < 32 → seg < 32 →
            entry.off inst seg = lastOffset gcOffsets d.ip inst seg := by
  have named : (definitions gcHeader).filter (fun d => isOffset d.1) =
      gcOffsets.map fun d => (d.symbol, d.value) := by decide
  refine compiledOffsets_read "gc.soc15".toList gcHeader_fits named fun d member => ?_
  have isGc : d.ip = "GC".toList ∧ d.inst < 256 ∧ d.seg < 256 := by
    simp only [gcOffsets, List.mem_cons, List.not_mem_nil, or_false] at member
    rcases member with rfl | rfl | rfl <;> decide
  obtain ⟨ip, inst, seg⟩ := isGc
  refine ⟨?_, ?_, ?_, ?_, inst, seg⟩
  · rw [ip]
    exact List.all_eq_true.mp (by decide)
  · rw [ip]
    decide
  · rw [ip]
    decide
  · rw [ip]
    decide

end Umr.Compiler
