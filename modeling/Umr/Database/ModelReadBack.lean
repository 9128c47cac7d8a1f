import Umr.Database.ExportedOffsets
import Umr.Database.PlacedRegisters

/-!
# An exported model, read back

The x-th line of the list of blocks names the x-th block, but the IP and the register file of the
x-th matched entry, harvested or not; its row is the instance of the block.  The blocks come back
as far as these agree.
-/

set_option autoImplicit false

namespace Umr.Database

open Umr.Lib Umr.Lib.Linked Umr.Harness

/-! ## The header and the lines -/

theorem scanAsicHeader_header {asicname : List Char} (named : IsName asicname) {noBlocks : Int}
    (low : -2 ^ 31 ≤ noBlocks) (high : noBlocks < 2 ^ 31) :
    scanAsicHeader (asicHeader asicname noBlocks ++ ['\n']) =
      some ⟨asicname, asicname ++ ".soc15".toList, familyNv, noBlocks, 2, 0⟩ := by
  have soc15fname : IsWord (asicname ++ ".soc15".toList) :=
    named.1.append (List.forall_iff_forall_mem.mp (by decide))
  have whole : asicHeader asicname noBlocks ++ ['\n'] =
      asicname ++ ' ' :: ((asicname ++ ".soc15".toList) ++ ' ' :: (printInt familyNv ++ ' ' ::
        (printInt noBlocks ++ ' ' :: (printInt 2 ++ ' ' :: (printInt 0 ++ ['\n']))))) := by
    have tail : " 2 0".toList = ' ' :: (printInt 2 ++ ' ' :: printInt 0) := by decide
    rw [asicHeader, tail]
    simp
  have family := @scanInt_next familyNv (' ' :: (printInt noBlocks ++ ' ' :: (printInt 2 ++ ' ' ::
    (printInt 0 ++ ['\n'])))) (by decide) (by decide) (blank_space _)
  have count := @scanInt_next noBlocks (' ' :: (printInt 2 ++ ' ' :: (printInt 0 ++ ['\n']))) low high
    (blank_space _)
  have granularity := @scanInt_next 2 (' ' :: (printInt 0 ++ ['\n'])) (by decide) (by decide)
    (blank_space _)
  have isApu := @scanInt_next 0 ['\n'] (by decide) (by decide) blank_newline
  unfold scanAsicHeader
  simp only [whole, scanWord_first named.1 (blank_space _), scanWord_next soc15fname (blank_space _),
    family, count, granularity, isApu, Option.bind_eq_bind, Option.bind_some]
  rfl

def headerOf (block : IpBlock) (exp : ExportData) : IpHeader where
  ipcmnname := block.ipname
  ipsocname := exp.ipname
  inst := block.discoverable.inst
  regfile := exp.path

structure LineFits (block : IpBlock) (exp : ExportData) : Prop where
  ipcmnname : IsName block.ipname
  ipsocname : IsName exp.ipname
  inst : -2 ^ 31 ≤ block.discoverable.inst ∧ block.discoverable.inst < 2 ^ 31
  regfile : IsName exp.path
  short : (asicLine block exp).length + 1 < 256

section Line
variable {block : IpBlock} {exp : ExportData}

theorem scanIpHeader_line (fits : LineFits block exp) :
    scanIpHeader (asicLine block exp ++ ['\n']) = some (headerOf block exp) := by
  have whole : asicLine block exp ++ ['\n'] =
      block.ipname ++ ' ' :: (exp.ipname ++ ' ' :: (printInt block.discoverable.inst ++ ' ' ::
        (exp.path ++ ['\n']))) := by
    simp [asicLine]
  have inst := @scanInt_next block.discoverable.inst (' ' :: (exp.path ++ ['\n'])) fits.inst.1
    fits.inst.2 (blank_space _)
  unfold scanIpHeader
  simp only [whole, scanWord_first fits.ipcmnname.1 (blank_space _),
    scanWord_next fits.ipsocname.1 (blank_space _), inst,
    scanWord_next fits.regfile.1 blank_newline, Option.bind_eq_bind, Option.bind_some]
  rfl

theorem IsName.plain {word : List Char} (named : IsName word) : '\n' ∉ word ∧ nul ∉ word :=
  ⟨isWord_not_newline named.1, named.2⟩

theorem printInt_plain (value : Int) : '\n' ∉ printInt value ∧ nul ∉ printInt value := by
  refine ⟨fun member => ?_, fun member => (printInt_solid value _ member).2 rfl⟩
  have solid := (printInt_solid value _ member).1
  cases solid

theorem asicLine_plain (fits : LineFits block exp) :
    '\n' ∉ asicLine block exp ∧ nul ∉ asicLine block exp := by
  have first := fits.ipcmnname.plain
  have second := fits.ipsocname.plain
  have third := printInt_plain block.discoverable.inst
  have fourth := fits.regfile.plain
  have space : '\n' ≠ ' ' ∧ nul ≠ ' ' := by decide
  unfold asicLine
  simp only [List.mem_append, List.mem_cons, not_or]
  exact ⟨⟨first.1, space.1, second.1, space.1, third.1, space.1, fourth.1⟩,
    ⟨first.2, space.2, second.2, space.2, third.2, space.2, fourth.2⟩⟩

end Line

/-! ## The blocks that are found -/

def keptExps (exps : List ExportData) : List ExportData :=
  exps.filter fun exp => exp.det.harvest = 0

def ownBlock (contents : List Char → RegContents) (exp : ExportData) : IpBlock where
  ipname := blockName exp.det
  noRegs := (contents exp.path).noRegs
  regs := (contents exp.path).records.map (RegRecord.register (entrySegments exp.det))
  discoverable := ⟨exp.det.die, exp.det.maj, exp.det.min, exp.det.rev, exp.det.inst,
    exp.det.logicalInst⟩

theorem expData_cons (db : List ScanItem) (desired : Option (List Char)) (det : DiscoveryEntry)
    (entries : List DiscoveryEntry) :
    expData db desired (det :: entries) =
      match matched db desired det with
      | none => expData db desired entries
      | some nit => ⟨det, nit, false⟩ :: expData db desired entries := by
  unfold expData
  rw [List.filterMap_cons]
  cases matched db desired det with
  | none => rfl
  | some nit => rfl

theorem ipBlocks_expData {Block : Type} (db : List ScanItem) (desired : Option (List Char))
    (readIpBlock : DiscoveryEntry → ScanItem → Block) (entries : List DiscoveryEntry) :
    ipBlocks (findIp db desired) readIpBlock entries =
      (keptExps (expData db desired entries)).map fun exp => readIpBlock exp.det exp.nit := by
  rw [ipBlocks_eq]
  induction entries with
  | nil => rfl
  | cons det entries ih =>
      rw [expData_cons, List.filterMap_cons, ih, blockOf]
      cases matched db desired det with
      | none => rw [Option.map_none, ite_self]
      | some nit =>
          dsimp only
          unfold keptExps
          rw [List.filter_cons]
          by_cases kept : det.harvest = 0
          · rw [if_pos kept, if_pos (decide_eq_true kept), List.map_cons]
            rfl
          · rw [if_neg kept, if_neg (by simpa using kept)]

theorem expData_table (db : List ScanItem) (desired : Option (List Char))
    (entries : List DiscoveryEntry) {nit : ScanItem}
    (isMatched : matched db desired .blank = some nit) :
    expData db desired (discoveryTable entries) =
      expData db desired entries ++ [⟨.blank, nit, false⟩] := by
  have last : expData db desired [.blank] = [⟨.blank, nit, false⟩] := by
    rw [expData_cons, isMatched]
    rfl
  rw [← last, discoveryTable]
  exact List.filterMap_append

theorem mapM_eq_some {α β : Type} {f : α → Option β} {as : List α} {bs : List β}
    (same : as.map f = bs.map some) : as.mapM f = some bs := by
  induction as generalizing bs with
  | nil =>
      cases bs with
      | nil => rfl
      | cons b bs => cases same
  | cons a as ih =>
      cases bs with
      | nil => cases same
      | cons b bs =>
          obtain ⟨here, later⟩ := List.cons.inj same
          rw [List.mapM_cons, here, ih later]
          rfl

theorem asicLines_zip : ∀ {blocks : List IpBlock} {exps : List ExportData},
    blocks.length ≤ exps.length → asicLines blocks exps = some (List.zipWith asicLine blocks exps)
  | [], _, _ => by rw [asicLines, List.zipWith_nil_left]
  | block :: blocks, exp :: exps, enough => by
      rw [asicLines, asicLines_zip (Nat.le_of_succ_le_succ enough), List.zipWith_cons_cons]
      rfl

/-! ## Names -/

/-- What the scan for a missing instance keeps of every name. -/
theorem numberZeros_all {P : List Char → Prop} {names : List (List Char)}
    (all : ∀ name ∈ names, P name)
    (numbered : ∀ name, P name → P ((name ++ "\x7b0\x7d".toList).take 254)) :
    ∀ name ∈ numberZeros names, P name := by
  unfold numberZeros
  induction List.range names.length generalizing names with
  | nil => exact all
  | cons x xs ih =>
      rw [List.foldl_cons]
      refine ih fun name member => ?_
      unfold numberZero at member
      split at member
      · exact all name member
      · rename_i ipname found
        split at member
        · exact all name member
        · split at member
          · rcases List.mem_or_eq_of_mem_set member with old | rfl
            · exact all name old
            · exact numbered ipname (all ipname (List.mem_of_getElem? found))
          · exact all name member

theorem numberZero_length (names : List (List Char)) (x : Nat) :
    (numberZero names x).length = names.length := by
  unfold numberZero
  split
  · rfl
  · split
    · rfl
    · split
      · exact List.length_set
      · rfl

theorem numberZeros_length (names : List (List Char)) :
    (numberZeros names).length = names.length := by
  unfold numberZeros
  induction List.range names.length generalizing names with
  | nil => rfl
  | cons x xs ih => rw [List.foldl_cons, ih, numberZero_length]

theorem IsName.numbered {name : List Char} (named : IsName name) :
    IsName ((name ++ "\x7b0\x7d".toList).take 254) := by
  have whole : IsName (name ++ "\x7b0\x7d".toList) :=
    named.append (List.forall_iff_forall_mem.mp (by decide))
  refine ⟨⟨?_, fun c member => whole.1.solid c (List.mem_of_mem_take member)⟩,
    fun member => whole.2 (List.mem_of_mem_take member)⟩
  obtain ⟨c, more, rfl⟩ := List.exists_cons_of_ne_nil named.1.nonempty
  exact List.cons_ne_nil _ _

theorem headerName_isName {ipname : List UInt8}
    (named : IsName (ipname.map fun b => Char.ofNat b.toNat)) :
    IsName ((headerName ipname).map fun b => Char.ofNat b.toNat) := by
  unfold headerName
  split
  · rename_i names found
    have member := List.mem_of_find?_eq_some found
    have known : ∀ names ∈ headerNames,
        IsName ((cstring names.2).map fun b => Char.ofNat b.toNat) := by
      intro names member
      have cases_ : names.2 = "gfx" ∨ names.2 = "vcn" ∨ names.2 = "dcn" ∨ names.2 = "nbio" := by
        simp only [headerNames, List.mem_cons, List.not_mem_nil, or_false] at member
        rcases member with rfl | rfl | rfl | rfl <;> simp
      rcases cases_ with same | same | same | same
      · rw [same]
        exact ⟨⟨by decide, List.forall_iff_forall_mem.mp (by decide)⟩, by decide⟩
      · rw [same]
        exact ⟨⟨by decide, List.forall_iff_forall_mem.mp (by decide)⟩, by decide⟩
      · rw [same]
        exact ⟨⟨by decide, List.forall_iff_forall_mem.mp (by decide)⟩, by decide⟩
      · rw [same]
        exact ⟨⟨by decide, List.forall_iff_forall_mem.mp (by decide)⟩, by decide⟩
    exact known names member
  · exact named

theorem blockName_isName {det : DiscoveryEntry} (named : IsName (entryName det)) :
    IsName (blockName det) := by
  have ipcmn := headerName_isName named
  have version : ∀ c ∈ printInt det.maj ++ printInt det.min ++ printInt det.rev,
      isspace c = false ∧ c ≠ nul := by
    intro c member
    rcases List.mem_append.mp member with front | rev
    · rcases List.mem_append.mp front with maj | min
      · exact printInt_solid _ c maj
      · exact printInt_solid _ c min
    · exact printInt_solid _ c rev
  unfold blockName
  dsimp only
  split
  · exact (((ipcmn.append version).append (List.forall_iff_forall_mem.mp (by decide))).append
      (printInt_solid _)).append (List.forall_iff_forall_mem.mp (by decide))
  · exact ipcmn.append version

/-! ## The loop over the lines -/

/-- The list of blocks is read line by line, and each block by itself. -/
theorem readAsicBlocks_lines {opened : List Char → Option (List Char)}
    {soc15 : Option (List Soc15)} {stale : Nat → Stale} {answer : IpHeader → Except RegFault IpBlock}
    (lines : List (IpBlock × ExportData)) :
    ∀ (x : Nat) (linebuf : List Char), (∀ line ∈ lines, LineFits line.1 line.2) →
      (∀ line ∈ lines, ∀ stale, readHeaderBlock opened soc15 stale (headerOf line.1 line.2) =
        (answer (headerOf line.1 line.2)).map fun block => (some block, [])) →
      readAsicBlocks opened soc15 stale lines.length x linebuf
        ((lines.map fun line => asicLine line.1 line.2).flatMap fun line => line ++ ['\n']) =
      match lines.mapM fun line => answer (headerOf line.1 line.2) with
      | .ok blocks => .ok (some blocks, [])
      | .error fault => .error (.reg fault) := by
  induction lines with
  | nil => exact fun _ _ _ _ => rfl
  | cons line lines ih =>
      intro x linebuf fits answers
      obtain ⟨fitsHere, fitsLater⟩ := List.forall_mem_cons.mp fits
      obtain ⟨answersHere, answersLater⟩ := List.forall_mem_cons.mp answers
      have plain := asicLine_plain fitsHere
      have text : ((line :: lines).map fun line => asicLine line.1 line.2).flatMap
          (fun line => line ++ ['\n']) = asicLine line.1 line.2 ++ '\n' ::
            ((lines.map fun line => asicLine line.1 line.2).flatMap fun line => line ++ ['\n']) := by
        simp
      have read := fgetsKeep_whole plain.1 plain.2 fitsHere.short linebuf
        ((lines.map fun line => asicLine line.1 line.2).flatMap fun line => line ++ ['\n'])
      have behind := ih (x + 1) (asicLine line.1 line.2 ++ ['\n']) fitsLater answersLater
      rw [text, List.length_cons, readAsicBlocks, read]
      dsimp only
      rw [scanIpHeader_line fitsHere]
      dsimp only
      rw [answersHere, List.mapM_cons]
      cases answer (headerOf line.1 line.2) with
      | error fault => rfl
      | ok block =>
          dsimp only [bind, Except.bind, Except.map]
          rw [behind]
          cases lines.mapM fun line => answer (headerOf line.1 line.2) with
          | error fault => rfl
          | ok blocks => rfl

/-! ## When the model comes back -/

/-- The offset for a register of an instance, unless the instance is outside the table. -/
def rowTable (exps : List ExportData) (name : List Char) (inst : Int) (idx : Nat) : Option UInt64 :=
  if 0 ≤ inst ∧ inst < maxInst then some (rowRead exps name inst.toNat idx) else none

/-- Two lines of register files that stand for one register, the first one placed by a row of the
offset table and the second one by the segments of an entry. -/
structure SameRegister (row : Nat → Option UInt64) (segments : Nat → UInt64)
    (read own : RegRecord) : Prop where
  name : read.fields.name = own.fields.name
  type : read.fields.type = own.fields.type
  noBits : read.fields.nobits = own.fields.nobits
  bit64 : read.fields.is64 = own.fields.is64
  bits : (read.register segments).bits = (own.register segments).bits
  bound : own.fields.type = regMmio → ∃ offset, row read.fields.idx.toNat = some offset ∧
    read.fields.addr + offset = own.fields.addr + segments own.fields.idx.toNat
  free : own.fields.type ≠ regMmio → read.fields.addr = own.fields.addr

theorem placeRecord_same {row : Nat → Option UInt64} {segments : Nat → UInt64}
    {read own : RegRecord} : (∃ reg, placeRecord (some row) read = .ok reg ∧ reg = own.register segments) ↔
      SameRegister row segments read own := by
  unfold placeRecord placed
  dsimp only
  constructor
  · rintro ⟨reg, stored, rfl⟩
    by_cases bound : read.fields.type = regMmio
    · rw [if_pos bound] at stored
      cases offset : row read.fields.idx.toNat with
      | none =>
          rw [offset] at stored
          cases stored
      | some value =>
          rw [offset] at stored
          have same := Except.ok.inj stored
          simp only [RegRecord.register, Register.mk.injEq] at same
          obtain ⟨name, type, addr, noBits, bit64, bits⟩ := same
          rw [if_pos (type ▸ bound)] at addr
          exact ⟨name, type, noBits, bit64, bits, fun _ => ⟨value, offset, addr⟩,
            fun other => absurd (type ▸ bound) other⟩
    · rw [if_neg bound] at stored
      have same := Except.ok.inj stored
      simp only [RegRecord.register, Register.mk.injEq] at same
      obtain ⟨name, type, addr, noBits, bit64, bits⟩ := same
      have free : own.fields.type ≠ regMmio := fun own => bound (type ▸ own)
      rw [if_neg free] at addr
      exact ⟨name, type, noBits, bit64, bits, fun own => absurd own free, fun _ => addr⟩
  · intro same
    refine ⟨_, ?_, rfl⟩
    have bits : (read.register fun _ => 0).bits = (own.register segments).bits := same.bits
    by_cases bound : own.fields.type = regMmio
    · obtain ⟨offset, found, addr⟩ := same.bound bound
      rw [if_pos (same.type ▸ bound), found]
      refine congrArg Except.ok ?_
      rw [Register.mk.injEq]
      refine ⟨same.name, same.type, ?_, same.noBits, same.bit64, bits⟩
      change _ = if own.fields.type = regMmio then _ else _
      rw [if_pos bound]
      exact addr
    · rw [if_neg fun read => bound (same.type ▸ read)]
      refine congrArg Except.ok ?_
      rw [Register.mk.injEq]
      refine ⟨same.name, same.type, ?_, same.noBits, same.bit64, bits⟩
      change _ = if own.fields.type = regMmio then _ else _
      rw [if_neg bound]
      exact same.free bound

def Restored (contents : List Char → RegContents) (exps : List ExportData)
    (read own : ExportData) : Prop :=
  (contents read.path).noRegs = (contents own.path).noRegs ∧
    List.Forall₂ (SameRegister (rowTable exps read.ipname own.det.inst) (entrySegments own.det))
      (contents read.path).records (contents own.path).records

theorem placeRecords_same {row : Nat → Option UInt64} {segments : Nat → UInt64}
    {read own : List RegRecord} :
    (∃ regs, read.mapM (placeRecord (some row)) = .ok regs ∧ regs = own.map (RegRecord.register segments)) ↔
      List.Forall₂ (SameRegister row segments) read own := by
  have each : (fun a c => ∃ b, placeRecord (some row) a = .ok b ∧ b = RegRecord.register segments c) =
      SameRegister row segments := funext fun _ => funext fun _ => propext placeRecord_same
  rw [← each, ← mapM_forall₂]
  refine exists_congr fun regs => and_congr_right fun _ => ?_
  rw [← List.forall₂_map_right_iff, List.forall₂_eq_eq_eq]

/-! ## What is exported -/

theorem entryName_plain (det : DiscoveryEntry) : nul ∉ entryName det := by
  intro member
  obtain ⟨b, isByte, isNul⟩ := List.mem_map.mp member
  have nonzero := (CString.ofBuffer det.ipname.toList).terminated b isByte
  have known : ∀ n : Fin 256, n ≠ 0 → Char.ofNat n.val ≠ nul := by decide +kernel
  refine known ⟨b.toNat, b.toNat_lt⟩ (fun zero => nonzero ?_) isNul
  exact UInt8.toNat_inj.mp (congrArg Fin.val zero)

/-- The register files of the entries are there, and hold what they should. -/
def FilesHold (fopen : List Char → Option (List Char)) (contents : List Char → RegContents)
    (exps : List ExportData) : Prop :=
  ∀ exp ∈ exps, ∃ text, fopen exp.path = some text ∧ (contents exp.path).In text

def foundBlocks (contents : List Char → RegContents) (exps : List ExportData) : List IpBlock :=
  renamed ((keptExps exps).map (ownBlock contents))

/-- The texts are such that they can be read back: names and paths without blanks, lines that fit
the buffers, no more rows of a name than the table has. -/
structure ExportFits (asicname : List Char) (contents : List Char → RegContents)
    (exps : List ExportData) : Prop where
  asic : IsName asicname
  header : (asicHeader asicname (keptExps exps).length).length + 1 < 256
  count : ((keptExps exps).length : Int) < 2 ^ 31
  named : ∀ exp ∈ exps, IsWord exp.ipname ∧ exp.ipname.length < 64 ∧
    sscanf0x (exp.ipname ++ ['\n']) = none ∧ (rowsOf exps exp.ipname).length ≤ maxInst
  paths : ∀ exp ∈ exps, IsName exp.path
  insts : ∀ exp ∈ exps, -2 ^ 31 ≤ exp.det.inst ∧ exp.det.inst < 2 ^ 31
  lines : ∀ line ∈ List.zipWith asicLine (foundBlocks contents exps) exps, line.length + 1 < 256

section Export
variable {asicname : List Char} {contents : List Char → RegContents} {exps : List ExportData}

theorem ExportFits.nameFits (fits : ExportFits asicname contents exps) :
    ∀ name ∈ ipNames exps, NameFits exps name := by
  intro name member
  obtain ⟨exp, isExp, rfl⟩ := mem_ipNames.mp member
  obtain ⟨word, short, unnumbered, rows⟩ := fits.named exp isExp
  exact ⟨word, entryName_plain exp.det, short, unnumbered, rows⟩

theorem foundBlocks_length : (foundBlocks contents exps).length = (keptExps exps).length := by
  rw [foundBlocks, renamed, List.length_zipWith, numberZeros_length, List.length_map,
    List.length_map, List.length_map, Nat.min_self]

theorem keptExps_length_le : (keptExps exps).length ≤ exps.length := List.length_filter_le _ _

theorem foundBlocks_getElem {x : Nat} {block : IpBlock} :
    (foundBlocks contents exps)[x]? = some block → ∃ own ipname, (keptExps exps)[x]? = some own ∧
      ipname ∈ numberZeros (((keptExps exps).map (ownBlock contents)).map IpBlock.ipname) ∧
        block = { ownBlock contents own with ipname := ipname } := by
  intro found
  obtain ⟨before, ipname, isBefore, isName, rfl⟩ := List.getElem?_zipWith_eq_some.mp found
  rw [List.getElem?_map] at isBefore
  obtain ⟨own, isOwn, rfl⟩ := Option.map_eq_some_iff.mp isBefore
  exact ⟨own, ipname, isOwn, List.mem_of_getElem? isName, rfl⟩

theorem ExportFits.ipname (fits : ExportFits asicname contents exps) {ipname : List Char}
    (member : ipname ∈ numberZeros (((keptExps exps).map (ownBlock contents)).map IpBlock.ipname)) :
    IsName ipname := by
  refine numberZeros_all (fun name isName => ?_) (fun name named => named.numbered) ipname member
  rw [List.map_map] at isName
  obtain ⟨exp, isExp, rfl⟩ := List.mem_map.mp isName
  exact blockName_isName ⟨(fits.named exp (List.mem_filter.mp isExp).1).1, entryName_plain exp.det⟩

theorem ExportFits.line (fits : ExportFits asicname contents exps) :
    ∀ line ∈ (foundBlocks contents exps).zip exps, LineFits line.1 line.2 := by
  intro line member
  obtain ⟨x, isLine⟩ := List.getElem?_of_mem member
  obtain ⟨isBlock, isExp⟩ := List.getElem?_zip_eq_some.mp isLine
  obtain ⟨own, ipname, isOwn, named, block⟩ := foundBlocks_getElem isBlock
  have expMember := List.mem_of_getElem? isExp
  have ownMember := (List.mem_filter.mp (List.mem_of_getElem? isOwn)).1
  refine ⟨?_, ⟨(fits.named _ expMember).1, entryName_plain _⟩, ?_, fits.paths _ expMember, ?_⟩
  · rw [block]
    exact fits.ipname named
  · rw [block]
    exact fits.insts own ownMember
  · refine fits.lines _ (List.mem_of_getElem? (i := x) ?_)
    exact List.getElem?_zipWith_eq_some.mpr ⟨line.1, line.2, isBlock, isExp, rfl⟩

theorem asicHeader_plain (named : IsName asicname) (noBlocks : Int) :
    '\n' ∉ asicHeader asicname noBlocks ∧ nul ∉ asicHeader asicname noBlocks := by
  have name := named.plain
  have family := printInt_plain familyNv
  have count := printInt_plain noBlocks
  have space : '\n' ≠ ' ' ∧ nul ≠ ' ' := by decide
  have dot : '\n' ∉ ".soc15 ".toList ∧ nul ∉ ".soc15 ".toList := by decide
  have tail : '\n' ∉ " 2 0".toList ∧ nul ∉ " 2 0".toList := by decide
  unfold asicHeader
  simp only [List.mem_append, List.mem_cons, not_or]
  exact ⟨⟨name.1, space.1, name.1, dot.1, family.1, space.1, count.1, tail.1⟩,
    ⟨name.2, space.2, name.2, dot.2, family.2, space.2, count.2, tail.2⟩⟩

end Export

def blockLines (contents : List Char → RegContents) (exps : List ExportData) : List (List Char) :=
  ((foundBlocks contents exps).zip exps).map fun line => asicLine line.1 line.2

def soc15File (asicname : List Char) (exps : List ExportData) : Written :=
  (asicname ++ ".soc15".toList, fileText ((ipNames exps).map (ipSection exps)))

def asicFile (asicname : List Char) (contents : List Char → RegContents)
    (exps : List ExportData) : Written :=
  (asicname ++ ".asic".toList,
    asicHeader asicname (keptExps exps).length ++ '\n' ::
      (blockLines contents exps).flatMap fun line => line ++ ['\n'])

section Discovery
variable {db : List ScanItem} {desired : Option (List Char)} {fopen : List Char → Option (List Char)}
variable {contents : List Char → RegContents} {entries : List DiscoveryEntry}

/-- The blocks that are read, in front of the one that is left out again. -/
theorem found_blocks {found : List ScanItem} (isDb : db = found ++ [emptyItem])
    (stale : DiscoveryEntry → Stale) (holds : FilesHold fopen contents (expData db desired entries))
    (slots : Nat) {asic : AsicBlocks BlockRead} (isAsic : asic = umrDiscoverAsicByDiscoveryTable db
      desired (fun det nit => readIpBlock (stale det) det nit (fopen (nit.path ++ '/' :: nit.fname)))
      (discoveryTable entries) slots) :
    asic.noBlocks = (keptExps (expData db desired entries)).length ∧
      ((List.range asic.noBlocks.toNat).mapM fun x => (asic.block x).bind BlockRead.block) =
        some ((keptExps (expData db desired entries)).map (ownBlock contents)) := by
  subst isAsic
  obtain ⟨positive, inOrder, -⟩ := (buildsBlocks_of_ends desired (fun det nit =>
    readIpBlock (stale det) det nit (fopen (nit.path ++ '/' :: nit.fname))) isDb .log entries).mpr
      (Or.inl rfl)
  have reads : (keptExps (expData db desired entries)).map (fun exp =>
      readIpBlock (stale exp.det) exp.det exp.nit (fopen (exp.nit.path ++ '/' :: exp.nit.fname))) =
      (keptExps (expData db desired entries)).map fun exp =>
        .ok (some (ownBlock contents exp), []) := by
    refine List.map_congr_left fun exp member => ?_
    obtain ⟨text, isText, holdsText⟩ := holds exp (List.mem_filter.mp member).1
    have isFile : fopen (exp.nit.path ++ '/' :: exp.nit.fname) = some text := isText
    rw [isFile, readIpBlock_contents holdsText]
    rfl
  rw [ipBlocks_expData, reads] at inOrder
  have lengths := congrArg List.length inOrder
  rw [List.length_map, List.length_range, List.length_map, List.length_map] at lengths
  refine ⟨?_, ?_⟩
  · rw [← lengths]
    exact (Int.toNat_of_nonneg positive).symm
  · refine mapM_eq_some ?_
    have blocks := congrArg (List.map fun read : Option BlockRead => read.bind BlockRead.block) inOrder
    rw [List.map_map, List.map_map, List.map_map] at blocks
    rw [List.map_map]
    exact blocks

/-- What the program makes of entries whose register files are well formed. -/
theorem discoverAndExport_eq {found : List ScanItem} (isDb : db = found ++ [emptyItem])
    (stale : DiscoveryEntry → Stale) {aname : List Char}
    (fits : ExportFits (asicName aname) contents (expData db desired entries))
    (holds : FilesHold fopen contents (expData db desired entries)) (slots : Nat) :
    ∃ asic, discoverAndExport db desired fopen stale aname (discoveryTable entries) slots =
        some (asic, [soc15File (asicName aname) (expData db desired entries),
          asicFile (asicName aname) contents (expData db desired entries)]) ∧
      asic.asicname = asicName aname ∧
      asic.noBlocks = (keptExps (expData db desired entries)).length ∧
      asic.blocks = foundBlocks contents (expData db desired entries) := by
  obtain ⟨nit, isMatched⟩ := matched_blank found desired
  rw [← isDb] at isMatched
  obtain ⟨count, blocks⟩ := found_blocks isDb stale holds slots rfl
  obtain ⟨exps, isExps⟩ : ∃ exps, exps = expData db desired entries := ⟨_, rfl⟩
  rw [← isExps] at fits count blocks ⊢
  have table : expData db desired (discoveryTable entries) = exps ++ [⟨.blank, nit, false⟩] :=
    isExps ▸ expData_table db desired entries isMatched
  have unnamed : (⟨.blank, nit, false⟩ : ExportData).ipname = [] := by
    change entryName .blank = []
    decide
  have named : ∀ exp ∈ exps, exp.ipname ≠ [] := fun exp member => (fits.named exp member).1.nonempty
  have unmarked : ∀ exp ∈ exps ++ [⟨.blank, nit, false⟩], exp.soc15 = false := by
    rw [← table]
    intro exp member
    obtain ⟨det, -, isExp⟩ := List.mem_filterMap.mp member
    obtain ⟨nit, -, rfl⟩ := Option.map_eq_some_iff.mp isExp
    rfl
  have fewer : (foundBlocks contents exps).length ≤ exps.length := by
    rw [foundBlocks_length]
    exact keptExps_length_le
  have lines : asicLines (foundBlocks contents exps) (exps ++ [⟨.blank, nit, false⟩]) =
      some (blockLines contents exps) := by
    have more : (foundBlocks contents exps).length ≤
        (exps ++ [(⟨.blank, nit, false⟩ : ExportData)]).length := by
      rw [List.length_append]
      exact Nat.le_add_right_of_le fewer
    rw [asicLines_zip more, blockLines, List.map_zip_eq_zipWith]
    refine congrArg some (List.ext_getElem? fun x => ?_)
    rw [List.getElem?_zipWith, List.getElem?_zipWith]
    by_cases inside : x < exps.length
    · rw [List.getElem?_append_left inside]
      rfl
    · have outside : (foundBlocks contents exps)[x]? = none := List.getElem?_eq_none (by omega)
      rw [outside]
  have short : (asicName aname).length ≤ 119 := by
    have header := fits.header
    have width : ∀ value : Int, 1 ≤ (printInt value).length := fun value =>
      List.length_pos_of_ne_nil (printInt_word value).nonempty
    have family := width familyNv
    have noBlocks := width (keptExps exps).length
    have dot : ".soc15 ".toList.length = 7 := rfl
    have tail : " 2 0".toList.length = 4 := rfl
    simp only [asicHeader, List.length_append, List.length_cons, dot, tail] at header
    omega
  have whole : ∀ ending : List Char, ending.length ≤ 6 →
      (asicName aname ++ ending).take 127 = asicName aname ++ ending := by
    intro ending few
    refine List.take_of_length_le ?_
    rw [List.length_append]
    omega
  refine ⟨⟨asicName aname, (keptExps exps).length, familyConfigure, 0,
    if asicName aname = "aldebaran".toList then 3 else 2, foundBlocks contents exps⟩, ?_, rfl, rfl, rfl⟩
  unfold discoverAndExport
  dsimp only
  rw [blocks, count, table]
  change (do
    let files ← exportModel ⟨asicName aname, (keptExps exps).length, familyConfigure, 0,
      if asicName aname = "aldebaran".toList then 3 else 2, foundBlocks contents exps⟩ _
    pure (_, files)) = _
  rw [exportModel]
  dsimp only
  rw [lines, soc15Text_sections unnamed named unmarked]
  change some (_, [((asicName aname ++ ".soc15".toList).take 127, _),
    ((asicName aname ++ ".asic".toList).take 127, _)]) = _
  rw [whole ".soc15".toList (by decide), whole ".asic".toList (by decide), List.flatMap_cons,
    List.append_assoc]
  rfl

end Discovery

/-! ## Reading back -/

structure SameBlock (read own : IpBlock) : Prop where
  ipname : read.ipname = own.ipname
  noRegs : read.noRegs = own.noRegs
  regs : read.regs = own.regs

/-- The exported model is read, and has the blocks of the one that was found, in the same order. -/
def ModelReturns (opened : List Char → Option (List Char)) (stale : Nat → Stale)
    (linebuf : List Char) (asic : AsicModel) : Prop :=
  ∃ model errors, umrDatabaseReadAsic opened stale linebuf (asic.asicname ++ ".asic".toList) =
      .ok (some model, errors) ∧
    model.noBlocks = asic.noBlocks ∧ List.Forall₂ SameBlock model.blocks asic.blocks

/-- `umr_database_open` finds the files that were written, and the register files of before. -/
structure Finds (opened fopen : List Char → Option (List Char)) (exps : List ExportData)
    (files : List Written) : Prop where
  written : ∀ file ∈ files, opened file.1 = some file.2
  regs : ∀ exp ∈ exps, opened exp.path = fopen exp.path

theorem soc15Segments_row {exps : List ExportData} {name : List Char} {entry : Soc15}
    (rows : ∀ inst idx, inst < maxInst → entry.off inst idx = rowRead exps name inst idx)
    (inst : Int) {idx : Nat} (inside : idx < 32) :
    soc15Segments entry (instRow inst) idx = rowTable exps name inst idx := by
  have wide : idx < maxSeg := Nat.lt_of_lt_of_le inside (by decide)
  unfold soc15Segments instRow rowTable
  by_cases positive : 0 ≤ inst
  · rw [if_pos positive]
    by_cases small : inst < maxInst
    · have row : inst.toNat < maxInst := by omega
      rw [if_pos ⟨row, wide⟩, if_pos ⟨positive, small⟩, rows _ _ row]
    · rw [if_neg fun both => small (by omega), if_neg fun both => small both.2]
  · rw [if_neg positive, if_neg fun both => absurd both.1 (Nat.lt_irrefl _),
      if_neg fun both => positive both.1]

theorem mapM_congr {α β ε : Type} {f g : α → Except ε β} {as : List α}
    (same : ∀ a ∈ as, f a = g a) : as.mapM f = as.mapM g := by
  induction as with
  | nil => rfl
  | cons a as ih =>
      obtain ⟨here, later⟩ := List.forall_mem_cons.mp same
      rw [List.mapM_cons, List.mapM_cons, here, ih later]

theorem forall₂_zip_left {α β : Type} {P : α × β → α → Prop} :
    ∀ {as : List α} {bs : List β}, as.length ≤ bs.length →
      (List.Forall₂ P (as.zip bs) as ↔ ∀ pair ∈ as.zip bs, P pair pair.1)
  | [], _, _ => by simp
  | a :: as, b :: bs, enough => by
      rw [List.zip_cons_cons, List.forall₂_cons, List.forall_mem_cons,
        forall₂_zip_left (Nat.le_of_succ_le_succ enough)]

section ReadBack
variable {opened fopen : List Char → Option (List Char)} {asicname : List Char}
variable {contents : List Char → RegContents} {exps : List ExportData}

def answerOf (contents : List Char → RegContents) (exps : List ExportData) (header : IpHeader) :
    Except RegFault IpBlock :=
  ((contents header.regfile).records.mapM
    (placeRecord (some (rowTable exps header.ipsocname header.inst)))).map fun regs =>
      ⟨header.ipcmnname, (contents header.regfile).noRegs, regs, fillIpverFromPath header.regfile⟩

theorem readHeaderBlock_answer (holds : FilesHold fopen contents exps)
    (same : ∀ exp ∈ exps, opened exp.path = fopen exp.path) (paths : ∀ exp ∈ exps, IsName exp.path)
    {entries : List Soc15} (rows : ∀ name ∈ ipNames exps, ∃ entry,
      entries.find? (fun entry => decide (entry.ipname = name)) = some entry ∧
        ∀ inst idx, inst < maxInst → entry.off inst idx = rowRead exps name inst idx)
    (block : IpBlock) {exp : ExportData} (member : exp ∈ exps) (stale : Stale) :
    readHeaderBlock opened (some entries) stale (headerOf block exp) =
      (answerOf contents exps (headerOf block exp)).map fun block => (some block, []) := by
  obtain ⟨text, isText, holdsText⟩ := holds exp member
  obtain ⟨entry, found, row⟩ := rows exp.ipname (mem_ipNames.mpr ⟨exp, member, rfl⟩)
  have file : opened exp.path = some text := (same exp member).trans isText
  have place : (contents exp.path).records.mapM
      (placeRecord (some (soc15Segments entry (instRow block.discoverable.inst)))) =
      (contents exp.path).records.mapM
        (placeRecord (some (rowTable exps exp.ipname block.discoverable.inst))) := by
    refine mapM_congr fun record isRecord => placeRecord_congr ?_
    exact soc15Segments_row row _ (holdsText.file.records record isRecord).idx
  rw [readHeaderBlock, answerOf, headerOf]
  dsimp only
  rw [file, @umrDatabaseReadIpblock_contents _ _ holdsText.scans stale (some entries)
      (some entry) exp.ipname block.ipname exp.path (paths exp member).1 (congrArg some found) _,
    Option.map_some, place]
  cases (contents exp.path).records.mapM
      (placeRecord (some (rowTable exps exp.ipname block.discoverable.inst))) with
  | error fault => rfl
  | ok regs => rfl

theorem answerOf_restored {own read : ExportData} {ipname : List Char} :
    (∃ block, answerOf contents exps
        (headerOf { ownBlock contents own with ipname := ipname } read) = .ok block ∧
      SameBlock block { ownBlock contents own with ipname := ipname }) ↔
      Restored contents exps read own := by
  rw [Restored, ← placeRecords_same, answerOf, headerOf]
  dsimp only
  constructor
  · rintro ⟨block, answer, -, noRegs, regs⟩
    cases stored : (contents read.path).records.mapM
        (placeRecord (some (rowTable exps read.ipname own.det.inst))) with
    | error fault =>
        rw [show (ownBlock contents own).discoverable.inst = own.det.inst from rfl, stored] at answer
        cases answer
    | ok placed =>
        rw [show (ownBlock contents own).discoverable.inst = own.det.inst from rfl, stored] at answer
        cases answer
        exact ⟨noRegs, placed, rfl, regs⟩
  · rintro ⟨noRegs, placed, stored, regs⟩
    rw [show (ownBlock contents own).discoverable.inst = own.det.inst from rfl, stored]
    exact ⟨_, rfl, rfl, noRegs, regs⟩

/-- What reading the exported model gives, whatever the locals hold. -/
theorem umrDatabaseReadAsic_exported (fits : ExportFits asicname contents exps)
    (holds : FilesHold fopen contents exps)
    (finds : Finds opened fopen exps [soc15File asicname exps, asicFile asicname contents exps])
    (stale : Nat → Stale) (linebuf : List Char) :
    umrDatabaseReadAsic opened stale linebuf (asicname ++ ".asic".toList) =
      match ((foundBlocks contents exps).zip exps).mapM fun line =>
          answerOf contents exps (headerOf line.1 line.2) with
      | .ok blocks =>
          .ok (some ⟨asicname, (keptExps exps).length, familyNv, 0, 2, blocks⟩, [])
      | .error fault => .error (.reg fault) := by
  have asicText : opened (asicname ++ ".asic".toList) = some (asicHeader asicname
      (keptExps exps).length ++ '\n' :: (blockLines contents exps).flatMap fun line =>
        line ++ ['\n']) := finds.written _ (List.mem_cons_of_mem _ List.mem_cons_self)
  have soc15Text : opened (asicname ++ ".soc15".toList) = some (fileText ((ipNames exps).map
      (ipSection exps))) := finds.written _ List.mem_cons_self
  obtain ⟨entries, table, rows⟩ :=
    umrDatabaseReadSoc15_exported (asicname ++ ".soc15".toList) fits.nameFits
  have plain := asicHeader_plain fits.asic (keptExps exps).length
  have first := fgetsKeep_whole plain.1 plain.2 fits.header linebuf
    ((blockLines contents exps).flatMap fun line => line ++ ['\n'])
  have header := @scanAsicHeader_header asicname fits.asic (keptExps exps).length (by omega)
    fits.count
  have other : asicname ++ ".soc15".toList ≠ "null".toList := by
    intro same
    have lengths := congrArg List.length same
    have ending : ".soc15".toList.length = 6 := rfl
    have null : "null".toList.length = 4 := rfl
    rw [List.length_append, ending, null] at lengths
    omega
  have fewer : (foundBlocks contents exps).length ≤ exps.length := by
    rw [foundBlocks_length]
    exact keptExps_length_le
  have count : (keptExps exps).length = ((foundBlocks contents exps).zip exps).length := by
    rw [List.length_zip, Nat.min_eq_left fewer, foundBlocks_length]
  have lines := @readAsicBlocks_lines opened (some entries) stale (answerOf contents exps)
    ((foundBlocks contents exps).zip exps) 0 (asicHeader asicname (keptExps exps).length ++ ['\n'])
    fits.line fun line member stale => readHeaderBlock_answer holds finds.regs fits.paths rows line.1
      (List.of_mem_zip member).2 stale
  rw [← count] at lines
  rw [umrDatabaseReadAsic, asicText]
  dsimp only
  rw [first]
  dsimp only
  rw [header]
  dsimp only
  rw [if_neg other, readAsicSoc15, soc15Text, table, Int.toNat_natCast]
  dsimp only
  rw [blockLines, lines]
  cases ((foundBlocks contents exps).zip exps).mapM fun line =>
      answerOf contents exps (headerOf line.1 line.2) with
  | error fault => rfl
  | ok blocks => rfl

end ReadBack

/-- Each block comes back through the line in its place. -/
theorem blocks_restored {contents : List Char → RegContents} {exps : List ExportData} :
    (∃ blocks, ((foundBlocks contents exps).zip exps).mapM (fun line =>
        answerOf contents exps (headerOf line.1 line.2)) = .ok blocks ∧
      List.Forall₂ SameBlock blocks (foundBlocks contents exps)) ↔
      ∀ (x : Nat) (own read : ExportData), (keptExps exps)[x]? = some own →
        exps[x]? = some read → Restored contents exps read own := by
  have fewer : (foundBlocks contents exps).length ≤ exps.length := by
    rw [foundBlocks_length]
    exact keptExps_length_le
  rw [mapM_forall₂, forall₂_zip_left fewer]
  constructor
  · intro all x own read isOwn isRead
    have inside : x < (foundBlocks contents exps).length := by
      rw [foundBlocks_length]
      exact (List.getElem?_eq_some_iff.mp isOwn).1
    have isBlock := List.getElem?_eq_getElem inside
    obtain ⟨own', ipname, isOwn', -, block⟩ := foundBlocks_getElem isBlock
    cases isOwn.symm.trans isOwn'
    have isLine := @List.getElem?_zip_eq_some _ _ (foundBlocks contents exps) exps
      ((foundBlocks contents exps)[x], read) x
    have back := all _ (List.mem_of_getElem? (isLine.mpr ⟨isBlock, isRead⟩))
    rw [block] at back
    exact answerOf_restored.mp back
  · intro all line member
    obtain ⟨x, isLine⟩ := List.getElem?_of_mem member
    obtain ⟨isBlock, isRead⟩ := List.getElem?_zip_eq_some.mp isLine
    obtain ⟨own, ipname, isOwn, -, block⟩ := foundBlocks_getElem isBlock
    rw [block]
    exact answerOf_restored.mpr (all x own line.2 isOwn isRead)

/-- A model whose texts are those of the entries comes back exactly when its blocks do. -/
theorem modelReturns_blocks {opened fopen : List Char → Option (List Char)}
    {asicname : List Char} {contents : List Char → RegContents} {exps : List ExportData}
    (fits : ExportFits asicname contents exps) (holds : FilesHold fopen contents exps)
    (finds : Finds opened fopen exps [soc15File asicname exps, asicFile asicname contents exps])
    (stale : Nat → Stale) (linebuf : List Char) {asic : AsicModel}
    (name : asic.asicname = asicname) (count : asic.noBlocks = (keptExps exps).length)
    (blocks : asic.blocks = foundBlocks contents exps) :
    ModelReturns opened stale linebuf asic ↔
      ∀ (x : Nat) (own read : ExportData), (keptExps exps)[x]? = some own →
        exps[x]? = some read → Restored contents exps read own := by
  rw [ModelReturns, name, count, blocks, umrDatabaseReadAsic_exported fits holds finds stale linebuf,
    ← blocks_restored]
  constructor
  · rintro ⟨model, errors, read, -, same⟩
    cases ran : ((foundBlocks contents exps).zip exps).mapM fun line =>
        answerOf contents exps (headerOf line.1 line.2) with
    | error fault =>
        rw [ran] at read
        cases read
    | ok blocks =>
        rw [ran] at read
        cases read
        exact ⟨blocks, rfl, same⟩
  · rintro ⟨blocks, ran, same⟩
    rw [ran]
    exact ⟨_, [], rfl, rfl, same⟩

/-! ## Entries in order -/

/-- No entry is harvested, and those of one name are numbered in their order. -/
structure InOrder (exps : List ExportData) : Prop where
  kept : ∀ exp ∈ exps, exp.det.harvest = 0
  counted : ∀ (x : Nat) (exp : ExportData), exps[x]? = some exp →
    exp.det.inst = (rowsOf (exps.take x) exp.ipname).length

theorem rowsOf_getElem {exps : List ExportData} {x : Nat} {exp : ExportData}
    (isExp : exps[x]? = some exp) :
    (rowsOf exps exp.ipname)[(rowsOf (exps.take x) exp.ipname).length]? = some exp := by
  obtain ⟨inside, value⟩ := List.getElem?_eq_some_iff.mp isExp
  have split : exps = exps.take x ++ exp :: exps.drop (x + 1) := by
    rw [← value, List.getElem_cons_drop, List.take_append_drop]
  have rows : rowsOf exps exp.ipname =
      rowsOf (exps.take x) exp.ipname ++ exp :: rowsOf (exps.drop (x + 1)) exp.ipname := by
    have both := congrArg (rowsOf · exp.ipname) split
    unfold rowsOf at both ⊢
    rwa [List.filter_append, List.filter_cons, if_pos (decide_eq_true rfl)] at both
  rw [rows, List.getElem?_append_right (Nat.le_refl _), Nat.sub_self]
  rfl

theorem restored_self {asicname : List Char} {contents : List Char → RegContents}
    {exps : List ExportData} (fits : ExportFits asicname contents exps) (inOrder : InOrder exps)
    {x : Nat} {exp : ExportData} (isExp : exps[x]? = some exp) : Restored contents exps exp exp := by
  have row := rowsOf_getElem isExp
  have counted := inOrder.counted x exp isExp
  have few := (fits.named exp (List.mem_of_getElem? isExp)).2.2.2
  have inside := (List.getElem?_eq_some_iff.mp row).1
  have table : ∀ idx, rowTable exps exp.ipname exp.det.inst idx =
      some (entrySegments exp.det idx) := by
    intro idx
    rw [rowTable, counted, if_pos (by omega), Int.toNat_natCast, rowRead, row]
  refine ⟨rfl, List.forall₂_same.mpr fun record _ => ?_⟩
  exact ⟨rfl, rfl, rfl, rfl, rfl, fun _ => ⟨_, table _, rfl⟩, fun _ => rfl⟩

section Scanned
variable {roots : List (List Char × Listing)} {heap : Heap} {desired : Option (List Char)}
variable {entries : List DiscoveryEntry} {fopen opened : List Char → Option (List Char)}
variable {aname : List Char} {contents : List Char → RegContents} {exps : List ExportData}
variable {stale : DiscoveryEntry → Stale} {slots : Nat} {asic : AsicModel} {files : List Written}

/-- The model comes back exactly when each block is restored through the matched entry in its place,
harvested or not. -/
theorem modelReturns_iff (scanned : umrDatabaseScan roots = some heap)
    (isExps : exps = expData (items heap (listed heap heap.length 0)) desired entries)
    (fits : ExportFits (asicName aname) contents exps) (holds : FilesHold fopen contents exps)
    (exported : discoverAndExport (items heap (listed heap heap.length 0)) desired fopen stale aname
      (discoveryTable entries) slots = some (asic, files))
    (finds : Finds opened fopen exps files) (other : Nat → Stale) (linebuf : List Char) :
    ModelReturns opened other linebuf asic ↔
      ∀ (x : Nat) (own read : ExportData), (keptExps exps)[x]? = some own →
        exps[x]? = some read → Restored contents exps read own := by
  obtain ⟨heap', ran, -, isItems⟩ := umrDatabaseScan_listed (umrDatabaseScan_fits scanned)
  cases scanned.symm.trans ran
  subst isExps
  obtain ⟨asic', exported', name, count, blocks⟩ := discoverAndExport_eq isItems stale fits holds slots
  cases exported.symm.trans exported'
  exact modelReturns_blocks fits holds finds other linebuf name count blocks

/-- The model comes back if no entry is harvested and the instances of each name are in order. -/
theorem modelReturns_inOrder (scanned : umrDatabaseScan roots = some heap)
    (isExps : exps = expData (items heap (listed heap heap.length 0)) desired entries)
    (fits : ExportFits (asicName aname) contents exps) (holds : FilesHold fopen contents exps)
    (inOrder : InOrder exps) (stale : DiscoveryEntry → Stale) (slots : Nat) :
    ∃ asic files, discoverAndExport (items heap (listed heap heap.length 0)) desired fopen stale
        aname (discoveryTable entries) slots = some (asic, files) ∧
      ∀ opened, Finds opened fopen exps files → ∀ (other : Nat → Stale) (linebuf : List Char),
        ModelReturns opened other linebuf asic := by
  obtain ⟨heap', ran, -, isItems⟩ := umrDatabaseScan_listed (umrDatabaseScan_fits scanned)
  cases scanned.symm.trans ran
  subst isExps
  obtain ⟨asic, exported, name, count, blocks⟩ := discoverAndExport_eq isItems stale fits holds slots
  refine ⟨asic, _, exported, fun opened finds other linebuf => ?_⟩
  refine (modelReturns_blocks fits holds finds other linebuf name count blocks).mpr ?_
  intro x own read isOwn isRead
  have all : keptExps (expData (items heap (listed heap heap.length 0)) desired entries) =
      expData (items heap (listed heap heap.length 0)) desired entries :=
    List.filter_eq_self.mpr fun exp member => decide_eq_true (inOrder.kept exp member)
  rw [all] at isOwn
  cases isOwn.symm.trans isRead
  exact restored_self fits inOrder isOwn

/-- The blocks are stored inside their array, and the model that is exported comes back. -/
def ExportReturns (db : List ScanItem) (desired : Option (List Char))
    (fopen opened : List Char → Option (List Char)) (stale : DiscoveryEntry → Stale)
    (source : TableSource) (entries : List DiscoveryEntry) (other : Nat → Stale)
    (linebuf : List Char) (asic : AsicModel) : Prop :=
  BuildsBlocks db desired
      (fun det nit => readIpBlock (stale det) det nit (fopen (nit.path ++ '/' :: nit.fname)))
      source entries ∧
    ModelReturns opened other linebuf asic

/-- An export comes back when the entry at the end has a slot, and each block is restored through
the matched entry in its place. -/
theorem exportReturns_iff (scanned : umrDatabaseScan roots = some heap)
    (isExps : exps = expData (items heap (listed heap heap.length 0)) desired entries)
    (fits : ExportFits (asicName aname) contents exps) (holds : FilesHold fopen contents exps)
    (source : TableSource)
    (exported : discoverAndExport (items heap (listed heap heap.length 0)) desired fopen stale aname
      (discoveryTable entries) (numblocks source entries) = some (asic, files))
    (finds : Finds opened fopen exps files) (other : Nat → Stale) (linebuf : List Char) :
    ExportReturns (items heap (listed heap heap.length 0)) desired fopen opened stale source entries
        other linebuf asic ↔
      (source = .log ∨ ∃ det ∈ entries, det.harvest ≠ 0 ∨
        matched (items heap (listed heap heap.length 0)) desired det = none) ∧
      ∀ (x : Nat) (own read : ExportData), (keptExps exps)[x]? = some own →
        exps[x]? = some read → Restored contents exps read own := by
  obtain ⟨heap', ran, -, isItems⟩ := umrDatabaseScan_listed (umrDatabaseScan_fits scanned)
  cases scanned.symm.trans ran
  subst isExps
  obtain ⟨asic', exported', name, count, blocks⟩ := discoverAndExport_eq isItems stale fits holds
    (numblocks source entries)
  cases exported.symm.trans exported'
  exact and_congr (buildsBlocks_of_ends desired _ isItems source entries)
    (modelReturns_blocks fits holds finds other linebuf name count blocks)

end Scanned

/-! ## Two instances -/

/-- The second instance of GC, one of another die that counts from 0 again, and one whose number
leaves a gap. -/
def secondGc : DiscoveryEntry := { gcEntry with
  inst := 1
  logicalInst := 1
  segments := storedInto 32 [0x2260, 0xB000] }

def otherDie : DiscoveryEntry := { secondGc with die := 1, inst := 0, logicalInst := 0 }

def gapGc : DiscoveryEntry := { secondGc with inst := 2, logicalInst := 2 }

def seconds : List DiscoveryEntry := [secondGc, otherDie, gapGc]

def gcPath : List Char := "/db/gc_11_0_0.reg".toList

def gcFiles (path : List Char) : Option (List Char) :=
  if path = gcPath then some (announcesOne [oneReg]) else none

def gcContents (_ : List Char) : RegContents := ⟨1, [oneReg]⟩

def storedOver (fopen : List Char → Option (List Char)) (files : List Written)
    (path : List Char) : Option (List Char) := (files.lookup path).or (fopen path)

def gcItems : List ScanItem := items gcHeap (listed gcHeap gcHeap.length 0)

def gcItem : ScanItem := fill "/db".toList "gc_11_0_0.reg".toList emptyItem

theorem expData_gc {entries : List DiscoveryEntry}
    (gc : ∀ det ∈ entries, det.ipname = gcEntry.ipname ∧ det.maj = 11 ∧ det.min = 0 ∧ det.rev = 0) :
    expData gcItems none entries = entries.map fun det => ⟨det, gcItem, false⟩ := by
  have one : matched gcItems none gcEntry = some gcItem := by decide
  induction entries with
  | nil => rfl
  | cons det entries ih =>
      obtain ⟨⟨name, maj, min, rev⟩, later⟩ := List.forall_mem_cons.mp gc
      have same : matched gcItems none det = some gcItem := by
        rw [matched, name, maj, min, rev]
        exact one
      rw [expData_cons, same, ih later]
      rfl

def gcExps (second : DiscoveryEntry) : List ExportData :=
  [⟨gcEntry, gcItem, false⟩, ⟨second, gcItem, false⟩]

theorem seconds_cases {second : DiscoveryEntry} (listed : second ∈ seconds) :
    second = secondGc ∨ second = otherDie ∨ second = gapGc := by
  simpa [seconds] using listed

section Two
variable {second : DiscoveryEntry}

theorem gcExps_name (listed : second ∈ seconds) :
    ∀ exp ∈ gcExps second, exp.ipname = "gc".toList ∧ exp.path = gcPath := by
  intro exp member
  rcases List.mem_pair.mp member with rfl | rfl
  · decide
  · rcases seconds_cases listed with rfl | rfl | rfl <;> decide

theorem gc_fits (listed : second ∈ seconds) :
    ExportFits (asicName "gpu".toList) gcContents (gcExps second) where
  asic := ⟨⟨by decide, List.forall_iff_forall_mem.mp (by decide)⟩, by decide⟩
  header := by rcases seconds_cases listed with rfl | rfl | rfl <;> decide
  count := by rcases seconds_cases listed with rfl | rfl | rfl <;> decide
  named := by
    intro exp member
    have rows : (rowsOf (gcExps second) "gc".toList).length ≤ maxInst :=
      Nat.le_trans (List.length_filter_le _ _) (by decide : 2 ≤ maxInst)
    rw [(gcExps_name listed exp member).1]
    exact ⟨⟨by decide, List.forall_iff_forall_mem.mp (by decide)⟩, by decide, by decide, rows⟩
  paths := by
    intro exp member
    rw [(gcExps_name listed exp member).2]
    exact ⟨⟨by decide, List.forall_iff_forall_mem.mp (by decide)⟩, by decide⟩
  insts := by rcases seconds_cases listed with rfl | rfl | rfl <;> decide
  lines := by rcases seconds_cases listed with rfl | rfl | rfl <;> decide

theorem gc_holds (listed : second ∈ seconds) :
    FilesHold gcFiles gcContents (gcExps second) := by
  intro exp member
  have short : [oneReg].length ≤ (1 : UInt32).toNat := by decide
  have names : ∀ record ∈ [oneReg], record.NamesFit := by decide
  refine ⟨announcesOne [oneReg], ?_, oneReg_file, short, names⟩
  rw [(gcExps_name listed exp member).2]
  rfl

theorem gc_expData (listed : second ∈ seconds) :
    gcExps second = expData gcItems none [gcEntry, second] := by
  refine (@expData_gc [gcEntry, second] fun det member => ?_).symm
  rcases List.mem_pair.mp member with rfl | rfl
  · exact ⟨rfl, rfl, rfl, rfl⟩
  · rcases seconds_cases listed with rfl | rfl | rfl <;> exact ⟨rfl, rfl, rfl, rfl⟩

def gcWritten (second : DiscoveryEntry) : List Written :=
  [soc15File "gpu".toList (gcExps second), asicFile "gpu".toList gcContents (gcExps second)]

theorem gc_exported (listed : second ∈ seconds) :
    ∃ asic, discoverAndExport gcItems none gcFiles (fun _ => zeroStale) "gpu".toList
        (discoveryTable [gcEntry, second]) 3 = some (asic, gcWritten second) ∧
      asic.asicname = "gpu".toList ∧ asic.noBlocks = (keptExps (gcExps second)).length ∧
      asic.blocks = foundBlocks gcContents (gcExps second) := by
  have isDb : gcItems = [gcItem] ++ [emptyItem] := by decide
  have fits := gc_fits listed
  have holds := gc_holds listed
  rw [gc_expData listed] at fits holds
  have exported := @discoverAndExport_eq gcItems none gcFiles gcContents [gcEntry, second] [gcItem]
    isDb (fun _ => zeroStale) "gpu".toList fits holds 3
  rwa [← gc_expData listed] at exported

theorem gc_finds (listed : second ∈ seconds) :
    Finds (storedOver gcFiles (gcWritten second)) gcFiles (gcExps second) (gcWritten second) where
  written := by
    intro file member
    rcases List.mem_pair.mp member with rfl | rfl <;> rfl
  regs := by
    intro exp member
    rw [(gcExps_name listed exp member).2]
    rfl

end Two

/-- The register of the block is placed by the wrong offset. -/
theorem not_restored {exps : List ExportData} {read own : ExportData} {offset : UInt64}
    (row : rowTable exps read.ipname own.det.inst 0 = some offset)
    (moved : offset ≠ entrySegments own.det 0) : ¬ Restored gcContents exps read own := by
  intro back
  obtain ⟨found, isFound, addr⟩ := (List.forall₂_cons.mp back.2).1.bound (by decide)
  cases row.symm.trans isFound
  exact moved (add_left_cancel addr)

theorem secondGc_inOrder : InOrder (gcExps secondGc) := by
  refine ⟨fun exp member => ?_, fun x exp isExp => ?_⟩
  · rcases List.mem_pair.mp member with rfl | rfl <;> rfl
  · rcases x with _ | _ | x
    · rw [← Option.some.inj isExp]
      rfl
    · rw [← Option.some.inj isExp]
      decide
    · cases isExp

theorem modelReturns_secondGc :
    ∃ asic files, discoverAndExport gcItems none gcFiles (fun _ => zeroStale) "gpu".toList
        (discoveryTable [gcEntry, secondGc]) 3 = some (asic, files) ∧
      ∀ opened, Finds opened gcFiles (gcExps secondGc) files →
        ∀ (other : Nat → Stale) (linebuf : List Char), ModelReturns opened other linebuf asic := by
  have listed : secondGc ∈ seconds := by simp [seconds]
  exact modelReturns_inOrder gcDatabase_scanned (gc_expData listed) (gc_fits listed)
    (gc_holds listed) secondGc_inOrder (fun _ => zeroStale) 3

/-- The other die gets the row of the first one. -/
theorem modelReturns_not_otherDie :
    ∃ asic, discoverAndExport gcItems none gcFiles (fun _ => zeroStale) "gpu".toList
        (discoveryTable [gcEntry, otherDie]) 3 = some (asic, [soc15File "gpu".toList (gcExps otherDie),
          asicFile "gpu".toList gcContents (gcExps otherDie)]) ∧
      ¬ModelReturns (storedOver gcFiles [soc15File "gpu".toList (gcExps otherDie),
        asicFile "gpu".toList gcContents (gcExps otherDie)]) (fun _ => zeroStale) [] asic := by
  have listed : otherDie ∈ seconds := by simp [seconds]
  obtain ⟨asic, exported, -⟩ := gc_exported listed
  refine ⟨asic, exported, fun returns => ?_⟩
  have all := (modelReturns_iff gcDatabase_scanned (gc_expData listed) (gc_fits listed)
    (gc_holds listed) exported (gc_finds listed) (fun _ => zeroStale) []).mp returns
  have first : rowTable (gcExps otherDie) (entryName otherDie) 0 0 = some 0x1260 := by decide
  exact not_restored first (by decide)
    (all 1 ⟨otherDie, gcItem, false⟩ ⟨otherDie, gcItem, false⟩ rfl rfl)

theorem exportReturns_secondGc :
    ∃ asic, discoverAndExport gcItems none gcFiles (fun _ => zeroStale) "gpu".toList
        (discoveryTable [gcEntry, secondGc]) (numblocks .log [gcEntry, secondGc]) =
          some (asic, gcWritten secondGc) ∧
      ExportReturns gcItems none gcFiles (storedOver gcFiles (gcWritten secondGc))
        (fun _ => zeroStale) .log [gcEntry, secondGc] (fun _ => zeroStale) [] asic := by
  have listed : secondGc ∈ seconds := by simp [seconds]
  obtain ⟨asic, exported, -⟩ := gc_exported listed
  refine ⟨asic, exported, (exportReturns_iff gcDatabase_scanned (gc_expData listed) (gc_fits listed)
    (gc_holds listed) .log exported (gc_finds listed) (fun _ => zeroStale) []).mpr
    ⟨Or.inl rfl, fun x own read isOwn isRead => ?_⟩⟩
  have all : keptExps (gcExps secondGc) = gcExps secondGc := by
    exact List.filter_eq_self.mpr fun exp member => decide_eq_true (secondGc_inOrder.kept exp member)
  rw [all] at isOwn
  cases isOwn.symm.trans isRead
  exact restored_self (gc_fits listed) secondGc_inOrder isOwn

/-- The instance behind a gap gets a row of zeros. -/
theorem exportReturns_not_gap :
    ∃ asic, discoverAndExport gcItems none gcFiles (fun _ => zeroStale) "gpu".toList
        (discoveryTable [gcEntry, gapGc]) (numblocks .log [gcEntry, gapGc]) =
          some (asic, gcWritten gapGc) ∧
      Finds (storedOver gcFiles (gcWritten gapGc)) gcFiles (gcExps gapGc) (gcWritten gapGc) ∧
      ¬ ModelReturns (storedOver gcFiles (gcWritten gapGc)) (fun _ => zeroStale) [] asic := by
  have listed : gapGc ∈ seconds := by simp [seconds]
  obtain ⟨asic, exported, name, count, blocks⟩ := gc_exported listed
  refine ⟨asic, exported, gc_finds listed, fun returns => ?_⟩
  have all := (modelReturns_blocks (gc_fits listed) (gc_holds listed) (gc_finds listed)
    (fun _ => zeroStale) [] name count blocks).mp returns
  have third : rowTable (gcExps gapGc) (entryName gapGc) 2 0 = some 0 := by decide
  exact not_restored third (by decide)
    (all 1 ⟨gapGc, gcItem, false⟩ ⟨gapGc, gcItem, false⟩ rfl rfl)

end Umr.Database
