import Umr.Registers.FindReg

/-!
# Registers of a named block

With a block name the lookup is to keep to blocks whose names start with it.  Names
that are too short to be compared are let through, so that a block of a shorter
name answers too unless one of the right name comes first.
-/

set_option autoImplicit false

namespace Umr.Registers

open Umr.Lib Umr.Rumr

theorem findSome?_zipIdx_eq_some {α β : Type} {f : α × Nat → Option β} {list : List α} {answer : β}
    (stopped : list.zipIdx.findSome? f = some answer) :
    ∃ i item, list[i]? = some item ∧ f (item, i) = some answer ∧
      ∀ k < i, ∀ other, list[k]? = some other → f (other, k) = none := by
  obtain ⟨before, stop, after, split, isAnswer, passed⟩ := List.findSome?_eq_some_iff.mp stopped
  have atStop : list.zipIdx[before.length]? = some stop := by
    rw [split, List.getElem?_append_right (Nat.le_refl _), Nat.sub_self]
    rfl
  obtain ⟨item, isItem, isStop⟩ : ∃ item, list[before.length]? = some item ∧
      (item, before.length) = stop := by
    rw [List.getElem?_zipIdx, Nat.zero_add] at atStop
    exact Option.map_eq_some_iff.mp atStop
  subst isStop
  refine ⟨before.length, item, isItem, isAnswer, ?_⟩
  intro k less other isOther
  refine passed (other, k) ?_
  have inZip : list.zipIdx[k]? = some (other, k) := by
    rw [List.getElem?_zipIdx, isOther, Nat.zero_add]
    rfl
  rw [split, List.getElem?_append_left less] at inZip
  exact List.mem_of_getElem? inZip

theorem mem_zipIdx_of_getElem? {α : Type} {list : List α} {i : Nat} {item : α}
    (isItem : list[i]? = some item) : (item, i) ∈ list.zipIdx :=
  List.mk_mem_zipIdx_iff_getElem?.mpr isItem

def StaysInIp (blocks : List IpBlock) (ip : CString) : Prop :=
  ∀ (inst : Int) (regname : CString) (i reg : Nat),
    umrFindRegDataByIpByInstanceWithIp blocks (some ip) inst regname = .found (i, reg) ∨
      umrFindRegDataByIp blocks (some ip) regname = .found (i, reg) →
    ∃ block, blocks[i]? = some block ∧ ip.bytes <+: block.ipname.bytes

/-- Nothing is returned only when no block of the name and instance has the register. -/
def NullIfAbsent (blocks : List IpBlock) (ip : CString) : Prop :=
  ∀ (inst : Int) (regname : CString),
    umrFindRegDataByIpByInstanceWithIp blocks (some ip) inst regname = .null →
    ∀ block ∈ blocks, ip.bytes <+: block.ipname.bytes →
      skipsInst inst block.ipname.bytes = false →
      findName block.regs (strip regname.bytes) = none

/-- Whatever is found in a block with a name shorter than `ip`, the search has stopped before, at
a block of the name. -/
def Shadowed (blocks : List IpBlock) (ip : CString) : Prop :=
  ∀ (inst : Int) (regname : CString) (i reg : Nat) (block : IpBlock),
    regname.bytes.length < 96 → blocks[i]? = some block →
    block.ipname.bytes.length < ip.bytes.length → skipsInst inst block.ipname.bytes = false →
    searchRegs block.regs (strip regname.bytes) = .found reg →
    ∃ k < i, ∃ other, blocks[k]? = some other ∧ skips (some ip) inst other = false ∧
      (ip.bytes <+: other.ipname.bytes ∧ searchRegs other.regs (strip regname.bytes) ≠ .null ∨
        searchRegs other.regs (strip regname.bytes) = .undefined)

theorem skips_eq_false_iff {ip : CString} {inst : Int} {block : IpBlock} :
    skips (some ip) inst block = false ↔
      (block.ipname.bytes.length < ip.bytes.length ∨ ip.bytes <+: block.ipname.bytes) ∧
      skipsInst inst block.ipname.bytes = false := by
  rw [skips, Bool.or_eq_false_iff, Option.any_some, skipsIp, decide_eq_false_iff_not, not_and_or,
    Nat.not_le, not_not, List.prefix_iff_eq_take]
  constructor
  · rintro ⟨shorter | same, instance_⟩
    · exact ⟨Or.inl shorter, instance_⟩
    · exact ⟨Or.inr same.symm, instance_⟩
  · rintro ⟨shorter | same, instance_⟩
    · exact ⟨Or.inl shorter, instance_⟩
    · exact ⟨Or.inr same.symm, instance_⟩

theorem searchBlock_of_passes {ip : Option CString} {inst : Int} {name : List UInt8}
    {block : IpBlock} {i : Nat} (passes : skips ip inst block = false) :
    searchBlock ip inst name (block, i) =
      match searchRegs block.regs name with
      | .undefined => some .undefined
      | .found reg => some (.found (i, reg))
      | .null => none := by
  rw [searchBlock, passes]
  exact if_neg Bool.false_ne_true

theorem searchBlock_found {ip : Option CString} {inst : Int} {name : List UInt8}
    {block : IpBlock × Nat} {place : Nat × Nat}
    (isFound : searchBlock ip inst name block = some (.found place)) :
    place.1 = block.2 ∧ skips ip inst block.1 = false ∧
      searchRegs block.1.regs name = .found place.2 := by
  unfold searchBlock at isFound
  split_ifs at isFound with skipped
  cases found : searchRegs block.1.regs name with
  | undefined =>
      rw [found] at isFound
      cases isFound
  | null =>
      rw [found] at isFound
      cases isFound
  | found reg =>
      rw [found] at isFound
      cases isFound
      exact ⟨rfl, by simpa using skipped, rfl⟩

theorem searchBlocks_found {blocks : List IpBlock} {ip : Option CString} {inst : Int}
    {name : List UInt8} {place : Nat × Nat}
    (isFound : searchBlocks blocks ip inst name = .found place) :
    ∃ block, blocks[place.1]? = some block ∧ skips ip inst block = false ∧
      searchRegs block.regs name = .found place.2 ∧
      ∀ k < place.1, ∀ other, blocks[k]? = some other → searchBlock ip inst name (other, k) = none := by
  rw [searchBlocks] at isFound
  cases stopped : blocks.zipIdx.findSome? (searchBlock ip inst name) with
  | none =>
      rw [stopped] at isFound
      cases isFound
  | some answer =>
      rw [stopped, Option.getD_some] at isFound
      subst isFound
      obtain ⟨i, block, isBlock, isAnswer, passed⟩ := findSome?_zipIdx_eq_some stopped
      obtain ⟨isIndex, passes, found⟩ := searchBlock_found isAnswer
      simp only at isIndex
      subst isIndex
      exact ⟨block, isBlock, passes, found, passed⟩

theorem searchBlocks_null {blocks : List IpBlock} {ip : Option CString} {inst : Int}
    {name : List UInt8} (isNull : searchBlocks blocks ip inst name = .null) {block : IpBlock}
    (member : block ∈ blocks) (passes : skips ip inst block = false) :
    searchRegs block.regs name = .null := by
  rw [searchBlocks] at isNull
  cases stopped : blocks.zipIdx.findSome? (searchBlock ip inst name) with
  | some answer =>
      rw [stopped, Option.getD_some] at isNull
      subst isNull
      obtain ⟨i, stop, -, isAnswer, -⟩ := findSome?_zipIdx_eq_some stopped
      unfold searchBlock at isAnswer
      split_ifs at isAnswer
      split at isAnswer <;> cases isAnswer
  | none =>
      obtain ⟨i, inside, rfl⟩ := List.getElem_of_mem member
      have gone := List.findSome?_eq_none_iff.mp stopped _
        (mem_zipIdx_of_getElem? (List.getElem?_eq_getElem inside))
      rw [searchBlock_of_passes passes] at gone
      cases result : searchRegs blocks[i].regs name with
      | null => rfl
      | undefined =>
          rw [result] at gone
          cases gone
      | found place =>
          rw [result] at gone
          cases gone

/-- The name that is searched for in the second place is one that could be asked for. -/
theorem regVariant_asked {regname : CString}
    (fits : (regVariant (strip regname.bytes)).length < 96) :
    ∃ variant : CString, variant.bytes.length < 96 ∧
      strip variant.bytes = regVariant (strip regname.bytes) :=
  ⟨⟨regVariant (strip regname.bytes), regVariant_ends strip_ends⟩, fits, rfl⟩

/-- A lookup that finds something has found it by a name that could be asked for. -/
theorem umrFindRegData_found {blocks : List IpBlock} {ip : Option CString} {inst : Int}
    {regname : CString} {place : Nat × Nat}
    (isFound : umrFindRegDataByIpByInstanceWithIp blocks ip inst regname = .found place) :
    ∃ asked : CString, asked.bytes.length < 96 ∧
      searchBlocks blocks ip inst (strip asked.bytes) = .found place := by
  unfold umrFindRegDataByIpByInstanceWithIp at isFound
  by_cases short : regname.bytes.length < 96
  · rw [if_pos short] at isFound
    cases first : searchBlocks blocks ip inst (strip regname.bytes) with
    | undefined =>
        rw [first] at isFound
        cases isFound
    | found other =>
        rw [first] at isFound
        cases isFound
        exact ⟨regname, short, first⟩
    | null =>
        rw [first] at isFound
        split_ifs at isFound with mm fits
        obtain ⟨variant, variantFits, isVariant⟩ := regVariant_asked fits
        refine ⟨variant, variantFits, ?_⟩
        rw [isVariant]
        exact isFound
  · rw [if_neg short] at isFound
    cases isFound

theorem umrFindRegData_of_search {blocks : List IpBlock} {ip : Option CString} {inst : Int}
    {regname : CString} {place : Nat × Nat} (short : regname.bytes.length < 96)
    (isFound : searchBlocks blocks ip inst (strip regname.bytes) = .found place) :
    umrFindRegDataByIpByInstanceWithIp blocks ip inst regname = .found place := by
  rw [umrFindRegDataByIpByInstanceWithIp, if_pos short, isFound]

theorem staysInIp_of_shadowed {blocks : List IpBlock} {ip : CString}
    (shadowed : Shadowed blocks ip) : StaysInIp blocks ip := by
  have stays : ∀ (inst : Int) (regname : CString) (place : Nat × Nat),
      umrFindRegDataByIpByInstanceWithIp blocks (some ip) inst regname = .found place →
      ∃ block, blocks[place.1]? = some block ∧ ip.bytes <+: block.ipname.bytes := by
    intro inst regname place isFound
    obtain ⟨asked, short, search⟩ := umrFindRegData_found isFound
    obtain ⟨block, isBlock, passes, found, passed⟩ := searchBlocks_found search
    obtain ⟨shorter | ofName, isInstance⟩ := skips_eq_false_iff.mp passes
    · obtain ⟨k, less, other, isOther, otherPasses, stops⟩ :=
        shadowed inst asked place.1 place.2 block short isBlock shorter isInstance found
      have gone := passed k less other isOther
      rw [searchBlock_of_passes otherPasses] at gone
      cases result : searchRegs other.regs (strip asked.bytes) with
      | undefined =>
          rw [result] at gone
          cases gone
      | null =>
          rw [result] at stops
          rcases stops with ⟨-, notNull⟩ | impossible
          · exact absurd rfl notNull
          · cases impossible
      | found reg =>
          rw [result] at gone
          cases gone
    · exact ⟨block, isBlock, ofName⟩
  rintro inst regname i reg (isFound | isFound)
  · exact stays inst regname (i, reg) isFound
  · exact stays _ regname (i, reg) isFound

theorem shadowed_of_staysInIp {blocks : List IpBlock} {ip : CString}
    (stays : StaysInIp blocks ip) : Shadowed blocks ip := by
  intro inst regname i reg block short isBlock shorter isInstance found
  have passes : skips (some ip) inst block = false :=
    skips_eq_false_iff.mpr ⟨Or.inl shorter, isInstance⟩
  have stops : searchBlock (some ip) inst (strip regname.bytes) (block, i) =
      some (.found (i, reg)) := by
    rw [searchBlock_of_passes passes, found]
  cases stopped : blocks.zipIdx.findSome? (searchBlock (some ip) inst (strip regname.bytes)) with
  | none =>
      have gone := List.findSome?_eq_none_iff.mp stopped _ (mem_zipIdx_of_getElem? isBlock)
      rw [stops] at gone
      cases gone
  | some answer =>
      obtain ⟨k, other, isOther, isAnswer, passed⟩ := findSome?_zipIdx_eq_some stopped
      have search : searchBlocks blocks (some ip) inst (strip regname.bytes) = answer := by
        rw [searchBlocks, stopped]
        rfl
      have upTo : k ≤ i := by
        by_contra behind
        have gone := passed i (by omega) block isBlock
        rw [stops] at gone
        cases gone
      -- The block where the search stops gives the answer, so it has the name.
      have ofName : ∀ place, answer = .found place → ∃ block, blocks[place.1]? = some block ∧
          ip.bytes <+: block.ipname.bytes := by
        intro place isFound
        exact stays inst regname place.1 place.2
          (Or.inl (umrFindRegData_of_search short (search.trans isFound)))
      have less : k < i := by
        refine Nat.lt_of_le_of_ne upTo ?_
        rintro rfl
        cases isBlock.symm.trans isOther
        rw [stops] at isAnswer
        cases isAnswer
        obtain ⟨named, isNamed, ofIp⟩ := ofName _ rfl
        cases isBlock.symm.trans isNamed
        have := ofIp.length_le
        omega
      have otherPasses : skips (some ip) inst other = false := by
        by_contra skipped
        rw [searchBlock, if_pos (by simpa using skipped)] at isAnswer
        cases isAnswer
      refine ⟨k, less, other, isOther, otherPasses, ?_⟩
      rw [searchBlock_of_passes otherPasses] at isAnswer
      cases result : searchRegs other.regs (strip regname.bytes) with
      | undefined => exact Or.inr rfl
      | null =>
          rw [result] at isAnswer
          cases isAnswer
      | found otherReg =>
          rw [result, Option.some.injEq] at isAnswer
          obtain ⟨named, isNamed, ofIp⟩ := ofName _ isAnswer.symm
          cases isOther.symm.trans isNamed
          exact Or.inl ⟨ofIp, fun same => (by cases same)⟩

theorem nullIfAbsent_of_sorted {blocks : List IpBlock} {ip : CString}
    (sorted : ∀ block ∈ blocks, SortedRegs block.regs) : NullIfAbsent blocks ip := by
  intro inst regname isNull block member ofName isInstance
  have passes : skips (some ip) inst block = false :=
    skips_eq_false_iff.mpr ⟨Or.inr ofName, isInstance⟩
  have search : searchBlocks blocks (some ip) inst (strip regname.bytes) = .null := by
    unfold umrFindRegDataByIpByInstanceWithIp at isNull
    by_cases short : regname.bytes.length < 96
    · rw [if_pos short] at isNull
      cases first : searchBlocks blocks (some ip) inst (strip regname.bytes) with
      | undefined =>
          rw [first] at isNull
          cases isNull
      | found place =>
          rw [first] at isNull
          cases isNull
      | null => rfl
    · rw [if_neg short] at isNull
      cases isNull
  have gone := searchBlocks_null search member passes
  have sound := searchRegs_sound (sorted block member) strip_ends (by rw [gone]; exact nofun)
  rw [gone] at sound
  cases absent : findName block.regs (strip regname.bytes) with
  | none => rfl
  | some place =>
      rw [absent] at sound
      cases sound

/-- Lookups in a named block keep to it exactly when blocks of a shorter name are shadowed. -/
theorem staysInIp_iff (blocks : List IpBlock) (ip : CString) :
    (StaysInIp blocks ip ∧
      ((∀ block ∈ blocks, SortedRegs block.regs) → NullIfAbsent blocks ip)) ↔
      Shadowed blocks ip :=
  ⟨fun both => shadowed_of_staysInIp both.1,
    fun shadowed => ⟨staysInIp_of_shadowed shadowed, nullIfAbsent_of_sorted⟩⟩

def hdpOnly : List IpBlock := [namedBlock "hdp".toList [namedReg "regHDP_MISC".toList]]

/-- The name of the block is shorter than the one asked for. -/
theorem shorter_block_answers : ¬ (StaysInIp hdpOnly (cstring "gfx11".toList) ∧
    ((∀ block ∈ hdpOnly, SortedRegs block.regs) →
      NullIfAbsent hdpOnly (cstring "gfx11".toList))) := by
  rintro ⟨stays, -⟩
  have answered : umrFindRegDataByIp hdpOnly (some (cstring "gfx11".toList))
      (cstring "mmHDP_MISC".toList) = .found (0, 0) := by decide
  obtain ⟨block, isBlock, ofName⟩ := stays 0 _ 0 0 (Or.inr answered)
  cases isBlock
  revert ofName
  decide

end Umr.Registers
