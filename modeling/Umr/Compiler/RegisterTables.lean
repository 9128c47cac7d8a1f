import Umr.Compiler.Registers

/-!
# What two headers are compiled to

The definitions of the registers, each with the number of its segment if it needs one, and the
definitions of their bits, in any order of the registers.
-/

set_option autoImplicit false

namespace Umr.Compiler

open Umr.Lib Umr.Database

theorem strstr_isSome {needle : List Char} : ∀ {text : List Char},
    (Lib.strstr needle text).isSome = true ↔ needle <:+: text
  | [] => by
      rw [Lib.strstr, List.infix_nil]
      split <;> simp [*]
  | c :: text => by
      rw [Lib.strstr, List.infix_cons_iff]
      split
      · rename_i here
        exact iff_of_true rfl (Or.inl here)
      · rename_i other
        rw [strstr_isSome, or_iff_right other]

/-! ## Registers -/

def fronts : List (List Char) := [mm, ix, reg, cfg, smn]

structure RegDef where
  front : List Char
  suffix : List Char
  addr : UInt64
  idx : UInt32

namespace RegDef

def name (d : RegDef) : List Char := d.front ++ d.suffix

def type (d : RegDef) : Int := regType d.name

def needsIdx (s15 : Bool) (d : RegDef) : Bool := s15 && decide (d.type = regMmio)

def defines (s15 : Bool) (d : RegDef) : List (List Char × UInt64) :=
  if d.needsIdx s15 then [(d.name, d.addr), (d.name ++ baseIdx, d.idx.toUInt64)]
  else [(d.name, d.addr)]

structure Fits (s15 : Bool) (d : RegDef) : Prop where
  front : d.front ∈ fronts
  short : d.name.length < 128
  plain : ¬ baseIdx <:+: d.name
  addr : d.addr ≠ 0xFFFFFFFF
  idx : d.needsIdx s15 = true ↔ d.idx ≠ 0xFFFFFFFF

def regs (d : RegDef) (bits : List Bit) : Regs := ⟨d.type, d.addr, d.name, bits, d.idx⟩

end RegDef

def isRegister (d : List Char × UInt64) : Bool := regType d.1 ≠ regError

/-- A register that is open, with the type of the last definition that was looked at. -/
def blankOf (type : Int) : Regs := { blankRegs with type := type }

def halfOf (type : Int) (d : RegDef) : Regs := ⟨type, d.addr, d.name, [], 0xFFFFFFFF⟩

theorem regType_front {front : List Char} (member : front ∈ fronts) (rest : List Char) :
    regType (front ++ rest) = regType front ∧ regType front ≠ regError := by
  simp only [fronts, List.mem_cons, List.not_mem_nil, or_false] at member
  rcases member with rfl | rfl | rfl | rfl | rfl <;>
    simp [regType, mm, ix, reg, cfg, smn, regError, regMmio, regSmc, regPcie, regSmn]

section Step
variable {s15 : Bool} {d : RegDef}

theorem compileOne_other (r : Regs) {d : List Char × UInt64} (other : isRegister d = false) :
    compileOne s15 r d = ({ r with type := regError }, false) := by
  have isError : regType d.1 = regError := by simpa [isRegister] using other
  rw [compileOne]
  dsimp only
  rw [isError, if_pos rfl]

theorem RegDef.Fits.register (fits : d.Fits s15) : d.type ≠ regError := by
  have front := regType_front fits.front d.suffix
  rw [RegDef.type, RegDef.name, front.1]
  exact front.2

theorem compileOne_addr (fits : d.Fits s15) (t : Int) :
    compileOne s15 (blankOf t) (d.name, d.addr) =
      if d.needsIdx s15 then (halfOf d.type d, false) else (d.regs [], true) := by
  have register := fits.register
  have absent : (Lib.strstr baseIdx d.name).isSome ≠ true := fun found =>
    fits.plain (strstr_isSome.mp found)
  have type : regType d.name = d.type := rfl
  rw [compileOne]
  dsimp only
  rw [type, if_neg register, if_neg absent]
  by_cases needs : d.needsIdx s15 = true
  · obtain ⟨isS15, mmio⟩ := Bool.and_eq_true_iff.mp needs
    have isMmio : d.type = regMmio := of_decide_eq_true mmio
    rw [if_pos needs]
    refine Prod.ext rfl (decide_eq_false ?_)
    rintro ⟨off | other | idx, -⟩
    · rw [isS15] at off
      cases off
    · exact other isMmio
    · exact idx rfl
  · have none_ : d.idx = 0xFFFFFFFF := not_not.mp fun some_ => needs (fits.idx.mpr some_)
    rw [if_neg needs]
    refine Prod.ext ?_ (decide_eq_true ⟨?_, fits.addr⟩)
    · change (⟨d.type, d.addr, d.name, [], 0xFFFFFFFF⟩ : Regs) = ⟨d.type, d.addr, d.name, [], d.idx⟩
      rw [none_]
    · cases s15 with
      | false => exact Or.inl rfl
      | true => exact Or.inr (Or.inl fun isMmio => needs (decide_eq_true isMmio))

theorem compileOne_idx (fits : d.Fits s15) (needs : d.needsIdx s15 = true) (t : Int) :
    compileOne s15 (halfOf t d) (d.name ++ baseIdx, d.idx.toUInt64) = (d.regs [], true) := by
  have found : (Lib.strstr baseIdx (d.name ++ baseIdx)).isSome = true :=
    strstr_isSome.mpr (List.suffix_append _ _).isInfix
  have type : regType (d.name ++ baseIdx) = d.type := by
    have whole := regType_front fits.front (d.suffix ++ baseIdx)
    have own := regType_front fits.front d.suffix
    rw [← List.append_assoc] at whole
    exact whole.1.trans own.1.symm
  have idx := fits.idx.mp needs
  rw [compileOne]
  dsimp only
  rw [type, if_neg fits.register, if_pos found]
  have same : d.idx.toUInt64.toUInt32 = d.idx := by simp
  refine Prod.ext ?_ (decide_eq_true ⟨Or.inr (Or.inr ?_), fits.addr⟩)
  · change (⟨d.type, d.addr, d.name, [], d.idx.toUInt64.toUInt32⟩ : Regs) = _
    rw [same]
    rfl
  · change d.idx.toUInt64.toUInt32 ≠ _
    rwa [same]

end Step

/-- The registers of a header: from a blank one, and from one whose segment is still to come. -/
theorem compileDefines_regs (s15 : Bool) (ds : List (List Char × UInt64)) :
    (∀ (t : Int) (regs : List RegDef), (∀ d ∈ regs, d.Fits s15) →
      ds.filter isRegister = regs.flatMap (RegDef.defines s15) →
      ∃ t', compileDefines s15 (blankOf t) ds = (regs.map fun d => d.regs [], blankOf t')) ∧
    (∀ (t : Int) (d : RegDef) (regs : List RegDef), d.Fits s15 → d.needsIdx s15 = true →
      (∀ d ∈ regs, d.Fits s15) →
      ds.filter isRegister = (d.name ++ baseIdx, d.idx.toUInt64) ::
        regs.flatMap (RegDef.defines s15) →
      ∃ t', compileDefines s15 (halfOf t d) ds =
        ((d :: regs).map fun d => d.regs [], blankOf t')) := by
  induction ds with
  | nil =>
      refine ⟨fun t regs fits none_ => ?_, fun t d regs _ _ _ some_ => by cases some_⟩
      cases regs with
      | nil => exact ⟨t, rfl⟩
      | cons d regs =>
          have first : d.defines s15 ≠ [] := by
            unfold RegDef.defines
            split <;> exact List.cons_ne_nil _ _
          rw [List.flatMap_cons] at none_
          exact absurd (List.append_eq_nil_iff.mp none_.symm).1 first
  | cons first ds ih =>
      obtain ⟨blank, half⟩ := ih
      cases isReg : isRegister first with
      | false =>
          refine ⟨fun t regs fits same => ?_, fun t d regs fits needs others same => ?_⟩
          · rw [List.filter_cons_of_neg (by rw [isReg]; exact Bool.false_ne_true)] at same
            obtain ⟨t', more⟩ := blank regError regs fits same
            refine ⟨t', ?_⟩
            rw [compileDefines, compileOne_other _ isReg]
            exact more
          · rw [List.filter_cons_of_neg (by rw [isReg]; exact Bool.false_ne_true)] at same
            obtain ⟨t', more⟩ := half regError d regs fits needs others same
            refine ⟨t', ?_⟩
            rw [compileDefines, compileOne_other _ isReg]
            exact more
      | true =>
          refine ⟨fun t regs fits same => ?_, fun t d regs fits needs others same => ?_⟩
          · rw [List.filter_cons_of_pos isReg] at same
            cases regs with
            | nil => cases same
            | cons d regs =>
                obtain ⟨here, later⟩ := List.forall_mem_cons.mp fits
                rw [List.flatMap_cons, RegDef.defines] at same
                by_cases needs : d.needsIdx s15 = true
                · rw [if_pos needs] at same
                  obtain ⟨rfl, behind⟩ := List.cons.inj same
                  obtain ⟨t', more⟩ := half d.type d regs here needs later behind
                  refine ⟨t', ?_⟩
                  rw [compileDefines, compileOne_addr here, if_pos needs]
                  exact more
                · rw [if_neg needs] at same
                  obtain ⟨rfl, behind⟩ := List.cons.inj same
                  obtain ⟨t', more⟩ := blank 0 regs later behind
                  refine ⟨t', ?_⟩
                  rw [compileDefines, compileOne_addr here, if_neg needs]
                  dsimp only
                  rw [if_pos rfl, show blankRegs = blankOf 0 from rfl, more, List.map_cons]
          · rw [List.filter_cons_of_pos isReg] at same
            obtain ⟨rfl, behind⟩ := List.cons.inj same
            obtain ⟨t', more⟩ := blank 0 regs others behind
            refine ⟨t', ?_⟩
            rw [compileDefines, compileOne_idx fits needs]
            dsimp only
            rw [if_pos rfl, show blankRegs = blankOf 0 from rfl, more, List.map_cons]

/-! ## Bits -/

structure BitDef where
  regname : List Char
  bitname : List Char
  isShift : Bool
  value : UInt64

namespace BitDef

def tmp (b : BitDef) : List Char :=
  b.bitname ++ if b.isShift then "__SHIFT".toList else "_MASK".toList

def symbol (b : BitDef) : List Char := b.regname ++ ("__".toList ++ b.tmp)

structure Fits (b : BitDef) : Prop where
  some_ : b.bitname ≠ []
  short : b.bitname.length < 128
  plain : ¬ "__".toList <:+: b.regname ++ "_".toList
  shift : ¬ "__SHIFT".toList <:+: b.bitname ++ "__SHIF".toList
  mask : ¬ "__SHIFT".toList <:+: b.bitname ++ "_MASK".toList

def change (b : BitDef) : bitList.Change :=
  if b.isShift then setShift b.bitname b.value else setMask b.bitname b.value

end BitDef

def isBit (d : List Char × UInt64) : Bool := (Lib.strstr "__".toList d.1).isSome

theorem bitChange_tmp {b : BitDef} (fits : b.Fits) : bitChange b.tmp b.value = some b.change := by
  cases isShift : b.isShift with
  | true =>
      have tmp : b.tmp = b.bitname ++ ("__SHIFT".toList ++ []) := by
        rw [BitDef.tmp, isShift, List.append_nil]
        rfl
      have found := strstr_first fits.shift (by decide) []
      rw [bitChange, tmp, found, BitDef.change, isShift]
      dsimp only
      rw [List.length_append, Nat.add_sub_cancel, List.take_left]
      rfl
  | false =>
      have tmp : b.tmp = b.bitname ++ "_MASK".toList := by
        rw [BitDef.tmp, isShift]
        rfl
      have absent : Lib.strstr "__SHIFT".toList (b.bitname ++ "_MASK".toList) = none :=
        Option.not_isSome_iff_eq_none.mp fun found => fits.mask (strstr_isSome.mp found)
      have length : (b.bitname ++ "_MASK".toList).length = b.bitname.length + 5 := List.length_append
      rw [bitChange, tmp, absent, BitDef.change, isShift]
      dsimp only
      rw [length, if_neg (by omega), Nat.add_sub_cancel, List.take_left]
      rfl

theorem nameMatches_regs {s15 : Bool} {d : RegDef} (fits : d.Fits s15) (bits : List Bit)
    (name : List Char) : nameMatches name (d.regs bits) = decide (d.suffix = name) := by
  have front := fits.front
  simp only [fronts, List.mem_cons, List.not_mem_nil, or_false] at front
  have isName : (d.regs bits).name = d.front ++ d.suffix := rfl
  rw [nameMatches, isName]
  rcases front with same | same | same | same | same <;>
    simp [same, mm, ix, reg, cfg, smn]

theorem nameMatches_blank (t : Int) (name : List Char) : nameMatches name (blankOf t) = false := by
  simp [nameMatches, blankOf, blankRegs, mm, ix, reg, cfg, smn]

theorem findReg_some {regs : List Regs} {fr : Option Nat} {name : List Char} {x : Nat}
    (found : findReg regs fr name = some x) : ∃ r, regs[x]? = some r ∧ nameMatches name r = true := by
  have here : ∀ {list : List Regs} {y : Nat}, list.findIdx? (nameMatches name) = some y →
      ∃ r, list[y]? = some r ∧ nameMatches name r = true := by
    intro list y isHere
    obtain ⟨inside, isMatch, -⟩ := List.findIdx?_eq_some_iff_getElem.mp isHere
    exact ⟨_, List.getElem?_eq_getElem inside, isMatch⟩
  rw [findReg] at found
  cases first : (regs.drop (fr.getD regs.length)).findIdx? (nameMatches name) with
  | some y =>
      rw [first] at found
      cases found
      obtain ⟨r, isAt, isMatch⟩ := here first
      rw [List.getElem?_drop] at isAt
      exact ⟨r, isAt, isMatch⟩
  | none =>
      rw [first] at found
      obtain ⟨r, isAt, isMatch⟩ := here found
      rw [List.getElem?_take] at isAt
      split at isAt
      · exact ⟨r, isAt, isMatch⟩
      · cases isAt

theorem findReg_none {regs : List Regs} {fr : Option Nat} {name : List Char}
    (none_ : findReg regs fr name = none) : ∀ r ∈ regs, nameMatches name r = false := by
  rw [findReg] at none_
  cases first : (regs.drop (fr.getD regs.length)).findIdx? (nameMatches name) with
  | some y =>
      rw [first] at none_
      cases none_
  | none =>
      rw [first] at none_
      intro r member
      rw [← List.take_append_drop (fr.getD regs.length) regs, List.mem_append] at member
      rcases member with front | back
      · exact List.findIdx?_eq_none_iff.mp none_ r front
      · exact List.findIdx?_eq_none_iff.mp first r back

def tableOf (regs : List RegDef) (bits : RegDef → List Bit) (t : Int) : List Regs :=
  (regs.map fun d => d.regs (bits d)) ++ [blankOf t]

def changed (b : BitDef) (bits : RegDef → List Bit) (d : RegDef) : List Bit :=
  if d.suffix = b.regname then bitList.upsert b.change (bits d) else bits d

theorem modify_front {α : Type} (f : α → α) : ∀ {x : Nat} {front : List α} (rest : List α),
    x < front.length → (front ++ rest).modify x f = front.modify x f ++ rest
  | 0, _ :: _, _, _ => rfl
  | x + 1, a :: front, rest, inside => by
      rw [List.cons_append, List.modify_succ_cons, List.modify_succ_cons, List.cons_append,
        modify_front f rest (Nat.lt_of_succ_lt_succ inside)]

section Table
variable {s15 : Bool} {regs : List RegDef}

theorem table_modify (distinct : (regs.map RegDef.suffix).Nodup) (bits : RegDef → List Bit) (t : Int)
    {x : Nat} {d : RegDef} (isAt : regs[x]? = some d) {b : BitDef} (named : d.suffix = b.regname) :
    (tableOf regs bits t).modify x (changeBits b.change) = tableOf regs (changed b bits) t := by
  obtain ⟨inside, _⟩ := List.getElem?_eq_some_iff.mp isAt
  have front : ((regs.map fun d => d.regs (bits d)).modify x (changeBits b.change)) =
      regs.map fun d => d.regs (changed b bits d) := by
    refine List.ext_getElem? fun y => ?_
    rw [List.getElem?_modify, List.getElem?_map, List.getElem?_map]
    cases other : regs[y]? with
    | none => rfl
    | some e =>
        by_cases same : x = y
        · subst same
          cases isAt.symm.trans other
          change some (if x = x then changeBits b.change (d.regs (bits d)) else d.regs (bits d)) =
            some (d.regs (changed b bits d))
          rw [if_pos rfl, changed, if_pos named]
          rfl
        · have unlike : e.suffix ≠ b.regname := by
            intro alike
            have suffixes : (regs.map RegDef.suffix)[x]? = (regs.map RegDef.suffix)[y]? := by
              rw [List.getElem?_map, List.getElem?_map, isAt, other, Option.map_some,
                Option.map_some, named, alike]
            have shortNames : x < (regs.map RegDef.suffix).length := by rwa [List.length_map]
            exact same ((List.getElem?_inj shortNames distinct).mp suffixes)
          change some (if x = y then changeBits b.change (e.regs (bits e)) else e.regs (bits e)) =
            some (e.regs (changed b bits e))
          rw [if_neg same, changed, if_neg unlike]
  have short : x < (regs.map fun d => d.regs (bits d)).length := by rwa [List.length_map]
  rw [tableOf, modify_front _ _ short, front]
  rfl

/-- The register a bit belongs to is found wherever the search begins. -/
theorem table_findReg (fits : ∀ d ∈ regs, d.Fits s15) (bits : RegDef → List Bit) (t : Int)
    (fr : Option Nat) (name : List Char) :
    (findReg (tableOf regs bits t) fr name = none ∧ ∀ d ∈ regs, d.suffix ≠ name) ∨
      ∃ x d, findReg (tableOf regs bits t) fr name = some x ∧ regs[x]? = some d ∧ d.suffix = name := by
  cases found : findReg (tableOf regs bits t) fr name with
  | none =>
      refine Or.inl ⟨rfl, fun d member same => ?_⟩
      have off := findReg_none found _
        (List.mem_append_left _ (List.mem_map.mpr ⟨d, member, rfl⟩))
      rw [nameMatches_regs (fits d member), decide_eq_true same] at off
      cases off
  | some x =>
      obtain ⟨r, isAt, isMatch⟩ := findReg_some found
      rw [tableOf, List.getElem?_append] at isAt
      split at isAt
      · rw [List.getElem?_map] at isAt
        obtain ⟨d, isDef, rfl⟩ := Option.map_eq_some_iff.mp isAt
        rw [nameMatches_regs (fits d (List.mem_of_getElem? isDef))] at isMatch
        exact Or.inr ⟨x, d, rfl, isDef, of_decide_eq_true isMatch⟩
      · rw [List.mem_singleton.mp (List.mem_of_getElem? isAt), nameMatches_blank] at isMatch
        cases isMatch

def bitsAfter (bs : List BitDef) (d : RegDef) (bits : List Bit) : List Bit :=
  bitList.upsertAll ((bs.filter fun b => d.suffix = b.regname).map BitDef.change) bits

theorem bitsAfter_cons (b : BitDef) (bs : List BitDef) (bits : RegDef → List Bit) (d : RegDef) :
    bitsAfter (b :: bs) d (bits d) = bitsAfter bs d (changed b bits d) := by
  rw [bitsAfter, List.filter_cons, changed]
  split
  · rename_i here
    rw [if_pos (of_decide_eq_true here)]
    rfl
  · rename_i other
    rw [if_neg (by simpa using other)]
    rfl

theorem compileBitDefines_table (fits : ∀ d ∈ regs, d.Fits s15)
    (distinct : (regs.map RegDef.suffix).Nodup) (t : Int) (ds : List (List Char × UInt64)) :
    ∀ (bits : RegDef → List Bit) (fr : Option Nat) (bs : List BitDef), (∀ b ∈ bs, b.Fits) →
      ds.filter isBit = bs.map (fun b => (b.symbol, b.value)) →
      compileBitDefines (tableOf regs bits t) fr ds =
        some (tableOf regs (fun d => bitsAfter bs d (bits d)) t) := by
  induction ds with
  | nil =>
      intro bits fr bs bitsFit same
      have none_ : bs = [] := List.map_eq_nil_iff.mp same.symm
      rw [none_]
      rfl
  | cons first ds ih =>
      intro bits fr bs bitsFit same
      cases isBit_ : isBit first with
      | false =>
          have absent : Lib.strstr "__".toList first.1 = none :=
            Option.not_isSome_iff_eq_none.mp (by rw [← isBit, isBit_]; exact Bool.false_ne_true)
          rw [List.filter_cons_of_neg (by rw [isBit_]; exact Bool.false_ne_true)] at same
          rw [compileBitDefines, absent]
          exact ih bits fr bs bitsFit same
      | true =>
          rw [List.filter_cons_of_pos isBit_] at same
          cases bs with
          | nil => cases same
          | cons b bs =>
              obtain ⟨rfl, behind⟩ := List.cons.inj same
              obtain ⟨here, later⟩ := List.forall_mem_cons.mp bitsFit
              have found : Lib.strstr "__".toList b.symbol = some ("__".toList ++ b.tmp) :=
                strstr_first here.plain (by decide) b.tmp
              have name : b.symbol.take (b.symbol.length - ("__".toList ++ b.tmp).length) =
                  b.regname := by
                rw [BitDef.symbol, List.length_append, Nat.add_sub_cancel, List.take_left]
              have tmp : ("__".toList ++ b.tmp).drop 2 = b.tmp := rfl
              have after : (fun d => bitsAfter (b :: bs) d (bits d)) =
                  fun d => bitsAfter bs d (changed b bits d) :=
                funext fun d => bitsAfter_cons b bs bits d
              rw [compileBitDefines]
              dsimp only
              rw [found]
              dsimp only
              rw [name, tmp, after]
              rcases table_findReg fits bits t fr b.regname with
                ⟨none_, others⟩ | ⟨x, d, isAt, isDef, named⟩
              · have same_ : tableOf regs (fun d => bitsAfter bs d (changed b bits d)) t =
                    tableOf regs (fun d => bitsAfter bs d (bits d)) t := by
                  unfold tableOf
                  refine congrArg (· ++ [blankOf t]) (List.map_congr_left fun d member => ?_)
                  change d.regs (bitsAfter bs d (changed b bits d)) = d.regs (bitsAfter bs d (bits d))
                  rw [changed, if_neg (others d member)]
                rw [none_, same_]
                exact ih bits none bs later behind
              · rw [isAt]
                dsimp only
                rw [bitChange_tmp here]
                dsimp only
                rw [table_modify distinct bits t isDef named]
                exact ih (changed b bits) (some x) bs later behind

theorem collected_table (fits : ∀ d ∈ regs, d.Fits s15) (bits : RegDef → List Bit) (t : Int) :
    collected (tableOf regs bits t) = some (regs.map fun d => d.regs (bits d)) := by
  have complete : ∀ r ∈ regs.map fun d => d.regs (bits d), decide (r.addr ≠ 0xFFFFFFFF) = true := by
    intro r member
    obtain ⟨d, isDef, rfl⟩ := List.mem_map.mp member
    exact decide_eq_true (fits d isDef).addr
  have front : (tableOf regs bits t).takeWhile (fun r => decide (r.addr ≠ 0xFFFFFFFF)) =
      regs.map fun d => d.regs (bits d) := by
    rw [tableOf, List.takeWhile_append_of_pos complete]
    exact List.append_nil _
  rw [collected, front]
  refine if_pos ?_
  rw [tableOf, List.length_append]
  exact Nat.le_refl _

theorem compiled_table {rf bf : List HeaderLine} (regHeader : HeaderFits rf)
    (bitHeader : HeaderFits bf) {bs : List BitDef}
    (regNames : (definitions rf).filter isRegister = regs.flatMap (RegDef.defines s15))
    (bitNames : (definitions bf).filter isBit = bs.map fun b => (b.symbol, b.value))
    (fits : ∀ d ∈ regs, d.Fits s15) (bitsFit : ∀ b ∈ bs, b.Fits)
    (distinct : (regs.map RegDef.suffix).Nodup) :
    ∃ t, compileBits (compileRegister s15 (headerText rf)) (headerText bf) =
      some (tableOf regs (fun d => bitsAfter bs d []) t) := by
  have all : ∀ ds : List (List Char × UInt64), ds.filter (fun _ => true) = ds := fun ds =>
    List.filter_eq_self.mpr fun _ _ => rfl
  obtain ⟨t, complete⟩ := (compileDefines_regs s15 (definitions rf)).1 0 regs fits regNames
  have first : compileRegister s15 (headerText rf) = tableOf regs (fun _ => []) t := by
    rw [compileRegister, defines_header _ regHeader, all, show blankRegs = blankOf 0 from rfl, complete]
    rfl
  refine ⟨t, ?_⟩
  rw [compileBits, first, defines_header _ bitHeader, all]
  exact compileBitDefines_table fits distinct t _ (fun _ => []) (some 0) bs bitsFit bitNames

end Table

/-! ## The bits of a register -/

def bitNames (bs : List BitDef) (suffix : List Char) : List (List Char) :=
  bitList.keys ((bs.filter fun b => suffix = b.regname).map BitDef.change)

/-- The mask that was defined last. -/
def maskOf (bs : List BitDef) (suffix name : List Char) : UInt64 :=
  ((bs.filter fun b => suffix = b.regname ∧ b.bitname = name ∧ b.isShift = false).getLast?.map
    BitDef.value).getD 0

theorem change_key (b : BitDef) : b.change.key = b.bitname := by
  unfold BitDef.change
  split <;> rfl

theorem change_mask (b : BitDef) (bit : Bit) :
    (b.change.change bit).mask = if b.isShift = false then b.value else bit.mask := by
  unfold BitDef.change
  cases b.isShift <;> rfl

theorem maskOf_concat (bs : List BitDef) (b : BitDef) (suffix name : List Char) :
    maskOf (bs ++ [b]) suffix name =
      if suffix = b.regname ∧ b.bitname = name ∧ b.isShift = false then b.value
      else maskOf bs suffix name := by
  unfold maskOf
  rw [List.filter_append, List.filter_singleton]
  by_cases here : suffix = b.regname ∧ b.bitname = name ∧ b.isShift = false
  · rw [if_pos here, decide_eq_true here, cond_true, List.getLast?_concat]
    rfl
  · rw [if_neg here, decide_eq_false here, cond_false, List.append_nil]

theorem entryOf_mask (bs : List BitDef) (suffix name : List Char) :
    (bitList.entryOf ((bs.filter fun b => suffix = b.regname).map BitDef.change) name).mask =
      maskOf bs suffix name := by
  induction bs using List.reverseRecOn with
  | nil => rfl
  | append_singleton bs b ih =>
      rw [List.filter_append, List.filter_singleton, maskOf_concat]
      by_cases here : suffix = b.regname
      · rw [decide_eq_true here, cond_true, List.map_append, List.map_singleton,
          Keyed.entryOf_concat, change_key]
        by_cases named : b.bitname = name
        · rw [if_pos named, change_mask, ih]
          simp only [here, named, true_and]
        · rw [if_neg named, if_neg fun all => named all.2.1, ih]
      · rw [decide_eq_false here, cond_false, List.append_nil, if_neg fun all => here all.1, ih]

/-- The bits of a register in the order in which they are met. -/
theorem bitsAfter_eq (bs : List BitDef) (d : RegDef) :
    (bitsAfter bs d []).map (fun bit => (bit.name, bit.mask)) =
      (bitNames bs d.suffix).map fun name => (name, maskOf bs d.suffix name) := by
  rw [bitsAfter, Keyed.upsertAll_eq, List.map_map]
  refine List.map_congr_left fun name _ => ?_
  rw [Function.comp, entryOf_mask]
  exact congrArg (·, _) (@Keyed.key_entryOf _ _ _ bitList _ name)

end Umr.Compiler
