import Umr.Lib.LowerBound
import Umr.Lib.Scan
import Umr.Registers.Names
import Umr.Rumr.SerialAsic

/-!
# Registers by name

`umr_find_reg_data_by_ip_by_instance_with_ip` and `umr_find_reg_data_by_ip` of
`find_reg.c`.  The blocks are gone through in order; in each one that passes the
filters the name is searched for by halving.
-/

set_option autoImplicit false

namespace Umr.Registers

open Umr.Lib Umr.Rumr

/-- What a lookup comes to; `undefined` is an `int` that overflows or a buffer that does not hold
its text. -/
inductive Lookup (α : Type) where
  | undefined
  | null
  | found (place : α)
  deriving DecidableEq, Repr

/-- The bytes of a text of single-byte characters. -/
def ascii (text : List Char) : List UInt8 := text.map fun c => UInt8.ofNat c.toNat

/-! ## One block -/

def intMidpoint (bot top : Nat) : Option Nat :=
  if bot + top < 2 ^ 31 then some ((bot + top) / 2) else none

def nameBelow (regs : List Reg) (name : List UInt8) (mid : Nat) : Bool :=
  regs[mid]?.any fun reg => istrCmp reg.regname.bytes name < 0

def searchRegs (regs : List Reg) (name : List UInt8) : Lookup Nat :=
  match loop (searchTurn intMidpoint (nameBelow regs name)) (regs.length + 1) (0, regs.length) with
  | some (some bot) =>
      if regs[bot]?.any fun reg => istrCmp reg.regname.bytes name = 0 then .found bot else .null
  | _ => .undefined

/-! ## All blocks -/

def instName (inst : Int) : List UInt8 := ascii ('{' :: printInt inst ++ ['}'])

def skipsInst (inst : Int) (ipname : List UInt8) : Bool :=
  (inst ≥ 0 ∧ ¬ instName inst <:+: ipname) ∨
    (inst < 0 ∧ inst ≠ -2 ∧ ascii ['{'] <:+: ipname)

/-- Not the block name that is asked for; a name shorter than `ip` is not compared with it. -/
def skipsIp (ip ipname : List UInt8) : Bool :=
  ipname.length ≥ ip.length ∧ ipname.take ip.length ≠ ip

def skips (ip : Option CString) (inst : Int) (block : IpBlock) : Bool :=
  ip.any (fun ip => skipsIp ip.bytes block.ipname.bytes) || skipsInst inst block.ipname.bytes

def searchBlock (ip : Option CString) (inst : Int) (name : List UInt8) (block : IpBlock × Nat) :
    Option (Lookup (Nat × Nat)) :=
  if skips ip inst block.1 then none
  else
    match searchRegs block.1.regs name with
    | .undefined => some .undefined
    | .found reg => some (.found (block.2, reg))
    | .null => none

def searchBlocks (blocks : List IpBlock) (ip : Option CString) (inst : Int) (name : List UInt8) :
    Lookup (Nat × Nat) :=
  (blocks.zipIdx.findSome? (searchBlock ip inst name)).getD .null

/-- A leading `@` is not part of the name. -/
def strip : List UInt8 → List UInt8
  | 64 :: name => name
  | name => name

def regVariant (name : List UInt8) : List UInt8 := ascii "reg".toList ++ name.drop 2

def isMm (name : List UInt8) : Bool := ascii "mm".toList <+: name

/-- `origname` and `tmpregname` have 96 bytes. -/
def umrFindRegDataByIpByInstanceWithIp (blocks : List IpBlock) (ip : Option CString) (inst : Int)
    (regname : CString) : Lookup (Nat × Nat) :=
  if regname.bytes.length < 96 then
    match searchBlocks blocks ip inst (strip regname.bytes) with
    | .null =>
        if isMm (strip regname.bytes) then
          if (regVariant (strip regname.bytes)).length < 96 then
            searchBlocks blocks ip inst (regVariant (strip regname.bytes))
          else .undefined
        else .null
    | answer => answer
  else .undefined

def ipInstance (ip : List UInt8) : Int :=
  match ip.dropWhile (· ≠ 123) with
  | [] => -1
  | _ :: rest => ((scanInt (rest.map fun c => Char.ofNat c.toNat)).map Prod.fst).getD (-1)

def umrFindRegDataByIp (blocks : List IpBlock) (ip : Option CString) (regname : CString) :
    Lookup (Nat × Nat) :=
  umrFindRegDataByIpByInstanceWithIp blocks ip (ip.elim (-1) fun ip => ipInstance ip.bytes) regname

/-! ## What a linear search finds -/

def findName (regs : List Reg) (name : List UInt8) : Option Nat :=
  regs.findIdx? fun reg => SameName reg.regname.bytes name

def findFirst (passes : IpBlock → Bool) (blocks : List IpBlock) (name : List UInt8) :
    Option (Nat × Nat) :=
  blocks.zipIdx.findSome? fun block =>
    if passes block.1 then (findName block.1.regs name).map fun reg => (block.2, reg) else none

/-- The name itself in all blocks, then its `reg` variant in all blocks. -/
def findFirstOrVariant (passes : IpBlock → Bool) (blocks : List IpBlock) (name : List UInt8) :
    Option (Nat × Nat) :=
  (findFirst passes blocks name).or
    (if isMm name then findFirst passes blocks (regVariant name) else none)

def Lookup.ofOption {α : Type} : Option α → Lookup α
  | none => .null
  | some place => .found place

def SortedRegs (regs : List Reg) : Prop :=
  regs.Pairwise fun a b => istrCmp a.regname.bytes b.regname.bytes ≤ 0

/-! ## The search in a sorted block -/

theorem intMidpoint_between (count : Nat) : Between intMidpoint count := by
  intro bot top probe less inside isProbe
  unfold intMidpoint at isProbe
  split_ifs at isProbe
  cases isProbe
  omega

theorem nameBelow_eq {regs : List Reg} {name : List UInt8} {i : Nat} (inside : i < regs.length) :
    nameBelow regs name i = decide (istrCmp regs[i].regname.bytes name < 0) := by
  rw [nameBelow, List.getElem?_eq_getElem inside, Option.any_some]

theorem sortedRegs_le {regs : List Reg} (sorted : SortedRegs regs) {i j : Nat} (order : i ≤ j)
    (inside : j < regs.length) :
    folded regs[i].regname.bytes ≤ folded regs[j].regname.bytes := by
  rcases Nat.eq_or_lt_of_le order with rfl | less
  · exact le_refl _
  · rw [← istrCmp_nonpos_iff]
    exact List.pairwise_iff_getElem.mp sorted i j (by omega) inside less

theorem nameBelow_iff {regs : List Reg} {name : List UInt8} (ends : ∀ c ∈ name, c ≠ 0) {i : Nat}
    (inside : i < regs.length) :
    nameBelow regs name i = true ↔ folded regs[i].regname.bytes < folded name := by
  rw [nameBelow_eq inside, decide_eq_true_eq]
  exact (istrCmp_sign regs[i].regname.terminated ends).1

section LowerBound
variable {regs : List Reg} {name : List UInt8} {bot : Nat}
  (bound : IsLowerBound (nameBelow regs name) regs.length bot) (ends : ∀ c ∈ name, c ≠ 0)
include bound ends

theorem not_sameName_before {i : Nat} (inside : i < regs.length) (before : i < bot) :
    ¬ SameName regs[i].regname.bytes name := by
  intro same
  have isBelow := (nameBelow_iff ends inside).mp (bound.before i before)
  rw [SameName] at same
  rw [same] at isBelow
  exact lt_irrefl _ isBelow

/-- In a sorted block the name is at the lower bound or nowhere. -/
theorem findName_of_lowerBound (sorted : SortedRegs regs) :
    findName regs name =
      if regs[bot]?.any fun reg => istrCmp reg.regname.bytes name = 0 then some bot else none := by
  by_cases hit : (regs[bot]?.any fun reg => istrCmp reg.regname.bytes name = 0) = true
  · rw [if_pos hit]
    obtain ⟨reg, atBot, same⟩ := (Option.any_eq_true _ _).mp hit
    obtain ⟨inside, rfl⟩ := List.getElem?_eq_some_iff.mp atBot
    refine List.findIdx?_eq_some_iff_getElem.mpr ⟨inside, ?_, ?_⟩
    · exact decide_eq_true
        ((istrCmp_sign regs[bot].regname.terminated ends).2.mp (of_decide_eq_true same))
    · intro j less
      simpa using not_sameName_before bound ends (by omega) less
  · rw [if_neg hit]
    refine List.findIdx?_eq_none_iff.mpr ?_
    intro reg member
    obtain ⟨k, kInside, rfl⟩ := List.getElem_of_mem member
    refine decide_eq_false ?_
    intro sameName
    by_cases before : k < bot
    · exact not_sameName_before bound ends kInside before sameName
    · -- At or behind the place, so the register there has the name too.
      have inside : bot < regs.length := by omega
      have ordered := sortedRegs_le sorted (Nat.le_of_not_lt before) kInside
      have notBelow := bound.after bot inside (Nat.le_refl _)
      rw [← Bool.not_eq_true, nameBelow_iff ends inside, not_lt] at notBelow
      rw [SameName] at sameName
      rw [sameName] at ordered
      refine hit ?_
      rw [List.getElem?_eq_getElem inside, Option.any_some]
      exact decide_eq_true ((istrCmp_sign regs[bot].regname.terminated ends).2.mpr
        (le_antisymm ordered notBelow))

end LowerBound

/-- A search that comes to an end has found the first register of the name. -/
theorem searchRegs_sound {regs : List Reg} (sorted : SortedRegs regs) {name : List UInt8}
    (ends : ∀ c ∈ name, c ≠ 0) (defined : searchRegs regs name ≠ .undefined) :
    searchRegs regs name = Lookup.ofOption (findName regs name) := by
  unfold searchRegs at defined ⊢
  split at defined
  · rename_i bot ended
    have bound : IsLowerBound (nameBelow regs name) regs.length bot := by
      refine search_sound (intMidpoint_between _) ?_ (Nat.zero_le _) (Nat.le_refl _) nofun
        (fun i inside behind => absurd inside (Nat.not_lt.mpr behind)) ended
      intro i j order inside isBelow
      rw [nameBelow_iff ends inside] at isBelow
      rw [nameBelow_iff ends (by omega)]
      exact lt_of_le_of_lt (sortedRegs_le sorted order inside) isBelow
    rw [findName_of_lowerBound bound ends sorted]
    split_ifs <;> rfl
  · exact absurd rfl defined

/-! ### Where the bounds overflow -/

/-- The lower bounds of a search among `count` registers that only goes up: each is one more than
the midpoint `(bot + count) / 2` of the one before. -/
def rise (count : Nat) : Nat → Nat := climb fun bot => (bot + count) / 2

/-- The bounds overflow among `count` registers of which `key` are below the name: on the way up,
in front of the first probe that is not below it. -/
def Overflows (count key : Nat) : Prop :=
  ∃ k, rise count k ≤ key ∧ rise count k < count ∧ 2 ^ 31 ≤ rise count k + count

def namesBelow (regs : List Reg) (name : List UInt8) : Nat :=
  regs.countP fun reg => istrCmp reg.regname.bytes name < 0

theorem rise_succ (count k : Nat) : rise count (k + 1) = (rise count k + count) / 2 + 1 :=
  climb_succ _ k

theorem rise_mono {count j k : Nat} (le : j ≤ k) (inside : rise count k < count) :
    rise count j ≤ rise count k := by
  induction k, le using Nat.le_induction with
  | base => exact Nat.le_refl _
  | succ k _ ih =>
      rw [rise_succ] at inside ⊢
      have earlier := ih (by omega)
      omega

theorem not_overflows_of_few {count key : Nat} (few : count ≤ 2 ^ 30) : ¬ Overflows count key := by
  rintro ⟨k, -, inside, large⟩
  omega

theorem intMidpoint_eq_none {bot top : Nat} : intMidpoint bot top = none ↔ 2 ^ 31 ≤ bot + top := by
  rw [intMidpoint, ite_eq_right_iff]
  simp only [reduceCtorEq, imp_false, Nat.not_lt]

theorem intMidpoint_eq_some {bot top probe : Nat} :
    intMidpoint bot top = some probe ↔ bot + top < 2 ^ 31 ∧ probe = (bot + top) / 2 := by
  unfold intMidpoint
  split_ifs with fits
  · rw [Option.some.injEq]
    exact ⟨fun same => ⟨fits, same.symm⟩, fun both => both.2.symm⟩
  · exact iff_of_false (by simp) fun both => fits both.1

theorem nameBelow_counts {regs : List Reg} (sorted : SortedRegs regs) {name : List UInt8}
    (ends : ∀ c ∈ name, c ≠ 0) {i : Nat} (inside : i < regs.length) :
    nameBelow regs name i = true ↔ i < namesBelow regs name := by
  rw [nameBelow_eq inside]
  refine @getElem_iff_lt_countP _ (fun reg : Reg => decide (istrCmp reg.regname.bytes name < 0)) regs
    (sorted.imp ?_) i inside
  intro a b ordered isBelow
  rw [decide_eq_true_eq, (istrCmp_sign b.regname.terminated ends).1] at isBelow
  rw [decide_eq_true_eq, (istrCmp_sign a.regname.terminated ends).1]
  exact lt_of_le_of_lt ((istrCmp_nonpos_iff _ _).mp ordered) isBelow

theorem searchRegs_undefined_iff {regs : List Reg} (sorted : SortedRegs regs) {name : List UInt8}
    (ends : ∀ c ∈ name, c ≠ 0) :
    searchRegs regs name = .undefined ↔ Overflows regs.length (namesBelow regs name) := by
  have counts : ∀ i < regs.length, nameBelow regs name i = true ↔ i < namesBelow regs name :=
    fun i inside => nameBelow_counts sorted ends inside
  have inside : namesBelow regs name ≤ regs.length := List.countP_le_length
  obtain ⟨outcome, ended⟩ := @search_halts intMidpoint (nameBelow regs name) regs.length regs.length
    (intMidpoint_between _) (regs.length + 1) 0 (Nat.zero_le _) (Nat.le_refl _) (by omega)
  have isUndefined : searchRegs regs name = .undefined ↔ outcome = none := by
    rw [searchRegs, ended]
    cases outcome with
    | none => exact iff_of_true rfl rfl
    | some bot =>
        dsimp only
        refine iff_of_false ?_ (Option.some_ne_none bot)
        split_ifs <;> exact fun same => by cases same
  rw [isUndefined]
  constructor
  · rintro rfl
    have lower : ∀ bot high probe, bot < high → high ≤ regs.length →
        intMidpoint bot high = some probe → ∀ bot' high', bot' < high' → high' ≤ probe →
          intMidpoint bot' high' ≠ none := by
      intro bot high probe less _ isMid bot' high' less' atMost
      obtain ⟨fits, rfl⟩ := intMidpoint_eq_some.mp isMid
      rw [ne_eq, intMidpoint_eq_none]
      omega
    obtain ⟨k, atMost, open_, noMid⟩ := @search_misses intMidpoint (nameBelow regs name)
      (fun bot => (bot + regs.length) / 2) _ _ _ counts inside (intMidpoint_between _)
      (fun bot probe _ isMid => (intMidpoint_eq_some.mp isMid).2) lower ended
    exact ⟨k, atMost, open_, intMidpoint_eq_none.mp noMid⟩
  · intro overflows
    -- Before the first sum that is too large, every turn goes up.
    obtain ⟨atMost, open_, large⟩ := Nat.find_spec overflows
    have least := fun j => @Nat.find_min _ _ overflows j
    generalize Nat.find overflows = k at atMost open_ large least
    have lower : ∀ j ≤ k, rise regs.length j ≤ rise regs.length k := fun j le => rise_mono le open_
    have climbed := @search_climb intMidpoint (nameBelow regs name)
      (fun bot => (bot + regs.length) / 2) _ _ counts inside k ?_
      (fun j less => lt_of_le_of_lt (lower j (Nat.le_of_lt less)) open_)
      (fun j less => (lower (j + 1) less).trans atMost) (regs.length + 1)
    · have noMid := intMidpoint_eq_none.mpr large
      have turn : searchTurn intMidpoint (nameBelow regs name) (rise regs.length k, regs.length) =
          .done none := by
        simp only [searchTurn, if_pos open_, noMid]
      have missed := climbed.trans (loop_done turn _)
      have longer := (loop_fuel (Nat.le_add_right _ k) ended).1
      exact Option.some.inj (longer.symm.trans missed)
    · intro j less
      refine intMidpoint_eq_some.mpr ⟨?_, rfl⟩
      by_contra large'
      have below := lower j (Nat.le_of_lt less)
      exact least j less ⟨below.trans atMost, lt_of_le_of_lt below open_, Nat.le_of_not_lt large'⟩

/-! ## The search in all blocks -/

/-- The search overflows in a block that passes, and the name is in none of those in front of it
that pass. -/
def PassOverflows (passes : IpBlock → Bool) (blocks : List IpBlock) (name : List UInt8) : Prop :=
  ∃ front block behind, blocks = front ++ block :: behind ∧ passes block = true ∧
    Overflows block.regs.length (namesBelow block.regs name) ∧
    ∀ earlier ∈ front, passes earlier = true → findName earlier.regs name = none

theorem PassOverflows.cons {passes : IpBlock → Bool} {block : IpBlock} {blocks : List IpBlock}
    {name : List UInt8} :
    PassOverflows passes (block :: blocks) name ↔
      passes block = true ∧ Overflows block.regs.length (namesBelow block.regs name) ∨
        (passes block = true → findName block.regs name = none) ∧
          PassOverflows passes blocks name := by
  constructor
  · rintro ⟨front, stop, behind, isBlocks, isPassed, overflows, absent⟩
    cases front with
    | nil =>
        cases isBlocks
        exact Or.inl ⟨isPassed, overflows⟩
    | cons first front =>
        cases isBlocks
        obtain ⟨here, later⟩ := List.forall_mem_cons.mp absent
        exact Or.inr ⟨here, front, stop, behind, rfl, isPassed, overflows, later⟩
  · rintro (⟨isPassed, overflows⟩ | ⟨here, front, stop, behind, rfl, isPassed, overflows, absent⟩)
    · exact ⟨[], block, blocks, rfl, isPassed, overflows,
        fun _ member => absurd member List.not_mem_nil⟩
    · exact ⟨block :: front, stop, behind, rfl, isPassed, overflows,
        List.forall_mem_cons.mpr ⟨here, absent⟩⟩

section Pass
variable {ip : Option CString} {inst : Int} {name : List UInt8} (ends : ∀ c ∈ name, c ≠ 0)
include ends

/-- A block that passes overflows, has the name or lets the loop go on. -/
theorem searchBlock_passes {block : IpBlock × Nat} (sorted : SortedRegs block.1.regs)
    (passes : skips ip inst block.1 = false) :
    (Overflows block.1.regs.length (namesBelow block.1.regs name) →
      searchBlock ip inst name block = some .undefined) ∧
    (¬ Overflows block.1.regs.length (namesBelow block.1.regs name) →
      searchBlock ip inst name block =
        ((findName block.1.regs name).map fun reg => (block.2, reg)).map .found) := by
  rw [searchBlock, passes, if_neg Bool.false_ne_true, ← searchRegs_undefined_iff sorted ends]
  refine ⟨fun overflows => by rw [overflows], fun defined => ?_⟩
  rw [searchRegs_sound sorted ends defined]
  cases findName block.1.regs name <;> rfl

theorem searchBlocks_from {blocks : List IpBlock}
    (sorted : ∀ block ∈ blocks, SortedRegs block.regs) (start : Nat) :
    (PassOverflows (fun block => !skips ip inst block) blocks name →
      (blocks.zipIdx start).findSome? (searchBlock ip inst name) = some .undefined) ∧
    (¬ PassOverflows (fun block => !skips ip inst block) blocks name →
      (blocks.zipIdx start).findSome? (searchBlock ip inst name) =
        ((blocks.zipIdx start).findSome? fun block => if !skips ip inst block.1 then
          (findName block.1.regs name).map fun reg => (block.2, reg) else none).map .found) := by
  induction blocks generalizing start with
  | nil =>
      refine ⟨?_, fun _ => rfl⟩
      rintro ⟨front, stop, behind, impossible, -⟩
      cases front <;> cases impossible
  | cons block blocks ih =>
      obtain ⟨here, later⟩ := List.forall_mem_cons.mp sorted
      have rest := ih later (start + 1)
      rw [PassOverflows.cons, List.zipIdx_cons, List.findSome?_cons, List.findSome?_cons]
      dsimp only
      cases passes : skips ip inst block with
      | true =>
          have skipped : searchBlock ip inst name (block, start) = none := by
            rw [searchBlock, passes, if_pos rfl]
          simpa [skipped] using rest
      | false =>
          obtain ⟨beyond, defined⟩ := @searchBlock_passes ip inst name ends (block, start) here passes
          dsimp only at beyond defined
          by_cases overflows : Overflows block.regs.length (namesBelow block.regs name)
          · rw [beyond overflows]
            refine ⟨fun _ => rfl, fun none_ => ?_⟩
            exact absurd (Or.inl ⟨rfl, overflows⟩) none_
          · rw [defined overflows]
            cases found : findName block.regs name with
            | some reg => simp [overflows]
            | none => simpa [overflows] using rest

/-- A pass finds what a linear search finds, unless it overflows. -/
theorem searchBlocks_sound {blocks : List IpBlock}
    (sorted : ∀ block ∈ blocks, SortedRegs block.regs) :
    (PassOverflows (fun block => !skips ip inst block) blocks name →
      searchBlocks blocks ip inst name = .undefined) ∧
    (¬ PassOverflows (fun block => !skips ip inst block) blocks name →
      searchBlocks blocks ip inst name =
        Lookup.ofOption (findFirst (fun block => !skips ip inst block) blocks name)) := by
  obtain ⟨beyond, defined⟩ := @searchBlocks_from ip inst name ends blocks sorted 0
  rw [searchBlocks, findFirst]
  refine ⟨fun overflows => by rw [beyond overflows]; rfl, fun none_ => ?_⟩
  rw [defined none_]
  generalize (blocks.zipIdx.findSome? fun block => if !skips ip inst block.1 then
    (findName block.1.regs name).map fun reg => (block.2, reg) else none) = found
  cases found <;> rfl

end Pass

theorem not_passOverflows_of_few {passes : IpBlock → Bool} {blocks : List IpBlock}
    {name : List UInt8} (few : ∀ block ∈ blocks, block.regs.length ≤ 2 ^ 30) :
    ¬ PassOverflows passes blocks name := by
  rintro ⟨front, block, behind, rfl, -, overflows, -⟩
  exact not_overflows_of_few (few block (List.mem_append_right _ List.mem_cons_self)) overflows

theorem strip_ends {regname : CString} : ∀ c ∈ strip regname.bytes, c ≠ 0 := by
  intro c member
  refine regname.terminated c ?_
  unfold strip at member
  split at member
  · rename_i same
    rw [same]
    exact List.mem_cons_of_mem _ member
  · exact member

theorem regVariant_ends {name : List UInt8} (ends : ∀ c ∈ name, c ≠ 0) :
    ∀ c ∈ regVariant name, c ≠ 0 := by
  intro c member
  rcases List.mem_append.mp member with prefix_ | rest
  · have all : ∀ c ∈ ascii "reg".toList, c ≠ 0 := by decide +kernel
    exact all c prefix_
  · exact ends c (List.mem_of_mem_drop rest)

theorem length_strip_le (name : List UInt8) : name.length ≤ (strip name).length + 1 := by
  unfold strip
  split
  · rw [List.length_cons]
  · omega

theorem length_regVariant {name : List UInt8} (mm : isMm name = true) :
    (regVariant name).length = name.length + 1 := by
  have two : (ascii "mm".toList).length ≤ name.length := (of_decide_eq_true mm).length_le
  have isTwo : (ascii "mm".toList).length = 2 := rfl
  have isThree : (ascii "reg".toList).length = 3 := rfl
  rw [regVariant, List.length_append, List.length_drop, isThree]
  omega

/-- The blocks of an instance: with `{inst}` in their name, without any `{`, or all of them. -/
def eligible (inst : Int) (block : IpBlock) : Bool :=
  if inst ≥ 0 then instName inst <:+: block.ipname.bytes
  else if inst = -1 then ¬ ascii ['{'] <:+: block.ipname.bytes
  else true

/-- What a lookup without a block name is to find. -/
def FindsByName (blocks : List IpBlock) : Prop :=
  ∀ (inst : Int) (regname : CString), (inst ≥ 0 ∨ inst = -1 ∨ inst = -2) →
    (strip regname.bytes).length < 93 →
    umrFindRegDataByIpByInstanceWithIp blocks none inst regname =
      Lookup.ofOption (findFirstOrVariant (eligible inst) blocks (strip regname.bytes))

theorem skips_none {inst : Int} (known : inst ≥ 0 ∨ inst = -1 ∨ inst = -2) :
    (fun block => !skips none inst block) = eligible inst := by
  funext block
  rw [skips, Option.any_none, Bool.false_or, skipsInst, eligible]
  rcases known with atLeast | isMinusOne | isMinusTwo
  · rw [if_pos atLeast]
    have notNegative : ¬ inst < 0 := by omega
    simp only [atLeast, notNegative, true_and, false_and, or_false, decide_not, Bool.not_not]
  · subst isMinusOne
    simp
  · subst isMinusTwo
    simp

/-- One of the two passes of the lookup of a name overflows. -/
def LookupOverflows (passes : IpBlock → Bool) (blocks : List IpBlock) (name : List UInt8) : Prop :=
  PassOverflows passes blocks name ∨
    findFirst passes blocks name = none ∧ isMm name = true ∧
      PassOverflows passes blocks (regVariant name)

theorem not_lookupOverflows_of_few {passes : IpBlock → Bool} {blocks : List IpBlock}
    {name : List UInt8} (few : ∀ block ∈ blocks, block.regs.length ≤ 2 ^ 30) :
    ¬ LookupOverflows passes blocks name := by
  rintro (overflows | ⟨-, -, overflows⟩) <;> exact not_passOverflows_of_few few overflows

section ByName
variable {blocks : List IpBlock} (sorted : ∀ block ∈ blocks, SortedRegs block.regs) {inst : Int}
  {regname : CString} (known : inst ≥ 0 ∨ inst = -1 ∨ inst = -2)
  (short : (strip regname.bytes).length < 93)
include sorted known short

/-- One lookup: undefined where a pass overflows, and otherwise what a linear search finds. -/
theorem umrFindRegData_sound :
    umrFindRegDataByIpByInstanceWithIp blocks none inst regname =
        Lookup.ofOption (findFirstOrVariant (eligible inst) blocks (strip regname.bytes)) ↔
      ¬ LookupOverflows (eligible inst) blocks (strip regname.bytes) := by
  have whole : regname.bytes.length < 96 := by
    have := length_strip_le regname.bytes
    omega
  have defined : ∀ found : Option (Nat × Nat), Lookup.undefined ≠ Lookup.ofOption found := by
    intro found same
    cases found <;> cases same
  have pass := fun {name : List UInt8} (ends : ∀ c ∈ name, c ≠ 0) =>
    @searchBlocks_sound none inst name ends blocks sorted
  rw [skips_none known] at pass
  rw [umrFindRegDataByIpByInstanceWithIp, if_pos whole, LookupOverflows, findFirstOrVariant]
  by_cases first : PassOverflows (eligible inst) blocks (strip regname.bytes)
  · rw [(pass strip_ends).1 first]
    exact iff_of_false (defined _) (not_not.mpr (Or.inl first))
  rw [(pass strip_ends).2 first]
  cases findFirst (eligible inst) blocks (strip regname.bytes) with
  | some place => exact iff_of_true rfl (by simp [first])
  | none =>
      simp only [Lookup.ofOption, Option.none_or]
      by_cases mm : isMm (strip regname.bytes) = true
      · have fits : (regVariant (strip regname.bytes)).length < 96 := by
          rw [length_regVariant mm]
          omega
        rw [if_pos mm, if_pos mm, if_pos fits]
        by_cases second : PassOverflows (eligible inst) blocks (regVariant (strip regname.bytes))
        · rw [(pass (regVariant_ends strip_ends)).1 second]
          exact iff_of_false (defined _) (not_not.mpr (Or.inr ⟨trivial, mm, second⟩))
        · rw [(pass (regVariant_ends strip_ends)).2 second]
          exact iff_of_true rfl (by simp [first, second])
      · rw [if_neg mm, if_neg mm]
        exact iff_of_true rfl (by simp [first, mm])

end ByName

/-- The lookup finds what a linear search finds exactly if none of its passes overflows. -/
theorem findsByName_iff (blocks : List IpBlock)
    (sorted : ∀ block ∈ blocks, SortedRegs block.regs) :
    FindsByName blocks ↔ ∀ (inst : Int) (regname : CString), (inst ≥ 0 ∨ inst = -1 ∨ inst = -2) →
      (strip regname.bytes).length < 93 →
      ¬ LookupOverflows (eligible inst) blocks (strip regname.bytes) := by
  constructor
  · intro finds inst regname known short
    exact (umrFindRegData_sound sorted known short).mp (finds inst regname known short)
  · intro none_ inst regname known short
    exact (umrFindRegData_sound sorted known short).mpr (none_ inst regname known short)

def cstring (text : List Char) : CString := CString.ofBuffer (ascii text)

def namedReg (name : List Char) : Reg := ⟨cstring name, 0, 0, 0, []⟩

def namedBlock (name : List Char) (regs : List Reg) : IpBlock :=
  ⟨cstring name, ⟨0, 0, 0, 0, 0, 0⟩, regs⟩

/-- `mmCP_STAT` is looked up as itself in both blocks before `regCP_STAT` is. -/
def twoBlocks : List IpBlock :=
  [namedBlock "gfx1100{0}".toList [namedReg "regCP_STAT".toList, namedReg "regGRBM_STATUS".toList],
    namedBlock "gfx1100{1}".toList [namedReg "mmcp_stat".toList]]

theorem twoBlocks_finds : FindsByName twoBlocks ∧
    findFirstOrVariant (eligible (-2)) twoBlocks (ascii "mmCP_STAT".toList) = some (1, 0) ∧
    findFirstOrVariant (eligible 0) twoBlocks (ascii "mmCP_STAT".toList) = some (0, 0) := by
  have sorted : ∀ block ∈ twoBlocks, SortedRegs block.regs := by
    unfold SortedRegs
    decide
  have few : ∀ block ∈ twoBlocks, block.regs.length ≤ 2 ^ 30 := by decide
  exact ⟨(findsByName_iff twoBlocks sorted).mpr fun _ _ _ _ => not_lookupOverflows_of_few few,
    by decide, by decide⟩

def crowdedNames : IpBlock :=
  namedBlock "gfx".toList (List.replicate (2 ^ 30 + 1) (namedReg "A".toList))

theorem namesBelow_crowded : namesBelow crowdedNames.regs (cstring "B".toList).bytes = 2 ^ 30 + 1 := by
  rw [namesBelow, crowdedNames, namedBlock, List.countP_replicate, if_pos (by decide)]

/-- After 29 turns the bounds are `2^30` and `2^30 + 1`. -/
theorem overflows_crowded : Overflows crowdedNames.regs.length (2 ^ 30 + 1) := by
  have length : crowdedNames.regs.length = 2 ^ 30 + 1 := List.length_replicate
  rw [length]
  refine ⟨29, ?_⟩
  decide +kernel

/-- A block of `2^30 + 1` registers, in which a name above them is looked for. -/
theorem crowdedNames_lookup_fails :
    (∀ block ∈ [crowdedNames], SortedRegs block.regs) ∧ ¬ FindsByName [crowdedNames] := by
  have sorted : ∀ block ∈ [crowdedNames], SortedRegs block.regs := by
    intro block member
    rw [List.mem_singleton.mp member, crowdedNames, namedBlock]
    exact List.pairwise_replicate.mpr (Or.inr (by decide))
  refine ⟨sorted, fun finds => ?_⟩
  have found := finds (-2) (cstring "B".toList) (Or.inr (Or.inr rfl)) (by decide)
  refine (umrFindRegData_sound sorted (Or.inr (Or.inr rfl)) (by decide)).mp found (Or.inl ?_)
  refine ⟨[], crowdedNames, [], rfl, rfl, ?_, fun _ member => absurd member List.not_mem_nil⟩
  have plain : strip (cstring "B".toList).bytes = (cstring "B".toList).bytes := by decide
  rw [plain, namesBelow_crowded]
  exact overflows_crowded

end Umr.Registers
