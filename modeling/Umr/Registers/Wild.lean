import Umr.Registers.Expression
import Umr.Rumr.SerialAsic

/-!
# Registers by pattern

`umr_find_reg_wild_first` and `umr_find_reg_wild_next` of `find_reg.c`.  The iterator
stands inside a block, or between blocks with `-1` for the register.
-/

set_option autoImplicit false

namespace Umr.Registers

open Umr.Lib Umr.Rumr

/-- `umr_find_reg_iter` without the patterns, which stay what they are. -/
structure FindRegIter where
  ipI : Int
  regI : Int
  deriving DecidableEq, Repr

def umrFindRegWildFirst : FindRegIter := ⟨-1, -1⟩

/-- Counts up to an item that passes, or to the end. -/
def skipTo {α : Type} (passes : α → Bool) (list : List α) (i : Nat) : Nat :=
  i + (list.drop i).findIdx passes

def nameMatches (pattern name : CString) : Bool :=
  expressionMatches name.bytes pattern.bytes == some true

def blockMatches (ip : Option CString) (block : IpBlock) : Bool :=
  ip.all fun pattern => nameMatches pattern block.ipname

section Next
variable (blocks : List IpBlock) (ip : Option CString) (reg : CString)

/-- Between blocks the next one that matches is entered; `none` if there is no more. -/
def enterBlock (iter : FindRegIter) : Option FindRegIter :=
  if iter.regI = -1 then
    if skipTo (blockMatches ip) blocks (iter.ipI + 1).toNat ≥ blocks.length then none
    else some ⟨skipTo (blockMatches ip) blocks (iter.ipI + 1).toNat, 0⟩
  else some iter

def regsAt (i : Nat) : List Reg := (blocks[i]?.map IpBlock.regs).getD []

def regMatches (candidate : Reg) : Bool := nameMatches reg candidate.regname

/-- One turn of the loop.  It ends with a register and the iterator behind it, or with `NULL` and
the iterator freed and cleared. -/
def wildTurn (iter : FindRegIter) : Turn FindRegIter (Option ((Nat × Nat) × FindRegIter)) :=
  match enterBlock blocks ip iter with
  | none => .done none
  | some iter =>
      let regs := regsAt blocks iter.ipI.toNat
      let regI := skipTo (regMatches reg) regs iter.regI.toNat
      if regI < regs.length then .done (some ((iter.ipI.toNat, regI), ⟨iter.ipI, regI + 1⟩))
      else .again ⟨iter.ipI, -1⟩

/-- `none` if the loop has not come to an end. -/
def umrFindRegWildNext (iter : FindRegIter) : Option (Option ((Nat × Nat) × FindRegIter)) :=
  loop (wildTurn blocks ip reg) (blocks.length + 2) iter

/-- What the calls return until `NULL`; `none` if so many calls have not led to it. -/
def wildCalls : Nat → FindRegIter → Option (List (Nat × Nat))
  | 0, _ => none
  | calls + 1, iter =>
      match umrFindRegWildNext blocks ip reg iter with
      | none => none
      | some none => some []
      | some (some (pair, next)) => (wildCalls calls next).map (pair :: ·)

/-! ## What is left to return -/

def pairsIn (i j : Nat) : List (Nat × Nat) :=
  ((regsAt blocks i).zipIdx.drop j).flatMap fun candidate =>
    if regMatches reg candidate.1 then [(i, candidate.2)] else []

def pairsFrom (i : Nat) : List (Nat × Nat) :=
  (blocks.zipIdx.drop i).flatMap fun block =>
    if blockMatches ip block.1 then pairsIn blocks reg block.2 0 else []

end Next

theorem skipTo_eq {α : Type} {passes : α → Bool} {list : List α} {i : Nat}
    (inside : i < list.length) :
    skipTo passes list i = if passes list[i] then i else skipTo passes list (i + 1) := by
  rw [skipTo, List.drop_eq_getElem_cons inside, List.findIdx_cons]
  cases passes list[i] with
  | true => rfl
  | false =>
      simp only [cond_false, Bool.false_eq_true, if_false, skipTo]
      omega

theorem skipTo_end {α : Type} {passes : α → Bool} {list : List α} {i : Nat}
    (outside : list.length ≤ i) : skipTo passes list i = i := by
  rw [skipTo, List.drop_eq_nil_of_le outside]
  rfl

theorem le_skipTo {α : Type} (passes : α → Bool) (list : List α) (i : Nat) :
    i ≤ skipTo passes list i := Nat.le_add_right _ _

theorem skipTo_passes {α : Type} {passes : α → Bool} {list : List α} {i : Nat}
    (inside : skipTo passes list i < list.length) : passes list[skipTo passes list i] = true := by
  have dropped : (list.drop i).findIdx passes < (list.drop i).length := by
    rw [skipTo] at inside
    rw [List.length_drop]
    omega
  have passed := List.findIdx_getElem (w := dropped)
  rwa [List.getElem_drop] at passed

theorem flatMap_drop_skipTo {α β : Type} {passes : α → Bool} {list : List α} {f : α × Nat → List β}
    (nothing : ∀ item, passes item.1 = false → f item = []) (i : Nat) :
    (list.zipIdx.drop i).flatMap f = (list.zipIdx.drop (skipTo passes list i)).flatMap f := by
  induction left : list.length - i generalizing i with
  | zero => rw [skipTo_end (by omega)]
  | succ left ih =>
      have inside : i < list.length := by omega
      rw [skipTo_eq inside]
      cases isPassed : passes list[i] with
      | true => rfl
      | false =>
          rw [if_neg Bool.false_ne_true, ← ih (i + 1) (by omega),
            List.drop_eq_getElem_cons (by rw [List.length_zipIdx]; exact inside),
            List.flatMap_cons, List.getElem_zipIdx, nothing _ isPassed, List.nil_append]

theorem drop_zipIdx_eq {α : Type} {list : List α} {i : Nat} (inside : i < list.length) :
    list.zipIdx.drop i = (list[i], i) :: list.zipIdx.drop (i + 1) := by
  rw [List.drop_eq_getElem_cons (by rw [List.length_zipIdx]; exact inside), List.getElem_zipIdx,
    Nat.zero_add]

/-! ## One call -/

section Next
variable {blocks : List IpBlock} {ip : Option CString} {reg : CString}

inductive Left (blocks : List IpBlock) (ip : Option CString) (reg : CString) :
    FindRegIter → List (Nat × Nat) → Prop where
  | between (i : Nat) : Left blocks ip reg ⟨i - 1, -1⟩ (pairsFrom blocks ip reg i)
  | inside {i : Nat} (j : Nat) (block : i < blocks.length) :
      Left blocks ip reg ⟨i, j⟩ (pairsIn blocks reg i j ++ pairsFrom blocks ip reg (i + 1))

theorem pairsIn_skipTo (i j : Nat) :
    pairsIn blocks reg i j =
      pairsIn blocks reg i (skipTo (regMatches reg) (regsAt blocks i) j) := by
  refine flatMap_drop_skipTo ?_ j
  intro candidate missed
  rw [missed, if_neg Bool.false_ne_true]

theorem pairsIn_hit {i j : Nat} (inside : j < (regsAt blocks i).length)
    (hit : regMatches reg (regsAt blocks i)[j] = true) :
    pairsIn blocks reg i j = (i, j) :: pairsIn blocks reg i (j + 1) := by
  rw [pairsIn, drop_zipIdx_eq inside, List.flatMap_cons, if_pos hit]
  rfl

theorem pairsIn_end {i j : Nat} (outside : (regsAt blocks i).length ≤ j) :
    pairsIn blocks reg i j = [] := by
  rw [pairsIn, List.drop_eq_nil_of_le (by rw [List.length_zipIdx]; exact outside)]
  rfl

theorem pairsFrom_skipTo (i : Nat) :
    pairsFrom blocks ip reg i = pairsFrom blocks ip reg (skipTo (blockMatches ip) blocks i) := by
  refine flatMap_drop_skipTo ?_ i
  intro block missed
  rw [missed, if_neg Bool.false_ne_true]

theorem pairsFrom_hit {i : Nat} (inside : i < blocks.length)
    (hit : blockMatches ip blocks[i] = true) :
    pairsFrom blocks ip reg i = pairsIn blocks reg i 0 ++ pairsFrom blocks ip reg (i + 1) := by
  rw [pairsFrom, drop_zipIdx_eq inside, List.flatMap_cons, if_pos hit]
  rfl

theorem pairsFrom_end {i : Nat} (outside : blocks.length ≤ i) :
    pairsFrom blocks ip reg i = [] := by
  rw [pairsFrom, List.drop_eq_nil_of_le (by rw [List.length_zipIdx]; exact outside)]
  rfl

variable (blocks ip reg) in
theorem wildTurn_inside (i j : Nat) :
    (∃ found, wildTurn blocks ip reg ⟨i, j⟩ = .done (some ((i, found), ⟨i, found + 1⟩)) ∧
      pairsIn blocks reg i j = (i, found) :: pairsIn blocks reg i (found + 1)) ∨
    wildTurn blocks ip reg ⟨i, j⟩ = .again ⟨i, -1⟩ ∧ pairsIn blocks reg i j = [] := by
  have entered : enterBlock blocks ip ⟨i, j⟩ = some ⟨i, j⟩ := if_neg (by simp)
  have turn : wildTurn blocks ip reg ⟨i, j⟩ =
      if skipTo (regMatches reg) (regsAt blocks i) j < (regsAt blocks i).length then
        .done (some ((i, skipTo (regMatches reg) (regsAt blocks i) j),
          ⟨i, skipTo (regMatches reg) (regsAt blocks i) j + 1⟩))
      else .again ⟨i, -1⟩ := by
    rw [wildTurn, entered]
    rfl
  rw [turn]
  split_ifs with hit
  · refine Or.inl ⟨_, rfl, ?_⟩
    rw [pairsIn_skipTo, pairsIn_hit hit (skipTo_passes hit)]
  · refine Or.inr ⟨rfl, ?_⟩
    rw [pairsIn_skipTo, pairsIn_end (by omega)]

variable (blocks ip reg) in
/-- Between blocks a turn ends, or does what it does at the start of the next block. -/
theorem wildTurn_between (i : Nat) :
    (wildTurn blocks ip reg ⟨(i : Int) - 1, -1⟩ = .done none ∧ pairsFrom blocks ip reg i = []) ∨
    ∃ next, i ≤ next ∧ next < blocks.length ∧
      wildTurn blocks ip reg ⟨(i : Int) - 1, -1⟩ = wildTurn blocks ip reg ⟨next, (0 : Nat)⟩ ∧
      pairsFrom blocks ip reg i =
        pairsIn blocks reg next 0 ++ pairsFrom blocks ip reg (next + 1) := by
  have index : ((i : Int) - 1 + 1).toNat = i := by omega
  by_cases inside : skipTo (blockMatches ip) blocks i < blocks.length
  · refine Or.inr ⟨_, le_skipTo _ _ _, inside, ?_, ?_⟩
    · have entered : enterBlock blocks ip ⟨(i : Int) - 1, -1⟩ =
          some ⟨skipTo (blockMatches ip) blocks i, 0⟩ := by
        rw [enterBlock, if_pos rfl, index, if_neg (by omega)]
      have same : enterBlock blocks ip
          ⟨skipTo (blockMatches ip) blocks i, (0 : Nat)⟩ =
          some ⟨skipTo (blockMatches ip) blocks i, 0⟩ := if_neg (by simp)
      rw [wildTurn, wildTurn, entered, same]
    · rw [pairsFrom_skipTo, pairsFrom_hit inside (skipTo_passes inside)]
  · refine Or.inl ⟨?_, ?_⟩
    · have nothing : enterBlock blocks ip ⟨(i : Int) - 1, -1⟩ = none := by
        rw [enterBlock, if_pos rfl, index, if_pos (by omega)]
      rw [wildTurn, nothing]
    · rw [pairsFrom_skipTo, pairsFrom_end (by omega)]

def ReturnsFirst (blocks : List IpBlock) (ip : Option CString) (reg : CString)
    (pairs : List (Nat × Nat)) (answer : Option (Option ((Nat × Nat) × FindRegIter))) : Prop :=
  (pairs = [] ∧ answer = some none) ∨
  ∃ pair rest next, pairs = pair :: rest ∧ answer = some (some (pair, next)) ∧
    Left blocks ip reg next rest

theorem returnsFirst_hit {i j : Nat} (block : i < blocks.length) {pairs : List (Nat × Nat)}
    {answer : Option (Option ((Nat × Nat) × FindRegIter))}
    (isAnswer : answer = some (some ((i, j), ⟨i, j + 1⟩)))
    (isPairs : pairs = (i, j) :: pairsIn blocks reg i (j + 1)) :
    ReturnsFirst blocks ip reg (pairs ++ pairsFrom blocks ip reg (i + 1)) answer := by
  refine Or.inr ⟨(i, j), _, ⟨i, j + 1⟩, by rw [isPairs]; rfl, isAnswer, ?_⟩
  exact Left.inside (j + 1) block

theorem loop_between {i fuel : Nat} (enough : blocks.length - i < fuel) :
    ReturnsFirst blocks ip reg (pairsFrom blocks ip reg i)
      (loop (wildTurn blocks ip reg) fuel ⟨(i : Int) - 1, -1⟩) := by
  induction fuel generalizing i with
  | zero => cases enough
  | succ fuel ih =>
      rcases wildTurn_between blocks ip reg i with
        ⟨turn, noneLeft⟩ | ⟨next, le, inside, turn, isPairs⟩
      · exact Or.inl ⟨noneLeft, loop_done turn fuel⟩
      · rw [isPairs]
        rcases wildTurn_inside blocks ip reg next 0 with
          ⟨found, hit, isFirst⟩ | ⟨miss, nothing⟩
        · exact returnsFirst_hit inside (loop_done (turn.trans hit) fuel) isFirst
        · have state : (⟨next, -1⟩ : FindRegIter) = ⟨((next + 1 : Nat) : Int) - 1, -1⟩ := by simp
          rw [nothing, List.nil_append, loop_again (turn.trans miss), state]
          exact ih (by omega)

theorem umrFindRegWildNext_spec {iter : FindRegIter} {pairs : List (Nat × Nat)}
    (left : Left blocks ip reg iter pairs) :
    ReturnsFirst blocks ip reg pairs (umrFindRegWildNext blocks ip reg iter) := by
  cases left with
  | between i => exact loop_between (by omega)
  | @inside i j block =>
      rcases wildTurn_inside blocks ip reg i j with
        ⟨found, hit, isFirst⟩ | ⟨miss, nothing⟩
      · exact returnsFirst_hit block (loop_done hit _) isFirst
      · have state : (⟨i, -1⟩ : FindRegIter) = ⟨((i + 1 : Nat) : Int) - 1, -1⟩ := by simp
        rw [nothing, List.nil_append, umrFindRegWildNext, loop_again miss, state]
        exact loop_between (by omega)

theorem wildCalls_left {iter : FindRegIter} {pairs : List (Nat × Nat)}
    (left : Left blocks ip reg iter pairs) :
    wildCalls blocks ip reg (pairs.length + 1) iter = some pairs := by
  induction pairs generalizing iter with
  | nil =>
      rcases umrFindRegWildNext_spec left with ⟨-, answer⟩ | ⟨_, _, _, impossible, -⟩
      · rw [wildCalls, answer]
      · cases impossible
  | cons pair pairs ih =>
      rcases umrFindRegWildNext_spec left with
        ⟨impossible, -⟩ | ⟨first, rest, next, isPairs, answer, nextLeft⟩
      · cases impossible
      · cases isPairs
        rw [wildCalls, answer]
        change (wildCalls blocks ip reg (pairs.length + 1) next).map (pair :: ·) = _
        rw [ih nextLeft]
        rfl

end Next

/-! ## All pairs -/

theorem nameMatches_iff (pattern name : CString) :
    nameMatches pattern name = true ↔ NameMatches pattern.bytes name.bytes := by
  obtain ⟨result, ended, spec⟩ := expressionMatches_spec name.terminated pattern.bytes
  rw [nameMatches, ended, ← spec]
  cases result <;> decide

def PairLt (a b : Nat × Nat) : Prop := a.1 < b.1 ∨ a.1 = b.1 ∧ a.2 < b.2

theorem zipIdx_increasing {α : Type} (list : List α) :
    list.zipIdx.Pairwise fun a b => a.2 < b.2 := by
  rw [List.pairwise_iff_getElem]
  intro i j iInside jInside less
  rw [List.getElem_zipIdx, List.getElem_zipIdx]
  simpa using less

theorem mem_pairsIn_iff {blocks : List IpBlock} {reg : CString} {i : Nat} {pair : Nat × Nat} :
    pair ∈ pairsIn blocks reg i 0 ↔ pair.1 = i ∧
      ∃ candidate, (regsAt blocks i)[pair.2]? = some candidate ∧
        regMatches reg candidate = true := by
  rw [pairsIn, List.drop_zero, List.mem_flatMap]
  constructor
  · rintro ⟨candidate, member, listed⟩
    split_ifs at listed with hit
    · rw [List.mem_singleton.mp listed]
      exact ⟨rfl, candidate.1, List.mem_zipIdx_iff_getElem?.mp member, hit⟩
    · cases listed
  · rintro ⟨isBlock, candidate, isCandidate, hit⟩
    refine ⟨(candidate, pair.2), List.mk_mem_zipIdx_iff_getElem?.mpr isCandidate, ?_⟩
    rw [if_pos hit, ← isBlock]
    exact List.mem_cons_self

theorem mem_pairsFrom_iff {blocks : List IpBlock} {ip : Option CString} {reg : CString}
    {pair : Nat × Nat} :
    pair ∈ pairsFrom blocks ip reg 0 ↔
      ∃ block candidate, blocks[pair.1]? = some block ∧ block.regs[pair.2]? = some candidate ∧
        (∀ pattern ∈ ip, NameMatches pattern.bytes block.ipname.bytes) ∧
        NameMatches reg.bytes candidate.regname.bytes := by
  have blockIff : ∀ block : IpBlock, blockMatches ip block = true ↔
      ∀ pattern ∈ ip, NameMatches pattern.bytes block.ipname.bytes := by
    intro block
    cases ip with
    | none => exact iff_of_true rfl nofun
    | some pattern =>
        rw [blockMatches, Option.all_some, nameMatches_iff]
        simp
  rw [pairsFrom, List.drop_zero, List.mem_flatMap]
  constructor
  · rintro ⟨block, member, listed⟩
    split_ifs at listed with hit
    · obtain ⟨isBlock, candidate, isCandidate, regHit⟩ := mem_pairsIn_iff.mp listed
      have atBlock := List.mem_zipIdx_iff_getElem?.mp member
      rw [← isBlock] at atBlock isCandidate
      rw [regsAt, atBlock] at isCandidate
      exact ⟨block.1, candidate, atBlock, isCandidate, (blockIff _).mp hit,
        (nameMatches_iff _ _).mp regHit⟩
    · cases listed
  · rintro ⟨block, candidate, isBlock, isCandidate, blockHit, regHit⟩
    refine ⟨(block, pair.1), List.mk_mem_zipIdx_iff_getElem?.mpr isBlock, ?_⟩
    rw [if_pos ((blockIff block).mpr blockHit)]
    refine mem_pairsIn_iff.mpr ⟨rfl, candidate, ?_, (nameMatches_iff _ _).mpr regHit⟩
    rw [regsAt, isBlock]
    exact isCandidate

theorem pairsFrom_increasing (blocks : List IpBlock) (ip : Option CString) (reg : CString) :
    (pairsFrom blocks ip reg 0).Pairwise PairLt := by
  have isIn : ∀ block : IpBlock × Nat, ∀ pair ∈
      (if blockMatches ip block.1 then pairsIn blocks reg block.2 0 else []), pair.1 = block.2 := by
    intro block pair member
    split_ifs at member
    · exact (mem_pairsIn_iff.mp member).1
    · cases member
  rw [pairsFrom, List.drop_zero, List.pairwise_flatMap]
  constructor
  · intro block _
    split_ifs
    · rw [pairsIn, List.drop_zero, List.pairwise_flatMap]
      constructor
      · intro candidate _
        split_ifs
        · exact List.pairwise_singleton _ _
        · exact List.Pairwise.nil
      · refine (zipIdx_increasing _).imp ?_
        intro a b less first firstMember second secondMember
        split_ifs at firstMember secondMember
        · rw [List.mem_singleton.mp firstMember, List.mem_singleton.mp secondMember]
          exact Or.inr ⟨rfl, less⟩
        all_goals
          first
          | exact absurd firstMember List.not_mem_nil
          | exact absurd secondMember List.not_mem_nil
    · exact List.Pairwise.nil
  · refine (zipIdx_increasing _).imp ?_
    intro a b less first firstMember second secondMember
    refine Or.inl ?_
    rw [isIn a first firstMember, isIn b second secondMember]
    exact less

/-- The calls return every matching register once, in order, and then `NULL`. -/
theorem umrFindRegWild_returns_all (blocks : List IpBlock) (ip : Option CString) (reg : CString) :
    ∃ pairs, wildCalls blocks ip reg (pairs.length + 1) umrFindRegWildFirst = some pairs ∧
      pairs.Pairwise PairLt ∧
      ∀ pair, pair ∈ pairs ↔
        ∃ block candidate, blocks[pair.1]? = some block ∧ block.regs[pair.2]? = some candidate ∧
          (∀ pattern ∈ ip, NameMatches pattern.bytes block.ipname.bytes) ∧
          NameMatches reg.bytes candidate.regname.bytes := by
  refine ⟨pairsFrom blocks ip reg 0, wildCalls_left (Left.between 0),
    pairsFrom_increasing blocks ip reg, ?_⟩
  intro pair
  exact mem_pairsFrom_iff

end Umr.Registers
