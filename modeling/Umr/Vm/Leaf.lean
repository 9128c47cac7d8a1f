import Umr.Vm.Tables

/-!
# Leaf pages

What a walk finds at an address when no page table entry acts as a directory entry:
the same leaf page for every address of the page, whatever an earlier page left
behind, and whatever memory holds outside the entries it reads.
-/

set_option autoImplicit false

namespace Umr.Vm

open Umr.Lib

/-! ## The entries a walk depends on -/

section Agree
variable (asic : Asic) (ctx : VmContext) {mem other : Memory}

def Agrees (mem other : Memory) (reads : List WalkRead) : Prop :=
  ∀ read ∈ reads, readEntry asic other read.access = readEntry asic mem read.access

theorem readTable_agrees {pde : PdeFields} {level index : Nat}
    (same : readEntry asic other (readTable asic ctx mem pde level index).access =
      readEntry asic mem (readTable asic ctx mem pde level index).access) :
    readTable asic ctx other pde level index = readTable asic ctx mem pde level index :=
  congrArg (fun entry => (⟨level, index, _, entry⟩ : WalkRead)) same

theorem pdeLoop_agrees {totalVmBits address depth : Nat} {state : WalkState}
    (same : Agrees asic mem other (pdeLoop asic ctx mem totalVmBits address depth state).1) :
    pdeLoop asic ctx other totalVmBits address depth state =
      pdeLoop asic ctx mem totalVmBits address depth state := by
  induction depth generalizing state with
  | zero => rfl
  | succ depth ih =>
      rw [pdeLoop] at same
      rw [pdeLoop, pdeLoop]
      generalize pdeIdx ctx totalVmBits (depth + 1) address = index at same ⊢
      have here : readTable asic ctx other state.pdeFields (depth + 1) index =
          readTable asic ctx mem state.pdeFields (depth + 1) index := by
        apply readTable_agrees
        apply same
        dsimp only
        repeat' split
        all_goals simp
      rw [here]
      cases found : (readTable asic ctx mem state.pdeFields (depth + 1) index).entry with
      | none => rfl
      | some entry =>
          simp only [found] at same ⊢
          cases leaf : (decodePdeEntry asic.gfx entry).pte
          · cases valid : (decodePdeEntry asic.gfx entry).valid
            · rfl
            · simp only [leaf, valid, Bool.false_eq_true, if_false, if_true] at same ⊢
              rw [ih fun read member => same read (List.mem_cons_of_mem _ member)]
          · rfl

theorem pteFurther_agrees {hasDst : Bool} {address currentDepth : Nat} {pdeWasPte : Bool}
    {fuel : Nat} {further : Bool} {state : WalkState} {pteIdx : Nat}
    (same : Agrees asic mem other
      (pteFurther asic ctx mem hasDst address currentDepth pdeWasPte fuel further state pteIdx).1) :
    pteFurther asic ctx other hasDst address currentDepth pdeWasPte fuel further state pteIdx =
      pteFurther asic ctx mem hasDst address currentDepth pdeWasPte fuel further state pteIdx := by
  induction fuel generalizing further state pteIdx with
  | zero => rfl
  | succ fuel ih =>
      rw [pteFurther] at same
      rw [pteFurther, pteFurther]
      have here : readTable asic ctx other state.pdeFields 0 pteIdx =
          readTable asic ctx mem state.pdeFields 0 pteIdx := by
        apply readTable_agrees
        apply same
        dsimp only
        repeat' split
        all_goals simp
      rw [here]
      cases found : (readTable asic ctx mem state.pdeFields 0 pteIdx).entry with
      | none => rfl
      | some entry =>
          simp only [found] at same ⊢
          cases pass : pdeIsPte asic ctx address currentDepth pdeWasPte further state entry with
          | further next nextIdx =>
              simp only [pass] at same ⊢
              rw [ih fun read member => same read (List.mem_cons_of_mem _ member)]
          | final fields offsetMask => rfl

theorem walkTables_agrees {fuel : Nat} {hasDst : Bool} {carry : Carry} {address : Nat}
    {dir : DirEnd}
    (same : Agrees asic mem other (walkTables asic ctx mem fuel hasDst carry address dir).1) :
    walkTables asic ctx other fuel hasDst carry address dir =
      walkTables asic ctx mem fuel hasDst carry address dir := by
  cases dir with
  | failed => rfl
  | invalid state => rfl
  | leafPde depth entry state =>
      simp only [walkTables] at same ⊢
      cases pass : pdeIsPte asic ctx address depth true false state entry with
      | further next nextIdx =>
          simp only [pass] at same ⊢
          exact pteFurther_agrees asic ctx same
      | final fields offsetMask => rfl
  | table state => exact pteFurther_agrees asic ctx same

def flatRead (mem : Memory) (address : Nat) : WalkRead :=
  let pde := decodePdeEntry asic.gfx (rootEntry asic ctx)
  let access : Access :=
    { space := if pde.system then .sram else .vram
      address := add64 pde.pteBaseAddr (shr64 address (12 + pde.fragSize) * 8)
      size := 8 }
  { level := 0
    index := shr64 address (12 + pde.fragSize)
    access := access
    entry := readEntry asic mem access }

theorem walkFlat_eq (mem : Memory) (hasDst : Bool) (address : Nat) :
    walkFlat asic ctx mem hasDst address =
      if ¬ (decodePdeEntry asic.gfx (rootEntry asic ctx)).valid then ([], .failed)
      else
        match (flatRead asic ctx mem address).entry with
        | none => ([flatRead asic ctx mem address], .failed)
        | some entry =>
            if hasDst ∧ ¬ (decodePteEntry asic.gfx entry).valid then
              ([flatRead asic ctx mem address], .failed)
            else
              ([flatRead asic ctx mem address], .page
                { startAddr := add64
                    (asic.gpuBusToCpuAddress (decodePteEntry asic.gfx entry).pageBaseAddr)
                    (address &&&
                      lowMask (12 + (decodePdeEntry asic.gfx (rootEntry asic ctx)).fragSize))
                  ptePageMask :=
                    lowMask (12 + (decodePdeEntry asic.gfx (rootEntry asic ctx)).fragSize)
                  pteFields := decodePteEntry asic.gfx entry
                  pteEntry := some entry
                  carry := ⟨(decodePdeEntry asic.gfx (rootEntry asic ctx)).fragSize,
                    decodePteEntry asic.gfx entry⟩ }) := rfl

theorem walkFlat_agrees {hasDst : Bool} {address : Nat}
    (same : Agrees asic mem other (walkFlat asic ctx mem hasDst address).1) :
    walkFlat asic ctx other hasDst address = walkFlat asic ctx mem hasDst address := by
  rw [walkFlat_eq] at same
  rw [walkFlat_eq, walkFlat_eq]
  by_cases valid : (decodePdeEntry asic.gfx (rootEntry asic ctx)).valid = true
  · have here : flatRead asic ctx other address = flatRead asic ctx mem address := by
      have entry : readEntry asic other (flatRead asic ctx mem address).access =
          readEntry asic mem (flatRead asic ctx mem address).access := by
        apply same
        simp only [valid, not_true, if_false]
        repeat' split
        all_goals simp
      exact congrArg (fun entry => (⟨0, _, _, entry⟩ : WalkRead)) entry
    rw [here]
  · rw [if_pos valid, if_pos valid]

/-- A walk only depends on the entries it reads. -/
theorem walkPage_agrees {fuel : Nat} {hasDst : Bool} {carry : Carry} {address : Nat}
    (same : Agrees asic mem other (walkPage asic ctx mem fuel hasDst carry address).1) :
    walkPage asic ctx other fuel hasDst carry address =
      walkPage asic ctx mem fuel hasDst carry address := by
  rw [walkPage] at same
  rw [walkPage, walkPage]
  by_cases leveled : 1 ≤ ctx.pageTableDepth
  · rw [if_pos leveled] at same
    rw [if_pos leveled, if_pos leveled]
    cases sized : log2VmSize ctx.pageTableStartAddr ctx.pageTableEndAddr with
    | none => rfl
    | some totalVmBits =>
        simp only [sized] at same ⊢
        rw [pdeLoop_agrees asic ctx fun read member => same read (List.mem_append_left _ member),
          walkTables_agrees asic ctx fun read member => same read (List.mem_append_right _ member)]
  · rw [if_neg leveled] at same
    rw [if_neg leveled, if_neg leveled]
    exact walkFlat_agrees asic ctx same

theorem walkPage_same {fuel : Nat} {hasDst : Bool} {carry : Carry} {address : Nat}
    {reads : List WalkRead} {found : WalkEnd}
    (walk : walkPage asic ctx mem fuel hasDst carry address = (reads, found))
    (same : Agrees asic mem other reads) :
    walkPage asic ctx other fuel hasDst carry address = (reads, found) := by
  rw [← walk]
  apply walkPage_agrees
  rwa [walk]

end Agree

/-! ## The leaf page of an address -/

/-- A leaf page: the chunks an access makes of it, its size, its entry, and whether an
access may use it. -/
structure LeafPage where
  chunkShift : Nat
  pageShift : Nat
  fields : PteFields
  accepted : Bool
  deriving DecidableEq, Repr

def LeafPage.startAddr (asic : Asic) (page : LeafPage) (address : Nat) : Nat :=
  add64 (asic.gpuBusToCpuAddress page.fields.pageBaseAddr) (address % 2 ^ page.pageShift)

section PageAt
variable (asic : Asic) (ctx : VmContext) (mem : Memory) (address : Nat)

/-- `page` is the leaf page of `address`, found after `reads`.  A table of depth 0 keeps
the page's own address and does not know PRT pages. -/
inductive PageAt : LeafPage → List WalkRead → Prop
  | leveled {level fragSize entry : Nat} {reads : List WalkRead} (depth : 1 ≤ ctx.pageTableDepth)
      (terminal : TerminalEntry asic ctx mem address level fragSize entry reads)
      (last : (decodePteEntry asic.gfx entry).isPde asic.gfx = false) :
      PageAt
        { chunkShift := 12 + fragSize
          pageShift := levelShift ctx fragSize level
          fields := rebasePte ctx (decodePteEntry asic.gfx entry)
          accepted := (rebasePte ctx (decodePteEntry asic.gfx entry)).prt ||
            (rebasePte ctx (decodePteEntry asic.gfx entry)).valid } reads
  | flat {entry : Nat} (depth : ctx.pageTableDepth = 0)
      (valid : (decodePdeEntry asic.gfx (rootEntry asic ctx)).valid = true)
      (read : (flatRead asic ctx mem address).entry = some entry) :
      PageAt
        { chunkShift := 12 + (decodePdeEntry asic.gfx (rootEntry asic ctx)).fragSize
          pageShift := 12 + (decodePdeEntry asic.gfx (rootEntry asic ctx)).fragSize
          fields := decodePteEntry asic.gfx entry
          accepted := (decodePteEntry asic.gfx entry).valid }
        [flatRead asic ctx mem address]

variable {asic ctx mem address}

theorem finalPage_eq {state : WalkState} {entry : Nat} {fields : PteFields} {offsetMask : Nat}
    (accepted : (fields.prt || fields.valid) = true) :
    finalPage asic true address state entry fields offsetMask =
      .page
        { startAddr :=
            add64 (asic.gpuBusToCpuAddress fields.pageBaseAddr) (address &&& offsetMask)
          ptePageMask := state.ptePageMask
          pteFields := fields
          pteEntry := some entry
          carry := ⟨state.pde0BlockFragmentSize, fields⟩ } := by
  rw [finalPage, if_neg]
  rintro ⟨-, prt, valid⟩
  simp_all

theorem finalPage_failed {state : WalkState} {entry : Nat} {fields : PteFields} {offsetMask : Nat}
    (rejected : (fields.prt || fields.valid) = false) :
    finalPage asic true address state entry fields offsetMask = .failed := by
  rw [finalPage, if_pos]
  simpa using rejected

theorem PageAt.walkPage_eq {page : LeafPage} {reads : List WalkRead}
    (here : PageAt asic ctx mem address page reads) (bound : page.pageShift < 64)
    (accepted : page.accepted = true) {fuel : Nat} (passes : 1 ≤ fuel)
    (sized : 1 ≤ ctx.pageTableDepth →
      (log2VmSize ctx.pageTableStartAddr ctx.pageTableEndAddr).isSome = true) (carry : Carry) :
    ∃ found : Page, walkPage asic ctx mem fuel true carry address = (reads, .page found) ∧
      found.startAddr = page.startAddr asic address ∧
      found.ptePageMask = lowMask page.chunkShift ∧ found.pteFields = page.fields := by
  cases here with
  | leveled depth terminal last =>
      obtain ⟨totalVmBits, size⟩ := Option.isSome_iff_exists.mp (sized depth)
      obtain ⟨state, mask, walk⟩ := terminal.walkPage_eq last passes depth size true carry
      rw [finalPage_eq accepted, and_lowMask _ bound, mask] at walk
      exact ⟨_, walk, rfl, rfl, rfl⟩
  | flat depth valid read =>
      have leveled : ¬ 1 ≤ ctx.pageTableDepth := by omega
      have used : (decodePteEntry asic.gfx _).valid = true := accepted
      rw [walkPage, if_neg leveled, walkFlat_eq]
      simp only [valid, read, used, not_true, and_false, if_false]
      exact ⟨_, rfl, congrArg (add64 _) (and_lowMask address bound), rfl, rfl⟩

theorem PageAt.walkPage_failed {page : LeafPage} {reads : List WalkRead}
    (here : PageAt asic ctx mem address page reads) (rejected : page.accepted = false) {fuel : Nat}
    (passes : 1 ≤ fuel)
    (sized : 1 ≤ ctx.pageTableDepth →
      (log2VmSize ctx.pageTableStartAddr ctx.pageTableEndAddr).isSome = true) (carry : Carry) :
    walkPage asic ctx mem fuel true carry address = (reads, .failed) := by
  cases here with
  | leveled depth terminal last =>
      obtain ⟨totalVmBits, size⟩ := Option.isSome_iff_exists.mp (sized depth)
      obtain ⟨state, mask, walk⟩ := terminal.walkPage_eq last passes depth size true carry
      rw [walk, finalPage_failed rejected]
  | flat depth valid read =>
      have leveled : ¬ 1 ≤ ctx.pageTableDepth := by omega
      have unused : (decodePteEntry asic.gfx _).valid = false := rejected
      rw [walkPage, if_neg leveled, walkFlat_eq]
      simp [valid, read, unused]

/-- From a directory on, the tables end at an entry or the walk fails the same way
whatever an earlier page left behind. -/
theorem terminal_or_failed {fuel totalVmBits : Nat} (leveled : 1 ≤ ctx.pageTableDepth)
    (size : log2VmSize ctx.pageTableStartAddr ctx.pageTableEndAddr = some totalVmBits)
    {depth : Nat} {pde : PdeFields} {above : List WalkRead}
    (path : Reaches asic ctx mem address depth pde above) :
    (∃ level fragSize entry reads,
      TerminalEntry asic ctx mem address level fragSize entry reads) ∨
      ∃ reads, ∀ carry, walkPage asic ctx mem (fuel + 1) true carry address = (reads, .failed) := by
  induction depth generalizing pde above with
  | zero =>
      cases read : (ptbRead asic ctx mem address pde).entry with
      | some entry => exact .inl ⟨_, _, _, _, .pte path read⟩
      | none =>
          refine .inr ⟨above ++ [ptbRead asic ctx mem address pde], fun carry => ?_⟩
          have start : (stateAt asic ctx carry 0 pde).pde0BlockFragmentSize = pde.fragSize ∧
              (stateAt asic ctx carry 0 pde).ptbMask =
                lowMask (add64 9 (sub64 ctx.pageTableBlockSize pde.fragSize)) := ⟨rfl, rfl⟩
          rw [ptbRead] at read
          rw [walkPage, if_pos leveled]
          simp only [size, pdeLoop_table asic ctx leveled path, walkTables, pteFurther,
            stateAt_pdeFields, start.1, start.2, read]
          rfl
  | succ depth ih =>
      -- the loop stops here unless the entry is a valid directory entry
      have stops (carry : Carry) (dir : DirEnd)
          (turn : pdeLoop asic ctx mem totalVmBits address (depth + 1)
            (stateAt asic ctx carry (depth + 1) pde) =
              ([dirRead asic ctx mem address pde depth], dir))
          (fails : walkTables asic ctx mem (fuel + 1) true carry address dir = ([], .failed)) :
          walkPage asic ctx mem (fuel + 1) true carry address =
            (above ++ [dirRead asic ctx mem address pde depth], .failed) := by
        rw [walkPage, if_pos leveled]
        simp only [size, pdeLoop_reaches asic ctx leveled path, turn, fails, List.append_nil]
      cases read : (dirRead asic ctx mem address pde depth).entry with
      | none =>
          refine .inr ⟨_, fun carry => stops carry .failed ?_ rfl⟩
          rw [pdeLoop_turn, read]
      | some entry =>
          cases leaf : (decodePdeEntry asic.gfx entry).pte with
          | true => exact .inl ⟨_, _, _, _, .pde path read leaf⟩
          | false =>
              cases valid : (decodePdeEntry asic.gfx entry).valid with
              | true => exact ih (.step path read leaf valid)
              | false =>
                  refine .inr ⟨_, fun carry => stops carry (.invalid (stateAt asic ctx carry depth
                    (rebasePde ctx (decodePdeEntry asic.gfx entry)))) ?_ rfl⟩
                  rw [pdeLoop_turn, read]
                  simp only [leaf, valid]
                  rfl

/-- Every address has a leaf page, or its walk fails the same way whatever an earlier page
left behind. -/
theorem pageAt_or_failed {fuel : Nat} (passes : 1 ≤ fuel)
    (sized : 1 ≤ ctx.pageTableDepth →
      (log2VmSize ctx.pageTableStartAddr ctx.pageTableEndAddr).isSome = true)
    (noFurther : 1 ≤ ctx.pageTableDepth → ∀ level fragSize entry reads,
      TerminalEntry asic ctx mem address level fragSize entry reads →
        (decodePteEntry asic.gfx entry).isPde asic.gfx = false) :
    (∃ page reads, PageAt asic ctx mem address page reads) ∨
      ∃ reads, ∀ carry, walkPage asic ctx mem fuel true carry address = (reads, .failed) := by
  obtain ⟨rest, rfl⟩ := Nat.exists_eq_add_of_le' passes
  by_cases leveled : 1 ≤ ctx.pageTableDepth
  · obtain ⟨totalVmBits, size⟩ := Option.isSome_iff_exists.mp (sized leveled)
    rcases terminal_or_failed leveled size (Reaches.root) with found | failed
    · obtain ⟨level, fragSize, entry, reads, terminal⟩ := found
      exact .inl ⟨_, _, .leveled leveled terminal (noFurther leveled _ _ _ _ terminal)⟩
    · exact .inr failed
  · have depth : ctx.pageTableDepth = 0 := by omega
    cases valid : (decodePdeEntry asic.gfx (rootEntry asic ctx)).valid with
    | false =>
        refine .inr ⟨[], fun carry => ?_⟩
        rw [walkPage, if_neg leveled, walkFlat_eq]
        simp [valid]
    | true =>
        cases read : (flatRead asic ctx mem address).entry with
        | some entry => exact .inl ⟨_, _, .flat depth valid read⟩
        | none =>
            refine .inr ⟨[flatRead asic ctx mem address], fun carry => ?_⟩
            rw [walkPage, if_neg leveled, walkFlat_eq]
            simp [valid, read]

/-! ## All addresses of a leaf page -/

variable {other : Nat}

theorem dirRead_congr {depth : Nat} (asic : Asic) (mem : Memory) (pde : PdeFields)
    (bound : dirShift ctx depth < 64)
    (same : address / 2 ^ dirShift ctx depth = other / 2 ^ dirShift ctx depth) :
    dirRead asic ctx mem other pde depth = dirRead asic ctx mem address pde depth := by
  have index : dirIdx ctx depth other = dirIdx ctx depth address := by
    rw [dirIdx, dirIdx, shr64_eq_div _ bound, shr64_eq_div _ bound, same]
  rw [dirRead, dirRead, index]

theorem Reaches.congr {depth : Nat} {pde : PdeFields} {reads : List WalkRead}
    (bound : dirShift ctx (ctx.pageTableDepth - 1) < 64)
    (path : Reaches asic ctx mem address depth pde reads)
    (same : address / 2 ^ dirShift ctx depth = other / 2 ^ dirShift ctx depth) :
    Reaches asic ctx mem other depth pde reads := by
  induction path with
  | root => exact .root
  | @step depth pde reads entry above read directory valid ih =>
      have le := above.depth_le
      have small : dirShift ctx depth < 64 :=
        lt_of_le_of_lt (dirShift_mono ctx (by omega)) bound
      have higher := ih (div_pow_congr (dirShift_mono ctx (Nat.le_succ depth)) same)
      have here := dirRead_congr asic mem pde small same
      rw [← here] at read ⊢
      exact .step higher read directory valid

theorem PageAt.congr {page : LeafPage} {reads : List WalkRead}
    (bound : dirShift ctx (ctx.pageTableDepth - 1) < 64)
    (here : PageAt asic ctx mem address page reads) (fits : page.chunkShift ≤ dirShift ctx 0)
    (same : address / 2 ^ page.pageShift = other / 2 ^ page.pageShift) :
    PageAt asic ctx mem other page reads := by
  cases here with
  | leveled depth terminal last =>
      cases terminal with
      | @pte pde0 above entry path read =>
          have small := path.fragSize_lt
          have index : ptbRead asic ctx mem other pde0 = ptbRead asic ctx mem address pde0 := by
            have digits : shr64 other (12 + pde0.fragSize) = shr64 address (12 + pde0.fragSize) := by
              rw [shr64_eq_div _ (by omega), shr64_eq_div _ (by omega)]
              exact same.symm
            rw [ptbRead, ptbRead, digits]
          rw [← index] at read ⊢
          exact .leveled depth (.pte (path.congr bound (div_pow_congr fits same)) read) last
      | @pde deep pde above entry path read leaf =>
          have le := path.depth_le
          have small : dirShift ctx deep < 64 :=
            lt_of_le_of_lt (dirShift_mono ctx (by omega)) bound
          have index := dirRead_congr asic mem pde small same
          rw [← index] at read ⊢
          exact .leveled depth (.pde (path.congr bound
            (div_pow_congr (dirShift_mono ctx (Nat.le_succ deep)) same)) read leaf) last
  | @flat entry depth valid read =>
      have small := decodePdeEntry_fragSize_lt asic.gfx (rootEntry asic ctx)
      have index : flatRead asic ctx mem other = flatRead asic ctx mem address := by
        have digits : shr64 other (12 + (decodePdeEntry asic.gfx (rootEntry asic ctx)).fragSize) =
            shr64 address (12 + (decodePdeEntry asic.gfx (rootEntry asic ctx)).fragSize) := by
          rw [shr64_eq_div _ (by omega), shr64_eq_div _ (by omega)]
          exact same.symm
        rw [flatRead, flatRead, digits]
      rw [← index] at read ⊢
      exact .flat depth valid read

end PageAt

end Umr.Vm
