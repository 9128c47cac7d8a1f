import Umr.Lib.Loop
import Umr.Vm.Further
import Umr.Vm.Moves
import Umr.Vm.RangeCheck

/-!
# The entries on the path of an address

The `pte_further` passes and the loop over the pages as loops that may not end, and the
entries of one walk that name another table: directory entries without the P bit, and page
table entries that act as directories.  `pde_cnt` counts both, `vmdata->levels` the former.
-/

set_option autoImplicit false

namespace Umr.Vm

open Umr.Lib

/-! ## Counting -/

section Count
variable (asic : Asic)

def namesDirectory (read : WalkRead) : Bool :=
  match read.entry with
  | none => false
  | some entry => decide (read.level ≠ 0) && !(decodePdeEntry asic.gfx entry).pte

/-- The entry is taken as a PTE and sends the walk to `pte_further` again. -/
def namesFurther (read : WalkRead) : Bool :=
  match read.entry with
  | none => false
  | some entry =>
      (decide (read.level = 0) || (decodePdeEntry asic.gfx entry).pte) &&
        (decodePteEntry asic.gfx entry).isPde asic.gfx

/-- `pde_cnt` when the walk of a page leaves off; a flat walk does not count. -/
def pdeCnt (ctx : VmContext) (reads : List WalkRead) : Nat :=
  if ctx.pageTableDepth = 0 then 0
  else 1 + (reads.countP (namesDirectory asic) + reads.countP (namesFurther asic))

end Count

/-! ## The passes over the page tables -/

structure TablePass where
  currentDepth : Nat
  pdeWasPte : Bool
  further : Bool
  state : WalkState
  pteIdx : Nat
  deriving DecidableEq, Repr

section Passes
variable (asic : Asic) (ctx : VmContext) (mem : Memory)

def passRead (pass : TablePass) : WalkRead :=
  readTable asic ctx mem pass.state.pdeFields 0 pass.pteIdx

def tablePass (hasDst : Bool) (address : Nat) (pass : TablePass) : Turn TablePass WalkEnd :=
  match (passRead asic ctx mem pass).entry with
  | none => .done .failed
  | some entry =>
      match pdeIsPte asic ctx address pass.currentDepth pass.pdeWasPte pass.further pass.state
        entry with
      | .further state pteIdx => .again { pass with further := true, state := state, pteIdx := pteIdx }
      | .final fields offsetMask =>
          .done (finalPage asic hasDst address pass.state entry fields offsetMask)

theorem pteFurther_eq_loop (hasDst : Bool) (address fuel : Nat) (pass : TablePass) :
    pteFurther asic ctx mem hasDst address pass.currentDepth pass.pdeWasPte fuel pass.further
        pass.state pass.pteIdx =
      ((visited (tablePass asic ctx mem hasDst address) fuel pass).map (passRead asic ctx mem),
        (loop (tablePass asic ctx mem hasDst address) fuel pass).getD .running) := by
  induction fuel generalizing pass with
  | zero => rfl
  | succ fuel ih =>
      have read : passRead asic ctx mem pass = readTable asic ctx mem pass.state.pdeFields 0
        pass.pteIdx := rfl
      unfold pteFurther visited loop tablePass
      cases entry : (passRead asic ctx mem pass).entry with
      | none => simp only [← read, entry, List.map_cons, List.map_nil, Option.getD_some]
      | some value =>
          simp only [← read, entry]
          cases pdeIsPte asic ctx address pass.currentDepth pass.pdeWasPte pass.further pass.state
            value with
          | further state pteIdx =>
              have rest := ih { pass with further := true, state := state, pteIdx := pteIdx }
              simp only [rest, List.map_cons]
              rfl
          | final fields offsetMask => rfl

theorem pdeIsPte_further_iff (address currentDepth : Nat) (pdeWasPte further : Bool)
    (state : WalkState) (entry : Nat) :
    (∃ next pteIdx, pdeIsPte asic ctx address currentDepth pdeWasPte further state entry =
        .further next pteIdx) ↔ (decodePteEntry asic.gfx entry).isPde asic.gfx = true := by
  by_cases isPde : (decodePteEntry asic.gfx entry).isPde asic.gfx = true
  · simp [pdeIsPte, isPde]
  · simp [pdeIsPte, isPde]

theorem namesFurther_iff (hasDst : Bool) (address : Nat) (pass : TablePass) :
    namesFurther asic (passRead asic ctx mem pass) = true ↔
      ∃ next, tablePass asic ctx mem hasDst address pass = .again next := by
  have level : (passRead asic ctx mem pass).level = 0 := rfl
  unfold namesFurther tablePass
  cases (passRead asic ctx mem pass).entry with
  | none => simp
  | some entry =>
      have further := pdeIsPte_further_iff asic ctx address pass.currentDepth pass.pdeWasPte
        pass.further pass.state entry
      simp only [level, decide_true, Bool.true_or, Bool.true_and, ← further]
      cases pdeIsPte asic ctx address pass.currentDepth pass.pdeWasPte pass.further pass.state
        entry with
      | further state pteIdx => simp
      | final fields offsetMask => simp

theorem countP_passes (hasDst : Bool) (address fuel : Nat) (pass : TablePass) :
    ((visited (tablePass asic ctx mem hasDst address) fuel pass).map
      (passRead asic ctx mem)).countP (namesFurther asic) =
        rounds (tablePass asic ctx mem hasDst address) fuel pass := by
  induction fuel generalizing pass with
  | zero => rfl
  | succ fuel ih =>
      have names := namesFurther_iff asic ctx mem hasDst address pass
      unfold visited rounds
      cases turn : tablePass asic ctx mem hasDst address pass with
      | again next =>
          have named := names.mpr ⟨next, turn⟩
          simp only [List.map_cons, List.countP_cons, named, if_true, ih next]
      | done result =>
          have unnamed : ¬ namesFurther asic (passRead asic ctx mem pass) = true := by
            rw [names, turn]
            rintro ⟨again, same⟩
            cases same
          simp [unnamed]

theorem countP_passes_directory (passes : List TablePass) :
    (passes.map (passRead asic ctx mem)).countP (namesDirectory asic) = 0 := by
  rw [List.countP_eq_zero]
  intro read member
  obtain ⟨pass, -, rfl⟩ := List.mem_map.mp member
  have level : (passRead asic ctx mem pass).level = 0 := rfl
  unfold namesDirectory
  split
  · exact nofun
  · simp [level]

theorem tablePass_done {hasDst : Bool} {address : Nat} {pass : TablePass} {stop : WalkEnd}
    (turn : tablePass asic ctx mem hasDst address pass = .done stop) : stop ≠ .running := by
  unfold tablePass at turn
  split at turn
  · cases turn
    exact nofun
  · split at turn
    · cases turn
    · cases turn
      unfold finalPage
      split <;> exact nofun

/-- Where the passes begin: at the table of PDE0, or behind a PDE with the P bit that names a
further table. -/
def firstPass (address : Nat) : DirEnd → Option TablePass
  | .failed => none
  | .invalid _ => none
  | .leafPde depth entry state =>
      match pdeIsPte asic ctx address depth true false state entry with
      | .further state pteIdx => some ⟨depth, true, true, state, pteIdx⟩
      | .final _ _ => none
  | .table state =>
      some ⟨0, false, false, state,
        shr64 address (12 + state.pde0BlockFragmentSize) &&& state.ptbMask⟩

theorem walkTables_first {hasDst : Bool} {carry : Carry} {address : Nat} {dir : DirEnd}
    {pass : TablePass} (first : firstPass asic ctx address dir = some pass) (fuel : Nat) :
    walkTables asic ctx mem fuel hasDst carry address dir =
      ((visited (tablePass asic ctx mem hasDst address) fuel pass).map (passRead asic ctx mem),
        (loop (tablePass asic ctx mem hasDst address) fuel pass).getD .running) := by
  rw [← pteFurther_eq_loop]
  cases dir with
  | failed => cases first
  | invalid state => cases first
  | leafPde depth entry state =>
      unfold firstPass at first
      cases passed : pdeIsPte asic ctx address depth true false state entry with
      | further next pteIdx =>
          simp only [passed] at first
          cases first
          simp only [walkTables, passed]
      | final fields offsetMask =>
          simp only [passed] at first
          cases first
  | table state =>
      cases first
      rfl

theorem walkTables_none {hasDst : Bool} {carry : Carry} {address : Nat} {dir : DirEnd}
    (first : firstPass asic ctx address dir = none) (fuel : Nat) :
    (walkTables asic ctx mem fuel hasDst carry address dir).1 = [] ∧
      (walkTables asic ctx mem fuel hasDst carry address dir).2 ≠ .running ∧
      ∀ more, walkTables asic ctx mem more hasDst carry address dir =
        walkTables asic ctx mem fuel hasDst carry address dir := by
  cases dir with
  | failed => exact ⟨rfl, fun same => (by cases same), fun _ => rfl⟩
  | invalid state =>
      unfold walkTables
      cases hasDst with
      | true => exact ⟨rfl, fun same => (by cases same), fun _ => rfl⟩
      | false => exact ⟨rfl, fun same => (by cases same), fun _ => rfl⟩
  | leafPde depth entry state =>
      unfold firstPass at first
      cases passed : pdeIsPte asic ctx address depth true false state entry with
      | further next pteIdx =>
          simp only [passed] at first
          cases first
      | final fields offsetMask =>
          simp only [walkTables, passed, finalPage]
          refine ⟨trivial, ?_, fun _ => trivial⟩
          split <;> exact fun same => (by cases same)
  | table state => cases first

end Passes

/-! ## One page -/

section Page
variable (asic : Asic) (ctx : VmContext) (mem : Memory)

/-- The entries that name a table, along the directories of an address. -/
def namedTables (reads : List WalkRead) : Nat :=
  reads.countP (namesDirectory asic) + reads.countP (namesFurther asic)

def PathWithin (limit totalVmBits : Nat) (carry : Carry) (address : Nat) : Prop :=
  let dir := pdeLoop asic ctx mem totalVmBits address ctx.pageTableDepth (walkStart asic ctx carry)
  ∃ links, namedTables asic dir.1 + links ≤ limit ∧
    ∀ pass, firstPass asic ctx address dir.2 = some pass →
      EndsWithin (tablePass asic ctx mem false address) links pass

/-- Whether the caller has a buffer decides how the last turn ends, not whether it is the last. -/
theorem rounds_hasDst (hasDst other : Bool) (address fuel : Nat) (pass : TablePass) :
    rounds (tablePass asic ctx mem hasDst address) fuel pass =
      rounds (tablePass asic ctx mem other address) fuel pass := by
  rw [← countP_passes, ← countP_passes]
  congr 2
  induction fuel generalizing pass with
  | zero => rfl
  | succ fuel ih =>
      unfold visited tablePass
      cases (passRead asic ctx mem pass).entry with
      | none => rfl
      | some entry =>
          simp only
          cases pdeIsPte asic ctx address pass.currentDepth pass.pdeWasPte pass.further pass.state
            entry with
          | further state pteIdx => exact congrArg (pass :: ·) (ih _)
          | final fields offsetMask => rfl

theorem walkPage_leveled {totalVmBits : Nat} (leveled : 1 ≤ ctx.pageTableDepth)
    (sized : log2VmSize ctx.pageTableStartAddr ctx.pageTableEndAddr = some totalVmBits)
    (fuel : Nat) (hasDst : Bool) (carry : Carry) (address : Nat) :
    walkPage asic ctx mem fuel hasDst carry address =
      ((pdeLoop asic ctx mem totalVmBits address ctx.pageTableDepth (walkStart asic ctx carry)).1 ++
          (walkTables asic ctx mem fuel hasDst carry address
            (pdeLoop asic ctx mem totalVmBits address ctx.pageTableDepth
              (walkStart asic ctx carry)).2).1,
        (walkTables asic ctx mem fuel hasDst carry address
          (pdeLoop asic ctx mem totalVmBits address ctx.pageTableDepth
            (walkStart asic ctx carry)).2).2) := by
  simp only [walkPage, if_pos leveled, sized]

/-- `pde_cnt` after the walk of a page: the base, and the entries that name a table. -/
theorem pdeCnt_walkPage {totalVmBits : Nat} (leveled : 1 ≤ ctx.pageTableDepth)
    (sized : log2VmSize ctx.pageTableStartAddr ctx.pageTableEndAddr = some totalVmBits)
    (fuel : Nat) (hasDst : Bool) (carry : Carry) (address : Nat) :
    pdeCnt asic ctx (walkPage asic ctx mem fuel hasDst carry address).1 =
      1 + (namedTables asic (pdeLoop asic ctx mem totalVmBits address ctx.pageTableDepth
          (walkStart asic ctx carry)).1 +
        match firstPass asic ctx address (pdeLoop asic ctx mem totalVmBits address
          ctx.pageTableDepth (walkStart asic ctx carry)).2 with
        | none => 0
        | some pass => rounds (tablePass asic ctx mem false address) fuel pass) := by
  have notFlat : ¬ ctx.pageTableDepth = 0 := by omega
  rw [walkPage_leveled asic ctx mem leveled sized, pdeCnt, if_neg notFlat]
  simp only [List.countP_append, namedTables]
  cases first : firstPass asic ctx address (pdeLoop asic ctx mem totalVmBits address
      ctx.pageTableDepth (walkStart asic ctx carry)).2 with
  | none => simp [(walkTables_none asic ctx mem first fuel).1]
  | some pass =>
      rw [walkTables_first asic ctx mem first fuel, countP_passes, countP_passes_directory,
        rounds_hasDst asic ctx mem hasDst false]
      dsimp only
      omega

theorem pdeCnt_mono {fuel more : Nat} (le : fuel ≤ more) (hasDst : Bool) (carry : Carry)
    (address : Nat) :
    pdeCnt asic ctx (walkPage asic ctx mem fuel hasDst carry address).1 ≤
      pdeCnt asic ctx (walkPage asic ctx mem more hasDst carry address).1 := by
  by_cases leveled : 1 ≤ ctx.pageTableDepth
  · cases sized : log2VmSize ctx.pageTableStartAddr ctx.pageTableEndAddr with
    | none => simp [walkPage, leveled, sized]
    | some totalVmBits =>
        rw [pdeCnt_walkPage asic ctx mem leveled sized, pdeCnt_walkPage asic ctx mem leveled sized]
        split
        · exact le_refl _
        · rename_i pass first
          have grows : rounds (tablePass asic ctx mem false address) fuel pass ≤
              rounds (tablePass asic ctx mem false address) more pass := rounds_mono le pass
          omega
  · have flat : ctx.pageTableDepth = 0 := by omega
    simp [pdeCnt, flat]

/-- The count stays below the capacity exactly if the path is short. -/
theorem pathWithin_iff {totalVmBits limit : Nat} (leveled : 1 ≤ ctx.pageTableDepth)
    (sized : log2VmSize ctx.pageTableStartAddr ctx.pageTableEndAddr = some totalVmBits)
    (hasDst : Bool) (carry : Carry) (address : Nat) :
    PathWithin asic ctx mem limit totalVmBits carry address ↔
      ∀ fuel, pdeCnt asic ctx (walkPage asic ctx mem fuel hasDst carry address).1 ≤ limit + 1 := by
  unfold PathWithin
  constructor
  · rintro ⟨links, short, ends⟩ fuel
    rw [pdeCnt_walkPage asic ctx mem leveled sized]
    split
    · omega
    · rename_i pass first
      have bound := endsWithin_iff_rounds.mp (ends pass first) fuel
      omega
  · intro bound
    cases first : firstPass asic ctx address (pdeLoop asic ctx mem totalVmBits address
        ctx.pageTableDepth (walkStart asic ctx carry)).2 with
    | none =>
        have once := bound 0
        rw [pdeCnt_walkPage asic ctx mem leveled sized, first] at once
        refine ⟨0, by omega, fun pass found => ?_⟩
        cases first.symm.trans found
    | some pass =>
        have every : ∀ fuel, namedTables asic (pdeLoop asic ctx mem totalVmBits address
            ctx.pageTableDepth (walkStart asic ctx carry)).1 +
              rounds (tablePass asic ctx mem false address) fuel pass ≤ limit := by
          intro fuel
          have here := bound fuel
          rw [pdeCnt_walkPage asic ctx mem leveled sized, first] at here
          dsimp only at here
          omega
        refine ⟨limit - namedTables asic (pdeLoop asic ctx mem totalVmBits address
          ctx.pageTableDepth (walkStart asic ctx carry)).1, ?_, ?_⟩
        · have := every 0
          omega
        · intro other found
          cases first.symm.trans found
          refine endsWithin_iff_rounds.mpr fun fuel => ?_
          have := every fuel
          omega

/-- A walk that has ended reads and finds the same with more fuel. -/
theorem walkPage_fuel {fuel more : Nat} (le : fuel ≤ more) {hasDst : Bool} {carry : Carry}
    {address : Nat} (ended : (walkPage asic ctx mem fuel hasDst carry address).2 ≠ .running) :
    walkPage asic ctx mem more hasDst carry address =
      walkPage asic ctx mem fuel hasDst carry address := by
  by_cases leveled : 1 ≤ ctx.pageTableDepth
  · cases sized : log2VmSize ctx.pageTableStartAddr ctx.pageTableEndAddr with
    | none => simp [walkPage, leveled, sized]
    | some totalVmBits =>
        rw [walkPage_leveled asic ctx mem leveled sized] at ended
        rw [walkPage_leveled asic ctx mem leveled sized, walkPage_leveled asic ctx mem leveled sized]
        cases first : firstPass asic ctx address (pdeLoop asic ctx mem totalVmBits address
            ctx.pageTableDepth (walkStart asic ctx carry)).2 with
        | none => rw [(walkTables_none asic ctx mem first fuel).2.2 more]
        | some pass =>
            rw [walkTables_first asic ctx mem first fuel] at ended
            rw [walkTables_first asic ctx mem first fuel, walkTables_first asic ctx mem first more]
            cases result : loop (tablePass asic ctx mem hasDst address) fuel pass with
            | none => simp [result] at ended
            | some stop =>
                obtain ⟨same, path⟩ := loop_fuel le result
                rw [same, path]
  · simp [walkPage, leveled]

/-- A short path is walked to its end. -/
theorem PathWithin.ends {limit totalVmBits : Nat} {carry : Carry} {address : Nat}
    (leveled : 1 ≤ ctx.pageTableDepth)
    (sized : log2VmSize ctx.pageTableStartAddr ctx.pageTableEndAddr = some totalVmBits)
    (short : PathWithin asic ctx mem limit totalVmBits carry address) (hasDst : Bool) :
    (walkPage asic ctx mem (limit + 1) hasDst carry address).2 ≠ .running := by
  obtain ⟨links, bound, ends⟩ := short
  rw [walkPage_leveled asic ctx mem leveled sized]
  cases first : firstPass asic ctx address (pdeLoop asic ctx mem totalVmBits address
      ctx.pageTableDepth (walkStart asic ctx carry)).2 with
  | none => exact (walkTables_none asic ctx mem first _).2.1
  | some pass =>
      have within : EndsWithin (tablePass asic ctx mem hasDst address) links pass := by
        refine endsWithin_iff_rounds.mpr fun fuel => ?_
        rw [rounds_hasDst asic ctx mem hasDst false]
        exact endsWithin_iff_rounds.mp (ends pass first) fuel
      obtain ⟨stop, result⟩ := Option.isSome_iff_exists.mp (endsWithin_iff_loop.mp within)
      have enough : links + 1 ≤ limit + 1 := by omega
      rw [walkTables_first asic ctx mem first, (loop_fuel enough result).1]
      obtain ⟨last, -, turn⟩ := loop_result result
      exact tablePass_done asic ctx mem turn

end Page

/-! ## Page sizes -/

section Sizes
variable (asic : Asic) (ctx : VmContext) (mem : Memory)

def PageMask (mask : Nat) : Prop := ∃ shift < 44, mask = lowMask shift

def DirEnd.state? : DirEnd → Option WalkState
  | .failed => none
  | .invalid state => some state
  | .leafPde _ _ state => some state
  | .table state => some state

theorem applyPde0_pageMask (fields : PdeFields) (small : fields.fragSize < 32) (state : WalkState) :
    PageMask (applyPde0 ctx fields state).ptePageMask :=
  ⟨fields.fragSize + 12, by omega, rfl⟩

theorem pdeLoop_pageMask {totalVmBits address depth : Nat} {state last : WalkState}
    (sized : PageMask state.ptePageMask)
    (found : (pdeLoop asic ctx mem totalVmBits address depth state).2.state? = some last) :
    PageMask last.ptePageMask := by
  induction depth generalizing state with
  | zero =>
      cases found
      exact sized
  | succ depth ih =>
      unfold pdeLoop at found
      cases entry : (readTable asic ctx mem state.pdeFields (depth + 1)
          (pdeIdx ctx totalVmBits (depth + 1) address)).entry with
      | none =>
          simp only [entry] at found
          cases found
      | some value =>
          have kept : PageMask (if depth = 0 then
              applyPde0 ctx (decodePdeEntry asic.gfx value) state else state).ptePageMask := by
            split
            · exact applyPde0_pageMask ctx _ (decodePdeEntry_fragSize_lt asic.gfx value) state
            · exact sized
          simp only [entry] at found
          split at found
          · cases found
            exact kept
          · split at found
            · dsimp only at found
              refine ih ?_ found
              exact kept
            · cases found
              exact kept

theorem pdeIsPte_pageMask {address currentDepth pteIdx entry : Nat} {pdeWasPte further : Bool}
    {state next : WalkState}
    (passed : pdeIsPte asic ctx address currentDepth pdeWasPte further state entry =
      .further next pteIdx) : PageMask next.ptePageMask := by
  unfold pdeIsPte at passed
  simp only at passed
  split at passed
  · cases passed
    have small := decodePdeEntry_fragSize_lt asic.gfx entry
    refine ⟨12 + (furtherPde asic ctx currentDepth pdeWasPte state.pdeFields entry).fragSize, ?_,
      rfl⟩
    rw [furtherPde_fragSize]
    omega
  · cases passed

theorem finalPage_mask {hasDst : Bool} {address entry offsetMask : Nat} {state : WalkState}
    {fields : PteFields} {page : Page}
    (found : finalPage asic hasDst address state entry fields offsetMask = .page page) :
    page.ptePageMask = state.ptePageMask := by
  unfold finalPage at found
  split at found
  · cases found
  · cases found
    rfl

theorem passes_pageMask {hasDst : Bool} {address fuel : Nat} {pass : TablePass} {page : Page}
    (start : PageMask pass.state.ptePageMask)
    (found : loop (tablePass asic ctx mem hasDst address) fuel pass = some (.page page)) :
    PageMask page.ptePageMask := by
  obtain ⟨last, member, turn⟩ := loop_result found
  have every : ∀ visit ∈ visited (tablePass asic ctx mem hasDst address) fuel pass,
      PageMask visit.state.ptePageMask := by
    refine visited_invariant ?_ start
    intro pass next _ turn
    unfold tablePass at turn
    split at turn
    · cases turn
    · split at turn
      · rename_i passed
        cases turn
        exact pdeIsPte_pageMask asic ctx passed
      · cases turn
  unfold tablePass at turn
  split at turn
  · cases turn
  · split at turn
    · cases turn
    · injection turn with ended
      rw [finalPage_mask asic ended]
      exact every last member

theorem firstPass_pageMask {address : Nat} {dir : DirEnd} {pass : TablePass}
    (sized : ∀ state, dir.state? = some state → PageMask state.ptePageMask)
    (first : firstPass asic ctx address dir = some pass) : PageMask pass.state.ptePageMask := by
  cases dir with
  | failed => cases first
  | invalid state => cases first
  | leafPde depth entry state =>
      unfold firstPass at first
      simp only at first
      split at first
      · rename_i passed
        cases first
        exact pdeIsPte_pageMask asic ctx passed
      · cases first
  | table state =>
      cases first
      exact sized state rfl

theorem walkTables_pageMask {fuel : Nat} {hasDst : Bool} {carry : Carry} {address : Nat}
    {dir : DirEnd} {page : Page}
    (sized : ∀ state, dir.state? = some state → PageMask state.ptePageMask)
    (first : firstPass asic ctx address dir = none)
    (found : (walkTables asic ctx mem fuel hasDst carry address dir).2 = .page page) :
    PageMask page.ptePageMask := by
  cases dir with
  | failed => cases found
  | invalid state =>
      unfold walkTables at found
      cases hasDst with
      | true => cases found
      | false =>
          cases found
          exact sized state rfl
  | leafPde depth entry state =>
      unfold firstPass at first
      cases passed : pdeIsPte asic ctx address depth true false state entry with
      | further next pteIdx =>
          simp only [passed] at first
          cases first
      | final fields offsetMask =>
          simp only [walkTables, passed] at found
          rw [finalPage_mask asic found]
          exact sized state rfl
  | table state => cases first

/-- The page a walk finds has a size between 4 KiB and 8 TiB. -/
theorem walkPage_pageMask {fuel : Nat} {hasDst : Bool} {carry : Carry} {address : Nat} {page : Page}
    (found : (walkPage asic ctx mem fuel hasDst carry address).2 = .page page) :
    PageMask page.ptePageMask := by
  by_cases leveled : 1 ≤ ctx.pageTableDepth
  · cases bits : log2VmSize ctx.pageTableStartAddr ctx.pageTableEndAddr with
    | none => simp [walkPage, leveled, bits] at found
    | some totalVmBits =>
        rw [walkPage_leveled asic ctx mem leveled bits] at found
        have start : PageMask (walkStart asic ctx carry).ptePageMask := ⟨12, by norm_num, rfl⟩
        have sized : ∀ state, (pdeLoop asic ctx mem totalVmBits address ctx.pageTableDepth
            (walkStart asic ctx carry)).2.state? = some state → PageMask state.ptePageMask :=
          fun state ended => pdeLoop_pageMask asic ctx mem start ended
        generalize (pdeLoop asic ctx mem totalVmBits address ctx.pageTableDepth
          (walkStart asic ctx carry)).2 = dir at found sized
        cases first : firstPass asic ctx address dir with
        | some pass =>
            rw [walkTables_first asic ctx mem first] at found
            have start := firstPass_pageMask asic ctx sized first
            cases result : loop (tablePass asic ctx mem hasDst address) fuel pass with
            | none => simp [result] at found
            | some stop =>
                have ended : stop = .page page := by simpa [result] using found
                exact passes_pageMask asic ctx mem start (ended ▸ result)
        | none => exact walkTables_pageMask asic ctx mem sized first found
  · rw [walkPage, if_neg leveled, walkFlat_eq] at found
    have small := decodePdeEntry_fragSize_lt asic.gfx (rootEntry asic ctx)
    split at found
    · cases found
    · split at found
      · cases found
      · split at found
        · cases found
        · cases found
          exact ⟨_, by omega, rfl⟩

end Sizes

/-! ## The loop over the pages -/

structure PageTurn where
  carry : Carry
  address : Nat
  size : Nat
  dst : Option Nat
  state : State

section Pages
variable (asic : Asic) (ctx : VmContext) (fuel : Nat) (writeEn : Bool)

def turnWalk (turn : PageTurn) : List WalkRead × WalkEnd :=
  walkPage asic ctx turn.state.mem fuel turn.dst.isSome turn.carry turn.address

def turnChunk (turn : PageTurn) (page : Page) : Nat :=
  chunkSize page.startAddr page.ptePageMask turn.size

def turnMove (turn : PageTurn) (page : Page) : Status × State :=
  accessChunk asic ctx writeEn page (turnChunk turn page) turn.dst
    ((turn.state.walked asic ctx (turnWalk asic ctx fuel turn)).taking turn.address
      (turnChunk turn page))

def pageTurn (turn : PageTurn) : Turn PageTurn (Status × State) :=
  match (turnWalk asic ctx fuel turn).2 with
  | .running => .done (.running, turn.state.walked asic ctx (turnWalk asic ctx fuel turn))
  | .failed => .done (.failed, turn.state.walked asic ctx (turnWalk asic ctx fuel turn))
  | .page page =>
      if (turnMove asic ctx fuel writeEn turn page).1 = .ok ∧ turn.size - turnChunk turn page ≠ 0 then
        .again
          { carry := page.carry
            address := add64 turn.address (turnChunk turn page)
            size := turn.size - turnChunk turn page
            dst := turn.dst.map fun pos => pos + turnChunk turn page
            state := (turnMove asic ctx fuel writeEn turn page).2 }
      else .done (turnMove asic ctx fuel writeEn turn page)

theorem pageLoop_eq_loop {pages : Nat} {turn : PageTurn} {result : Status × State}
    (ended : loop (pageTurn asic ctx fuel writeEn) pages turn = some result) :
    pageLoop asic ctx fuel writeEn pages turn.carry turn.address turn.size turn.dst turn.state =
      result := by
  induction pages generalizing turn with
  | zero => cases ended
  | succ pages ih =>
      have walk : turnWalk asic ctx fuel turn = walkPage asic ctx turn.state.mem fuel turn.dst.isSome
        turn.carry turn.address := rfl
      unfold pageLoop
      unfold loop at ended
      cases stop : (turnWalk asic ctx fuel turn).2 with
      | running =>
          simp only [pageTurn, stop] at ended
          simp only [← walk, stop]
          exact Option.some.inj ended
      | failed =>
          simp only [pageTurn, stop] at ended
          simp only [← walk, stop]
          exact Option.some.inj ended
      | page page =>
          have move : turnMove asic ctx fuel writeEn turn page = accessChunk asic ctx writeEn page
            (turnChunk turn page) turn.dst
              ((turn.state.walked asic ctx (turnWalk asic ctx fuel turn)).taking turn.address
                (turnChunk turn page)) := rfl
          have chunk : turnChunk turn page = chunkSize page.startAddr page.ptePageMask turn.size :=
            rfl
          simp only [pageTurn, stop] at ended
          simp only [← walk, stop, ← chunk, ← move]
          by_cases ok : (turnMove asic ctx fuel writeEn turn page).1 = .ok
          · by_cases rest : turn.size - turnChunk turn page = 0
            · rw [if_neg (by simp [rest])] at ended
              rw [if_pos ok, if_pos rest]
              exact Option.some.inj ended
            · rw [if_pos ⟨ok, rest⟩] at ended
              rw [if_pos ok, if_neg rest]
              exact ih ended
          · rw [if_neg (by simp [ok])] at ended
            rw [if_neg ok]
            exact Option.some.inj ended

/-- Every turn takes at least one byte, so a call ends after at most as many pages as bytes. -/
theorem pages_end {turn : PageTurn} (word : turn.size < 2 ^ 32) {pages : Nat}
    (enough : turn.size < pages) :
    ∃ result, loop (pageTurn asic ctx fuel writeEn) pages turn = some result := by
  refine loop_of_measure (fun turn => turn.size < 2 ^ 32) PageTurn.size ?_ word enough
  intro turn next word turned
  unfold pageTurn at turned
  split at turned
  · cases turned
  · cases turned
  · rename_i page found
    split at turned
    · rename_i going
      cases turned
      obtain ⟨shift, small, mask⟩ := walkPage_pageMask asic ctx turn.state.mem found
      have offset : page.startAddr % 2 ^ shift < 2 ^ shift := Nat.mod_lt _ (by positivity)
      have chunk : chunkSize page.startAddr (lowMask shift) turn.size = _ :=
        chunkSize_eq small word
      rw [← mask] at chunk
      have positive : 0 < turnChunk turn page := by
        unfold turnChunk
        rw [chunk]
        split <;> omega
      have rest := going.2
      dsimp only
      omega
    · cases turned

end Pages

end Umr.Vm
