import Umr.Vm.Capture

/-!
# Captures of calls that also move data

A call with a buffer and `vmdata` on one page, against the same call without the buffer.  Both
walk the page alike; what differs is whether the access to the page leaves `vmdata` as the walk
has filled it in.
-/

set_option autoImplicit false

namespace Umr.Vm

open Umr.Lib
open Umr.Rumr (MemSpace)

/-! ## The entries of a walk in order -/

section Order
variable (asic : Asic) (ctx : VmContext) (mem : Memory)

/-- Directory entries first, then further entries, then the entry of the page. -/
def EntriesInOrder (reads : List WalkRead) (last : Nat) : Prop :=
  entriesOf reads = entriesOf (reads.filter (namesDirectory asic)) ++
    entriesOf (reads.filter (namesFurther asic)) ++ [last]

theorem entriesOf_append (left right : List WalkRead) :
    entriesOf (left ++ right) = entriesOf left ++ entriesOf right :=
  List.filterMap_append

theorem entriesOf_cons (read : WalkRead) (reads : List WalkRead) :
    entriesOf (read :: reads) = read.entry.toList ++ entriesOf reads := by
  unfold entriesOf
  cases found : read.entry with
  | none => simp [found]
  | some entry => simp [found]

theorem namesFurther_isSome {read : WalkRead} (names : namesFurther asic read = true) :
    read.entry.isSome = true := by
  unfold namesFurther at names
  split at names
  · cases names
  · rename_i entry found
    rw [found]
    rfl

theorem filter_passes_directory (passes : List TablePass) :
    (passes.map (passRead asic ctx mem)).filter (namesDirectory asic) = [] := by
  rw [List.filter_eq_nil_iff]
  exact List.countP_eq_zero.mp (countP_passes_directory asic ctx mem passes)

theorem finalPage_entry {hasDst : Bool} {address entry offsetMask : Nat} {state : WalkState}
    {fields : PteFields} {page : Page}
    (found : finalPage asic hasDst address state entry fields offsetMask = .page page) :
    page.pteEntry = some entry ∧ page.pteFields = fields := by
  unfold finalPage at found
  split at found
  · cases found
  · cases found
    exact ⟨rfl, rfl⟩

theorem pdeIsPte_fields {address currentDepth entry offsetMask : Nat} {pdeWasPte further : Bool}
    {state : WalkState} {fields : PteFields}
    (passed : pdeIsPte asic ctx address currentDepth pdeWasPte further state entry =
      .final fields offsetMask) : fields = rebasePte ctx (decodePteEntry asic.gfx entry) := by
  unfold pdeIsPte at passed
  simp only at passed
  split at passed
  · cases passed
  · cases passed
    rfl

theorem passes_inOrder {hasDst : Bool} {address fuel : Nat} {pass : TablePass} {page : Page}
    (found : loop (tablePass asic ctx mem hasDst address) fuel pass = some (.page page)) :
    ∃ last, page.pteEntry = some last ∧
      page.pteFields = rebasePte ctx (decodePteEntry asic.gfx last) ∧
      EntriesInOrder asic ((visited (tablePass asic ctx mem hasDst address) fuel pass).map
        (passRead asic ctx mem)) last := by
  induction fuel generalizing pass with
  | zero => cases found
  | succ fuel ih =>
      have names := namesFurther_iff asic ctx mem hasDst address pass
      cases turn : tablePass asic ctx mem hasDst address pass with
      | again next =>
          rw [loop_again turn] at found
          obtain ⟨last, entry, fields, order⟩ := ih found
          refine ⟨last, entry, fields, ?_⟩
          have further := names.mpr ⟨next, turn⟩
          unfold EntriesInOrder at order ⊢
          rw [filter_passes_directory] at order ⊢
          rw [visited_again turn, List.map_cons, List.filter_cons_of_pos further, entriesOf_cons,
            entriesOf_cons, order]
          simp [entriesOf]
      | done stop =>
          rw [loop_done turn] at found
          cases Option.some.inj found
          have unnamed : ¬ namesFurther asic (passRead asic ctx mem pass) = true := by
            rw [names, turn]
            rintro ⟨again, same⟩
            cases same
          have only := visited_done turn fuel
          unfold tablePass at turn
          split at turn
          · cases turn
          · rename_i entry read
            split at turn
            · cases turn
            · rename_i fields offsetMask passed
              obtain ⟨same, decoded⟩ := finalPage_entry asic (Turn.done.inj turn)
              refine ⟨entry, same, decoded.trans (pdeIsPte_fields asic ctx passed), ?_⟩
              unfold EntriesInOrder
              rw [filter_passes_directory, only, List.map_singleton,
                List.filter_cons_of_neg unnamed]
              simp [entriesOf, read]

/-- The directory entries down to a table, or down to one with the P bit. -/
theorem pdeLoop_inOrder {totalVmBits address depth : Nat} {state : WalkState} :
    match (pdeLoop asic ctx mem totalVmBits address depth state).2 with
    | .failed => True
    | .invalid _ => True
    | .leafPde _ entry _ =>
        entriesOf (pdeLoop asic ctx mem totalVmBits address depth state).1 =
            entriesOf ((pdeLoop asic ctx mem totalVmBits address depth state).1.filter
              (namesDirectory asic)) ++ [entry] ∧
          entriesOf ((pdeLoop asic ctx mem totalVmBits address depth state).1.filter
            (namesFurther asic)) =
              if (decodePteEntry asic.gfx entry).isPde asic.gfx then [entry] else []
    | .table _ =>
        entriesOf (pdeLoop asic ctx mem totalVmBits address depth state).1 =
            entriesOf ((pdeLoop asic ctx mem totalVmBits address depth state).1.filter
              (namesDirectory asic)) ∧
          (pdeLoop asic ctx mem totalVmBits address depth state).1.filter (namesFurther asic) =
            [] := by
  induction depth generalizing state with
  | zero => exact ⟨rfl, rfl⟩
  | succ depth ih =>
      unfold pdeLoop
      simp only
      cases entry : (readTable asic ctx mem state.pdeFields (depth + 1)
          (pdeIdx ctx totalVmBits (depth + 1) address)).entry with
      | none => trivial
      | some value =>
          have level : (readTable asic ctx mem state.pdeFields (depth + 1)
            (pdeIdx ctx totalVmBits (depth + 1) address)).level = depth + 1 := rfl
          by_cases leaf : (decodePdeEntry asic.gfx value).pte = true
          · simp only [leaf, if_true]
            by_cases further : (decodePteEntry asic.gfx value).isPde asic.gfx = true
            · simp [namesDirectory, namesFurther, entriesOf, entry, level, leaf, further]
            · simp [namesDirectory, namesFurther, entriesOf, entry, level, leaf, further]
          · by_cases valid : (decodePdeEntry asic.gfx value).valid = true
            · have rest := @ih
                { (if depth = 0 then applyPde0 ctx (decodePdeEntry asic.gfx value) state else state)
                  with pdeFields := rebasePde ctx (decodePdeEntry asic.gfx value) }
              have directory : namesDirectory asic (readTable asic ctx mem state.pdeFields
                  (depth + 1) (pdeIdx ctx totalVmBits (depth + 1) address)) = true := by
                simp [namesDirectory, entry, level, leaf]
              have table : ¬ namesFurther asic (readTable asic ctx mem state.pdeFields
                  (depth + 1) (pdeIdx ctx totalVmBits (depth + 1) address)) = true := by
                simp [namesFurther, entry, level, leaf]
              simp only [leaf, valid, if_true, Bool.false_eq_true, if_false,
                List.filter_cons_of_pos directory, List.filter_cons_of_neg table, entriesOf_cons]
              revert rest
              generalize pdeLoop asic ctx mem totalVmBits address depth _ = result
              intro rest
              obtain ⟨reads, stop⟩ := result
              cases stop with
              | failed => trivial
              | invalid last => trivial
              | leafPde leafDepth leafEntry last =>
                  obtain ⟨order, further⟩ := rest
                  refine ⟨?_, further⟩
                  dsimp only at order ⊢
                  rw [order, List.append_assoc]
              | table last =>
                  obtain ⟨order, further⟩ := rest
                  refine ⟨?_, further⟩
                  dsimp only at order ⊢
                  rw [order]
            · simp only [leaf, valid, Bool.false_eq_true, if_false]

theorem directories_then_passes {hasDst : Bool} {address fuel : Nat} {pass : TablePass} {page : Page}
    {dirReads : List WalkRead}
    (order : entriesOf dirReads = entriesOf (dirReads.filter (namesDirectory asic)) ++
      entriesOf (dirReads.filter (namesFurther asic)))
    (found : (loop (tablePass asic ctx mem hasDst address) fuel pass).getD .running =
      .page page) :
    ∃ last, page.pteEntry = some last ∧
      page.pteFields = rebasePte ctx (decodePteEntry asic.gfx last) ∧
      EntriesInOrder asic (dirReads ++
        (visited (tablePass asic ctx mem hasDst address) fuel pass).map (passRead asic ctx mem))
          last := by
  cases result : loop (tablePass asic ctx mem hasDst address) fuel pass with
  | none => simp [result] at found
  | some stop =>
      have ended : stop = .page page := by simpa [result] using found
      rw [ended] at result
      obtain ⟨last, entry, fields, passes⟩ := passes_inOrder asic ctx mem result
      refine ⟨last, entry, fields, ?_⟩
      unfold EntriesInOrder at passes ⊢
      rw [filter_passes_directory] at passes
      simp only [List.filter_append, entriesOf_append, filter_passes_directory, order, passes]
      simp [entriesOf]

/-- A walk with a buffer that finds a page has read the entries of its path in order. -/
theorem walkPage_inOrder {fuel : Nat} {carry : Carry} {address : Nat} {reads : List WalkRead}
    {page : Page} (leveled : 1 ≤ ctx.pageTableDepth)
    (walk : walkPage asic ctx mem fuel true carry address = (reads, .page page)) :
    ∃ last, page.pteEntry = some last ∧
      page.pteFields = rebasePte ctx (decodePteEntry asic.gfx last) ∧
      EntriesInOrder asic reads last := by
  cases sized : log2VmSize ctx.pageTableStartAddr ctx.pageTableEndAddr with
  | none => simp [walkPage, leveled, sized] at walk
  | some totalVmBits =>
      rw [walkPage_leveled asic ctx mem leveled sized] at walk
      obtain ⟨readsEq, found⟩ := Prod.mk.inj walk
      have dir := @pdeLoop_inOrder asic ctx mem totalVmBits address ctx.pageTableDepth
        (walkStart asic ctx carry)
      revert readsEq found dir
      generalize pdeLoop asic ctx mem totalVmBits address ctx.pageTableDepth
        (walkStart asic ctx carry) = result
      obtain ⟨dirReads, stop⟩ := result
      intro readsEq found dir
      dsimp only at readsEq found dir
      cases stop with
      | failed => cases found
      | invalid state => cases found
      | leafPde depth entry state =>
          obtain ⟨order, further⟩ := dir
          cases passed : pdeIsPte asic ctx address depth true false state entry with
          | final fields offsetMask =>
              simp only [walkTables, passed, List.append_nil] at readsEq found
              obtain ⟨same, decoded⟩ := finalPage_entry asic found
              have notPde : ¬ (decodePteEntry asic.gfx entry).isPde asic.gfx = true := by
                intro isPde
                obtain ⟨_, _, other⟩ :=
                  (pdeIsPte_further_iff asic ctx address depth true false state entry).mpr isPde
                cases passed.symm.trans other
              refine ⟨entry, same, decoded.trans (pdeIsPte_fields asic ctx passed), ?_⟩
              rw [if_neg notPde] at further
              rw [EntriesInOrder, ← readsEq, order, further, List.append_nil]
          | further next pteIdx =>
              have isPde := (pdeIsPte_further_iff asic ctx address depth true false state entry).mp
                ⟨next, pteIdx, passed⟩
              have first : firstPass asic ctx address (.leafPde depth entry state) =
                  some ⟨depth, true, true, next, pteIdx⟩ := by
                simp only [firstPass, passed]
              rw [walkTables_first asic ctx mem first] at readsEq found
              rw [if_pos isPde] at further
              rw [← readsEq]
              exact directories_then_passes asic ctx mem (by rw [order, further]) found
      | table state =>
          obtain ⟨order, further⟩ := dir
          have first : firstPass asic ctx address (.table state) = some ⟨0, false, false, state,
            shr64 address (12 + state.pde0BlockFragmentSize) &&& state.ptbMask⟩ := rfl
          rw [walkTables_first asic ctx mem first] at readsEq found
          rw [← readsEq]
          refine directories_then_passes asic ctx mem ?_ found
          rw [further, order]
          simp [entriesOf]

end Order

/-! ## With and without a buffer -/

section Buffer
variable (asic : Asic) (ctx : VmContext) (mem : Memory)

theorem finalPage_noDst {address entry offsetMask : Nat} {state : WalkState} {fields : PteFields}
    {page : Page} (found : finalPage asic true address state entry fields offsetMask = .page page) :
    finalPage asic false address state entry fields offsetMask = .page page := by
  unfold finalPage at *
  split at found
  · cases found
  · simpa using found

theorem passes_noDst {address fuel : Nat} {pass : TablePass} {page : Page}
    (found : loop (tablePass asic ctx mem true address) fuel pass = some (.page page)) :
    loop (tablePass asic ctx mem false address) fuel pass = some (.page page) ∧
      visited (tablePass asic ctx mem false address) fuel pass =
        visited (tablePass asic ctx mem true address) fuel pass := by
  have same : ∀ visit ∈ visited (tablePass asic ctx mem true address) fuel pass,
      tablePass asic ctx mem false address visit = tablePass asic ctx mem true address visit := by
    intro visit member
    cases turn : tablePass asic ctx mem true address visit with
    | again next =>
        unfold tablePass at turn ⊢
        split at turn
        · cases turn
        · split at turn
          · exact turn
          · cases turn
    | done stop =>
        have last : .page page = stop := Option.some.inj (found.symm.trans (loop_at_done member turn))
        rw [← last] at turn ⊢
        unfold tablePass at turn ⊢
        split at turn
        · cases turn
        · split at turn
          · cases turn
          · exact congrArg Turn.done (finalPage_noDst asic (Turn.done.inj turn))
  obtain ⟨results, paths⟩ := loop_congr same
  exact ⟨results.trans found, paths⟩

/-- A page that is found for a buffer is found the same way without one. -/
theorem walkPage_noDst {fuel : Nat} {carry : Carry} {address : Nat} {reads : List WalkRead}
    {page : Page} (walk : walkPage asic ctx mem fuel true carry address = (reads, .page page)) :
    walkPage asic ctx mem fuel false carry address = (reads, .page page) := by
  by_cases leveled : 1 ≤ ctx.pageTableDepth
  · cases sized : log2VmSize ctx.pageTableStartAddr ctx.pageTableEndAddr with
    | none => simp [walkPage, leveled, sized] at walk
    | some totalVmBits =>
        rw [walkPage_leveled asic ctx mem leveled sized] at walk ⊢
        rw [← walk]
        have found := (Prod.mk.inj walk).2
        suffices same : walkTables asic ctx mem fuel false carry address (pdeLoop asic ctx mem
            totalVmBits address ctx.pageTableDepth (walkStart asic ctx carry)).2 =
              walkTables asic ctx mem fuel true carry address (pdeLoop asic ctx mem
                totalVmBits address ctx.pageTableDepth (walkStart asic ctx carry)).2 by
          rw [same]
        generalize (pdeLoop asic ctx mem totalVmBits address ctx.pageTableDepth
          (walkStart asic ctx carry)).2 = dir at found ⊢
        cases first : firstPass asic ctx address dir with
        | some pass =>
            rw [walkTables_first asic ctx mem first] at found
            rw [walkTables_first asic ctx mem first, walkTables_first asic ctx mem first]
            cases result : loop (tablePass asic ctx mem true address) fuel pass with
            | none => simp [result] at found
            | some stop =>
                have ended : stop = .page page := by simpa [result] using found
                rw [ended] at result
                obtain ⟨results, paths⟩ := passes_noDst asic ctx mem result
                rw [results, paths, ended]
        | none =>
            cases dir with
            | failed => rfl
            | invalid state => cases found
            | leafPde depth entry state =>
                cases passed : pdeIsPte asic ctx address depth true false state entry with
                | further next pteIdx =>
                    simp only [firstPass, passed] at first
                    cases first
                | final fields offsetMask =>
                    simp only [walkTables, passed] at found ⊢
                    rw [found, finalPage_noDst asic found]
            | table state => cases first
  · rw [walkPage, if_neg leveled, walkFlat_eq] at walk ⊢
    split at walk
    · cases walk
    · rename_i valid
      rw [if_neg valid]
      split at walk
      · cases walk
      · split at walk
        · cases walk
        · simpa using walk

end Buffer

/-! ## One page -/

structure OnePageCall (asic : Asic) (partition : Int) (vmid address size pos : Nat)
    (writeEn : Bool) (fuel : Nat) (state : State) where
  ctx : VmContext
  reads : List WalkRead
  page : Page
  gfx9 : 9 ≤ asic.gfx.maj
  context : vmContextOf asic partition vmid state.vmdataBase = some ctx
  walked : rangeRoute ctx vmid (maskAddress asic.family address) = .walked
  walk : walkPage asic ctx state.mem fuel true {}
    (maskAddress asic.family address - ctx.pageTableStartAddr) = (reads, .page page)
  onePage : chunkSize page.startAddr page.ptePageMask size = size
  capturing : state.vmdata.isSome = true
  succeeded : (umrAccessVram asic partition vmid address size (some pos) writeEn fuel state).1 = .ok

section Call
variable {asic : Asic} {partition : Int} {vmid address size pos : Nat} {writeEn : Bool}
  {fuel : Nat} {state : State}

def OnePageCall.recorded (call : OnePageCall asic partition vmid address size pos writeEn fuel state) :
    VmPagewalk :=
  captureWalk asic call.ctx call.reads (.page call.page)
    { pageTableBaseAddr := state.vmdataBase, va := maskAddress asic.family address, vmid := vmid }

/-- On return `vmdata` describes the walk, as the call without a buffer leaves it. -/
def Captured (call : OnePageCall asic partition vmid address size pos writeEn fuel state) : Prop :=
  ∃ data,
    (umrAccessVram asic partition vmid address size (some pos) writeEn fuel state).2.vmdata =
        some data ∧
      (umrAccessVram asic partition vmid address size none writeEn fuel state).2.vmdata =
        some data ∧
      data.va = address ∧ data.vmid = vmid ∧
      data.pde ++ [data.pte] = rootEntry asic call.ctx :: entriesOf call.reads ∧
      data.pteFields = rebasePte call.ctx (decodePteEntry asic.gfx data.pte)

theorem cleared_withInputs_vmdata (capturing : state.vmdata.isSome = true) :
    (state.cleared.withInputs vmid address).vmdata =
      some { pageTableBaseAddr := state.vmdataBase, va := address, vmid := vmid } := by
  obtain ⟨before, found⟩ := Option.isSome_iff_exists.mp capturing
  simp [State.withInputs, State.cleared, VmPagewalk.cleared, State.vmdataBase, found]

theorem umrAccessVram_ok_aligned {dst : Option Nat}
    (succeeded : (umrAccessVram asic partition vmid address size dst writeEn fuel state).1 = .ok) :
    (address % 4 = 0 ∧ size % 4 = 0) ∧ dst.getD 0 % 4 = 0 := by
  unfold umrAccessVram at succeeded
  simp only at succeeded
  split at succeeded
  · cases succeeded
  · rename_i words
    split at succeeded
    · cases succeeded
    · rename_i aligned
      omega

/-- One turn of the page loop makes up the call, with or without a buffer. -/
theorem OnePageCall.turn
    (call : OnePageCall asic partition vmid address size pos writeEn fuel state)
    (dst : Option Nat) (aligned : dst.getD 0 % 4 = 0)
    (walk : walkPage asic call.ctx state.mem fuel dst.isSome {}
      (maskAddress asic.family address - call.ctx.pageTableStartAddr) =
        (call.reads, .page call.page)) :
    (umrAccessVram asic partition vmid address size dst writeEn fuel state).2.vmdata =
      if accessesVram call.ctx dst call.page size then some call.recorded.cleared
      else some call.recorded := by
  have words := (umrAccessVram_ok_aligned call.succeeded).1
  have base : state.cleared.vmdataBase = state.vmdataBase := cleared_vmdataBase state
  rw [umrAccessVram_virtual call.gfx9 call.context words aligned,
    umrAccessVramAi_route call.context asic.present dst writeEn fuel base, accessInContext_route,
    call.walked]
  let first := firstTurn call.ctx vmid (maskAddress asic.family address) size dst state.cleared
  have walks : turnWalk asic call.ctx fuel first = (call.reads, .page call.page) := walk
  have whole : turnChunk first call.page = size := call.onePage
  have last : pageTurn asic call.ctx fuel writeEn first =
      .done (turnMove asic call.ctx fuel writeEn first call.page) := by
    simp only [pageTurn, walks]
    rw [if_neg]
    rw [whole]
    simp [first, firstTurn]
  have moved := pageLoop_eq_loop asic call.ctx fuel writeEn (loop_done last size)
  have captured : ((first.state.walked asic call.ctx (turnWalk asic call.ctx fuel first)).taking
      first.address (turnChunk first call.page)).vmdata = some call.recorded := by
    have inputs : first.state.vmdata = _ := cleared_withInputs_vmdata call.capturing
    simp only [State.taking, State.walked, walks, inputs, Option.map_some]
    rfl
  have result : (pageLoop asic call.ctx fuel writeEn (size + 1) {}
      (maskAddress asic.family address - call.ctx.pageTableStartAddr) size dst
        (state.cleared.withInputs vmid (maskAddress asic.family address))).2.vmdata =
      if accessesVram call.ctx dst call.page size then some call.recorded.cleared
      else some call.recorded := by
    have same := congrArg (fun result => result.2.vmdata) moved
    refine same.trans ?_
    rw [turnMove, accessChunk_vmdata, captured, whole]
    rfl
  exact result

theorem OnePageCall.recorded_pde
    (call : OnePageCall asic partition vmid address size pos writeEn fuel state) :
    call.recorded.pde = rootEntry asic call.ctx ::
      entriesOf (call.reads.filter (namesDirectory asic)) := by
  rw [OnePageCall.recorded, captureWalk_pde]
  rfl

theorem captureReads_inputs (asic : Asic) (ctx : VmContext) (reads : List WalkRead) (walk : VmPagewalk) :
    (reads.foldl (captureRead asic ctx) walk).va = walk.va ∧
      (reads.foldl (captureRead asic ctx) walk).vmid = walk.vmid ∧
      (reads.foldl (captureRead asic ctx) walk).pteFields = walk.pteFields := by
  induction reads generalizing walk with
  | nil => exact ⟨rfl, rfl, rfl⟩
  | cons read reads ih =>
      obtain ⟨va, vmid, fields⟩ := ih (captureRead asic ctx walk read)
      have kept : (captureRead asic ctx walk read).va = walk.va ∧
          (captureRead asic ctx walk read).vmid = walk.vmid ∧
          (captureRead asic ctx walk read).pteFields = walk.pteFields := by
        unfold captureRead
        repeat' split
        all_goals exact ⟨rfl, rfl, rfl⟩
      rw [List.foldl_cons, va, vmid, fields]
      exact kept

theorem OnePageCall.recorded_inputs
    (call : OnePageCall asic partition vmid address size pos writeEn fuel state) :
    call.recorded.va = maskAddress asic.family address ∧ call.recorded.vmid = vmid := by
  have kept := captureReads_inputs asic call.ctx call.reads
  unfold OnePageCall.recorded captureWalk
  simp only
  split
  · split
    · exact ⟨(kept _).1, (kept _).2.1⟩
    · exact ⟨(kept _).1, (kept _).2.1⟩
  · exact ⟨(kept _).1, (kept _).2.1⟩

theorem OnePageCall.recorded_pte
    (call : OnePageCall asic partition vmid address size pos writeEn fuel state)
    (leveled : 1 ≤ call.ctx.pageTableDepth) {last : Nat} (entry : call.page.pteEntry = some last) :
    call.recorded.pte = last ∧ call.recorded.pteFields = call.page.pteFields := by
  have notFlat : ¬ call.ctx.pageTableDepth = 0 := by omega
  unfold OnePageCall.recorded captureWalk
  simp [entry, notFlat]

/-- A flat walk leaves the fields of its entry out. -/
theorem OnePageCall.recorded_flat
    (call : OnePageCall asic partition vmid address size pos writeEn fuel state)
    (flat : call.ctx.pageTableDepth = 0) :
    call.recorded.pteFields = {} ∧
      (decodePteEntry asic.gfx call.recorded.pte).valid = true := by
  have leveled : ¬ 1 ≤ call.ctx.pageTableDepth := by omega
  have walk := call.walk
  rw [walkPage, if_neg leveled, walkFlat_eq] at walk
  split at walk
  · exact absurd (Prod.mk.inj walk).2 fun same => (by cases same)
  · split at walk
    · exact absurd (Prod.mk.inj walk).2 fun same => (by cases same)
    · rename_i entry read
      split at walk
      · exact absurd (Prod.mk.inj walk).2 fun same => (by cases same)
      · rename_i valid
        obtain ⟨reads, page⟩ := Prod.mk.inj walk
        have found : call.page.pteEntry = some entry := by
          rw [← WalkEnd.page.inj page]
        have recorded : call.recorded = { vmid := vmid
                                          va := maskAddress asic.family address
                                          pde := [rootEntry asic call.ctx]
                                          pdeFields := [{}]
                                          pte := entry
                                          pteFields := {}
                                          pageTableBaseAddr := state.vmdataBase } := by
          unfold OnePageCall.recorded captureWalk
          simp only [found, flat, ← reads, List.foldl_cons, List.foldl_nil, captureRead, read]
          rfl
        rw [recorded]
        simpa using valid

/-- The capture of a call on one page survives it exactly if the address is one of 48 bits, the
context has directories, no entry of the path names a further table, and the page is not accessed
in VRAM. -/
theorem captured_iff (asic : Asic) (partition : Int) (vmid address size pos : Nat) (writeEn : Bool)
    (fuel : Nat) (state : State)
    (call : OnePageCall asic partition vmid address size pos writeEn fuel state) :
    Captured call ↔
      maskAddress asic.family address = address ∧ 1 ≤ call.ctx.pageTableDepth ∧
        (∀ read ∈ call.reads, namesFurther asic read = false) ∧
        accessesVram call.ctx (some pos) call.page size = false := by
  have withBuffer := call.turn (some pos) (umrAccessVram_ok_aligned call.succeeded).2 call.walk
  have without := call.turn none rfl (walkPage_noDst asic call.ctx state.mem call.walk)
  have noAccess : accessesVram call.ctx none call.page size = false := rfl
  obtain ⟨va, recordedVmid⟩ := call.recorded_inputs
  rw [noAccess, if_neg (by simp)] at without
  unfold Captured
  rw [withBuffer, without]
  constructor
  · rintro ⟨data, kept, recorded, inputs, -, entries, fields⟩
    cases Option.some.inj recorded
    have intact : accessesVram call.ctx (some pos) call.page size = false := by
      by_contra accessed
      rw [if_pos (by simpa using accessed)] at kept
      have lost := congrArg VmPagewalk.pde (Option.some.inj kept)
      rw [call.recorded_pde] at lost
      cases lost
    have leveled : 1 ≤ call.ctx.pageTableDepth := by
      by_contra flat
      obtain ⟨blank, valid⟩ := call.recorded_flat (by omega)
      rw [blank] at fields
      have decoded := congrArg PteFields.valid fields
      rw [rebasePte_valid, valid] at decoded
      cases decoded
    refine ⟨va.symm.trans inputs, leveled, ?_, intact⟩
    obtain ⟨last, entry, -, order⟩ := walkPage_inOrder asic call.ctx state.mem leveled call.walk
    rw [call.recorded_pde, (call.recorded_pte leveled entry).1, order] at entries
    have noEntries : entriesOf (call.reads.filter (namesFurther asic)) = [] := by
      simpa using entries
    have noFurther : call.reads.filter (namesFurther asic) = [] := by
      have length : (entriesOf (call.reads.filter (namesFurther asic))).length = _ :=
        entriesOf_length fun read member => namesFurther_isSome asic (List.mem_filter.mp member).2
      rw [noEntries] at length
      exact List.eq_nil_of_length_eq_zero length.symm
    intro read member
    simpa using List.filter_eq_nil_iff.mp noFurther read member
  · rintro ⟨canonical, leveled, noFurther, intact⟩
    obtain ⟨last, entry, fields, order⟩ := walkPage_inOrder asic call.ctx state.mem leveled call.walk
    obtain ⟨pte, pteFields⟩ := call.recorded_pte leveled entry
    have none : call.reads.filter (namesFurther asic) = [] := by
      rw [List.filter_eq_nil_iff]
      intro read member
      simp [noFurther read member]
    refine ⟨call.recorded, by rw [intact]; rfl, rfl, va.trans canonical, recordedVmid, ?_, ?_⟩
    · rw [call.recorded_pde, pte, order, none]
      simp [entriesOf]
    · rw [pteFields, pte, fields]

end Call

/-! ## A page in system RAM and a page in VRAM -/

def capturedState (entry : Nat) : State :=
  ⟨sampleMemory [(0x1000, 0x2001), (0x2000, entry)], fun _ => 0, some {}, [], []⟩

def capturedAsic : Asic := sampleAsic 1 0 0x3FFFF

def capturedContext : VmContext := readVmContext capturedAsic .gfx 0 .plain .plain 1 0

def capturedPage (entry : Nat) : Page :=
  { startAddr := 0x10000
    ptePageMask := 0xFFF
    pteFields := decodePteEntry capturedAsic.gfx entry
    pteEntry := some entry
    carry := ⟨0, decodePteEntry capturedAsic.gfx entry⟩ }

def capturedCall (entry : Nat)
    (walk : (walkPage capturedAsic capturedContext (capturedState entry).mem 1 true {} 0).2 =
      .page (capturedPage entry))
    (succeeded : (umrAccessVram capturedAsic 0 1 0 4 (some 0) false 1 (capturedState entry)).1 =
      .ok) :
    OnePageCall capturedAsic 0 1 0 4 0 false 1 (capturedState entry) where
  ctx := capturedContext
  reads := (walkPage capturedAsic capturedContext (capturedState entry).mem 1 true {} 0).1
  page := capturedPage entry
  gfx9 := by decide
  context := rfl
  walked := by decide
  walk := Prod.ext rfl walk
  onePage := show chunkSize 0x10000 0xFFF 4 = 4 by decide
  capturing := rfl
  succeeded := succeeded

def sysramCall : OnePageCall capturedAsic 0 1 0 4 0 false 1 (capturedState 0x10003) :=
  capturedCall 0x10003 (by decide +kernel) (by decide +kernel)

def vramCall : OnePageCall capturedAsic 0 1 0 4 0 false 1 (capturedState 0x10001) :=
  capturedCall 0x10001 (by decide +kernel) (by decide +kernel)

theorem sysramCall_captured : Captured sysramCall := by
  refine (captured_iff capturedAsic 0 1 0 4 0 false 1 (capturedState 0x10003) sysramCall).mpr ?_
  have further : (sysramCall.reads.all fun read => !namesFurther capturedAsic read) = true := by
    decide +kernel
  refine ⟨by decide, by decide, fun read member => ?_, by decide +kernel⟩
  simpa using List.all_eq_true.mp further read member

/-- The linear access to the page clears what its walk has recorded. -/
theorem vramCall_not_captured :
    (umrAccessVram capturedAsic 0 1 0 4 (some 0) false 1 (capturedState 0x10001)).2.vmdata =
        some {} ∧
      ¬ Captured vramCall := by
  have lost : (umrAccessVram capturedAsic 0 1 0 4 (some 0) false 1
      (capturedState 0x10001)).2.vmdata = some {} := by decide +kernel
  have decoded : (umrAccessVram capturedAsic 0 1 0 4 none false 1
      (capturedState 0x10001)).2.vmdata ≠ some {} := by decide +kernel
  refine ⟨lost, ?_⟩
  rintro ⟨data, kept, recorded, -⟩
  cases Option.some.inj (lost.symm.trans kept)
  exact decoded recorded

end Umr.Vm
