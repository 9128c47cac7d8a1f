import Umr.Vm.Access

/-!
# The tables behind a walk

`Reaches` says which directory entry is in force at each depth on the way to an
address, as a property of the table contents alone.  The directory loop follows
exactly these entries, whatever an earlier page left behind.
-/

set_option autoImplicit false

namespace Umr.Vm

open Umr.Lib

/-! ## The size of the address space -/

theorem roundUpPot_go_zero {x : Nat} (positive : 0 < x) (steps : Nat) :
    roundUpPot.go x steps 0 = none := by
  induction steps with
  | zero => rfl
  | succ steps ih => simp [roundUpPot.go, positive, ih]

theorem double_pow {k : Nat} (bound : k < 63) : 2 * 2 ^ k % 2 ^ 64 = 2 ^ (k + 1) := by
  rw [← Nat.pow_succ']
  exact Nat.mod_eq_of_lt (Nat.pow_lt_pow_right (by norm_num) (by omega))

theorem roundUpPot_go_some {x : Nat} (bound : x ≤ 2 ^ 63) (steps k : Nat) (top : k ≤ 63)
    (enough : 64 ≤ steps + k) : (roundUpPot.go x steps (2 ^ k)).isSome = true := by
  induction steps generalizing k with
  | zero => omega
  | succ steps ih =>
      rw [roundUpPot.go]
      by_cases below : 2 ^ k < x
      · have small : k < 63 := by
          rcases Nat.lt_or_ge k 63 with small | large
          · exact small
          · have : 2 ^ 63 ≤ 2 ^ k := Nat.pow_le_pow_right (by norm_num) large
            omega
        rw [if_pos below, double_pow small]
        exact ih (k + 1) (by omega) (by omega)
      · rw [if_neg below]
        rfl

theorem roundUpPot_go_none {x : Nat} (large : 2 ^ 63 < x) (steps k : Nat) (top : k ≤ 63) :
    roundUpPot.go x steps (2 ^ k) = none := by
  induction steps generalizing k with
  | zero => rfl
  | succ steps ih =>
      have below : 2 ^ k < x := lt_of_le_of_lt (Nat.pow_le_pow_right (by norm_num) top) large
      rw [roundUpPot.go, if_pos below]
      rcases Nat.lt_or_ge k 63 with small | full
      · rw [double_pow small]
        exact ih (k + 1) (by omega)
      · have : k = 63 := by omega
        subst this
        exact roundUpPot_go_zero (by omega) steps

theorem roundUpPot_go_lt {x steps y size : Nat} (start : y < 2 ^ 64)
    (found : roundUpPot.go x steps y = some size) : size < 2 ^ 64 := by
  induction steps generalizing y with
  | zero => simp [roundUpPot.go] at found
  | succ steps ih =>
      rw [roundUpPot.go] at found
      split at found
      · exact ih (Nat.mod_lt _ (by norm_num)) found
      · simp only [Option.some.injEq] at found
        omega

theorem log2VmSize_isSome_iff (first last : Nat) :
    (log2VmSize first last).isSome = true ↔ add64 (sub64 last first) 4096 ≤ 2 ^ 63 := by
  rw [log2VmSize, Option.isSome_map, roundUpPot]
  rcases Nat.lt_or_ge (2 ^ 63) (add64 (sub64 last first) 4096) with large | small
  · rw [roundUpPot_go_none large 64 30 (by norm_num)]
    simp only [Option.isSome_none, Bool.false_eq_true, false_iff]
    omega
  · simp only [small, iff_true]
    exact roundUpPot_go_some small 64 30 (by norm_num) (by norm_num)

theorem log2VmSize_lt {first last totalVmBits : Nat}
    (found : log2VmSize first last = some totalVmBits) : totalVmBits < 64 := by
  rw [log2VmSize, Option.map_eq_some_iff] at found
  obtain ⟨size, rounded, rfl⟩ := found
  have bound : size < 2 ^ 64 := roundUpPot_go_lt (by norm_num) rounded
  rcases Nat.eq_zero_or_pos size with zero | positive
  · simp [zero]
  · exact (Nat.log2_lt (by omega)).mpr bound

/-! ## Directory indices -/

section Index
variable (ctx : VmContext)

def dirShift (depth : Nat) : Nat := 9 * depth + 21 + ctx.pageTableBlockSize

/-- The address bits below an entry of a level; level zero is a page table whose entries
cover pages of fragment size `fragSize`. -/
def levelShift (fragSize : Nat) : Nat → Nat
  | 0 => 12 + fragSize
  | depth + 1 => dirShift ctx depth

def dirIdx (depth address : Nat) : Nat :=
  if depth + 1 = ctx.pageTableDepth then shr64 address (dirShift ctx depth)
  else shr64 address (dirShift ctx depth) &&& 511

theorem amountToShift_eq (totalVmBits depth : Nat) :
    amountToShift ctx totalVmBits (depth + 1) = dirShift ctx depth := by
  simp only [amountToShift, topPdbBits, dirShift]
  push_cast
  ring

theorem pdeIdx_eq (totalVmBits depth address : Nat) :
    pdeIdx ctx totalVmBits (depth + 1) address = dirIdx ctx depth address := by
  rw [pdeIdx, amountToShift_eq, Int.toNat_natCast, dirIdx]
  by_cases top : depth + 1 = ctx.pageTableDepth <;> simp [top]

theorem dirIdx_top {depth : Nat} (address : Nat) (top : depth + 1 = ctx.pageTableDepth)
    (bound : dirShift ctx depth < 64) :
    dirIdx ctx depth address = address / 2 ^ dirShift ctx depth := by
  rw [dirIdx, if_pos top, shr64_eq_div address bound]

theorem dirIdx_below {depth : Nat} (address : Nat) (below : depth + 1 ≠ ctx.pageTableDepth)
    (bound : dirShift ctx depth < 64) :
    dirIdx ctx depth address = address / 2 ^ dirShift ctx depth % 512 := by
  rw [dirIdx, if_neg below, shr64_eq_div address bound]
  exact Nat.and_two_pow_sub_one_eq_mod _ 9

theorem dirShift_succ (depth : Nat) : dirShift ctx (depth + 1) = dirShift ctx depth + 9 := by
  unfold dirShift
  omega

theorem dirShift_mono {low high : Nat} (le : low ≤ high) :
    dirShift ctx low ≤ dirShift ctx high := by
  unfold dirShift
  omega

end Index

/-! ## The directories on the way to an address -/

section Reach
variable (asic : Asic) (ctx : VmContext) (mem : Memory) (address : Nat)

def dirRead (pde : PdeFields) (depth : Nat) : WalkRead :=
  readTable asic ctx mem pde (depth + 1) (dirIdx ctx depth address)

/-- `pde` is in force at `depth` after the entry reads `reads`: the base register, or
below a valid directory entry without the P bit. -/
inductive Reaches : Nat → PdeFields → List WalkRead → Prop
  | root : Reaches ctx.pageTableDepth (decodePdeEntry asic.gfx (rootEntry asic ctx)) []
  | step {depth : Nat} {pde : PdeFields} {reads : List WalkRead} {entry : Nat}
      (above : Reaches (depth + 1) pde reads)
      (read : (dirRead asic ctx mem address pde depth).entry = some entry)
      (directory : (decodePdeEntry asic.gfx entry).pte = false)
      (valid : (decodePdeEntry asic.gfx entry).valid = true) :
      Reaches depth (rebasePde ctx (decodePdeEntry asic.gfx entry))
        (reads ++ [dirRead asic ctx mem address pde depth])

variable {asic ctx mem address}

theorem Reaches.depth_le {depth : Nat} {pde : PdeFields} {reads : List WalkRead}
    (path : Reaches asic ctx mem address depth pde reads) : depth ≤ ctx.pageTableDepth := by
  induction path with
  | root => exact le_refl _
  | step above read directory valid ih => omega

variable (asic ctx)

/-- The local variables of the loop when `pde` is in force at `depth`. -/
def stateAt (carry : Carry) (depth : Nat) (pde : PdeFields) : WalkState :=
  let start := { walkStart asic ctx carry with pdeFields := pde }
  if depth = 0 then applyPde0 ctx pde start else start

@[simp] theorem stateAt_pdeFields (carry : Carry) (depth : Nat) (pde : PdeFields) :
    (stateAt asic ctx carry depth pde).pdeFields = pde := by
  unfold stateAt applyPde0
  split <;> rfl

@[simp] theorem rebasePde_fragSize (fields : PdeFields) :
    (rebasePde ctx fields).fragSize = fields.fragSize := by
  unfold rebasePde
  split <;> rfl

theorem Reaches.fragSize_lt {depth : Nat} {pde : PdeFields} {reads : List WalkRead}
    (path : Reaches asic ctx mem address depth pde reads) : pde.fragSize < 32 := by
  cases path with
  | root => exact decodePdeEntry_fragSize_lt _ _
  | step above read directory valid =>
      rw [rebasePde_fragSize]
      exact decodePdeEntry_fragSize_lt _ _

theorem stateAt_next (carry : Carry) (depth : Nat) (pde fields next : PdeFields)
    (sameSize : next.fragSize = fields.fragSize) :
    ({ (if depth = 0 then applyPde0 ctx fields (stateAt asic ctx carry (depth + 1) pde)
        else stateAt asic ctx carry (depth + 1) pde) with pdeFields := next } : WalkState) =
      stateAt asic ctx carry depth next := by
  by_cases bottom : depth = 0 <;> simp [stateAt, applyPde0, bottom, sameSize]

theorem pdeLoop_turn (totalVmBits depth : Nat) (carry : Carry) (pde : PdeFields) :
    pdeLoop asic ctx mem totalVmBits address (depth + 1) (stateAt asic ctx carry (depth + 1) pde) =
      match (dirRead asic ctx mem address pde depth).entry with
      | none => ([dirRead asic ctx mem address pde depth], .failed)
      | some entry =>
          let fields := decodePdeEntry asic.gfx entry
          if fields.pte then
            ([dirRead asic ctx mem address pde depth],
              .leafPde (depth + 1) entry (stateAt asic ctx carry depth fields))
          else if fields.valid then
            let rest := pdeLoop asic ctx mem totalVmBits address depth
              (stateAt asic ctx carry depth (rebasePde ctx fields))
            (dirRead asic ctx mem address pde depth :: rest.1, rest.2)
          else
            ([dirRead asic ctx mem address pde depth],
              .invalid (stateAt asic ctx carry depth (rebasePde ctx fields))) := by
  rw [pdeLoop, stateAt_pdeFields, pdeIdx_eq]
  change (match (dirRead asic ctx mem address pde depth).entry with | none => _ | some entry => _) = _
  cases (dirRead asic ctx mem address pde depth).entry with
  | none => rfl
  | some entry =>
      dsimp only
      rw [stateAt_next asic ctx carry depth pde _ _ rfl,
        stateAt_next asic ctx carry depth pde _ _ (rebasePde_fragSize ctx _)]
      rfl

/-- The loop, started at the base register, passes exactly the entries of the path. -/
theorem pdeLoop_reaches {totalVmBits depth : Nat} {carry : Carry} {pde : PdeFields}
    {reads : List WalkRead} (leveled : 1 ≤ ctx.pageTableDepth)
    (path : Reaches asic ctx mem address depth pde reads) :
    pdeLoop asic ctx mem totalVmBits address ctx.pageTableDepth (walkStart asic ctx carry) =
      (reads ++
        (pdeLoop asic ctx mem totalVmBits address depth (stateAt asic ctx carry depth pde)).1,
        (pdeLoop asic ctx mem totalVmBits address depth (stateAt asic ctx carry depth pde)).2) := by
  induction path with
  | root =>
      have top : ctx.pageTableDepth ≠ 0 := by omega
      simp [stateAt, top, walkStart]
  | step above read directory valid ih =>
      rw [ih, pdeLoop_turn]
      simp [read, directory, valid]

theorem pdeLoop_table {totalVmBits : Nat} {carry : Carry} {pde : PdeFields}
    {reads : List WalkRead} (leveled : 1 ≤ ctx.pageTableDepth)
    (path : Reaches asic ctx mem address 0 pde reads) :
    pdeLoop asic ctx mem totalVmBits address ctx.pageTableDepth (walkStart asic ctx carry) =
      (reads, .table (stateAt asic ctx carry 0 pde)) := by
  rw [pdeLoop_reaches asic ctx leveled path]
  simp [pdeLoop]

theorem pdeLoop_leaf {totalVmBits depth entry : Nat} {carry : Carry} {pde : PdeFields}
    {reads : List WalkRead} (leveled : 1 ≤ ctx.pageTableDepth)
    (path : Reaches asic ctx mem address (depth + 1) pde reads)
    (read : (dirRead asic ctx mem address pde depth).entry = some entry)
    (leaf : (decodePdeEntry asic.gfx entry).pte = true) :
    pdeLoop asic ctx mem totalVmBits address ctx.pageTableDepth (walkStart asic ctx carry) =
      (reads ++ [dirRead asic ctx mem address pde depth],
        .leafPde (depth + 1) entry
          (stateAt asic ctx carry depth (decodePdeEntry asic.gfx entry))) := by
  rw [pdeLoop_reaches asic ctx leveled path, pdeLoop_turn]
  simp [read, leaf]

end Reach

/-! ## Page table entries -/

section Pte
variable (asic : Asic) (ctx : VmContext) (mem : Memory) (address : Nat)

def ptbRead (pde0 : PdeFields) : WalkRead :=
  readTable asic ctx mem pde0 0 (shr64 address (12 + pde0.fragSize) &&&
    lowMask (add64 9 (sub64 ctx.pageTableBlockSize pde0.fragSize)))

/-- The entry at which the directory and table reads to `address` end: the page table
entry below PDE0, or a directory entry with the P bit.  Its level and fragment size fix
the size of the page; only PDE0 has a fragment size. -/
inductive TerminalEntry : Nat → Nat → Nat → List WalkRead → Prop
  | pte {pde0 : PdeFields} {above : List WalkRead} {entry : Nat}
      (path : Reaches asic ctx mem address 0 pde0 above)
      (read : (ptbRead asic ctx mem address pde0).entry = some entry) :
      TerminalEntry 0 pde0.fragSize entry (above ++ [ptbRead asic ctx mem address pde0])
  | pde {depth : Nat} {pde : PdeFields} {above : List WalkRead} {entry : Nat}
      (path : Reaches asic ctx mem address (depth + 1) pde above)
      (read : (dirRead asic ctx mem address pde depth).entry = some entry)
      (leaf : (decodePdeEntry asic.gfx entry).pte = true) :
      TerminalEntry (depth + 1) (if depth = 0 then (decodePdeEntry asic.gfx entry).fragSize else 0)
        entry (above ++ [dirRead asic ctx mem address pde depth])

theorem rebasePte_valid (fields : PteFields) : (rebasePte ctx fields).valid = fields.valid := by
  unfold rebasePte
  split <;> rfl

theorem stateAt_ptePageMask (carry : Carry) (depth : Nat) (pde : PdeFields) :
    (stateAt asic ctx carry depth pde).ptePageMask =
      lowMask (12 + if depth = 0 then pde.fragSize else 0) := by
  by_cases bottom : depth = 0
  · simp [stateAt, applyPde0, bottom, Nat.add_comm]
  · simp [stateAt, walkStart, bottom]

variable {asic ctx mem address}

theorem TerminalEntry.walkPage_eq {level fragSize entry : Nat} {reads : List WalkRead}
    (terminal : TerminalEntry asic ctx mem address level fragSize entry reads)
    (last : (decodePteEntry asic.gfx entry).isPde asic.gfx = false) {fuel : Nat}
    (passes : 1 ≤ fuel) (leveled : 1 ≤ ctx.pageTableDepth) {totalVmBits : Nat}
    (sized : log2VmSize ctx.pageTableStartAddr ctx.pageTableEndAddr = some totalVmBits)
    (hasDst : Bool) (carry : Carry) :
    ∃ state : WalkState, state.ptePageMask = lowMask (12 + fragSize) ∧
      walkPage asic ctx mem fuel hasDst carry address =
        (reads, finalPage asic hasDst address state entry
          (rebasePte ctx (decodePteEntry asic.gfx entry))
          (lowMask (levelShift ctx fragSize level))) := by
  obtain ⟨rest, rfl⟩ := Nat.exists_eq_add_of_le' passes
  rw [walkPage, if_pos leveled]
  cases terminal with
  | @pte pde0 above entry path read =>
      have start : (stateAt asic ctx carry 0 pde0).pde0BlockFragmentSize = pde0.fragSize ∧
          (stateAt asic ctx carry 0 pde0).ptbMask =
            lowMask (add64 9 (sub64 ctx.pageTableBlockSize pde0.fragSize)) := ⟨rfl, rfl⟩
      have pass : pdeIsPte asic ctx address 0 false false (stateAt asic ctx carry 0 pde0) entry =
          .final (rebasePte ctx (decodePteEntry asic.gfx entry)) (lowMask (12 + pde0.fragSize)) := by
        simp [pdeIsPte, last, start.1]
      rw [ptbRead] at read
      refine ⟨stateAt asic ctx carry 0 pde0, stateAt_ptePageMask asic ctx carry 0 pde0, ?_⟩
      simp only [sized, pdeLoop_table asic ctx leveled path, walkTables, pteFurther,
        stateAt_pdeFields, start.1, start.2, read, pass]
      rfl
  | @pde depth pde above entry path read leaf =>
      have pass (state : WalkState) : pdeIsPte asic ctx address (depth + 1) true false state entry =
          .final (rebasePte ctx (decodePteEntry asic.gfx entry)) (lowMask (dirShift ctx depth)) := by
        have mask : (depth + 1 - 1) * 9 + (21 + ctx.pageTableBlockSize) = dirShift ctx depth := by
          unfold dirShift
          omega
        simp [pdeIsPte, last, ← mask]
      refine ⟨_, stateAt_ptePageMask asic ctx carry depth (decodePdeEntry asic.gfx entry), ?_⟩
      simp only [sized, pdeLoop_leaf asic ctx leveled path read leaf, walkTables, pass,
        List.append_nil]
      rfl

theorem finalPage_valid (asic : Asic) (address : Nat) (hasDst : Bool) (state : WalkState)
    (entry : Nat) {fields : PteFields} (offsetMask : Nat) (valid : fields.valid = true) :
    finalPage asic hasDst address state entry fields offsetMask =
      .page
        { startAddr :=
            add64 (asic.gpuBusToCpuAddress fields.pageBaseAddr) (address &&& offsetMask)
          ptePageMask := state.ptePageMask
          pteFields := fields
          pteEntry := some entry
          carry := ⟨state.pde0BlockFragmentSize, fields⟩ } := by
  rw [finalPage, if_neg]
  simp [valid]

end Pte

/-! ## The accesses a call issues -/

section Trace

def Event.access? : Event → Option Access
  | .entry _ => none
  | .data access => some access

def State.firstAccess (state : State) : Option Access :=
  (state.trace.filterMap Event.access?).head?

theorem accessPhysical_trace (asic : Asic) (access : Access) (dst : Nat) (writeEn : Bool)
    (state : State) :
    (accessPhysical asic access dst writeEn state).2.trace = state.trace ++ [.data access] := by
  unfold accessPhysical
  split
  · rfl
  · split
    · rfl
    · split
      · unfold State.transfer
        split <;> rfl
      · rfl

variable (asic : Asic) (ctx : VmContext) (fuel : Nat) (writeEn : Bool)

theorem accessChunk_trace (page : Page) (chunk : Nat) (dst : Option Nat) (state : State) :
    ∃ issued, (accessChunk asic ctx writeEn page chunk dst state).2.trace =
      state.trace ++ issued := by
  unfold accessChunk
  split
  · cases dst with
    | none => exact ⟨[], by simp⟩
    | some pos => exact ⟨_, accessPhysical_trace ..⟩
  · exact ⟨[], by simp⟩

theorem pageLoop_trace (pages : Nat) (carry : Carry) (address size : Nat) (dst : Option Nat)
    (state : State) :
    ∃ issued, (pageLoop asic ctx fuel writeEn pages carry address size dst state).2.trace =
      state.trace ++ issued := by
  induction pages generalizing carry address size dst state with
  | zero => exact ⟨[], by simp [pageLoop]⟩
  | succ pages ih =>
      rw [pageLoop]
      generalize walkPage asic ctx state.mem fuel dst.isSome carry address = walk
      obtain ⟨reads, found⟩ := walk
      cases found with
      | running => exact ⟨reads.map .entry, by simp [State.walked]⟩
      | failed => exact ⟨reads.map .entry, by simp [State.walked]⟩
      | page page =>
          simp only
          generalize chunkSize page.startAddr page.ptePageMask size = chunk
          obtain ⟨first, moved⟩ := accessChunk_trace asic ctx writeEn page chunk dst
            ((state.walked asic ctx (reads, .page page)).taking address chunk)
          have here : (accessChunk asic ctx writeEn page chunk dst
              ((state.walked asic ctx (reads, .page page)).taking address chunk)).2.trace =
              state.trace ++ (reads.map .entry ++ first) := by
            rw [moved, State.taking, State.walked, List.append_assoc]
          split
          · split
            · exact ⟨_, here⟩
            · obtain ⟨rest, later⟩ := ih page.carry (add64 address chunk) (size - chunk)
                (dst.map fun pos => pos + chunk) _
              exact ⟨_, by rw [later, here, List.append_assoc]⟩
          · exact ⟨_, here⟩

/-- A call whose first walk finds a mapped page issues the entry reads of that walk and
then the data access. -/
theorem pageLoop_first (pages size pos : Nat) (state : State) {carry : Carry} {address : Nat}
    {reads : List WalkRead} {page : Page}
    (walk : walkPage asic ctx state.mem fuel true carry address = (reads, .page page))
    (mapped : page.pteFields.valid = true) :
    ∃ rest, (pageLoop asic ctx fuel writeEn (pages + 1) carry address size (some pos) state).2.trace =
      state.trace ++ (reads.map .entry ++
        .data (route ctx page.pteFields.system page.startAddr
          (chunkSize page.startAddr page.ptePageMask size)) :: rest) := by
  rw [pageLoop]
  simp only [Option.isSome_some, walk]
  generalize chunkSize page.startAddr page.ptePageMask size = chunk
  have here : (accessChunk asic ctx writeEn page chunk (some pos)
      ((state.walked asic ctx (reads, .page page)).taking address chunk)).2.trace =
      state.trace ++ (reads.map .entry ++
        [.data (route ctx page.pteFields.system page.startAddr chunk)]) := by
    rw [accessChunk, if_pos mapped, accessPhysical_trace, State.taking, State.walked,
      List.append_assoc]
  split
  · split
    · exact ⟨[], here⟩
    · obtain ⟨rest, later⟩ := pageLoop_trace asic ctx fuel writeEn pages page.carry
        (add64 address chunk) (size - chunk) (some (pos + chunk)) (accessChunk asic ctx writeEn page
          chunk (some pos) ((state.walked asic ctx (reads, .page page)).taking address chunk)).2
      refine ⟨rest, ?_⟩
      rw [Option.map_some, later, here]
      simp
  · exact ⟨[], here⟩

end Trace

section Call
variable (asic : Asic) (partition : Int) (vmid address size : Nat) (writeEn : Bool) (fuel : Nat)
  (state : State)

theorem withInputs_vmdataBase :
    (state.withInputs vmid address).vmdataBase = state.vmdataBase := by
  simp only [State.vmdataBase, State.withInputs, Option.map_map]
  rfl

theorem umrAccessVramAi_walks {ctx : VmContext} {dst : Option Nat}
    (context : vmContextOf asic partition vmid state.vmdataBase = some ctx)
    (virtual : vmid &&& 0xFF = 0 → systemAccess ctx address = none)
    (inRange : ctx.pageTableStartAddr ≤ address ∧ address ≤ ctx.pageTableEndAddr + 0xFFF) :
    umrAccessVramAi asic partition vmid address size dst writeEn fuel state =
      pageLoop asic ctx fuel writeEn (size + 1) {} (address - ctx.pageTableStartAddr) size dst
        (state.withInputs vmid address) := by
  have none : (if vmid &&& 0xFF = 0 then systemAccess ctx address else none) = none := by
    by_cases zero : vmid &&& 0xFF = 0
    · rw [if_pos zero, virtual zero]
    · rw [if_neg zero]
  have inside : ¬ (address < ctx.pageTableStartAddr ∨ ctx.pageTableEndAddr + 0xFFF < address) := by
    omega
  simp only [umrAccessVramAi, withInputs_vmdataBase, context, accessInContext, none, if_neg inside]

end Call

/-! ## Calls that walk -/

theorem umrAccessVram_pagewalk {asic : Asic} {partition : Int} {vmid address size : Nat}
    {dst : Option Nat} {writeEn : Bool} {fuel : Nat} {state : State}
    (aligned : ¬ (address % 4 ≠ 0 ∨ size % 4 ≠ 0 ∨ dst.getD 0 % 4 ≠ 0))
    (notProcess : Hub.ofVmid vmid ≠ .process) (notLinear : Hub.ofVmid vmid ≠ .linear)
    (gfx9 : ¬ asic.gfx.maj ≤ 8) :
    umrAccessVram asic partition vmid address size dst writeEn fuel state =
      umrAccessVramAi asic partition vmid (maskAddress asic.family address) size dst writeEn fuel
        state.cleared := by
  have words : ¬ (address % 4 ≠ 0 ∨ size % 4 ≠ 0) := by omega
  have buffer : ¬ dst.getD 0 % 4 ≠ 0 := by omega
  unfold umrAccessVram
  dsimp only
  rw [if_neg words, if_neg buffer]
  cases hub : Hub.ofVmid vmid with
  | process => exact absurd hub notProcess
  | linear => exact absurd hub notLinear
  | gfx => exact if_neg gfx9
  | mm => exact if_neg gfx9
  | mmVc0 => exact if_neg gfx9
  | mmVc1 => exact if_neg gfx9
  | user => exact if_neg gfx9
  | unknown => exact if_neg gfx9

theorem vmContextOf_hub {asic : Asic} {ctx : VmContext} {partition : Int} {vmid base : Nat}
    (context : vmContextOf asic partition vmid base = some ctx) :
    Hub.ofVmid vmid ≠ .process ∧ Hub.ofVmid vmid ≠ .linear := by
  rw [vmContextOf] at context
  constructor
  · intro process
    rw [process] at context
    cases context
  · intro linear
    rw [linear] at context
    cases context

/-! ## Sample parts -/

/-- A gfx9 part with one context whose base register names a directory at `0x1000`. -/
def sampleAsic (depth blockSize endLo32 : UInt32) : Asic where
  family := .ai
  gfx := ⟨9, 0⟩
  readReg _ _ _ reg :=
    match reg with
    | .contextBaseLo32 _ => 0x1001
    | .contextEndLo32 _ => endLo32
    | _ => 0
  bitslice _ _ _ _ bits _ :=
    match bits with
    | .pageTableDepth => depth
    | .pageTableBlockSize => blockSize
    | .systemAccessMode => 0
  readViReg _ := 0
  bitsliceVi _ _ _ := 0
  gpuBusToCpuAddress bus := bus
  present _ _ := true
  gpu := 0
  useXgmi := false
  xgmiLfbSizeAlde := none
  xgmiLfbSize := none
  gcXgmiLfbSize := none
  xgmiNodes := []

def sampleMemory (entries : List (Nat × Nat)) : Memory := fun _ address =>
  match entries.find? fun (base, _) => decide (base ≤ address ∧ address < base + 8) with
  | some (base, entry) => UInt8.ofNat (entry >>> (8 * (address - base)))
  | none => 0

end Umr.Vm
