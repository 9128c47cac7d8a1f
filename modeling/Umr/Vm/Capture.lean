import Umr.Vm.Bulk
import Umr.Vm.Termination

/-!
# The captured page walk

What `vmdata` holds after a call.  Each page adds the base entry and its directory entries to
`pde`, which has room for eight, and nothing takes them away between pages except the linear
access to a page in VRAM: it is a call of `umr_access_vram` of its own, is handed the same
`vmdata`, and clears it.
-/

set_option autoImplicit false

namespace Umr.Vm

open Umr.Lib
open Umr.Rumr (MemSpace)

/-! ## What one walk captures -/

section Walk
variable (asic : Asic) (ctx : VmContext)

def entriesOf (reads : List WalkRead) : List Nat := reads.filterMap WalkRead.entry

theorem captureRead_pde (walk : VmPagewalk) (read : WalkRead) :
    (captureRead asic ctx walk read).pde =
      walk.pde ++ entriesOf ([read].filter (namesDirectory asic)) := by
  unfold captureRead namesDirectory entriesOf
  cases found : read.entry with
  | none => simp [found]
  | some entry =>
      by_cases table : read.level = 0
      · by_cases flat : ctx.pageTableDepth = 0
        · simp [found, table, flat]
        · simp [found, table, flat]
      · by_cases leaf : (decodePdeEntry asic.gfx entry).pte = true
        · simp [found, table, leaf]
        · simp [found, table, leaf]

theorem captureReads_pde (reads : List WalkRead) (walk : VmPagewalk) :
    (reads.foldl (captureRead asic ctx) walk).pde =
      walk.pde ++ entriesOf (reads.filter (namesDirectory asic)) := by
  induction reads generalizing walk with
  | nil => simp [entriesOf]
  | cons read reads ih =>
      rw [List.foldl_cons, ih, captureRead_pde, List.append_assoc, entriesOf, entriesOf,
        ← List.filterMap_append, ← List.filter_append]
      rfl

theorem captureWalk_pde (reads : List WalkRead) (found : WalkEnd) (walk : VmPagewalk) :
    (captureWalk asic ctx reads found walk).pde =
      walk.pde ++ rootEntry asic ctx :: entriesOf (reads.filter (namesDirectory asic)) := by
  have passed : (reads.foldl (captureRead asic ctx) { walk with
      pde := walk.pde ++ [rootEntry asic ctx]
      pdeFields := walk.pdeFields ++ [{}] }).pde =
        walk.pde ++ rootEntry asic ctx :: entriesOf (reads.filter (namesDirectory asic)) := by
    rw [captureReads_pde]
    simp
  unfold captureWalk
  simp only
  split
  · split
    · split
      · exact passed
      · exact passed
    · exact passed
  · exact passed
  · exact passed

theorem entriesOf_length {reads : List WalkRead} (read : ∀ read ∈ reads, read.entry.isSome = true) :
    (entriesOf reads).length = reads.length := by
  induction reads with
  | nil => rfl
  | cons first reads ih =>
      obtain ⟨entry, found⟩ := Option.isSome_iff_exists.mp (read first List.mem_cons_self)
      have rest := ih fun other member => read other (List.mem_cons_of_mem _ member)
      simp only [entriesOf, List.filterMap_cons, found, List.length_cons] at rest ⊢
      rw [rest]

theorem namesDirectory_isSome {read : WalkRead} (names : namesDirectory asic read = true) :
    read.entry.isSome = true := by
  unfold namesDirectory at names
  split at names
  · cases names
  · rename_i entry found
    rw [found]
    rfl

theorem captureWalk_levels (reads : List WalkRead) (found : WalkEnd) (walk : VmPagewalk) :
    (captureWalk asic ctx reads found walk).pde.length =
      walk.pde.length + (1 + reads.countP (namesDirectory asic)) := by
  have entries : (entriesOf (reads.filter (namesDirectory asic))).length =
      (reads.filter (namesDirectory asic)).length :=
    entriesOf_length fun read member => namesDirectory_isSome asic (List.mem_filter.mp member).2
  rw [captureWalk_pde, List.length_append, List.length_cons, entries, ← List.countP_eq_length_filter]
  omega

end Walk

/-! ## Levels along a call -/

section Levels
variable (asic : Asic) (ctx : VmContext) (fuel : Nat) (writeEn : Bool)

/-- The base and the directory entries of the page. -/
def pageLevels (turn : PageTurn) : Nat :=
  1 + (turnWalk asic ctx fuel turn).1.countP (namesDirectory asic)

def accessesVram (dst : Option Nat) (page : Page) (size : Nat) : Bool :=
  dst.isSome && page.pteFields.valid &&
    decide ((route ctx page.pteFields.system page.startAddr size).space = .vram)

def turnClears (turn : PageTurn) : Bool :=
  match (turnWalk asic ctx fuel turn).2 with
  | .page page => accessesVram ctx turn.dst page (turnChunk turn page)
  | .running => false
  | .failed => false

/-- `levels` when the walk of a turn leaves off; without `vmdata` there are none. -/
def turnLevels (turn : PageTurn) : Nat :=
  ((turn.state.walked asic ctx (turnWalk asic ctx fuel turn)).vmdata.map fun data =>
    data.pde.length).getD 0

/-- Pages that follow each other without a clearing access in between have at most `limit`
levels together. -/
def stretchesFit (limit : Nat) : Nat → List (Nat × Bool) → Bool
  | _, [] => true
  | sum, (levels, clears) :: rest =>
      decide (sum + levels ≤ limit) && stretchesFit limit (if clears then 0 else sum + levels) rest

theorem accessPhysical_vmdata (access : Access) (dst : Nat) (state : State) :
    (accessPhysical asic access dst writeEn state).2.vmdata = (state.issue access).vmdata := by
  unfold accessPhysical
  split
  · rfl
  · split
    · rfl
    · split
      · cases writeEn <;> rfl
      · rfl

theorem accessChunk_vmdata (page : Page) (chunk : Nat) (dst : Option Nat) (state : State) :
    (accessChunk asic ctx writeEn page chunk dst state).2.vmdata =
      if accessesVram ctx dst page chunk then state.vmdata.map VmPagewalk.cleared
      else state.vmdata := by
  unfold accessChunk accessesVram
  cases page.pteFields.valid with
  | false => simp
  | true =>
      cases dst with
      | none => simp
      | some pos =>
          simp [accessPhysical_vmdata, State.issue]

theorem turnLevels_eq {turn : PageTurn} {data : VmPagewalk} (capturing : turn.state.vmdata = some data) :
    turnLevels asic ctx fuel turn = data.pde.length + pageLevels asic ctx fuel turn := by
  simp only [turnLevels, State.walked, capturing, Option.map_some, Option.getD_some,
    captureWalk_levels, pageLevels]

theorem pageTurn_vmdata {turn next : PageTurn} {data : VmPagewalk}
    (capturing : turn.state.vmdata = some data)
    (goes : pageTurn asic ctx fuel writeEn turn = .again next) :
    ∃ after, next.state.vmdata = some after ∧ after.pde.length =
      if turnClears asic ctx fuel turn then 0
      else data.pde.length + pageLevels asic ctx fuel turn := by
  unfold pageTurn at goes
  unfold turnClears
  split at goes
  · cases goes
  · cases goes
  · rename_i page found
    split at goes
    · cases goes
      have walked : ((turn.state.walked asic ctx (turnWalk asic ctx fuel turn)).taking turn.address
          (turnChunk turn page)).vmdata = some (captureWalk asic ctx (turnWalk asic ctx fuel turn).1
            (turnWalk asic ctx fuel turn).2 data) := by
        simp [State.walked, State.taking, capturing]
      simp only [turnMove, accessChunk_vmdata, walked, found]
      cases accessesVram ctx turn.dst page (turnChunk turn page) with
      | true => exact ⟨_, rfl, rfl⟩
      | false =>
          refine ⟨_, rfl, ?_⟩
          rw [captureWalk_levels]
          rfl
    · cases goes

theorem turns_fit {pages : Nat} {turn : PageTurn} {data : VmPagewalk} (limit : Nat)
    (capturing : turn.state.vmdata = some data) :
    (∀ visit ∈ visited (pageTurn asic ctx fuel writeEn) pages turn,
        turnLevels asic ctx fuel visit ≤ limit) ↔
      stretchesFit limit data.pde.length
        ((visited (pageTurn asic ctx fuel writeEn) pages turn).map fun visit =>
          (pageLevels asic ctx fuel visit, turnClears asic ctx fuel visit)) = true := by
  induction pages generalizing turn data with
  | zero => simp [visited, stretchesFit]
  | succ pages ih =>
      have here := turnLevels_eq asic ctx fuel capturing
      cases goes : pageTurn asic ctx fuel writeEn turn with
      | done result => simp [visited_done goes, stretchesFit, here]
      | again next =>
          obtain ⟨after, kept, levels⟩ := pageTurn_vmdata asic ctx fuel writeEn capturing goes
          have rest := ih kept
          rw [levels] at rest
          simp only [visited_again goes, List.forall_mem_cons, List.map_cons, stretchesFit,
            Bool.and_eq_true, decide_eq_true_eq, here, rest]

end Levels

section Bound
variable (asic : Asic) (partition : Int) (vmid address size : Nat) (dst : Option Nat)
  (writeEn : Bool) (state : State)

/-- The turns of a call of `umr_access_vram`, which refuses what is not in words and walks
these tables from GFX9 on. -/
def accessTurns (ctx : VmContext) (fuel : Nat) : List PageTurn :=
  if 9 ≤ asic.gfx.maj ∧ (address % 4 = 0 ∧ size % 4 = 0) ∧ dst.getD 0 % 4 = 0 then
    callTurns asic ctx vmid (maskAddress asic.family address) size dst writeEn state.cleared fuel
  else []

/-- No turn of the call takes `levels` beyond the eight entries of `pde` and `pde_fields`. -/
def LevelsBounded : Prop :=
  ∀ ctx, vmContextOf asic partition vmid state.vmdataBase = some ctx →
    ∀ fuel, ∀ turn ∈ accessTurns asic vmid address size dst writeEn state ctx fuel,
      turnLevels asic ctx fuel turn ≤ 8

/-- Pages of the call that are walked one after the other, with no access to VRAM in between,
have at most eight levels together: one for the base, one for each directory entry. -/
def StretchesFit : Prop :=
  ∀ ctx, vmContextOf asic partition vmid state.vmdataBase = some ctx →
    ∀ fuel, stretchesFit 8 0
      ((accessTurns asic vmid address size dst writeEn state ctx fuel).map fun turn =>
        (pageLevels asic ctx fuel turn, turnClears asic ctx fuel turn)) = true

end Bound

theorem umrAccessVram_virtual {asic : Asic} {ctx : VmContext} {partition : Int}
    {vmid address size base : Nat} {dst : Option Nat} {writeEn : Bool} {fuel : Nat} {state : State}
    (gfx9 : 9 ≤ asic.gfx.maj) (context : vmContextOf asic partition vmid base = some ctx)
    (words : address % 4 = 0 ∧ size % 4 = 0) (aligned : dst.getD 0 % 4 = 0) :
    umrAccessVram asic partition vmid address size dst writeEn fuel state =
      umrAccessVramAi asic partition vmid (maskAddress asic.family address) size dst writeEn fuel
        state.cleared := by
  obtain ⟨notProcess, notLinear⟩ := vmContextOf_hub context
  exact umrAccessVram_pagewalk (by omega) notProcess notLinear (by omega)

/-- The capture stays within its arrays exactly if stretches of pages are short. -/
theorem levelsBounded_iff (asic : Asic) (partition : Int) (vmid address size : Nat)
    (dst : Option Nat) (writeEn : Bool) (state : State) (capturing : state.vmdata.isSome = true) :
    LevelsBounded asic partition vmid address size dst writeEn state ↔
      StretchesFit asic partition vmid address size dst writeEn state := by
  refine forall_congr' fun ctx => forall_congr' fun _ => forall_congr' fun fuel => ?_
  obtain ⟨before, found⟩ := Option.isSome_iff_exists.mp capturing
  have fresh : (firstTurn ctx vmid (maskAddress asic.family address) size dst
      state.cleared).state.vmdata = some { before.cleared with
        va := maskAddress asic.family address, vmid := vmid } := by
    simp [firstTurn, State.withInputs, State.cleared, found]
  unfold accessTurns
  split
  · unfold callTurns
    split
    · exact turns_fit asic ctx fuel writeEn 8 fresh
    · simp [stretchesFit]
    · simp [stretchesFit]
  · simp [stretchesFit]

/-! ## Decoding five pages of a two-level table -/

def decodeAsic (depth : UInt32) : Asic := sampleAsic depth 0 0x3FFFF

def decodeState : State := ⟨sampleMemory [(0x1000, 0x2001)], fun _ => 0, some {}, [], []⟩

def flatContext : VmContext := readVmContext (decodeAsic 0) .gfx 0 .plain .plain 1 0

/-- Nothing in a flat walk depends on how many passes are allowed. -/
theorem flat_fuel (fuel : Nat) :
    pageLevels (decodeAsic 0) flatContext fuel = pageLevels (decodeAsic 0) flatContext 0 ∧
      turnClears (decodeAsic 0) flatContext fuel = turnClears (decodeAsic 0) flatContext 0 ∧
      pageTurn (decodeAsic 0) flatContext fuel false =
        pageTurn (decodeAsic 0) flatContext 0 false := by
  have flat : ¬ 1 ≤ flatContext.pageTableDepth := by decide
  have walk : turnWalk (decodeAsic 0) flatContext fuel = turnWalk (decodeAsic 0) flatContext 0 := by
    funext turn
    rw [turnWalk, turnWalk, walkPage, walkPage, if_neg flat, if_neg flat]
  refine ⟨?_, ?_, ?_⟩
  · funext turn
    rw [pageLevels, pageLevels, walk]
  · funext turn
    rw [turnClears, turnClears, walk]
  · funext turn
    unfold pageTurn turnMove
    rw [walk]

theorem flat_page_levelsBounded :
    LevelsBounded (decodeAsic 0) 0 1 0 4096 none false decodeState := by
  refine (levelsBounded_iff (decodeAsic 0) 0 1 0 4096 none false decodeState rfl).mpr ?_
  intro ctx found fuel
  have same : flatContext = ctx := Option.some.inj found
  subst same
  obtain ⟨levels, clears, turns⟩ := flat_fuel fuel
  rw [accessTurns, callTurns, levels, clears, turns]
  decide +kernel

/-- Five pages with two levels each are written to ten places of the arrays of eight. -/
theorem decode_five_pages :
    ((umrAccessVram (decodeAsic 1) 0 1 0 0x5000 none false 8 decodeState).2.vmdata.map fun data =>
        data.pde.length) = some 10 ∧
      ¬ LevelsBounded (decodeAsic 1) 0 1 0 0x5000 none false decodeState := by
  refine ⟨by decide +kernel, ?_⟩
  intro bounded
  have fits := (turns_fit (decodeAsic 1) (readVmContext (decodeAsic 1) .gfx 0 .plain .plain 1 0) 8
    false 8 rfl).mp (bounded _ rfl 8)
  have tooMany : stretchesFit 8 0 ((callTurns (decodeAsic 1)
      (readVmContext (decodeAsic 1) .gfx 0 .plain .plain 1 0) 1 0 0x5000 none false
        decodeState.cleared 8).map fun turn =>
          (pageLevels (decodeAsic 1) (readVmContext (decodeAsic 1) .gfx 0 .plain .plain 1 0) 8 turn,
            turnClears (decodeAsic 1) (readVmContext (decodeAsic 1) .gfx 0 .plain .plain 1 0) 8
              turn)) = false := by
    decide +kernel
  cases tooMany.symm.trans fits

end Umr.Vm
