import Umr.Vm.Path

/-!
# Whether a page walk ends

A walk goes back to `pte_further` whenever the entry it has just read says so, and
`pde_cnt` grows with each such pass; `pde_array` has room for eight.  A call returns and
stays within the array exactly if the tables it meets are shallow, in every page that it visits.
-/

set_option autoImplicit false

namespace Umr.Vm

open Umr.Lib

section Call
variable (asic : Asic) (ctx : VmContext) (vmid address size : Nat) (dst : Option Nat)
  (writeEn : Bool) (state : State)

def firstTurn : PageTurn :=
  { carry := {}
    address := address - ctx.pageTableStartAddr
    size := size
    dst := dst
    state := state.withInputs vmid address }

/-- The turns of the page loop that a call takes; a call that is not walked takes none. -/
def callTurns (fuel : Nat) : List PageTurn :=
  match rangeRoute ctx vmid address with
  | .walked =>
      visited (pageTurn asic ctx fuel writeEn) (size + 1)
        (firstTurn ctx vmid address size dst state)
  | .linear _ => []
  | .refused => []

/-- The call returns, and `pde_cnt` stays within `pde_array` on every page. -/
def WalksBounded (partition : Int) : Prop :=
  (∃ fuel, (umrAccessVramAi asic partition vmid address size dst writeEn fuel state).1 ≠
      .running) ∧
    ∀ ctx, vmContextOf asic partition vmid state.vmdataBase = some ctx →
      ∀ fuel, ∀ turn ∈ callTurns asic ctx vmid address size dst writeEn state fuel,
        pdeCnt asic ctx (turnWalk asic ctx fuel turn).1 ≤ 8

/-- Where there are directories, the span of the root table is at most `2 ^ 63` bytes, and on
each page of the call at most seven entries name another table. -/
def ShallowTables (partition : Int) : Prop :=
  ∀ ctx, vmContextOf asic partition vmid state.vmdataBase = some ctx →
    rangeRoute ctx vmid address = .walked → 1 ≤ ctx.pageTableDepth →
      ∃ totalVmBits, log2VmSize ctx.pageTableStartAddr ctx.pageTableEndAddr = some totalVmBits ∧
        ∀ turn ∈ callTurns asic ctx vmid address size dst writeEn state 8,
          PathWithin asic ctx turn.state.mem 7 totalVmBits turn.carry turn.address

end Call

/-! ## Turns with more or less fuel -/

section Fuel
variable {asic : Asic} {ctx : VmContext} {writeEn : Bool}

theorem pageTurn_fuel {fuel more : Nat} (le : fuel ≤ more) {turn : PageTurn}
    (ended : (turnWalk asic ctx fuel turn).2 ≠ .running) :
    turnWalk asic ctx more turn = turnWalk asic ctx fuel turn ∧
      pageTurn asic ctx more writeEn turn = pageTurn asic ctx fuel writeEn turn := by
  have walk : turnWalk asic ctx more turn = turnWalk asic ctx fuel turn :=
    walkPage_fuel asic ctx turn.state.mem le ended
  refine ⟨walk, ?_⟩
  unfold pageTurn turnMove
  rw [walk]

theorem pageTurn_early {fuel more : Nat} (le : fuel ≤ more) (turn : PageTurn) :
    pageTurn asic ctx fuel writeEn turn = pageTurn asic ctx more writeEn turn ∨
      ∃ result, pageTurn asic ctx fuel writeEn turn = .done result := by
  by_cases running : (turnWalk asic ctx fuel turn).2 = .running
  · right
    unfold pageTurn
    simp only [running]
    exact ⟨_, rfl⟩
  · exact Or.inl (pageTurn_fuel le running).2.symm

theorem accessPhysical_ne_running (asic : Asic) (access : Access) (dst : Nat) (writeEn : Bool)
    (state : State) : (accessPhysical asic access dst writeEn state).1 ≠ .running := by
  unfold accessPhysical
  simp only
  split
  · exact nofun
  · split
    · exact nofun
    · split <;> exact nofun

theorem accessChunk_ne_running (page : Page) (chunk : Nat) (dst : Option Nat) (state : State) :
    (accessChunk asic ctx writeEn page chunk dst state).1 ≠ .running := by
  unfold accessChunk
  split
  · split
    · exact nofun
    · exact accessPhysical_ne_running asic _ _ writeEn state
  · exact nofun

theorem accessLinear_ne_running (asic : Asic) (address size : Nat) (dst : Option Nat)
    (writeEn : Bool) (state : State) :
    (accessLinear asic address size dst writeEn state).1 ≠ .running := by
  unfold accessLinear
  cases dst with
  | none => exact nofun
  | some pos => exact accessPhysical_ne_running asic _ pos writeEn state

/-- The last turn of a call leaves it running only if its own walk does. -/
theorem pageTurn_done {fuel : Nat} {turn : PageTurn} {result : Status × State}
    (ended : (turnWalk asic ctx fuel turn).2 ≠ .running)
    (last : pageTurn asic ctx fuel writeEn turn = .done result) : result.1 ≠ .running := by
  unfold pageTurn at last
  split at last
  · rename_i running
    exact absurd running ended
  · cases last
    exact nofun
  · split at last
    · cases last
    · cases last
      exact accessChunk_ne_running _ _ _ _

end Fuel

section Bound
variable {asic : Asic} {ctx : VmContext} {writeEn : Bool} {first : PageTurn} {pages : Nat}

/-- On shallow tables, runs with more fuel than the tables are deep do not differ. -/
theorem turns_shallow
    (ends : ∀ turn ∈ visited (pageTurn asic ctx 8 writeEn) pages first,
      (turnWalk asic ctx 8 turn).2 ≠ .running) (fuel : Nat) :
    visited (pageTurn asic ctx fuel writeEn) pages first <+:
      visited (pageTurn asic ctx 8 writeEn) pages first := by
  rcases Nat.le_total fuel 8 with less | more
  · exact visited_of_early fun turn => pageTurn_early less turn
  · have same : ∀ turn ∈ visited (pageTurn asic ctx 8 writeEn) pages first,
        pageTurn asic ctx fuel writeEn turn = pageTurn asic ctx 8 writeEn turn :=
      fun turn member => (pageTurn_fuel more (ends turn member)).2
    rw [(loop_congr same).2]

theorem pdeCnt_le_of_turns
    (bounded : ∀ fuel, ∀ turn ∈ visited (pageTurn asic ctx fuel writeEn) pages first,
      pdeCnt asic ctx (turnWalk asic ctx fuel turn).1 ≤ 8)
    {turn : PageTurn} (member : turn ∈ visited (pageTurn asic ctx 8 writeEn) pages first)
    (fuel : Nat) : pdeCnt asic ctx (turnWalk asic ctx fuel turn).1 ≤ 8 := by
  have longer : visited (pageTurn asic ctx 8 writeEn) pages first <+:
      visited (pageTurn asic ctx (max fuel 8) writeEn) pages first :=
    visited_of_early fun turn => pageTurn_early (le_max_right fuel 8) turn
  have bound := bounded (max fuel 8) turn (longer.subset member)
  exact le_trans (pdeCnt_mono asic ctx turn.state.mem (le_max_left fuel 8) _ _ _) bound

end Bound

/-- The walk of one turn: within the array for every fuel exactly if its path is short. -/
theorem turn_bounded_iff (asic : Asic) (ctx : VmContext) (turn : PageTurn) :
    (1 ≤ ctx.pageTableDepth →
        ∃ totalVmBits, log2VmSize ctx.pageTableStartAddr ctx.pageTableEndAddr = some totalVmBits ∧
          PathWithin asic ctx turn.state.mem 7 totalVmBits turn.carry turn.address) ↔
      (turnWalk asic ctx 8 turn).2 ≠ .running ∧
        ∀ fuel, pdeCnt asic ctx (turnWalk asic ctx fuel turn).1 ≤ 8 := by
  by_cases leveled : 1 ≤ ctx.pageTableDepth
  · simp only [leveled, forall_const]
    constructor
    · rintro ⟨totalVmBits, sized, short⟩
      refine ⟨short.ends asic ctx _ leveled sized _, ?_⟩
      exact (pathWithin_iff asic ctx _ leveled sized _ _ _).mp short
    · rintro ⟨ended, bounded⟩
      cases sized : log2VmSize ctx.pageTableStartAddr ctx.pageTableEndAddr with
      | none => simp [turnWalk, walkPage, leveled, sized] at ended
      | some totalVmBits =>
          exact ⟨totalVmBits, rfl, (pathWithin_iff asic ctx _ leveled sized _ _ _).mpr bounded⟩
  · have flat : ctx.pageTableDepth = 0 := by omega
    refine ⟨fun _ => ⟨?_, fun fuel => by simp [pdeCnt, flat]⟩, fun _ deep => absurd deep leveled⟩
    rw [turnWalk, walkPage, if_neg leveled, walkFlat_eq]
    repeat' split
    all_goals exact fun same => (by cases same)

theorem pageLoop_running {asic : Asic} {ctx : VmContext} {fuel pages address size : Nat}
    {writeEn : Bool} {carry : Carry} {dst : Option Nat} {state : State}
    (walk : (walkPage asic ctx state.mem fuel dst.isSome carry address).2 = .running) :
    (pageLoop asic ctx fuel writeEn (pages + 1) carry address size dst state).1 = .running := by
  rw [pageLoop]
  simp only [walk]

section Walked
variable {asic : Asic} {ctx : VmContext} {writeEn : Bool} {first : PageTurn}

theorem pageLoop_returns_iff (word : first.size < 2 ^ 32) (fuel : Nat) :
    (pageLoop asic ctx fuel writeEn (first.size + 1) first.carry first.address first.size first.dst
        first.state).1 ≠ .running ↔
      ∀ turn ∈ visited (pageTurn asic ctx fuel writeEn) (first.size + 1) first,
        (turnWalk asic ctx fuel turn).2 ≠ .running := by
  obtain ⟨result, ended⟩ := pages_end asic ctx fuel writeEn word (Nat.lt_succ_self first.size)
  rw [pageLoop_eq_loop asic ctx fuel writeEn ended]
  constructor
  · intro returned turn member running
    refine returned ?_
    -- the first turn that runs is the last of the call
    have stops : pageTurn asic ctx fuel writeEn turn =
        .done (.running, turn.state.walked asic ctx (turnWalk asic ctx fuel turn)) := by
      simp only [pageTurn, running]
    rw [Option.some.inj (ended.symm.trans (loop_at_done member stops))]
  · intro ends
    obtain ⟨last, member, turn⟩ := loop_result ended
    exact pageTurn_done (ends last member) turn

/-- A walked call is bounded exactly if each of its turns is. -/
theorem walked_bounded_iff (word : first.size < 2 ^ 32) :
    ((∃ fuel, (pageLoop asic ctx fuel writeEn (first.size + 1) first.carry first.address first.size
          first.dst first.state).1 ≠ .running) ∧
        ∀ fuel, ∀ turn ∈ visited (pageTurn asic ctx fuel writeEn) (first.size + 1) first,
          pdeCnt asic ctx (turnWalk asic ctx fuel turn).1 ≤ 8) ↔
      ∀ turn ∈ visited (pageTurn asic ctx 8 writeEn) (first.size + 1) first,
        (turnWalk asic ctx 8 turn).2 ≠ .running ∧
          ∀ fuel, pdeCnt asic ctx (turnWalk asic ctx fuel turn).1 ≤ 8 := by
  constructor
  · rintro ⟨⟨fuel, returned⟩, bounded⟩ turn member
    have every := pdeCnt_le_of_turns bounded member
    refine (turn_bounded_iff asic ctx turn).mp fun leveled => ?_
    -- the first turn has ended, so the size of the space was found
    have started := (pageLoop_returns_iff word fuel).mp returned first (start_visited _)
    cases sized : log2VmSize ctx.pageTableStartAddr ctx.pageTableEndAddr with
    | none => simp [turnWalk, walkPage, leveled, sized] at started
    | some totalVmBits =>
        exact ⟨totalVmBits, rfl, (pathWithin_iff asic ctx _ leveled sized _ _ _).mpr every⟩
  · intro each
    refine ⟨⟨8, ?_⟩, fun fuel turn member => ?_⟩
    · exact (pageLoop_returns_iff word 8).mpr fun turn member => (each turn member).1
    · have shallow := turns_shallow (fun turn member => (each turn member).1) fuel
      exact (each turn (shallow.subset member)).2 fuel

end Walked

/-- A call returns, with `pde_cnt` within its array on every page, exactly on shallow tables. -/
theorem walksBounded_iff (asic : Asic) (partition : Int) (vmid address size : Nat)
    (dst : Option Nat) (writeEn : Bool) (state : State) (word : size < 2 ^ 32) :
    WalksBounded asic vmid address size dst writeEn state partition ↔
      ShallowTables asic vmid address size dst writeEn state partition := by
  unfold WalksBounded ShallowTables
  cases context : vmContextOf asic partition vmid state.vmdataBase with
  | none =>
      refine ⟨fun _ _ same => (by cases same), fun _ => ⟨⟨0, ?_⟩, fun _ same => by cases same⟩⟩
      simp [umrAccessVramAi, withInputs_vmdataBase, context]
  | some ctx =>
      have call : ∀ fuel, umrAccessVramAi asic partition vmid address size dst writeEn fuel state =
          accessInContext asic ctx vmid address size dst writeEn fuel
            (state.withInputs vmid address) :=
        fun fuel => umrAccessVramAi_route context asic.present dst writeEn fuel rfl
      simp only [call, accessInContext_route, Option.some.injEq, forall_eq']
      cases route : rangeRoute ctx vmid address with
      | linear base =>
          refine ⟨fun _ same => (by cases same), fun _ => ⟨⟨0, ?_⟩, ?_⟩⟩
          · exact accessLinear_ne_running asic base size dst writeEn _
          · intro fuel turn member
            simp [callTurns, route] at member
      | refused =>
          refine ⟨fun _ same => (by cases same), fun _ => ⟨⟨0, fun same => by cases same⟩, ?_⟩⟩
          intro fuel turn member
          simp [callTurns, route] at member
      | walked =>
          have turns : ∀ fuel, callTurns asic ctx vmid address size dst writeEn state fuel =
              visited (pageTurn asic ctx fuel writeEn) (size + 1)
                (firstTurn ctx vmid address size dst state) := by
            intro fuel
            simp only [callTurns, route]
          simp only [turns, forall_const]
          refine (@walked_bounded_iff asic ctx writeEn (firstTurn ctx vmid address size dst state)
            word).trans ?_
          simp only [← turn_bounded_iff]
          constructor
          · intro each leveled
            obtain ⟨totalVmBits, sized, -⟩ := each _ (start_visited _) leveled
            refine ⟨totalVmBits, sized, fun turn member => ?_⟩
            obtain ⟨other, same, short⟩ := each turn member leveled
            cases sized.symm.trans same
            exact short
          · intro shallow turn member leveled
            obtain ⟨totalVmBits, sized, each⟩ := shallow leveled
            exact ⟨totalVmBits, sized, each turn member⟩

/-! ## A page table that names itself -/

def selfAsic : Asic := sampleAsic 1 0 0x3FFFF

def selfContext : VmContext := readVmContext selfAsic .gfx 0 .plain .plain 1 0

/-- The entry of the first page is a further entry for the table it is in; the second page is
mapped. -/
def selfState : State :=
  ⟨sampleMemory [(0x1000, 0x2001), (0x2000, 0x2001 + 2 ^ 56), (0x2008, 0x10001)], fun _ => 0, none,
    [], []⟩

theorem self_bits : log2VmSize selfContext.pageTableStartAddr selfContext.pageTableEndAddr = some 30 := by
  decide +kernel

theorem second_page_bounded : WalksBounded selfAsic 1 0x1000 4 (some 0) false selfState 0 := by
  refine (walksBounded_iff selfAsic 0 1 0x1000 4 (some 0) false selfState (by norm_num)).mpr ?_
  intro ctx found _ _
  have same : selfContext = ctx := Option.some.inj found
  subst same
  refine ⟨30, self_bits, fun turn member => ?_⟩
  have one : (callTurns selfAsic selfContext 1 0x1000 4 (some 0) false selfState 8).length = 1 := by
    decide +kernel
  obtain ⟨only, turns⟩ := List.length_eq_one_iff.mp one
  have route : rangeRoute selfContext 1 0x1000 = .walked := by decide +kernel
  have first : firstTurn selfContext 1 0x1000 4 (some 0) selfState ∈
      callTurns selfAsic selfContext 1 0x1000 4 (some 0) false selfState 8 := by
    rw [callTurns, route]
    exact start_visited 4
  rw [turns, List.mem_singleton] at first member
  rw [member, ← first]
  refine ⟨0, by decide +kernel, fun pass begins => ?_⟩
  have ends : ((firstPass selfAsic selfContext 0x1000 (pdeLoop selfAsic selfContext selfState.mem 30
      0x1000 1 (walkStart selfAsic selfContext {})).2).all fun pass =>
        (loop (tablePass selfAsic selfContext selfState.mem false 0x1000) 1 pass).isSome) = true := by
    decide +kernel
  have here : firstPass selfAsic selfContext 0x1000 (pdeLoop selfAsic selfContext selfState.mem 30
      0x1000 1 (walkStart selfAsic selfContext {})).2 = some pass := begins
  rw [here] at ends
  exact endsWithin_iff_loop.mpr ends

/-- The pass over the table of the first page, with the table named by PDE0 or by the entry
itself. -/
def selfPass (further : Bool) (entry : Nat) : TablePass :=
  ⟨0, false, further, ⟨decodePdeEntry selfAsic.gfx entry, 0, lowMask 9, lowMask 12⟩, 0⟩

theorem self_walk_runs (hasDst : Bool) (fuel : Nat) :
    (walkPage selfAsic selfContext selfState.mem fuel hasDst {} 0).2 = .running := by
  have first : firstPass selfAsic selfContext 0 (pdeLoop selfAsic selfContext selfState.mem 30 0
      selfContext.pageTableDepth (walkStart selfAsic selfContext {})).2 = some (selfPass false 0x2001) := by
    decide +kernel
  have enters : tablePass selfAsic selfContext selfState.mem hasDst 0 (selfPass false 0x2001) =
      .again (selfPass true (0x2001 + 2 ^ 56)) := by
    cases hasDst <;> decide +kernel
  have cycles : tablePass selfAsic selfContext selfState.mem hasDst 0
      (selfPass true (0x2001 + 2 ^ 56)) = .again (selfPass true (0x2001 + 2 ^ 56)) := by
    cases hasDst <;> decide +kernel
  rw [walkPage_leveled selfAsic selfContext _ (by decide) self_bits,
    walkTables_first selfAsic selfContext _ first]
  cases fuel with
  | zero => rfl
  | succ fuel => rw [loop_again enters, loop_cycle cycles]; rfl

theorem self_naming_table_unbounded :
    (∀ fuel, (umrAccessVramAi selfAsic 0 1 0 4 (some 0) false fuel selfState).1 = .running) ∧
      ¬ WalksBounded selfAsic 1 0 4 (some 0) false selfState 0 := by
  have never : ∀ fuel,
      (umrAccessVramAi selfAsic 0 1 0 4 (some 0) false fuel selfState).1 = .running := by
    intro fuel
    have walk : (walkPage selfAsic selfContext (selfState.withInputs 1 0).mem fuel true {} 0).2 =
        .running := self_walk_runs true fuel
    have call := @umrAccessVramAi_walks selfAsic 0 1 0 4 false fuel selfState selfContext (some 0) rfl
      nofun (by decide)
    rw [call]
    exact pageLoop_running walk
  refine ⟨never, ?_⟩
  rintro ⟨⟨fuel, returned⟩, -⟩
  exact returned (never fuel)

end Umr.Vm
