import Umr.Vm.Tables

/-!
# Page table entries that act as directory entries

A walk through one page table entry with the further bit.  The last table is indexed
by the address bits above `12 + F`, where `F` is the fragment size of that entry, but
the offset added to the final page keeps only twelve bits: `pte_block_fragment_size`
is zero again when the second pass reaches the offset computation.
-/

set_option autoImplicit false

namespace Umr.Vm

open Umr.Lib
open Umr.Rumr (MemSpace)

section Walk
variable (asic : Asic) (ctx : VmContext) (mem : Memory) (address : Nat)

/-- The walk to `address` meets exactly one page table entry that acts as a directory
entry, of a fragment size within PDE0's, and then a valid final entry. -/
structure FurtherWalk where
  pde0 : PdeFields
  reads : List WalkRead
  path : Reaches asic ctx mem address 0 pde0 reads
  entry : Nat
  read : (ptbRead asic ctx mem address pde0).entry = some entry
  actsAsPde : (decodePteEntry asic.gfx entry).isPde asic.gfx = true
  within : (decodePdeEntry asic.gfx entry).fragSize ≤ pde0.fragSize
  final : Nat
  finalRead : (readTable asic ctx mem (furtherPde asic ctx 0 false pde0 entry) 0
    (furtherIdx address pde0.fragSize (decodePdeEntry asic.gfx entry).fragSize)).entry = some final
  last : (decodePteEntry asic.gfx final).isPde asic.gfx = false
  valid : (decodePteEntry asic.gfx final).valid = true

end Walk

section Offset
variable {asic : Asic} {ctx : VmContext} {mem : Memory} {address : Nat}

def FurtherWalk.fragSize (walk : FurtherWalk asic ctx mem address) : Nat :=
  (decodePdeEntry asic.gfx walk.entry).fragSize

def FurtherWalk.page (walk : FurtherWalk asic ctx mem address) : PteFields :=
  rebasePte ctx (decodePteEntry asic.gfx walk.final)

def FurtherWalk.physical (walk : FurtherWalk asic ctx mem address) : MemSpace × Nat :=
  (if walk.page.system then .sram else .vram,
    add64 walk.page.pageBaseAddr (address % 2 ^ (12 + walk.fragSize)))

theorem furtherPde_fragSize (currentDepth : Nat) (pdeWasPte : Bool) (pde0 : PdeFields)
    (entry : Nat) :
    (furtherPde asic ctx currentDepth pdeWasPte pde0 entry).fragSize =
      (decodePdeEntry asic.gfx entry).fragSize := by
  unfold furtherPde
  split
  · rfl
  · exact rebasePde_fragSize ctx _

theorem FurtherWalk.firstPass (walk : FurtherWalk asic ctx mem address) (carry : Carry) :
    pdeIsPte asic ctx address 0 false false (stateAt asic ctx carry 0 walk.pde0) walk.entry =
      .further
        { stateAt asic ctx carry 0 walk.pde0 with
          pdeFields := furtherPde asic ctx 0 false walk.pde0 walk.entry
          ptePageMask := lowMask (12 + walk.fragSize) }
        (furtherIdx address walk.pde0.fragSize walk.fragSize) := by
  rw [pdeIsPte]
  simp only [walk.actsAsPde, if_true, furtherPde_fragSize, stateAt_pdeFields]
  rfl

theorem FurtherWalk.secondPass (walk : FurtherWalk asic ctx mem address) (state : WalkState) :
    pdeIsPte asic ctx address 0 false true state walk.final = .final walk.page (lowMask 12) := by
  rw [pdeIsPte]
  simp [walk.last, FurtherWalk.page]

theorem FurtherWalk.walkPage_eq (walk : FurtherWalk asic ctx mem address) {fuel : Nat}
    (passes : 2 ≤ fuel) (leveled : 1 ≤ ctx.pageTableDepth) {totalVmBits : Nat}
    (sized : log2VmSize ctx.pageTableStartAddr ctx.pageTableEndAddr = some totalVmBits)
    (carry : Carry) :
    ∃ reads found, walkPage asic ctx mem fuel true carry address = (reads, .page found) ∧
      found.pteFields = walk.page ∧
      found.startAddr =
        add64 (asic.gpuBusToCpuAddress walk.page.pageBaseAddr) (address % 2 ^ 12) := by
  obtain ⟨rest, rfl⟩ := Nat.exists_eq_add_of_le' passes
  have first := walk.read
  have second := walk.finalRead
  have mapped : walk.page.valid = true := by
    rw [FurtherWalk.page, rebasePte_valid]
    exact walk.valid
  rw [ptbRead] at first
  rw [walkPage, if_pos leveled]
  simp only [sized, pdeLoop_table asic ctx leveled walk.path, walkTables, pteFurther,
    stateAt_pdeFields]
  have start : (stateAt asic ctx carry 0 walk.pde0).pde0BlockFragmentSize = walk.pde0.fragSize ∧
      (stateAt asic ctx carry 0 walk.pde0).ptbMask =
        lowMask (add64 9 (sub64 ctx.pageTableBlockSize walk.pde0.fragSize)) := ⟨rfl, rfl⟩
  simp only [start.1, start.2, first, walk.firstPass carry]
  rw [show walk.fragSize = (decodePdeEntry asic.gfx walk.entry).fragSize from rfl]
  simp only [second, walk.secondPass, finalPage_valid asic address true _ walk.final _ mapped]
  refine ⟨_, _, rfl, rfl, ?_⟩
  exact congrArg (add64 _) (and_lowMask address (by norm_num))

theorem add64_left_cancel {base x y : Nat} (xWord : x < 2 ^ 64) (yWord : y < 2 ^ 64) :
    add64 base x = add64 base y ↔ x = y := by
  unfold add64
  omega

theorem low_twelve_iff (address extra : Nat) :
    address % 2 ^ 12 = address % 2 ^ (12 + extra) ↔ address % 2 ^ (12 + extra) < 2 ^ 12 := by
  have nested : address % 2 ^ (12 + extra) % 2 ^ 12 = address % 2 ^ 12 :=
    Nat.mod_mod_of_dvd address (pow_dvd_pow 2 (by omega))
  constructor
  · intro same
    rw [← same]
    exact Nat.mod_lt _ (by norm_num)
  · intro small
    rw [← nested, Nat.mod_eq_of_lt small]

end Offset

/-- Through one page table entry that acts as a directory entry, the access lands on the
final page at the offset of `12 + F` bits exactly if the offset lies in the page's first
4 KiB (and the size of the address space can be computed at all). -/
theorem furtherWalk_physical_iff (asic : Asic) (partition : Int) (vmid address size pos : Nat)
    (writeEn : Bool) (fuel : Nat) (state : State) (ctx : VmContext)
    (context : vmContextOf asic partition vmid state.vmdataBase = some ctx)
    (virtual : vmid &&& 0xFF = 0 → systemAccess ctx address = none)
    (inRange : ctx.pageTableStartAddr ≤ address ∧ address ≤ ctx.pageTableEndAddr + 0xFFF)
    (leveled : 1 ≤ ctx.pageTableDepth) (noZfb : ctx.zfb = false)
    (identity : ∀ bus, asic.gpuBusToCpuAddress bus = bus) (passes : 2 ≤ fuel)
    (walk : FurtherWalk asic ctx state.mem (address - ctx.pageTableStartAddr)) :
    (umrAccessVramAi asic partition vmid address size (some pos) writeEn fuel
        { state with trace := [] }).2.firstAccess.map
          (fun access => (access.space, access.address)) = some walk.physical ↔
      add64 (sub64 ctx.pageTableEndAddr ctx.pageTableStartAddr) 4096 ≤ 2 ^ 63 ∧
        (address - ctx.pageTableStartAddr) % 2 ^ (12 + walk.fragSize) < 2 ^ 12 := by
  rw [umrAccessVramAi_walks asic partition vmid address size writeEn fuel { state with trace := [] }
    context virtual inRange, ← log2VmSize_isSome_iff]
  cases sized : log2VmSize ctx.pageTableStartAddr ctx.pageTableEndAddr with
  | none =>
      have stuck : (pageLoop asic ctx fuel writeEn (size + 1) {}
          (address - ctx.pageTableStartAddr) size (some pos)
          (State.withInputs { state with trace := [] } vmid address)).2.trace = [] := by
        rw [pageLoop, walkPage, if_pos leveled]
        simp [sized, State.walked, State.withInputs]
      simp [State.firstAccess, stuck]
  | some totalVmBits =>
      obtain ⟨reads, found, walked, fields, start⟩ := walk.walkPage_eq passes leveled sized {}
      have mapped : found.pteFields.valid = true := by
        rw [fields, FurtherWalk.page, rebasePte_valid]
        exact walk.valid
      obtain ⟨rest, trace⟩ := pageLoop_first asic ctx fuel writeEn size size pos
        (State.withInputs { state with trace := [] } vmid address) walked mapped
      have first : (pageLoop asic ctx fuel writeEn (size + 1) {}
          (address - ctx.pageTableStartAddr) size (some pos)
          (State.withInputs { state with trace := [] } vmid address)).2.firstAccess =
            some (route ctx walk.page.system found.startAddr
              (chunkSize found.startAddr found.ptePageMask size)) := by
        rw [State.firstAccess, trace, fields]
        simp [State.withInputs, List.filterMap_append, List.filterMap_map, Function.comp_def,
          Event.access?]
      have offsets : add64 walk.page.pageBaseAddr ((address - ctx.pageTableStartAddr) % 2 ^ 12) =
          add64 walk.page.pageBaseAddr
            ((address - ctx.pageTableStartAddr) % 2 ^ (12 + walk.fragSize)) ↔
          (address - ctx.pageTableStartAddr) % 2 ^ (12 + walk.fragSize) < 2 ^ 12 := by
        have bound : walk.fragSize < 32 := decodePdeEntry_fragSize_lt _ _
        have word : (address - ctx.pageTableStartAddr) % 2 ^ (12 + walk.fragSize) < 2 ^ 64 :=
          lt_of_lt_of_le (Nat.mod_lt _ (by positivity))
            (Nat.pow_le_pow_right (by norm_num) (by omega))
        rw [add64_left_cancel (by omega) word, low_twelve_iff]
      rw [first, start, identity, route]
      cases system : walk.page.system <;>
        simpa [noZfb, FurtherWalk.physical, system] using offsets

/-! ## A sample table -/

def furtherAsic : Asic := sampleAsic 1 0 0x3FFFF

def furtherContext : VmContext := readVmContext furtherAsic .gfx 0 .plain .plain 1 0

def samplePde0 : Nat := 0x2001 + 9 * 2 ^ 59

/-- The entry that acts as a directory entry: 64 KiB pages, table at `0x3000`. -/
def sampleFurther : Nat := 0x3001 + 2 ^ 56 + 4 * 2 ^ 59

def sampleFinal : Nat := 0x100001

def furtherMemory : Memory :=
  sampleMemory [(0x1000, samplePde0), (0x2000, sampleFurther), (0x3000, sampleFinal)]

def furtherState : State := ⟨furtherMemory, fun _ => 0, none, [], []⟩

def sampleRoot : PdeFields := decodePdeEntry furtherAsic.gfx (rootEntry furtherAsic furtherContext)

def sampleDirectory : PdeFields :=
  rebasePde furtherContext (decodePdeEntry furtherAsic.gfx samplePde0)

def furtherWalkAt (address : Nat)
    (pde0Read : (dirRead furtherAsic furtherContext furtherMemory address sampleRoot 0).entry =
      some samplePde0)
    (pteRead : (ptbRead furtherAsic furtherContext furtherMemory address sampleDirectory).entry =
      some sampleFurther)
    (finalRead : (readTable furtherAsic furtherContext furtherMemory
      (furtherPde furtherAsic furtherContext 0 false sampleDirectory sampleFurther) 0
      (furtherIdx address 9 4)).entry = some sampleFinal) :
    FurtherWalk furtherAsic furtherContext furtherMemory address where
  pde0 := sampleDirectory
  reads := [] ++ [dirRead furtherAsic furtherContext furtherMemory address sampleRoot 0]
  path := @Reaches.step furtherAsic furtherContext furtherMemory address 0 _ _ _ Reaches.root
    pde0Read (by decide +kernel) (by decide +kernel)
  entry := sampleFurther
  read := pteRead
  actsAsPde := by decide +kernel
  within := by decide +kernel
  final := sampleFinal
  finalRead := finalRead
  last := by decide +kernel
  valid := by decide +kernel

def furtherWalkLow : FurtherWalk furtherAsic furtherContext furtherState.mem 0x800 :=
  furtherWalkAt 0x800 (by decide +kernel) (by decide +kernel) (by decide +kernel)

def furtherWalkHigh : FurtherWalk furtherAsic furtherContext furtherState.mem 0x1000 :=
  furtherWalkAt 0x1000 (by decide +kernel) (by decide +kernel) (by decide +kernel)

theorem furtherWalkLow_physical :
    (umrAccessVramAi furtherAsic 0 1 0x800 4 (some 0) false 2
        { furtherState with trace := [] }).2.firstAccess.map
          (fun access => (access.space, access.address)) = some furtherWalkLow.physical :=
  (furtherWalk_physical_iff furtherAsic 0 1 0x800 4 0 false 2 furtherState furtherContext
    (by decide +kernel) (by decide +kernel) (by decide +kernel) (by decide +kernel)
    (by decide +kernel) (fun _ => rfl) (le_refl 2) furtherWalkLow).mpr
      ⟨by decide +kernel, by decide +kernel⟩

/-- In range of the table, the word at `0x1000` is accessed at `0x100000`, not at `0x101000`. -/
theorem furtherWalkHigh_misplaced :
    vmContextOf furtherAsic 0 1 furtherState.vmdataBase = some furtherContext ∧
      furtherContext.pageTableStartAddr = 0 ∧ 0x1000 ≤ furtherContext.pageTableEndAddr + 0xFFF ∧
      furtherContext.zfb = false ∧ furtherWalkHigh.physical = (.vram, 0x101000) ∧
      (umrAccessVramAi furtherAsic 0 1 0x1000 4 (some 0) false 2
        { furtherState with trace := [] }).2.firstAccess.map
          (fun access => (access.space, access.address)) = some (.vram, 0x100000) := by
  decide +kernel

end Umr.Vm
