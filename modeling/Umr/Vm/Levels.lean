import Umr.Vm.Tables

/-!
# The bits of an address in a walk

A walk to a leaf without page table entries that act as directory entries uses every
bit of the address once: each level takes its index from the bits between the next
level's and its own, and the rest is the offset into the leaf page.
-/

set_option autoImplicit false

namespace Umr.Vm

open Umr.Lib

section Digits
variable (ctx : VmContext)

/-- The part of the address the reads account for. -/
def digitSum (fragSize : Nat) (reads : List WalkRead) : Nat :=
  (reads.map fun read => read.index * 2 ^ levelShift ctx fragSize read.level).sum

theorem digitSum_append (fragSize : Nat) (reads : List WalkRead) (read : WalkRead) :
    digitSum ctx fragSize (reads ++ [read]) =
      digitSum ctx fragSize reads + read.index * 2 ^ levelShift ctx fragSize read.level := by
  simp [digitSum]

/-- The index a level uses: the top directory all upper bits, the others nine bits, the
page table the bits between its page size and the size its directory entry covers. -/
def levelIndex (fragSize address level : Nat) : Nat :=
  if level = 0 then address / 2 ^ (12 + fragSize) % 2 ^ (9 + ctx.pageTableBlockSize - fragSize)
  else if level = ctx.pageTableDepth then
    address / 2 ^ (9 * (level - 1) + 21 + ctx.pageTableBlockSize)
  else address / 2 ^ (9 * (level - 1) + 21 + ctx.pageTableBlockSize) % 512

end Digits

section Path
variable {asic : Asic} {ctx : VmContext} {mem : Memory} {address depth : Nat} {pde : PdeFields}
  {reads : List WalkRead}

theorem Reaches.shift_lt (path : Reaches asic ctx mem address (depth + 1) pde reads)
    (bound : dirShift ctx (ctx.pageTableDepth - 1) < 64) : dirShift ctx depth < 64 := by
  have := path.depth_le
  exact lt_of_le_of_lt (dirShift_mono ctx (by omega)) bound

theorem Reaches.reads_top (path : Reaches asic ctx mem address depth pde reads)
    (top : depth = ctx.pageTableDepth) : reads = [] := by
  cases path with
  | root => rfl
  | step above read directory valid =>
      have := above.depth_le
      omega

theorem digitSum_dirRead (fragSize : Nat) (bound : dirShift ctx (ctx.pageTableDepth - 1) < 64)
    (path : Reaches asic ctx mem address (depth + 1) pde reads)
    (sofar : depth + 1 < ctx.pageTableDepth → digitSum ctx fragSize reads =
      address / 2 ^ dirShift ctx (depth + 1) * 2 ^ dirShift ctx (depth + 1)) :
    digitSum ctx fragSize (reads ++ [dirRead asic ctx mem address pde depth]) =
      address / 2 ^ dirShift ctx depth * 2 ^ dirShift ctx depth := by
  have small := path.shift_lt bound
  rw [digitSum_append]
  change digitSum ctx fragSize reads + dirIdx ctx depth address * 2 ^ dirShift ctx depth = _
  by_cases top : depth + 1 = ctx.pageTableDepth
  · rw [path.reads_top top, dirIdx_top ctx address top small]
    simp [digitSum]
  · have below := path.depth_le
    rw [sofar (by omega), dirIdx_below ctx address top small, dirShift_succ]
    exact digit_refines address (dirShift ctx depth) 9

theorem Reaches.digitSum (fragSize : Nat) (bound : dirShift ctx (ctx.pageTableDepth - 1) < 64)
    (path : Reaches asic ctx mem address depth pde reads) (below : depth < ctx.pageTableDepth) :
    digitSum ctx fragSize reads =
      address / 2 ^ dirShift ctx depth * 2 ^ dirShift ctx depth := by
  induction path with
  | root => omega
  | step above read directory valid ih => exact digitSum_dirRead fragSize bound above ih

theorem dirRead_levelIndex (fragSize : Nat) (bound : dirShift ctx (ctx.pageTableDepth - 1) < 64)
    (path : Reaches asic ctx mem address (depth + 1) pde reads) :
    (dirRead asic ctx mem address pde depth).index =
      levelIndex ctx fragSize address (dirRead asic ctx mem address pde depth).level := by
  have small := path.shift_lt bound
  change dirIdx ctx depth address = levelIndex ctx fragSize address (depth + 1)
  rw [levelIndex, if_neg (by omega), Nat.add_sub_cancel]
  by_cases top : depth + 1 = ctx.pageTableDepth
  · rw [if_pos top, dirIdx_top ctx address top small, dirShift]
  · rw [if_neg top, dirIdx_below ctx address top small, dirShift]

theorem Reaches.levelIndex (fragSize : Nat) (bound : dirShift ctx (ctx.pageTableDepth - 1) < 64)
    (path : Reaches asic ctx mem address depth pde reads) :
    ∀ read ∈ reads, read.index = levelIndex ctx fragSize address read.level := by
  induction path with
  | root => simp
  | step above read directory valid ih =>
      intro read member
      rcases List.mem_append.mp member with earlier | here
      · exact ih read earlier
      · rw [List.mem_singleton.mp here]
        exact dirRead_levelIndex fragSize bound above

def descending (top count : Nat) : List Nat := (List.range count).map fun i => top - i

theorem descending_succ (top count : Nat) :
    descending top (count + 1) = descending top count ++ [top - count] := by
  simp [descending, List.range_succ]

theorem Reaches.levels (path : Reaches asic ctx mem address depth pde reads) :
    reads.map WalkRead.level = descending ctx.pageTableDepth (ctx.pageTableDepth - depth) := by
  induction path with
  | root => simp [descending]
  | @step depth pde reads entry above read directory valid ih =>
      have le := above.depth_le
      have count : ctx.pageTableDepth - depth = ctx.pageTableDepth - (depth + 1) + 1 := by omega
      have last : ctx.pageTableDepth - (ctx.pageTableDepth - (depth + 1)) = depth + 1 := by omega
      rw [List.map_append, ih, count, descending_succ, last]
      rfl

end Path

/-! ## Leaves -/

/-- A walk to `address` that ends at a valid leaf: a page table entry below a PDE0 whose
pages fit its table, or a directory entry with the P bit at any depth. -/
structure LeafWalk (asic : Asic) (ctx : VmContext) (mem : Memory) (address : Nat) where
  level : Nat
  fragSize : Nat
  entry : Nat
  reads : List WalkRead
  terminal : TerminalEntry asic ctx mem address level fragSize entry reads
  fits : level = 0 → fragSize ≤ 9 + ctx.pageTableBlockSize
  last : (decodePteEntry asic.gfx entry).isPde asic.gfx = false
  valid : (decodePteEntry asic.gfx entry).valid = true

section Leaf
variable {asic : Asic} {ctx : VmContext} {mem : Memory} {address : Nat}

def LeafWalk.page (walk : LeafWalk asic ctx mem address) : PteFields :=
  rebasePte ctx (decodePteEntry asic.gfx walk.entry)

theorem LeafWalk.page_valid (walk : LeafWalk asic ctx mem address) : walk.page.valid = true := by
  rw [LeafWalk.page, rebasePte_valid]
  exact walk.valid

/-- The table of a PDE0 has `2 ^ (9 + B - fs)` entries. -/
theorem ptbRead_index {pde0 : PdeFields} (small : pde0.fragSize < 32)
    (fits : pde0.fragSize ≤ 9 + ctx.pageTableBlockSize) (bound : dirShift ctx 0 < 64) :
    (ptbRead asic ctx mem address pde0).index =
      levelIndex ctx pde0.fragSize address (ptbRead asic ctx mem address pde0).level := by
  change shr64 address (12 + pde0.fragSize) &&&
      lowMask (add64 9 (sub64 ctx.pageTableBlockSize pde0.fragSize)) =
    address / 2 ^ (12 + pde0.fragSize) % 2 ^ (9 + ctx.pageTableBlockSize - pde0.fragSize)
  have entries : add64 9 (sub64 ctx.pageTableBlockSize pde0.fragSize) =
      9 + ctx.pageTableBlockSize - pde0.fragSize := by
    unfold dirShift at bound
    unfold add64 sub64
    omega
  unfold dirShift at bound
  rw [entries, shr64_eq_div address (by omega), and_lowMask _ (by omega)]

theorem LeafWalk.shift_lt (walk : LeafWalk asic ctx mem address)
    (bound : dirShift ctx (ctx.pageTableDepth - 1) < 64) :
    levelShift ctx walk.fragSize walk.level < 64 := by
  obtain ⟨level, fragSize, entry, reads, terminal, fits, last, valid⟩ := walk
  cases terminal with
  | pte path read =>
      have := path.fragSize_lt
      simp only [levelShift]
      omega
  | pde path read leaf => exact path.shift_lt bound

theorem LeafWalk.digitSum_reads (walk : LeafWalk asic ctx mem address)
    (leveled : 1 ≤ ctx.pageTableDepth) (bound : dirShift ctx (ctx.pageTableDepth - 1) < 64) :
    digitSum ctx walk.fragSize walk.reads =
      address / 2 ^ levelShift ctx walk.fragSize walk.level *
        2 ^ levelShift ctx walk.fragSize walk.level := by
  obtain ⟨level, fragSize, entry, reads, terminal, fits, last, valid⟩ := walk
  cases terminal with
  | @pte pde0 above entry path read =>
      have bottom : dirShift ctx 0 < 64 := lt_of_le_of_lt (dirShift_mono ctx (by omega)) bound
      have inTable := fits rfl
      have index : (ptbRead asic ctx mem address pde0).index =
          levelIndex ctx pde0.fragSize address 0 :=
        ptbRead_index path.fragSize_lt inTable bottom
      have width : dirShift ctx 0 = 12 + pde0.fragSize +
          (9 + ctx.pageTableBlockSize - pde0.fragSize) := by
        unfold dirShift
        omega
      rw [digitSum_append, path.digitSum pde0.fragSize bound (by omega), index, width]
      exact digit_refines address (12 + pde0.fragSize) _
  | pde path read leaf =>
      exact digitSum_dirRead _ bound path fun below => path.digitSum _ bound below

theorem LeafWalk.reads_index (walk : LeafWalk asic ctx mem address)
    (bound : dirShift ctx (ctx.pageTableDepth - 1) < 64) :
    ∀ read ∈ walk.reads, read.index = levelIndex ctx walk.fragSize address read.level := by
  obtain ⟨level, fragSize, entry, reads, terminal, fits, last, valid⟩ := walk
  intro read member
  cases terminal with
  | @pte pde0 above entry path found =>
      rcases List.mem_append.mp member with earlier | here
      · exact path.levelIndex pde0.fragSize bound read earlier
      · rw [List.mem_singleton.mp here]
        exact ptbRead_index path.fragSize_lt (fits rfl)
          (lt_of_le_of_lt (dirShift_mono ctx (by omega)) bound)
  | pde path found leaf =>
      rcases List.mem_append.mp member with earlier | here
      · exact path.levelIndex _ bound read earlier
      · rw [List.mem_singleton.mp here]
        exact dirRead_levelIndex _ bound path

theorem LeafWalk.reads_levels (walk : LeafWalk asic ctx mem address) :
    walk.reads.map WalkRead.level =
      descending ctx.pageTableDepth (ctx.pageTableDepth - walk.level + 1) := by
  obtain ⟨level, fragSize, entry, reads, terminal, fits, last, valid⟩ := walk
  cases terminal with
  | pte path read =>
      rw [List.map_append, path.levels, descending_succ]
      simp [ptbRead, readTable]
  | @pde depth pde above entry path read leaf =>
      have le := path.depth_le
      have back : ctx.pageTableDepth - (ctx.pageTableDepth - (depth + 1)) = depth + 1 := by omega
      rw [List.map_append, path.levels, descending_succ, back]
      rfl

end Leaf

/-- A walk to a leaf reads, from the top directory down, the entry each level's own bits
select, and accesses the leaf page at the remaining offset: every address bit is used
once. -/
theorem leafWalk_uses_every_bit (asic : Asic) (partition : Int) (vmid address size pos : Nat)
    (writeEn : Bool) (fuel : Nat) (state : State) (ctx : VmContext) (totalVmBits : Nat)
    (context : vmContextOf asic partition vmid state.vmdataBase = some ctx)
    (virtual : vmid &&& 0xFF = 0 → systemAccess ctx address = none)
    (inRange : ctx.pageTableStartAddr ≤ address ∧ address ≤ ctx.pageTableEndAddr + 0xFFF)
    (leveled : 1 ≤ ctx.pageTableDepth)
    (sized : log2VmSize ctx.pageTableStartAddr ctx.pageTableEndAddr = some totalVmBits)
    (spans : 9 * (ctx.pageTableDepth - 1) + 21 + ctx.pageTableBlockSize ≤ totalVmBits)
    (passes : 1 ≤ fuel)
    (walk : LeafWalk asic ctx state.mem (address - ctx.pageTableStartAddr)) :
    (∃ chunk rest,
      (umrAccessVramAi asic partition vmid address size (some pos) writeEn fuel
          { state with trace := [] }).2.trace =
        walk.reads.map .entry ++
          .data (route ctx walk.page.system
            (add64 (asic.gpuBusToCpuAddress walk.page.pageBaseAddr)
              ((address - ctx.pageTableStartAddr) %
                2 ^ levelShift ctx walk.fragSize walk.level)) chunk) :: rest) ∧
      walk.reads.map WalkRead.level =
        descending ctx.pageTableDepth (ctx.pageTableDepth - walk.level + 1) ∧
      (∀ read ∈ walk.reads, read.index =
        levelIndex ctx walk.fragSize (address - ctx.pageTableStartAddr) read.level) ∧
      (walk.reads.map fun read => read.index * 2 ^ levelShift ctx walk.fragSize read.level).sum +
          (address - ctx.pageTableStartAddr) % 2 ^ levelShift ctx walk.fragSize walk.level =
        address - ctx.pageTableStartAddr := by
  have bound : dirShift ctx (ctx.pageTableDepth - 1) < 64 := lt_of_le_of_lt spans
    (log2VmSize_lt sized)
  refine ⟨?_, walk.reads_levels, walk.reads_index bound, ?_⟩
  · obtain ⟨bottom, -, walked⟩ := walk.terminal.walkPage_eq walk.last passes leveled sized true {}
    rw [← LeafWalk.page, finalPage_valid asic _ true bottom walk.entry _ walk.page_valid,
      and_lowMask _ (walk.shift_lt bound)] at walked
    obtain ⟨rest, trace⟩ := pageLoop_first asic ctx fuel writeEn size size pos
      (State.withInputs { state with trace := [] } vmid address) walked walk.page_valid
    exact ⟨_, rest, by
      rw [umrAccessVramAi_walks asic partition vmid address size writeEn fuel
        { state with trace := [] } context virtual inRange, trace]
      rfl⟩
  · have digits := walk.digitSum_reads leveled bound
    rw [digitSum] at digits
    rw [digits, Nat.mul_comm, Nat.div_add_mod]

/-! A two-level table over 512 GiB: the address takes entry 1 of the top directory, entry 2
of the next, entry 3 of the page table, and byte 4 of the page at `0x500000`. -/

def levelsAsic : Asic := sampleAsic 2 0 0x7FFFFFF

def levelsContext : VmContext := readVmContext levelsAsic .gfx 0 .plain .plain 1 0

def levelsState : State :=
  ⟨sampleMemory [(0x1008, 0x2001), (0x2010, 0x3001), (0x3018, 0x500001)], fun _ => 0, none, [], []⟩

def levelsAddress : Nat := 2 ^ 30 + 2 * 2 ^ 21 + 3 * 2 ^ 12 + 4

def levelsWalk : LeafWalk levelsAsic levelsContext levelsState.mem levelsAddress where
  level := 0
  fragSize := _
  entry := 0x500001
  reads := _
  terminal := .pte
    (@Reaches.step _ _ _ _ 0 _ _ 0x3001
      (@Reaches.step _ _ _ _ 1 _ _ 0x2001 Reaches.root (by decide +kernel) (by decide +kernel)
        (by decide +kernel))
      (by decide +kernel) (by decide +kernel) (by decide +kernel))
    (by decide +kernel)
  fits := by decide +kernel
  last := by decide +kernel
  valid := by decide +kernel

theorem levelsWalk_uses_every_bit :
    levelsWalk.page.pageBaseAddr = 0x500000 ∧
      levelsWalk.reads.map WalkRead.index = [1, 2, 3] ∧
      (levelsWalk.reads.map fun read =>
          read.index * 2 ^ levelShift levelsContext levelsWalk.fragSize read.level).sum +
        levelsAddress % 2 ^ levelShift levelsContext levelsWalk.fragSize levelsWalk.level =
          levelsAddress :=
  ⟨by decide +kernel, by decide +kernel,
    (leafWalk_uses_every_bit levelsAsic 0 1 levelsAddress 4 0 false 1 levelsState levelsContext 39
      (by decide +kernel) (by decide +kernel) (by decide +kernel) (by decide +kernel)
      (by decide +kernel) (by decide +kernel) (le_refl 1) levelsWalk).2.2.2⟩

end Umr.Vm
