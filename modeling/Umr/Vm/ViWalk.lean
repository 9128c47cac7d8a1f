import Umr.Vm.Moves

/-!
# The SI..VI page walk

Where a byte of GPU-mapped memory lies on SI to VI parts, in terms of divisions and
remainders, and that `umr_access_vram_vi` accesses exactly these bytes.  Every chunk of
its loop stays in one 4 KiB page, since the framebuffer offset is a multiple of the page
size.
-/

set_option autoImplicit false

namespace Umr.Vm

open Umr.Lib
open Umr.Rumr (MemSpace)

/-! ## Where a byte lies -/

section Map
variable (asic : Asic) (ctx : ViContext) (mem : Memory)

/-- The entry of a table in VRAM whose base is an MC address. -/
def viEntry (base index : Nat) : Option Nat :=
  readEntry asic mem ⟨.vram, sub64 (add64 base (index * 8)) ctx.vmFbBase, 8⟩

/-- The page table entry that a directory entry and an index below it select. -/
def viPteUnder (pdeIndex pteIndex : Nat) : Option Nat :=
  (viEntry asic ctx mem ctx.pageTableBaseAddr pdeIndex).bind fun pde =>
    if pde.testBit 0 then viEntry asic ctx mem (pde &&& viBaseMask) pteIndex else none

/-- The directory has one entry for each block of `2 ^ (21 + B)` bytes of a 40-bit space. -/
def viPte (address : Nat) : Option Nat :=
  if ctx.pageTableDepth = 1 then
    viPteUnder asic ctx mem
      (address / 2 ^ (21 + ctx.pageTableBlockSize) % 2 ^ (19 - ctx.pageTableBlockSize))
      (address / 4096 % 2 ^ (9 + ctx.pageTableBlockSize))
  else viEntry asic ctx mem ctx.pageTableBaseAddr (address / 4096)

/-- The place in its page of a byte, and the page that a valid entry names. -/
def viPlace (pte address : Nat) : MemSpace × Nat :=
  let place := (pte &&& viBaseMask) + address % 4096
  if pte.testBit 1 then (.sram, place)
  else (.vram, if ctx.pageTableDepth = 1 then sub64 place ctx.vmFbOffset else place)

def viPhysical (address : Nat) : Option (MemSpace × Nat) :=
  (viPte asic ctx mem address).bind fun pte =>
    if pte.testBit 0 then some (viPlace ctx pte address) else none

end Map

theorem viBaseMask_le (entry : Nat) : entry &&& viBaseMask ≤ viBaseMask := Nat.and_le_right

theorem viBaseMask_mod (entry : Nat) : (entry &&& viBaseMask) % 4096 = 0 := by
  have low : (entry &&& viBaseMask) % 2 ^ 12 = entry % 2 ^ 12 &&& viBaseMask % 2 ^ 12 :=
    Nat.and_mod_two_pow
  rw [show viBaseMask % 2 ^ 12 = 0 from rfl, Nat.and_zero] at low
  exact low

section Walk
variable {asic : Asic} {ctx : ViContext} {mem : Memory}

theorem viPhysical_pte {address : Nat} {place : MemSpace × Nat}
    (mapped : viPhysical asic ctx mem address = some place) :
    ∃ pte, viPte asic ctx mem address = some pte ∧ pte.testBit 0 = true ∧
      place = viPlace ctx pte address := by
  rw [viPhysical, Option.bind_eq_some_iff] at mapped
  obtain ⟨pte, isPte, isPlace⟩ := mapped
  rw [Option.ite_none_right_eq_some] at isPlace
  exact ⟨pte, isPte, isPlace.1, (Option.some.inj isPlace.2).symm⟩

theorem readViEntry_entry (level index base : Nat) :
    (readViEntry asic ctx mem level index base).entry = viEntry asic ctx mem base index := rfl

theorem viPage_eq (identity : ∀ bus, asic.gpuBusToCpuAddress bus = bus) {pte : Nat}
    (valid : pte.testBit 0 = true) (address : Nat) :
    viPage asic true address pte (if ctx.pageTableDepth = 1 then ctx.vmFbOffset else 0) =
      .page (viPlace ctx pte address).2 (decide ((viPlace ctx pte address).1 = .sram)) := by
  have offset : address &&& 0xFFF = address % 4096 := Nat.and_two_pow_sub_one_eq_mod address 12
  have small : (pte &&& viBaseMask) + address % 4096 < 2 ^ 64 := by
    have base := viBaseMask_le pte
    rw [viBaseMask] at base ⊢
    omega
  rw [viPage, if_neg (by simp [valid])]
  simp only [identity, offset, add64_eq small, viPlace]
  by_cases system : pte.testBit 1 = true
  · simp [system]
  · by_cases directory : ctx.pageTableDepth = 1
    · simp [system, directory]
    · have same : sub64 ((pte &&& viBaseMask) + address % 4096) 0 =
          (pte &&& viBaseMask) + address % 4096 := by
        unfold sub64
        omega
      simp [system, directory, same]

theorem viIndices (block : ctx.pageTableBlockSize ≤ 19) (address : Nat) :
    shr64 address (12 + 9 + ctx.pageTableBlockSize) &&&
        lowMask (sub64 (40 - 12 - 9) ctx.pageTableBlockSize) =
      address / 2 ^ (21 + ctx.pageTableBlockSize) % 2 ^ (19 - ctx.pageTableBlockSize) ∧
    shr64 address 12 &&& lowMask (9 + ctx.pageTableBlockSize) =
      address / 4096 % 2 ^ (9 + ctx.pageTableBlockSize) := by
  have width : sub64 (40 - 12 - 9) ctx.pageTableBlockSize = 19 - ctx.pageTableBlockSize := by
    unfold sub64
    omega
  constructor
  · rw [width, and_lowMask _ (by omega), shr64_eq_div _ (by omega)]
  · rw [and_lowMask _ (by omega), shr64_eq_div _ (by omega)]
    norm_num

theorem walkVi_page (identity : ∀ bus, asic.gpuBusToCpuAddress bus = bus)
    (block : ctx.pageTableBlockSize ≤ 19) {address : Nat} {place : MemSpace × Nat}
    (mapped : viPhysical asic ctx mem address = some place) :
    (walkVi asic ctx mem true address).2 = .page place.2 (decide (place.1 = .sram)) := by
  obtain ⟨pte, isPte, valid, rfl⟩ := viPhysical_pte mapped
  have page : viPage asic true address pte
        (if ctx.pageTableDepth = 1 then ctx.vmFbOffset else 0) =
      .page (viPlace ctx pte address).2 (decide ((viPlace ctx pte address).1 = .sram)) :=
    viPage_eq identity valid address
  rw [viPte] at isPte
  by_cases directory : ctx.pageTableDepth = 1
  · rw [if_pos directory, viPteUnder, Option.bind_eq_some_iff] at isPte
    obtain ⟨pde, isPde, isPte⟩ := isPte
    rw [Option.ite_none_right_eq_some] at isPte
    obtain ⟨pdeValid, isPte⟩ := isPte
    rw [if_pos directory] at page
    rw [walkVi, if_pos directory]
    simp only [(viIndices block address).1, (viIndices block address).2, readViEntry_entry, isPde,
      pdeValid, not_true, if_false, isPte]
    exact page
  · rw [if_neg directory] at isPte page
    rw [walkVi, if_neg directory]
    have index : shr64 address 12 = address / 4096 := shr64_eq_div address (by norm_num)
    simp only [index, readViEntry_entry, isPte]
    exact page

theorem readViEntry_same {other : Memory} {level index base : Nat}
    (same : readEntry asic other (readViEntry asic ctx mem level index base).access =
      readEntry asic mem (readViEntry asic ctx mem level index base).access) :
    readViEntry asic ctx other level index base = readViEntry asic ctx mem level index base :=
  congrArg (fun entry => (⟨level, index, _, entry⟩ : WalkRead)) same

/-- The walk depends only on the entries it reads. -/
theorem walkVi_same {other : Memory} {address : Nat}
    (agrees : Agrees asic mem other (walkVi asic ctx mem true address).1) :
    walkVi asic ctx other true address = walkVi asic ctx mem true address := by
  rw [walkVi] at agrees
  rw [walkVi, walkVi]
  by_cases directory : ctx.pageTableDepth = 1
  · simp only [if_pos directory] at agrees ⊢
    generalize shr64 address (12 + 9 + ctx.pageTableBlockSize) &&&
      lowMask (sub64 (40 - 12 - 9) ctx.pageTableBlockSize) = pdeIdx at agrees ⊢
    have head : readViEntry asic ctx other 1 pdeIdx ctx.pageTableBaseAddr =
        readViEntry asic ctx mem 1 pdeIdx ctx.pageTableBaseAddr := by
      refine readViEntry_same (agrees _ ?_)
      split
      · exact List.mem_singleton_self _
      · split
        · exact List.mem_singleton_self _
        · split <;> exact List.mem_cons_self
    rw [head]
    cases pde : (readViEntry asic ctx mem 1 pdeIdx ctx.pageTableBaseAddr).entry with
    | none => rfl
    | some pdeEntry =>
        cases valid : pdeEntry.testBit 0 with
        | false => simp [valid]
        | true =>
            simp only [pde, valid, not_true, if_false] at agrees ⊢
            have last : readViEntry asic ctx other 0
                (shr64 address 12 &&& lowMask (9 + ctx.pageTableBlockSize))
                (pdeEntry &&& viBaseMask) =
              readViEntry asic ctx mem 0
                (shr64 address 12 &&& lowMask (9 + ctx.pageTableBlockSize))
                (pdeEntry &&& viBaseMask) := by
              refine readViEntry_same (agrees _ ?_)
              split <;> exact List.mem_cons_of_mem _ (List.mem_singleton_self _)
            rw [last]
  · simp only [if_neg directory] at agrees ⊢
    have only : readViEntry asic ctx other 0 (shr64 address 12) ctx.pageTableBaseAddr =
        readViEntry asic ctx mem 0 (shr64 address 12) ctx.pageTableBaseAddr := by
      refine readViEntry_same (agrees _ ?_)
      split <;> exact List.mem_singleton_self _
    rw [only]

end Walk

/-! ## One page -/

section Page
variable {asic : Asic} {ctx : ViContext} {mem : Memory}

/-- Addresses of one page have one page table entry. -/
theorem viPte_samePage {address other : Nat} (same : address / 4096 = other / 4096) :
    viPte asic ctx mem address = viPte asic ctx mem other := by
  have block : address / 2 ^ (21 + ctx.pageTableBlockSize) =
      other / 2 ^ (21 + ctx.pageTableBlockSize) :=
    div_pow_congr (show 12 ≤ 21 + ctx.pageTableBlockSize by omega) (by simpa using same)
  rw [viPte, viPte, block, same]

/-- Consecutive bytes of a page lie at consecutive addresses. -/
theorem viPlace_add (offsetPages : ctx.vmFbOffset % 4096 = 0) (pte : Nat) {address offset : Nat}
    (inside : address % 4096 + offset < 4096) :
    viPlace ctx pte (address + offset) =
      ((viPlace ctx pte address).1, (viPlace ctx pte address).2 + offset) := by
  have base := viBaseMask_mod pte
  have small := viBaseMask_le pte
  rw [viBaseMask] at small base
  have place := (add_in_unit inside).2
  simp only [viPlace, place, viBaseMask]
  generalize pte &&& 0xFFFFFFF000 = page at base small ⊢
  by_cases system : pte.testBit 1 = true
  · simp only [system, if_true, Nat.add_assoc]
  · by_cases directory : ctx.pageTableDepth = 1
    · have moved : sub64 (page + (address % 4096 + offset)) ctx.vmFbOffset =
          sub64 (page + address % 4096) ctx.vmFbOffset + offset := by
        unfold sub64
        omega
      simp only [system, directory, if_true, moved]
      rfl
    · simp [system, directory, Nat.add_assoc]

theorem viPhysical_add (offsetPages : ctx.vmFbOffset % 4096 = 0) {address offset : Nat}
    {place : MemSpace × Nat} (mapped : viPhysical asic ctx mem address = some place)
    (inside : address % 4096 + offset < 4096) :
    viPhysical asic ctx mem (address + offset) = some (place.1, place.2 + offset) := by
  obtain ⟨pte, isPte, valid, rfl⟩ := viPhysical_pte mapped
  rw [viPhysical, viPte_samePage (add_in_unit inside).1, isPte, Option.bind_some, if_pos valid,
    viPlace_add offsetPages pte inside]

theorem viPlace_mod (offsetPages : ctx.vmFbOffset % 4096 = 0) (pte address : Nat) :
    (viPlace ctx pte address).2 % 4096 = address % 4096 := by
  have base := viBaseMask_mod pte
  have small := viBaseMask_le pte
  rw [viBaseMask] at small base
  simp only [viPlace, viBaseMask]
  generalize pte &&& 0xFFFFFFF000 = page at base small ⊢
  split
  · simp only
    omega
  · simp only
    split
    · unfold sub64
      omega
    · omega

theorem viPhysical_mod (offsetPages : ctx.vmFbOffset % 4096 = 0) {address : Nat}
    {place : MemSpace × Nat} (mapped : viPhysical asic ctx mem address = some place) :
    place.2 % 4096 = address % 4096 := by
  obtain ⟨pte, isPte, valid, rfl⟩ := viPhysical_pte mapped
  exact viPlace_mod offsetPages pte address

end Page

/-! ## Nodes in whole pages -/

/-- In an XGMI hive no page is shared by two nodes. -/
def WholePages (asic : Asic) : Prop :=
  asic.useXgmi = true → ∀ node ∈ asic.xgmiNodes, node.vramSize % 4096 = 0

theorem roundUpNextGib_pages (x : Nat) : roundUpNextGib x % 4096 = 0 := by
  have run : ∀ steps y, y % 4096 = 0 → roundUpNextGib.go x steps y % 4096 = 0 := by
    intro steps
    induction steps with
    | zero => exact fun y whole => whole
    | succ steps ih =>
        intro y whole
        rw [roundUpNextGib.go]
        split
        · exact ih (y + 2 ^ 30) (by omega)
        · exact whole
  exact run _ _ (by norm_num)

theorem xgmiSegmentSize_pages (asic : Asic) : xgmiSegmentSize asic % 4096 = 0 := by
  have shifted : ∀ size : Nat, size <<< 24 % 4096 = 0 := by
    intro size
    rw [Nat.shiftLeft_eq]
    omega
  unfold xgmiSegmentSize
  split
  · exact shifted _
  · exact shifted _
  · exact shifted _
  · rfl

theorem xgmiNodeOf_add {segmentSize : Nat} (segmentPages : segmentSize % 4096 = 0)
    {nodes : List XgmiNode} (whole : ∀ node ∈ nodes, node.vramSize % 4096 = 0)
    {address offset : Nat} (inside : address % 4096 + offset < 4096) :
    xgmiNodeOf segmentSize nodes (address + offset) =
      (xgmiNodeOf segmentSize nodes address).map fun target => (target.1, target.2 + offset) := by
  induction nodes generalizing address with
  | nil => rfl
  | cons node nodes ih =>
      have nodePages := whole node List.mem_cons_self
      have limitPages : (if segmentSize ≠ 0 then segmentSize else node.vramSize) % 4096 = 0 := by
        split <;> assumption
      have widthPages :
          (if segmentSize ≠ 0 then segmentSize else roundUpNextGib node.vramSize) % 4096 = 0 := by
        split
        · exact segmentPages
        · exact roundUpNextGib_pages _
      rw [xgmiNodeOf, xgmiNodeOf]
      generalize (if segmentSize ≠ 0 then segmentSize else node.vramSize) = limit at limitPages ⊢
      generalize (if segmentSize ≠ 0 then segmentSize else roundUpNextGib node.vramSize) = width
        at widthPages ⊢
      have moved : sub64 (address + offset) width = sub64 address width + offset ∧
          sub64 address width % 4096 = address % 4096 := by
        unfold sub64
        omega
      by_cases here : address < limit
      · rw [if_pos here, if_pos (by omega)]
        rfl
      · rw [if_neg here, if_neg (by omega), moved.1]
        exact ih (fun other member => whole other (List.mem_cons_of_mem _ member)) (by omega)

theorem linearTarget_add {asic : Asic} (whole : WholePages asic) {address offset : Nat}
    (inside : address % 4096 + offset < 4096) :
    linearTarget asic (address + offset) =
      ((linearTarget asic address).1, (linearTarget asic address).2 + offset) := by
  unfold linearTarget
  cases hive : asic.useXgmi with
  | false => rfl
  | true =>
      simp only [if_true]
      rw [xgmiNodeOf_add (xgmiSegmentSize_pages asic) (whole hive) inside]
      cases xgmiNodeOf (xgmiSegmentSize asic) asic.xgmiNodes address <;> rfl

/-- Whole words of a page lie at consecutive addresses of one memory. -/
theorem accessTarget_add {asic : Asic} (whole : WholePages asic) (space : MemSpace)
    {address size : Nat} (aligned : address % 4 = 0) (words : size % 4 = 0) :
    ∃ store target, accessTarget asic ⟨space, address, size⟩ = some (store, target) ∧
      ∀ offset, address % 4096 + offset < 4096 → offset % 4 = 0 →
        accessTarget asic ⟨space, address + offset, 4⟩ = some (store, target + offset) := by
  cases space with
  | sram =>
      refine ⟨.sysram, address, rfl, ?_⟩
      intro offset inside offsetWords
      rfl
  | vram =>
      refine ⟨(linearTarget asic address).1, (linearTarget asic address).2, ?_, ?_⟩
      · have accepted : ¬ (address % 4 ≠ 0 ∨ size % 4 ≠ 0) := by omega
        exact if_neg accepted
      · intro offset inside offsetWords
        rw [accessTarget]
        simp only
        rw [if_neg (by omega), linearTarget_add whole inside]

end Umr.Vm
