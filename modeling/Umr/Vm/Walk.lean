import Umr.Vm.Device

/-!
# The page walk of GFX9 and later

The table walk of `umr_access_vram_ai` for one page: the loop over the page
directories, the `pte_further` / `pde_is_pte` passes over the page tables, and the
single-level walk of depth 0.  The walk only reads memory; it returns the entry
reads it made and the page it found.  `pde0_block_fragment_size` and `pte_fields`
survive from one page to the next and are passed along.
-/

set_option autoImplicit false

namespace Umr.Vm

open Umr.Lib

/-- `round_up_pot`: doubling from 1 GiB.  Past `2 ^ 63` the 64-bit value becomes zero
and the loop never ends. -/
def roundUpPot (x : Nat) : Option Nat :=
  let rec go : Nat → Nat → Option Nat
    | 0, _ => none
    | steps + 1, y => if y < x then go steps (2 * y % 2 ^ 64) else some y
  go 64 (2 ^ 30)

def log2VmSize (pageTableStartAddr pageTableEndAddr : Nat) : Option Nat :=
  (roundUpPot (add64 (sub64 pageTableEndAddr pageTableStartAddr) 4096)).map Nat.log2

structure WalkRead where
  level : Nat
  index : Nat
  access : Access
  entry : Option Nat
  deriving DecidableEq, Repr

/-- The local variables the walk changes while it descends. -/
structure WalkState where
  pdeFields : PdeFields
  pde0BlockFragmentSize : Nat
  ptbMask : Nat
  ptePageMask : Nat
  deriving DecidableEq, Repr

/-- What survives from one page to the next. -/
structure Carry where
  pde0BlockFragmentSize : Nat := 0
  pteFields : PteFields := {}
  deriving DecidableEq, Repr

structure Page where
  startAddr : Nat
  ptePageMask : Nat
  pteFields : PteFields
  pteEntry : Option Nat
  carry : Carry
  deriving DecidableEq, Repr

inductive WalkEnd where
  | running
  | failed
  | page (found : Page)
  deriving DecidableEq, Repr

inductive DirEnd where
  | failed
  | invalid (state : WalkState)
  | leafPde (depth entry : Nat) (state : WalkState)
  | table (state : WalkState)
  deriving DecidableEq, Repr

inductive PtePass where
  | further (state : WalkState) (pteIdx : Nat)
  | final (pteFields : PteFields) (offsetMask : Nat)
  deriving DecidableEq, Repr

section Walk
variable (asic : Asic) (ctx : VmContext) (mem : Memory)

/-- The first-level directory entry: `PAGE_TABLE_BASE_ADDR`, relative to the
framebuffer if it points into VRAM. -/
def rootEntry : Nat :=
  if (decodePdeEntry asic.gfx ctx.pageTableBaseAddr).system then ctx.pageTableBaseAddr
  else sub64 ctx.pageTableBaseAddr ctx.vmFbOffset

def rebasePde (fields : PdeFields) : PdeFields :=
  if fields.system then fields
  else { fields with pteBaseAddr := sub64 fields.pteBaseAddr ctx.vmFbOffset }

def rebasePte (fields : PteFields) : PteFields :=
  if fields.system then fields
  else { fields with pageBaseAddr := sub64 fields.pageBaseAddr ctx.vmFbOffset }

def topPdbBits (totalVmBits : Nat) : Int :=
  totalVmBits - 9 * ((ctx.pageTableDepth : Int) - 1) - (ctx.pageTableBlockSize + 21)

def amountToShift (totalVmBits currentDepth : Nat) : Int :=
  (totalVmBits - topPdbBits ctx totalVmBits) - ((ctx.pageTableDepth : Int) - currentDepth) * 9

/-- The directory index at a depth; only the top level keeps all upper bits. -/
def pdeIdx (totalVmBits currentDepth address : Nat) : Nat :=
  let idx := shr64 address (amountToShift ctx totalVmBits currentDepth).toNat
  if currentDepth ≠ ctx.pageTableDepth then idx &&& 511 else idx

def readTable (pde : PdeFields) (level index : Nat) : WalkRead :=
  let access := route ctx pde.system (add64 pde.pteBaseAddr (index * 8)) 8
  { level := level, index := index, access := access, entry := readEntry asic mem access }

/-- The extra rules for PDE0, whose fragment size fixes the page size of its table. -/
def applyPde0 (fields : PdeFields) (state : WalkState) : WalkState :=
  { state with
    pde0BlockFragmentSize := fields.fragSize
    ptbMask := lowMask (add64 9 (sub64 ctx.pageTableBlockSize fields.fragSize))
    ptePageMask := lowMask (fields.fragSize + 12) }

def pdeLoop (totalVmBits address : Nat) : Nat → WalkState → List WalkRead × DirEnd
  | 0, state => ([], .table state)
  | depth + 1, state =>
      let read := readTable asic ctx mem state.pdeFields (depth + 1)
        (pdeIdx ctx totalVmBits (depth + 1) address)
      match read.entry with
      | none => ([read], .failed)
      | some entry =>
          let fields := decodePdeEntry asic.gfx entry
          let state := if depth = 0 then applyPde0 ctx fields state else state
          if fields.pte then
            ([read], .leafPde (depth + 1) entry { state with pdeFields := fields })
          else if fields.valid then
            let rest := pdeLoop totalVmBits address depth
              { state with pdeFields := rebasePde ctx fields }
            (read :: rest.1, rest.2)
          else ([read], .invalid { state with pdeFields := rebasePde ctx fields })

/-- The directory a PTE that acts as a PDE stands for.  With the TFS bit in PDE0 its
address is relative to PDE0's. -/
def furtherPde (currentDepth : Nat) (pdeWasPte : Bool) (pde0 : PdeFields) (entry : Nat) :
    PdeFields :=
  let fields := decodePdeEntry asic.gfx entry
  if 11 ≤ asic.gfx.maj ∧ pde0.tfsAddr ∧ currentDepth = 0 ∧ ¬ pdeWasPte then
    { fields with pteBaseAddr := add64 fields.pteBaseAddr pde0.pteBaseAddr }
  else rebasePde ctx fields

/-- The index into the last-level table: `(1 << num_entry_bits) - 1` is a 32-bit mask. -/
def furtherIdx (address pde0BlockFragmentSize pteBlockFragmentSize : Nat) : Nat :=
  let numEntryBits := (pde0BlockFragmentSize + (2 ^ 32 - pteBlockFragmentSize)) % 2 ^ 32
  shr64 address (12 + pteBlockFragmentSize) &&& (2 ^ (numEntryBits % 32) - 1)

/-- From `pde_is_pte` to the computation of `offset_mask`. -/
def pdeIsPte (address currentDepth : Nat) (pdeWasPte further : Bool) (state : WalkState)
    (entry : Nat) : PtePass :=
  let fields := decodePteEntry asic.gfx entry
  -- the declaration `uint32_t pte_block_fragment_size = 0` is reached again on every pass
  let pteBlockFragmentSize := 0
  if fields.isPde asic.gfx then
    let pde := furtherPde asic ctx currentDepth pdeWasPte state.pdeFields entry
    let pteBlockFragmentSize := pde.fragSize
    .further
      { state with pdeFields := pde, ptePageMask := lowMask (12 + pteBlockFragmentSize) }
      (furtherIdx address state.pde0BlockFragmentSize pteBlockFragmentSize)
  else
    .final (rebasePte ctx fields)
      (if pdeWasPte ∧ currentDepth ≠ 0 then
        lowMask ((currentDepth - 1) * 9 + (21 + ctx.pageTableBlockSize))
      else if ¬ further then lowMask (currentDepth * 9 + (12 + state.pde0BlockFragmentSize))
      else lowMask (12 + pteBlockFragmentSize))

/-- The end of a walk at a final entry: the invalid-page check and `start_addr`. -/
def finalPage (hasDst : Bool) (address : Nat) (state : WalkState) (entry : Nat)
    (fields : PteFields) (offsetMask : Nat) : WalkEnd :=
  if hasDst ∧ ¬ fields.prt ∧ ¬ fields.valid then .failed
  else
    .page
      { startAddr := add64 (asic.gpuBusToCpuAddress fields.pageBaseAddr) (address &&& offsetMask)
        ptePageMask := state.ptePageMask
        pteFields := fields
        pteEntry := some entry
        carry := ⟨state.pde0BlockFragmentSize, fields⟩ }

/-- `pte_further`; `fuel` bounds the number of passes. -/
def pteFurther (hasDst : Bool) (address currentDepth : Nat) (pdeWasPte : Bool) :
    Nat → Bool → WalkState → Nat → List WalkRead × WalkEnd
  | 0, _, _, _ => ([], .running)
  | fuel + 1, further, state, pteIdx =>
      let read := readTable asic ctx mem state.pdeFields 0 pteIdx
      match read.entry with
      | none => ([read], .failed)
      | some entry =>
          match pdeIsPte asic ctx address currentDepth pdeWasPte further state entry with
          | .further state pteIdx =>
              let rest := pteFurther hasDst address currentDepth pdeWasPte fuel true state pteIdx
              (read :: rest.1, rest.2)
          | .final fields offsetMask =>
              ([read], finalPage asic hasDst address state entry fields offsetMask)

/-- What follows the directory loop: an invalid PDE ends the walk (or, while only
decoding, skips to the next page), a PDE with the P bit is taken as the PTE. -/
def walkTables (fuel : Nat) (hasDst : Bool) (carry : Carry) (address : Nat) :
    DirEnd → List WalkRead × WalkEnd
  | .failed => ([], .failed)
  | .invalid state =>
      if hasDst then ([], .failed)
      else
        let fields := { carry.pteFields with prt := false, valid := false, system := false }
        ([], .page
          { startAddr := address &&& 0xFFF
            ptePageMask := state.ptePageMask
            pteFields := fields
            pteEntry := none
            carry := ⟨state.pde0BlockFragmentSize, fields⟩ })
  | .leafPde depth entry state =>
      match pdeIsPte asic ctx address depth true false state entry with
      | .further state pteIdx =>
          pteFurther asic ctx mem hasDst address depth true fuel true state pteIdx
      | .final fields offsetMask =>
          ([], finalPage asic hasDst address state entry fields offsetMask)
  | .table state =>
      pteFurther asic ctx mem hasDst address 0 false fuel false state
        (shr64 address (12 + state.pde0BlockFragmentSize) &&& state.ptbMask)

def walkStart (carry : Carry) : WalkState :=
  { pdeFields := decodePdeEntry asic.gfx (rootEntry asic ctx)
    pde0BlockFragmentSize := carry.pde0BlockFragmentSize
    ptbMask := lowMask 9
    ptePageMask := lowMask 12 }

/-- Depth 0: the base register names the page table itself. -/
def walkFlat (hasDst : Bool) (address : Nat) : List WalkRead × WalkEnd :=
  let pde := decodePdeEntry asic.gfx (rootEntry asic ctx)
  let ptePageMask := lowMask (12 + pde.fragSize)
  if ¬ pde.valid then ([], .failed)
  else
    let pteIdx := shr64 address (12 + pde.fragSize)
    let access : Access :=
      { space := if pde.system then .sram else .vram
        address := add64 pde.pteBaseAddr (pteIdx * 8)
        size := 8 }
    let read : WalkRead :=
      { level := 0, index := pteIdx, access := access, entry := readEntry asic mem access }
    match read.entry with
    | none => ([read], .failed)
    | some entry =>
        let fields := decodePteEntry asic.gfx entry
        if hasDst ∧ ¬ fields.valid then ([read], .failed)
        else
          ([read], .page
            { startAddr :=
                add64 (asic.gpuBusToCpuAddress fields.pageBaseAddr) (address &&& ptePageMask)
              ptePageMask := ptePageMask
              pteFields := fields
              pteEntry := some entry
              carry := ⟨pde.fragSize, fields⟩ })

def walkPage (fuel : Nat) (hasDst : Bool) (carry : Carry) (address : Nat) :
    List WalkRead × WalkEnd :=
  if 1 ≤ ctx.pageTableDepth then
    match log2VmSize ctx.pageTableStartAddr ctx.pageTableEndAddr with
    | none => ([], .running)
    | some totalVmBits =>
        let dir := pdeLoop asic ctx mem totalVmBits address ctx.pageTableDepth
          (walkStart asic ctx carry)
        let rest := walkTables asic ctx mem fuel hasDst carry address dir.2
        (dir.1 ++ rest.1, rest.2)
  else walkFlat asic ctx mem hasDst address

end Walk

end Umr.Vm
