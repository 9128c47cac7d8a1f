import Umr.Vm.Walk

/-!
# GPU-mapped memory accesses

`umr_access_vram` and the two page-walking accesses behind it, as state passing
over the memories and the caller's buffer.  The state also records the physical
accesses in the order they are issued and, on request, the captured page walk.
-/

set_option autoImplicit false

namespace Umr.Vm

open Umr.Lib
open Umr.Rumr (ChipFamily)

/-- `struct umr_vm_pagewalk`; `levels` is the length of `pde`.  The fields that only
verbose runs fill in are left out. -/
structure VmPagewalk where
  vmid : Nat := 0
  va : Nat := 0
  pde : List Nat := []
  pdeFields : List PdeFields := []
  pte : Nat := 0
  pteFields : PteFields := {}
  pageTableBaseAddr : Nat := 0
  deriving DecidableEq, Repr

inductive Event where
  | entry (read : WalkRead)
  | data (access : Access)
  deriving DecidableEq, Repr

/-- The memories, the caller's buffer by offset and the captured walk; for the record, the
accesses issued so far and the chunks (address and size) the page loop has taken. -/
structure State where
  mem : Memory
  buf : Nat → UInt8
  vmdata : Option VmPagewalk
  trace : List Event
  chunks : List (Nat × Nat)

/-- `running` stands for a call that has not returned within the given bounds. -/
inductive Status where
  | ok | failed | running
  deriving DecidableEq, Repr

def State.transfer (state : State) (store : Store) (address dst size : Nat) (writeEn : Bool) :
    State :=
  if writeEn then
    { state with
      mem := Function.update state.mem store
        (copyBlock state.buf dst (state.mem store) address size) }
  else { state with buf := copyBlock (state.mem store) address state.buf dst size }

def VmPagewalk.cleared (walk : VmPagewalk) : VmPagewalk :=
  { pageTableBaseAddr := walk.pageTableBaseAddr }

/-- The bookkeeping of an issued access: the record, and the cleared `vmdata` if it goes
through `umr_access_vram`. -/
def State.issue (state : State) (access : Access) : State :=
  { state with
    trace := state.trace ++ [.data access]
    vmdata := if access.space = .vram then state.vmdata.map VmPagewalk.cleared else state.vmdata }

def accessPhysical (asic : Asic) (access : Access) (dst : Nat) (writeEn : Bool) (state : State) :
    Status × State :=
  let state := state.issue access
  if access.space = .vram ∧ dst % 4 ≠ 0 then (.failed, state)
  else
    match accessTarget asic access with
    | none => (.failed, state)
    | some (store, address) =>
        if holdsRange (asic.present store) address access.size then
          (.ok, state.transfer store address dst access.size writeEn)
        else (.failed, state)

/-- `return (dst) ? umr_access_vram(.., UMR_LINEAR_HUB, ..) : 0`. -/
def accessLinear (asic : Asic) (address size : Nat) (dst : Option Nat) (writeEn : Bool)
    (state : State) : Status × State :=
  match dst with
  | none => (.ok, state)
  | some pos => accessPhysical asic ⟨.vram, address, size⟩ pos writeEn state

/-- The bytes of the page from `start_addr` on, but no more than `size`. -/
def chunkSize (startAddr ptePageMask size : Nat) : Nat :=
  if add64 (startAddr &&& ptePageMask) size &&& not64 ptePageMask ≠ 0 then
    (1 + ptePageMask - (startAddr &&& ptePageMask)) % 2 ^ 32
  else size

section Capture
variable (asic : Asic) (ctx : VmContext)

def captureRead (walk : VmPagewalk) (read : WalkRead) : VmPagewalk :=
  match read.entry with
  | none => walk
  | some entry =>
      if read.level = 0 then
        if ctx.pageTableDepth = 0 then { walk with pte := entry } else walk
      else if (decodePdeEntry asic.gfx entry).pte then walk
      else
        { walk with
          pde := walk.pde ++ [entry]
          pdeFields := walk.pdeFields ++ [decodePdeEntry asic.gfx entry] }

def captureWalk (reads : List WalkRead) (found : WalkEnd) (walk : VmPagewalk) : VmPagewalk :=
  let root := { walk with
    pde := walk.pde ++ [rootEntry asic ctx]
    pdeFields := walk.pdeFields ++ [{}] }
  let passed := reads.foldl (captureRead asic ctx) root
  match found with
  | .page page =>
      match page.pteEntry with
      | some entry =>
          if ctx.pageTableDepth = 0 then passed
          else { passed with pte := entry, pteFields := page.pteFields }
      | none => passed
  | .running => passed
  | .failed => passed

end Capture

section PageLoop
variable (asic : Asic) (ctx : VmContext) (fuel : Nat) (writeEn : Bool)

def State.walked (state : State) (walk : List WalkRead × WalkEnd) : State :=
  { state with
    trace := state.trace ++ walk.1.map .entry
    vmdata := state.vmdata.map (captureWalk asic ctx walk.1 walk.2) }

def State.taking (state : State) (address chunk : Nat) : State :=
  { state with chunks := state.chunks ++ [(address, chunk)] }

def accessChunk (page : Page) (chunk : Nat) (dst : Option Nat) (state : State) : Status × State :=
  if page.pteFields.valid then
    match dst with
    | none => (.ok, state)
    | some pos =>
        accessPhysical asic (route ctx page.pteFields.system page.startAddr chunk) pos writeEn state
  else (.ok, state)

/-- `do { .. } while (size)` for at most `pages` pages; `address` is relative to
`page_table_start_addr`. -/
def pageLoop : Nat → Carry → Nat → Nat → Option Nat → State → Status × State
  | 0, _, _, _, _, state => (.running, state)
  | pages + 1, carry, address, size, dst, state =>
      let walk := walkPage asic ctx state.mem fuel dst.isSome carry address
      let walked := state.walked asic ctx walk
      match walk.2 with
      | .running => (.running, walked)
      | .failed => (.failed, walked)
      | .page page =>
          let chunk := chunkSize page.startAddr page.ptePageMask size
          let moved := accessChunk asic ctx writeEn page chunk dst (walked.taking address chunk)
          if moved.1 = .ok then
            if size - chunk = 0 then moved
            else
              pageLoop pages page.carry (add64 address chunk) (size - chunk)
                (dst.map fun pos => pos + chunk) moved.2
          else moved

end PageLoop

/-- What the system access mode makes of a VMID 0 address: the linear address to access
instead, or `none` for a page walk. -/
def systemAccess (ctx : VmContext) (address : Nat) : Option Nat :=
  let inAperture := decide (ctx.systemApertureLow ≤ address ∧ address < ctx.systemApertureHigh)
  let physical :=
    if ctx.fbBottom ≤ address ∧ address < ctx.fbTop then address - ctx.fbBottom else address
  match ctx.systemAccessMode with
  | 0 => some address
  | 2 => if inAperture then none else some physical
  | 3 => if inAperture then some physical else none
  | _ => none

/-- The context `umr_access_vram_ai` works with, if the hub exists. -/
def vmContextOf (asic : Asic) (partition : Int) (vmid vmdataBase : Nat) : Option VmContext :=
  (hubRegisters asic.family (Hub.ofVmid vmid)).map fun (ip, regPrefix, vm0Prefix) =>
    readVmContext asic ip partition regPrefix vm0Prefix (vmid &&& 0xFF) vmdataBase

def State.vmdataBase (state : State) : Nat :=
  (state.vmdata.map VmPagewalk.pageTableBaseAddr).getD 0

def State.withInputs (state : State) (vmid address : Nat) : State :=
  { state with vmdata := state.vmdata.map fun walk => { walk with va := address, vmid := vmid } }

def accessInContext (asic : Asic) (ctx : VmContext) (vmid address size : Nat) (dst : Option Nat)
    (writeEn : Bool) (fuel : Nat) (state : State) : Status × State :=
  match (if vmid &&& 0xFF = 0 then systemAccess ctx address else none) with
  | some linear => accessLinear asic linear size dst writeEn state
  | none =>
      if address < ctx.pageTableStartAddr ∨ ctx.pageTableEndAddr + 0xFFF < address then
        (.failed, state)
      else
        pageLoop asic ctx fuel writeEn (size + 1) {} (address - ctx.pageTableStartAddr) size dst
          state

def umrAccessVramAi (asic : Asic) (partition : Int) (vmid address size : Nat) (dst : Option Nat)
    (writeEn : Bool) (fuel : Nat) (state : State) : Status × State :=
  let state := state.withInputs vmid address
  match vmContextOf asic partition vmid state.vmdataBase with
  | none => (.failed, state)
  | some ctx => accessInContext asic ctx vmid address size dst writeEn fuel state

/-! ## SI to VI -/

structure ViContext where
  pageTableStartAddr : Nat
  pageTableBaseAddr : Nat
  pageTableDepth : Nat
  pageTableBlockSize : Nat
  vmFbBase : Nat
  vmFbOffset : Nat
  deriving DecidableEq, Repr

def readViContext (asic : Asic) (vmid : Nat) : ViContext :=
  let context := if vmid ≠ 0 then 1 else 0
  let cntl := asic.readViReg (.contextCntl context)
  { pageTableStartAddr := (asic.readViReg (.contextStart context)).toNat <<< 12
    pageTableBaseAddr := (asic.readViReg (.contextBase vmid)).toNat <<< 12
    pageTableDepth := (asic.bitsliceVi context .pageTableDepth cntl).toNat
    pageTableBlockSize := (asic.bitsliceVi context .pageTableBlockSize cntl).toNat
    vmFbBase := ((asic.readViReg .fbLocation).toNat &&& 0xFFFF) <<< 24
    vmFbOffset := ((asic.readViReg .fbOffset).toNat &&& 0xFFFF) <<< 22 }

def viBaseMask : Nat := 0xFFFFFFF000

section ViWalk
variable (asic : Asic) (ctx : ViContext) (mem : Memory)

def readViEntry (level index address : Nat) : WalkRead :=
  let access : Access := ⟨.vram, sub64 (add64 address (index * 8)) ctx.vmFbBase, 8⟩
  { level := level, index := index, access := access, entry := readEntry asic mem access }

inductive ViWalkEnd where
  | failed
  | page (startAddr : Nat) (system : Bool)
  deriving DecidableEq, Repr

/-- A page table entry: only a page of a depth 1 table is made relative to the
framebuffer. -/
def viPage (hasDst : Bool) (address entry fbOffset : Nat) : ViWalkEnd :=
  if hasDst ∧ ¬ entry.testBit 0 then .failed
  else
    let startAddr := add64 (asic.gpuBusToCpuAddress (entry &&& viBaseMask)) (address &&& 0xFFF)
    .page (if entry.testBit 1 then startAddr else sub64 startAddr fbOffset) (entry.testBit 1)

def walkVi (hasDst : Bool) (address : Nat) : List WalkRead × ViWalkEnd :=
  if ctx.pageTableDepth = 1 then
    let pdeMask := lowMask (sub64 (40 - 12 - 9) ctx.pageTableBlockSize)
    let pteMask := lowMask (9 + ctx.pageTableBlockSize)
    let pde := readViEntry asic ctx mem 1
      (shr64 address (12 + 9 + ctx.pageTableBlockSize) &&& pdeMask) ctx.pageTableBaseAddr
    match pde.entry with
    | none => ([pde], .failed)
    | some pdeEntry =>
        if ¬ pdeEntry.testBit 0 then
          ([pde], if hasDst then .failed else .page (address &&& 0xFFF) false)
        else
          let pte := readViEntry asic ctx mem 0 (shr64 address 12 &&& pteMask)
            (pdeEntry &&& viBaseMask)
          match pte.entry with
          | none => ([pde, pte], .failed)
          | some pteEntry => ([pde, pte], viPage asic hasDst address pteEntry ctx.vmFbOffset)
  else
    let pte := readViEntry asic ctx mem 0 (shr64 address 12) ctx.pageTableBaseAddr
    match pte.entry with
    | none => ([pte], .failed)
    | some pteEntry => ([pte], viPage asic hasDst address pteEntry 0)

def viPageLoop (writeEn : Bool) : Nat → Nat → Nat → Option Nat → State → Status × State
  | 0, _, _, _, state => (.running, state)
  | pages + 1, address, size, dst, state =>
      let walk := walkVi asic ctx state.mem dst.isSome address
      let walked := { state with trace := state.trace ++ walk.1.map .entry }
      match walk.2 with
      | .failed => (.failed, walked)
      | .page startAddr system =>
          let chunk := chunkSize startAddr 0xFFF size
          let moved :=
            match dst with
            | none => (.ok, walked)
            | some pos =>
                accessPhysical asic ⟨if system then .sram else .vram, startAddr, chunk⟩ pos writeEn
                  walked
          if moved.1 = .ok then
            if size - chunk = 0 then moved
            else
              viPageLoop writeEn pages (add64 address chunk) (size - chunk)
                (dst.map fun pos => pos + chunk) moved.2
          else moved

end ViWalk

def umrAccessVramVi (asic : Asic) (vmid address size : Nat) (dst : Option Nat) (writeEn : Bool)
    (state : State) : Status × State :=
  let ctx := readViContext asic vmid
  viPageLoop asic ctx writeEn (size + 1) (sub64 address ctx.pageTableStartAddr) size dst state

/-! ## The entry point -/

/-- Process space: a `memcpy`, which does not return from a NULL buffer. -/
def accessProcess (address size : Nat) (dst : Option Nat) (writeEn : Bool) (state : State) :
    Status × State :=
  match dst with
  | none => (.running, state)
  | some pos => (.ok, state.transfer .process address pos size writeEn)

/-- Virtual addresses have 48 bits on everything after VI. -/
def maskAddress (family : ChipFamily) (address : Nat) : Nat :=
  if ChipFamily.vi.code < family.code then address &&& 0xFFFFFFFFFFFF else address

def State.cleared (state : State) : State :=
  { state with vmdata := state.vmdata.map VmPagewalk.cleared }

/-- `umr_access_vram`; `dst` is an offset into the caller's 4-byte aligned buffer, or
`none` for NULL. -/
def umrAccessVram (asic : Asic) (partition : Int) (vmid address size : Nat) (dst : Option Nat)
    (writeEn : Bool) (fuel : Nat) (state : State) : Status × State :=
  let state := state.cleared
  if address % 4 ≠ 0 ∨ size % 4 ≠ 0 then (.failed, state)
  else if dst.getD 0 % 4 ≠ 0 then (.failed, state)
  else
    match Hub.ofVmid vmid with
    | .process => accessProcess address size dst writeEn state
    | .linear =>
        match dst with
        | none => (.failed, state)
        | some pos => accessPhysical asic ⟨.vram, address, size⟩ pos writeEn state
    | _ =>
        let address := maskAddress asic.family address
        if asic.gfx.maj ≤ 8 then umrAccessVramVi asic vmid address size dst writeEn state
        else umrAccessVramAi asic partition vmid address size dst writeEn fuel state

end Umr.Vm
