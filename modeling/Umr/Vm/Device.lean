import Umr.Lib.ByteStore
import Umr.Lib.Word64
import Umr.Rumr.Protocol
import Umr.Vm.Entry

/-!
# The device behind a page walk

The registers that configure a VM context, the physical memories, and physical
accesses as `umr_access_vram_ai` issues them: to system RAM, or to linear VRAM,
which in an XGMI hive may belong to another node.
-/

set_option autoImplicit false

namespace Umr.Vm

open Umr.Lib
open Umr.Rumr (ChipFamily MemSpace)

/-- `enum umr_vm_hub` as the bits 8:15 of a vmid select it. -/
inductive Hub where
  | gfx | mm | mmVc0 | mmVc1 | process | user | linear | unknown
  deriving DecidableEq, Repr

def Hub.ofVmid (vmid : Nat) : Hub :=
  match vmid &&& 0xFF00 with
  | 0x0000 => .gfx
  | 0x0100 => .mm
  | 0x0200 => .mmVc0
  | 0x0300 => .mmVc1
  | 0xFD00 => .process
  | 0xFE00 => .user
  | 0xFF00 => .linear
  | _ => .unknown

inductive HubIp where
  | mmhub | gfx | userHub
  deriving DecidableEq, Repr

/-- The text put between `mm` and the register's name. -/
inductive RegPrefix where
  | plain | vml2vc0 | vmsharedvc0 | vml2vc1 | vmsharedvc1 | mm | gc
  deriving DecidableEq, Repr

/-- The registers the walk reads; `context` registers exist once for each VMID. -/
inductive VmReg where
  | systemApertureHighAddr | systemApertureLowAddr | mxL1TlbCntl
  | fbLocationBase | fbLocationTop | fbOffset
  | agpBase | agpBot | agpTop
  | contextStartLo32 (vmid : Nat) | contextStartHi32 (vmid : Nat)
  | contextEndLo32 (vmid : Nat) | contextEndHi32 (vmid : Nat)
  | contextBaseLo32 (vmid : Nat) | contextBaseHi32 (vmid : Nat)
  | contextCntl (vmid : Nat)
  deriving DecidableEq, Repr

inductive VmBits where
  | pageTableDepth | pageTableBlockSize | systemAccessMode
  deriving DecidableEq, Repr

inductive ViReg where
  | contextStart (context : Nat) | contextCntl (context : Nat) | contextBase (vmid : Nat)
  | fbLocation | fbOffset
  deriving DecidableEq, Repr

/-- One physical memory: system RAM, the VRAM of a GPU, or the address space of the
process itself. -/
inductive Store where
  | sysram | vram (gpu : Nat) | process
  deriving DecidableEq, Repr

structure XgmiNode where
  gpu : Nat
  vramSize : Nat
  deriving DecidableEq, Repr

/-- What the walk uses of `struct umr_asic`.  Register reads and bit slices go
through the register database and are parameters; `present` says which bytes of the
physical memories answer an access. -/
structure Asic where
  family : ChipFamily
  gfx : GfxVersion
  readReg : HubIp → Int → RegPrefix → VmReg → UInt32
  bitslice : HubIp → Int → RegPrefix → VmReg → VmBits → UInt32 → UInt32
  readViReg : ViReg → UInt32
  bitsliceVi : Nat → VmBits → UInt32 → UInt32
  gpuBusToCpuAddress : Nat → Nat
  present : Store → Nat → Bool
  gpu : Nat
  useXgmi : Bool
  xgmiLfbSizeAlde : Option UInt32
  xgmiLfbSize : Option UInt32
  gcXgmiLfbSize : Option UInt32
  xgmiNodes : List XgmiNode

/-- The hub's IP block and the prefixes of its context and its shared registers. -/
def hubRegisters (family : ChipFamily) : Hub → Option (HubIp × RegPrefix × RegPrefix)
  | .mmVc0 =>
      if family = .ai then some (.mmhub, .vml2vc0, .vmsharedvc0) else some (.mmhub, .plain, .plain)
  | .mmVc1 =>
      if family = .ai then some (.mmhub, .vml2vc1, .vmsharedvc1) else some (.mmhub, .plain, .plain)
  | .mm =>
      if ChipFamily.nv.code ≤ family.code then some (.mmhub, .mm, .mm)
      else some (.mmhub, .plain, .plain)
  | .gfx =>
      if ChipFamily.nv.code ≤ family.code then some (.gfx, .gc, .gc)
      else some (.gfx, .plain, .plain)
  | .user => some (.userHub, .plain, .plain)
  | .process => none
  | .linear => none
  | .unknown => none

/-- The VM context in interpreted form, before the base address is made relative to
the framebuffer. -/
structure VmContext where
  pageTableStartAddr : Nat
  pageTableEndAddr : Nat
  pageTableBaseAddr : Nat
  pageTableDepth : Nat
  pageTableBlockSize : Nat
  vmFbOffset : Nat
  fbBottom : Nat
  fbTop : Nat
  agpBase : Nat
  agpBot : Nat
  agpTop : Nat
  systemApertureLow : Nat
  systemApertureHigh : Nat
  systemAccessMode : Nat
  deriving DecidableEq, Repr

def VmContext.zfb (ctx : VmContext) : Bool := decide (ctx.fbTop < ctx.fbBottom)

def contextAddr (lo hi : UInt32) : Nat := (lo.toNat <<< 12 ||| hi.toNat <<< 44) % 2 ^ 64

/-- The register reads at the head of `umr_access_vram_ai`.  A base address that the
caller put into `vmdata` replaces the one in the registers. -/
def readVmContext (asic : Asic) (ip : HubIp) (partition : Int) (regPrefix vm0Prefix : RegPrefix)
    (vmid vmdataBase : Nat) : VmContext :=
  let reg := asic.readReg ip partition
  let fbBottom := (reg vm0Prefix .fbLocationBase).toNat <<< 24
  let fbTop := ((reg vm0Prefix .fbLocationTop).toNat + 1) <<< 24
  let zfb := decide (fbTop < fbBottom)
  let cntl := reg regPrefix (.contextCntl vmid)
  let tlbCntl := reg vm0Prefix .mxL1TlbCntl
  { pageTableStartAddr :=
      contextAddr (reg regPrefix (.contextStartLo32 vmid)) (reg regPrefix (.contextStartHi32 vmid))
    pageTableEndAddr :=
      contextAddr (reg regPrefix (.contextEndLo32 vmid)) (reg regPrefix (.contextEndHi32 vmid))
    pageTableBaseAddr :=
      if vmdataBase ≠ 0 then vmdataBase
      else (reg regPrefix (.contextBaseLo32 vmid)).toNat |||
        (reg regPrefix (.contextBaseHi32 vmid)).toNat <<< 32
    pageTableDepth :=
      (asic.bitslice ip partition regPrefix (.contextCntl vmid) .pageTableDepth cntl).toNat
    pageTableBlockSize :=
      (asic.bitslice ip partition regPrefix (.contextCntl vmid) .pageTableBlockSize cntl).toNat
    vmFbOffset := (reg regPrefix .fbOffset).toNat <<< 24
    fbBottom := fbBottom
    fbTop := fbTop
    agpBase := if zfb then (reg regPrefix .agpBase).toNat <<< 24 else 0
    agpBot := if zfb then (reg regPrefix .agpBot).toNat <<< 24 else 0
    agpTop := if zfb then ((reg regPrefix .agpTop).toNat + 1) <<< 24 ||| 0xFFFFFF else 0
    systemApertureLow := (reg vm0Prefix .systemApertureLowAddr).toNat <<< 18
    systemApertureHigh := ((reg vm0Prefix .systemApertureHighAddr).toNat + 1) <<< 18
    systemAccessMode :=
      (asic.bitslice ip partition vm0Prefix .mxL1TlbCntl .systemAccessMode tlbCntl).toNat }

abbrev Memory : Type := Store → Nat → UInt8

structure Access where
  space : MemSpace
  address : Nat
  size : Nat
  deriving DecidableEq, Repr

/-- `round_up_next_gib`: steps of 1 GiB from 1 GiB on. -/
def roundUpNextGib (x : Nat) : Nat :=
  let rec go : Nat → Nat → Nat
    | 0, y => y
    | steps + 1, y => if y < x then go steps (y + 2 ^ 30) else y
  go (x / 2 ^ 30 + 1) (2 ^ 30)

def xgmiSegmentSize (asic : Asic) : Nat :=
  match asic.xgmiLfbSizeAlde, asic.xgmiLfbSize, asic.gcXgmiLfbSize with
  | some size, _, _ => size.toNat <<< 24
  | none, some size, _ => size.toNat <<< 24
  | none, none, some size => size.toNat <<< 24
  | none, none, none => 0

/-- The node whose segment holds the remaining address. -/
def xgmiNodeOf (segmentSize : Nat) : List XgmiNode → Nat → Option (XgmiNode × Nat)
  | [], _ => none
  | node :: nodes, addr =>
      if addr < (if segmentSize ≠ 0 then segmentSize else node.vramSize) then some (node, addr)
      else
        xgmiNodeOf segmentSize nodes
          (sub64 addr (if segmentSize ≠ 0 then segmentSize else roundUpNextGib node.vramSize))

def linearTarget (asic : Asic) (address : Nat) : Store × Nat :=
  if asic.useXgmi then
    match xgmiNodeOf (xgmiSegmentSize asic) asic.xgmiNodes address with
    | some (node, addr) => (.vram node.gpu, addr)
    | none => (.vram asic.gpu, address)
  else (.vram asic.gpu, address)

def accessTarget (asic : Asic) (access : Access) : Option (Store × Nat) :=
  match access.space with
  | .sram => some (.sysram, access.address)
  | .vram =>
      if access.address % 4 ≠ 0 ∨ access.size % 4 ≠ 0 then none
      else some (linearTarget asic access.address)

def readEntry (asic : Asic) (mem : Memory) (access : Access) : Option Nat :=
  match accessTarget asic access with
  | none => none
  | some (store, address) =>
      if holdsRange (asic.present store) address access.size then
        some (littleEndian (fun i => mem store (address + i)) access.size)
      else none

/-- Where a physical address of the walk lies: in system RAM if the entry says so, and
in ZFB mode also if the AGP window covers it. -/
def route (ctx : VmContext) (system : Bool) (address size : Nat) : Access :=
  if system then ⟨.sram, address, size⟩
  else if ctx.zfb ∧ ctx.agpBot ≤ address ∧ address < ctx.agpTop then
    ⟨.sram, add64 (sub64 address ctx.agpBot) ctx.agpBase, size⟩
  else ⟨.vram, address, size⟩

@[simp] theorem route_size (ctx : VmContext) (system : Bool) (address size : Nat) :
    (route ctx system address size).size = size := by
  unfold route
  split
  · rfl
  · split <;> rfl

/-- The target of an access in whole words does not depend on its size. -/
theorem accessTarget_route (asic : Asic) (ctx : VmContext) (system : Bool) (address : Nat)
    {size other : Nat} (words : size % 4 = 0) (otherWords : other % 4 = 0) :
    accessTarget asic (route ctx system address size) =
      accessTarget asic (route ctx system address other) := by
  unfold route
  cases system with
  | true => rfl
  | false =>
      by_cases window : ctx.zfb ∧ ctx.agpBot ≤ address ∧ address < ctx.agpTop
      · simp [window, accessTarget]
      · simp [window, accessTarget, words, otherWords]

end Umr.Vm
