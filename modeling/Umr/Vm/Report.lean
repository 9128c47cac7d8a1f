import Umr.Vm.Termination

/-!
# What an access reports

`umr_access_vram` reports through two callbacks of the ASIC.  `vm_message` gets every step of a
verbose walk and, verbose or not, most failures; `va_addr_decode` gets `pde_cnt` entries and the
PTE of the last page when the walk of GFX9 and later comes to its end.
-/

set_option autoImplicit false

namespace Umr.Vm

open Umr.Lib

/-! ## One page -/

section Page
variable (asic : Asic) (ctx : VmContext)

/-- The only failure of a walk with directories that is not reported: a page table in system RAM
cannot be read. -/
def failsSilently (mem : Memory) (fuel : Nat) (hasDst : Bool) (carry : Carry) (address : Nat) :
    Bool :=
  match log2VmSize ctx.pageTableStartAddr ctx.pageTableEndAddr with
  | none => false
  | some totalVmBits =>
      match firstPass asic ctx address (pdeLoop asic ctx mem totalVmBits address ctx.pageTableDepth
        (walkStart asic ctx carry)).2 with
      | none => false
      | some pass =>
          (visited (tablePass asic ctx mem hasDst address) fuel pass).any fun pass =>
            pass.state.pdeFields.system && (passRead asic ctx mem pass).entry.isNone

/-- A flat walk reports an invalid page; an invalid base or an entry that cannot be read is not
reported through `vm_message`. -/
def turnReports (fuel : Nat) (turn : PageTurn) : Bool :=
  let walk := turnWalk asic ctx fuel turn
  decide (walk.2 = .failed) &&
    if 1 ≤ ctx.pageTableDepth then
      !failsSilently asic ctx turn.state.mem fuel turn.dst.isSome turn.carry turn.address
    else walk.1.any fun read => read.entry.isSome

end Page

def viWalkReports (walk : List WalkRead × ViWalkEnd) : Bool :=
  decide (walk.2 = .failed) &&
    walk.1.all fun read => decide (read.level = 1) || read.entry.isSome

def viLoopReports (asic : Asic) (ctx : ViContext) (writeEn : Bool) :
    Nat → Nat → Nat → Option Nat → State → Bool
  | 0, _, _, _, _ => false
  | pages + 1, address, size, dst, state =>
      let walk := walkVi asic ctx state.mem dst.isSome address
      let walked : State := { state with trace := state.trace ++ walk.1.map .entry }
      match walk.2 with
      | .failed => viWalkReports walk
      | .page startAddr system =>
          let chunk := chunkSize startAddr 0xFFF size
          let moved : Status × State :=
            match dst with
            | none => (.ok, walked)
            | some pos =>
                accessPhysical asic ⟨if system then .sram else .vram, startAddr, chunk⟩ pos writeEn
                  walked
          if moved.1 = .ok ∧ size - chunk ≠ 0 then
            viLoopReports asic ctx writeEn pages (add64 address chunk) (size - chunk)
              (dst.map fun pos => pos + chunk) moved.2
          else false

/-! ## One call -/

/-- A call of `umr_access_vram` on the device as it is then; `state.vmdata` is `none` for a caller
that does not capture the walk. -/
structure AccessCall where
  asic : Asic
  partition : Int
  vmid : Nat
  address : Nat
  size : Nat
  dst : Option Nat
  writeEn : Bool
  fuel : Nat
  state : State

inductive CallWalk where
  | none
  | vi
  | ai (ctx : VmContext)
  deriving DecidableEq, Repr

namespace AccessCall
variable (call : AccessCall)

def status : Status :=
  (umrAccessVram call.asic call.partition call.vmid call.address call.size call.dst call.writeEn
    call.fuel call.state).1

def va : Nat := maskAddress call.asic.family call.address

def walk : CallWalk :=
  if call.address % 4 ≠ 0 ∨ call.size % 4 ≠ 0 ∨ call.dst.getD 0 % 4 ≠ 0 then .none
  else
    match Hub.ofVmid call.vmid with
    | .process => .none
    | .linear => .none
    | _ =>
        if call.asic.gfx.maj ≤ 8 then .vi
        else
          match vmContextOf call.asic call.partition call.vmid call.state.vmdataBase with
          | none => .none
          | some ctx => .ai ctx

def turns (ctx : VmContext) : List PageTurn :=
  callTurns call.asic ctx call.vmid call.va call.size call.dst call.writeEn call.state.cleared
    call.fuel

/-- What is reported before the first page: a base of all ones, a system access mode that is not
known, an address outside the root table. -/
def reportsAhead (ctx : VmContext) : Bool :=
  decide (ctx.pageTableBaseAddr = 0xFFFFFFFFFFFFFFFF) ||
    decide (call.vmid &&& 0xFF = 0 ∧ 4 ≤ ctx.systemAccessMode) ||
    decide (rangeRoute ctx call.vmid call.va = .refused)

def reports (verbose : Int) : Bool :=
  match call.walk with
  | .none => false
  | .vi =>
      let ctx := readViContext call.asic call.vmid
      decide (verbose ≠ 0) ||
        viLoopReports call.asic ctx call.writeEn (call.size + 1)
          (sub64 call.va ctx.pageTableStartAddr) call.size call.dst call.state.cleared
  | .ai ctx =>
      decide (verbose ≠ 0) || call.reportsAhead ctx ||
        (call.turns ctx).any (turnReports call.asic ctx call.fuel)

def decoded : Option Nat :=
  match call.walk with
  | .none => none
  | .vi => none
  | .ai ctx =>
      if call.status = .ok then
        (call.turns ctx).getLast?.map fun turn =>
          pdeCnt call.asic ctx (turnWalk call.asic ctx call.fuel turn).1
      else none

end AccessCall

end Umr.Vm
