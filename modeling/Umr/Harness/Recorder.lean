import Umr.Harness.Log
import Umr.Rumr.Protocol
import Mathlib.Data.List.Infix

/-!
# Recording a test log

The reads of `lowlevel/linux/mmio.c` and `lowlevel/linux/mem.c` with the log
switched on: the value the caller gets, and the lines that go to the log.
-/

set_option autoImplicit false

namespace Umr.Harness

open Umr.Lib Umr.Rumr

/-! ## Registers -/

/-- What `umr_read_reg` uses of the ASIC.  `pciSize` is the size of the mapped
register region, if there is one; `mmio2` tells that the newer debugfs file is
open; `smcData` is the register that SMC reads go through without the kernel;
`regName` is `umr_reg_name`, whose names come from single lines of the database;
`sqIndIndex` is the last value written to `SQ_IND_INDEX`. -/
structure RegAsic where
  contextRegBank : Int
  pciSize : Option UInt64
  mmio2 : Bool
  smcData : Option UInt64
  regName : UInt64 → List Char
  sqIndIndex : UInt32
  oneLine : ∀ dword, '\n' ∉ regName dword

/-- What the device did with a read: whether an ioctl, a seek or the read failed,
and what `value` is then. -/
structure HwAnswer where
  failed : Bool
  value : UInt32
  deriving DecidableEq, Repr

/-- Register files open, no banking, and no register known by name. -/
def plainAsic : RegAsic where
  contextRegBank := 0
  pciSize := none
  mmio2 := true
  smcData := none
  regName := fun _ => "<unknown>".toList
  sqIndIndex := 0
  oneLine := fun _ => by decide

section Registers
variable (asic : RegAsic)

/-- Context registers are banked. -/
def bankedAddr (addr : UInt64) : UInt64 :=
  let mmioAddr := addr &&& (0xFFFFFFFF : UInt64)
  if 0xA000 * 4 ≤ mmioAddr ∧ mmioAddr < 0xB000 * 4 then
    addr + UInt64.ofInt (asic.contextRegBank * 0x1000)
  else addr

def regLine (mmioAddr addr : UInt64) (value : UInt32) : LogLine :=
  let name := asic.regName (addr >>> 2)
  if "SQ_IND_DATA".toList <:+: name then .sq asic.sqIndIndex.toUInt64 value name
  else .words .mmio mmioAddr [value] (some name)

/-- The address an MMIO read is made at; `none` if the read is given up. -/
def mmioRoute (addr : UInt64) (failed : Bool) : Option UInt64 :=
  if asic.pciSize.any (fun size => addr < size) then some addr
  else if asic.mmio2 then
    if failed then none else some addr
  else some (addr &&& (0xFFFFFF : UInt64))

def readMmioReg (addr : UInt64) (hw : HwAnswer) : UInt32 × List LogLine :=
  match mmioRoute asic (bankedAddr asic addr) hw.failed with
  | none => (0, [])
  | some final => (hw.value, [regLine asic (addr &&& (0xFFFFFFFF : UInt64)) final hw.value])

/-- The line an SMC read leaves on its way through the data register. -/
def smcRead (hw : HwAnswer) : UInt32 × List LogLine :=
  match asic.smcData with
  | none => (hw.value, [])
  | some data => readMmioReg asic data hw

def umrReadReg (addr : UInt64) (type : RegClass) (hw : HwAnswer) : UInt32 × List LogLine :=
  let mmioAddr := addr &&& (0xFFFFFFFF : UInt64)
  match type with
  | .smn | .pcie => (hw.value, [regLine asic mmioAddr (bankedAddr asic addr) hw.value])
  | .mmio => readMmioReg asic addr hw
  | .smc =>
      let (value, lines) := smcRead asic hw
      (value, lines ++ [regLine asic mmioAddr (bankedAddr asic addr) value])
  | .didt => (0, [])

end Registers

/-! ## Memory -/

/-- A file that shows a memory whose contents do not change.  `read` is what a
seek to the address and a read of so many bytes give: at offsets a file can have
a complete one gives the contents there, and the kernel never returns more than
0x7ffff000 bytes at once. -/
structure MemoryFile (contents : Nat → UInt8) where
  read : UInt64 → UInt32 → List UInt8
  complete : ∀ address size, address.toNat + size.toNat ≤ 2 ^ 63 →
    (read address size).length = size.toNat →
    read address size = (List.range size.toNat).map (fun i => contents (address.toNat + i)) ∧
      size.toNat ≤ 0x7FFFF000

/-- The files of an ASIC: `iomem` is debugfs, `devMem` is `/dev/fmem` or `/dev/mem`. -/
structure MemAsic where
  vramContents : Nat → UInt8
  sramContents : Nat → UInt8
  vram : MemoryFile vramContents
  iomem : Option (MemoryFile sramContents)
  devMem : Option (MemoryFile sramContents)

section Memory
variable (asic : MemAsic) (address : UInt64) (size : UInt32)

/-- The bytes and their line; `none` is the error return. -/
def readFile {contents : Nat → UInt8} (file : MemoryFile contents) (kind : RamKind) :
    Option (List UInt8 × LogLine) :=
  if (file.read address size).length = size.toNat then
    some (file.read address size, .bytes kind address (file.read address size))
  else none

/-- Without a complete read from `iomem` the memory is tried directly. -/
def umrAccessSram : Option (List UInt8 × LogLine) :=
  (asic.iomem.bind fun file => readFile address size file .sysram).or
    (asic.devMem.bind fun file => readFile address size file .sysram)

def umrAccessLinearVram : Option (List UInt8 × LogLine) := readFile address size asic.vram .vram

end Memory

/-! ## A recording -/

structure RegRead where
  addr : UInt64
  type : RegClass
  hw : HwAnswer
  deriving DecidableEq, Repr

def RegRead.recorded (asic : RegAsic) (read : RegRead) : UInt32 :=
  (umrReadReg asic read.addr read.type read.hw).1

def RegRead.lines (asic : RegAsic) (read : RegRead) : List LogLine :=
  (umrReadReg asic read.addr read.type read.hw).2

inductive Step where
  | reg (read : RegRead)
  | mem (space : MemSpace) (address : UInt64) (size : UInt32)
  deriving DecidableEq, Repr

inductive Answer where
  | word (value : UInt32)
  | bytes (contents : List UInt8)
  | failed
  deriving DecidableEq, Repr

section Recording
variable (regs : RegAsic) (mem : MemAsic)

def accessMem : MemSpace → UInt64 → UInt32 → Option (List UInt8 × LogLine)
  | .vram => umrAccessLinearVram mem
  | .sram => umrAccessSram mem

def Step.recorded : Step → Answer
  | .reg read => .word (read.recorded regs)
  | .mem space address size =>
      match accessMem mem space address size with
      | none => .failed
      | some (bytes, _) => .bytes bytes

def Step.lines : Step → List LogLine
  | .reg read => read.lines regs
  | .mem space address size =>
      match accessMem mem space address size with
      | none => []
      | some (_, line) => [line]

end Recording

end Umr.Harness
