import Umr.Rumr.Tcp

/-!
# The RUMR header word

Both sides of the protocol put the opcode, the protocol version and the SERVER
bit into the first word of a packet.  This module has that word and the small
enumerations that the requests carry.
-/

set_option autoImplicit false

namespace Umr.Rumr

open Umr.Lib

def rumrVersion : UInt32 := 1

inductive Opcode where
  | discover | regAccess | memAccess | waveAccess | gprAccess | ringAccess | goodbye
  deriving DecidableEq, Repr

def Opcode.code : Opcode → UInt32
  | .discover => 0
  | .regAccess => 1
  | .memAccess => 2
  | .waveAccess => 3
  | .gprAccess => 4
  | .ringAccess => 5
  | .goodbye => 6

/-- The labels of the server's `switch`; `none` is its `default`. -/
def Opcode.ofCode (code : UInt32) : Option Opcode :=
  [Opcode.discover, .regAccess, .memAccess, .waveAccess, .gprAccess, .ringAccess,
    .goodbye].find? fun opcode => opcode.code = code

def clientHeader (opcode : Opcode) : UInt32 :=
  (opcode.code <<< 10) ||| (rumrVersion <<< 1)

def headerVersion (header : UInt32) : UInt32 := (header >>> 1) &&& 0xFF

def headerOpcode (header : UInt32) : Option Opcode :=
  Opcode.ofCode ((header >>> 10) &&& 0xFF)

def headerServerBit (header : UInt32) : UInt32 := header &&& 1

def serverHeader (header : UInt32) : UInt32 := header ||| 1

theorem headerVersion_clientHeader (opcode : Opcode) :
    headerVersion (clientHeader opcode) = rumrVersion := by
  cases opcode <;> decide

theorem headerOpcode_clientHeader (opcode : Opcode) :
    headerOpcode (clientHeader opcode) = some opcode := by
  cases opcode <;> decide

inductive RegClass where
  | mmio | didt | smc | pcie | smn
  deriving DecidableEq, Repr

def RegClass.code : RegClass → UInt32
  | .mmio => 0
  | .didt => 1
  | .smc => 2
  | .pcie => 3
  | .smn => 4

inductive ChipFamily where
  | si | cik | vi | ai | nv | gfx11 | gfx12 | npi | configure
  deriving DecidableEq, Repr

def ChipFamily.code : ChipFamily → Nat
  | .si => 0
  | .cik => 1
  | .vi => 2
  | .ai => 3
  | .nv => 4
  | .gfx11 => 5
  | .gfx12 => 6
  | .npi => 7
  | .configure => 8

/-- The two memories a request can name: linear VRAM and system RAM. -/
inductive MemSpace where
  | vram | sram
  deriving DecidableEq, Repr

/-- The register bank selection of `options.use_bank` and `options.bank`. -/
inductive BankSelect where
  | noBank
  | grbm (se sh instance_ : UInt32)
  | srbm (me pipe queue vmid : UInt32)
  deriving DecidableEq, Repr

end Umr.Rumr
