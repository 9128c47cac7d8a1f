import Umr.Compiler.Header
import Umr.Database.PlacedRegisters
import Umr.Lib.Keyed
import Umr.Registers.Names

/-!
# The compiler of register files

`compile_register`, `compile_bits` and `update_regs` of `comp/compiler.c`, and what `main` prints.
A list of registers ends with the one that is still open.
-/

set_option autoImplicit false

namespace Umr.Compiler

open Umr.Lib Umr.Database

/-! ## Registers and their bits -/

structure Bit where
  name : List Char
  shift : UInt64
  mask : UInt64

/-- `find_bit` and `add_bit`. -/
def bitList : Keyed (List Char) Bit where
  key := Bit.name
  new name := ⟨name, 0, 0⟩
  key_new _ := rfl

structure Regs where
  type : Int
  addr : UInt64
  name : List Char
  bits : List Bit
  idx : UInt32

def regSmc : Int := 2
def regPcie : Int := 3
def regSmn : Int := 4
def regError : Int := 5

def mm : List Char := "mm".toList
def ix : List Char := "ix".toList
def reg : List Char := "reg".toList
def cfg : List Char := "cfg".toList
def smn : List Char := "smn".toList

/-! ## `compile_register` -/

def blankRegs : Regs := ⟨0, 0xFFFFFFFF, [], [], 0xFFFFFFFF⟩

def regType (sym : List Char) : Int :=
  if mm <+: sym ∨ reg <+: sym then regMmio
  else if ix <+: sym then regSmc
  else if cfg <+: sym then regPcie
  else if smn <+: sym then regSmn
  else regError

def baseIdx : List Char := "_BASE_IDX".toList

/-- What a definition makes of the open register, and whether it is complete. -/
def compileOne (s15 : Bool) (r : Regs) (d : List Char × UInt64) : Regs × Bool :=
  let r := { r with type := regType d.1 }
  if r.type = regError then (r, false)
  else
    let r :=
      if (Lib.strstr baseIdx d.1).isSome then { r with idx := d.2.toUInt32 }
      else { r with addr := d.2, name := d.1 }
    (r, decide ((s15 = false ∨ r.type ≠ regMmio ∨ r.idx ≠ 0xFFFFFFFF) ∧ r.addr ≠ 0xFFFFFFFF))

/-- The registers that are complete, and the open one. -/
def compileDefines (s15 : Bool) : Regs → List (List Char × UInt64) → List Regs × Regs
  | r, [] => ([], r)
  | r, d :: ds =>
      let one := compileOne s15 r d
      if one.2 then
        let more := compileDefines s15 blankRegs ds
        (one.1 :: more.1, more.2)
      else compileDefines s15 one.1 ds

/-- `s15` is false with `UMR_NO_SOC15` in the environment. -/
def compileRegister (s15 : Bool) (s : List Char) : List Regs :=
  let all := compileDefines s15 blankRegs (defines (fun _ => true) s)
  all.1 ++ [all.2]

/-! ## `compile_bits` -/

/-- The name without the prefix that the bit header lacks. -/
def nameMatches (name : List Char) (r : Regs) : Bool :=
  [mm, ix, reg, cfg, smn].any fun front => front <+: r.name ∧ r.name.drop front.length = name

/-- `find_reg`: from the register at `fr` on, and then from the first one up to there. -/
def findReg (regs : List Regs) (fr : Option Nat) (name : List Char) : Option Nat :=
  let start := fr.getD regs.length
  match (regs.drop start).findIdx? (nameMatches name) with
  | some x => some (start + x)
  | none => (regs.take start).findIdx? (nameMatches name)

def setShift (bitname : List Char) (v : UInt64) : bitList.Change where
  key := bitname
  change b := { b with shift := v }
  keeps _ := rfl

def setMask (bitname : List Char) (v : UInt64) : bitList.Change where
  key := bitname
  change b := { b with mask := v }
  keeps _ := rfl

/-- What stands behind the name of the register; `none` where the length of the bit's name would be
negative. -/
def bitChange (tmp : List Char) (v : UInt64) : Option bitList.Change :=
  match Lib.strstr "__SHIFT".toList tmp with
  | some t => some (setShift (tmp.take (tmp.length - t.length)) v)
  | none => if tmp.length < 5 then none else some (setMask (tmp.take (tmp.length - 5)) v)

def changeBits (change : bitList.Change) (r : Regs) : Regs :=
  { r with bits := bitList.upsert change r.bits }

def compileBitDefines : List Regs → Option Nat → List (List Char × UInt64) → Option (List Regs)
  | regs, _, [] => some regs
  | regs, fr, d :: ds =>
      match Lib.strstr "__".toList d.1 with
      | none => compileBitDefines regs fr ds
      | some t =>
          match findReg regs fr (d.1.take (d.1.length - t.length)) with
          | none => compileBitDefines regs none ds
          | some x =>
              match bitChange (t.drop 2) d.2 with
              | none => none
              | some change => compileBitDefines (regs.modify x (changeBits change)) (some x) ds

def compileBits (regs : List Regs) (s : List Char) : Option (List Regs) :=
  compileBitDefines regs (some 0) (defines (fun _ => true) s)

/-! ## `update_regs` -/

def startLoop : Nat → Nat → Nat → Nat × Nat
  | 0, mask, start => (mask, start)
  | turns + 1, mask, start =>
      if mask % 2 = 1 then (mask, start) else startLoop turns (mask / 2) (start + 1)

def stopLoop : Nat → Nat → Int → Int
  | 0, _, stop => stop
  | turns + 1, mask, stop => if mask = 0 then stop else stopLoop turns (mask / 2) (stop + 1)

/-- A mask has 64 bits, so the turns suffice. -/
def bitsStartStop (mask : UInt64) : Int × Int :=
  if mask = 0 then (0, 0)
  else
    let first := startLoop 64 mask.toNat 0
    (first.2, stopLoop 64 first.1 (first.2 - 1))

def Bit.start (b : Bit) : Int := (bitsStartStop b.mask).1

def Bit.stop (b : Bit) : Int := (bitsStartStop b.mask).2

def Regs.maxBit (r : Regs) : Int :=
  r.bits.foldl (fun maxBit b => if b.stop > maxBit then b.stop else maxBit) 0

def Regs.nobits (r : Regs) : UInt32 := UInt32.ofNat r.bits.length

def Regs.is64 (r : Regs) : UInt32 := if r.maxBit > 32 then 1 else 0

/-! ## The file -/

def regLine (r : Regs) : List Char :=
  r.name ++ ' ' :: (printInt r.type ++ ' ' :: (printHex0x r.addr.toNat ++ ' ' ::
    (printDec r.nobits.toNat ++ ' ' :: (printDec r.is64.toNat ++ ' ' :: printDec r.idx.toNat))))

def bitLine (b : Bit) : List Char :=
  '\t' :: (b.name ++ ' ' :: (printInt b.start ++ ' ' :: printInt b.stop))

def regsText (noRegs : UInt32) (sr : List Regs) : List Char :=
  printDec noRegs.toNat ++ '\n' :: sr.flatMap fun r =>
    regLine r ++ '\n' :: r.bits.flatMap fun b => bitLine b ++ ['\n']

/-- The registers that are printed; `none` where there are more of them than were counted. -/
def collected (regs : List Regs) : Option (List Regs) :=
  let sr := regs.takeWhile fun r => r.addr ≠ 0xFFFFFFFF
  if sr.length ≤ regs.length - 1 then some sr else none

def bytesOf (name : List Char) : List UInt8 := name.map fun c => UInt8.ofNat c.toNat

/-- What `qsort` may leave: it does not say how it orders names that differ in case only. -/
structure Sorted (sr sorted : List Regs) : Prop where
  perm : sorted.Perm sr
  order : sorted.Pairwise fun a b => Registers.istrCmp (bytesOf a.name) (bytesOf b.name) ≤ 0

/-- The files that may be printed for two headers. -/
def Compiles (s15 : Bool) (rf bf text : List Char) : Prop :=
  ∃ regs sr sorted, compileBits (compileRegister s15 rf) bf = some regs ∧
    collected regs = some sr ∧ Sorted sr sorted ∧ text = regsText (UInt32.ofNat (regs.length - 1)) sorted

end Umr.Compiler
