import Mathlib.Data.Nat.Bitwise
import Mathlib.Tactic.NormNum

/-!
# Page directory and page table entries of GFX9 and later

The field layout of a 64-bit entry depends on the major version of the gfx block.
The same entry can be decoded both ways: a directory entry with the P bit is read
as a page table entry, and a page table entry with the further bit (with P clear
on gfx12) is read as a directory entry.
-/

set_option autoImplicit false

namespace Umr.Vm

structure GfxVersion where
  maj : Nat
  min : Nat
  deriving DecidableEq, Repr

structure PdeFields where
  fragSize : Nat := 0
  pteBaseAddr : Nat := 0
  valid : Bool := false
  system : Bool := false
  coherent : Bool := false
  pte : Bool := false
  further : Bool := false
  tfsAddr : Bool := false
  llcNoalloc : Bool := false
  mtype : Nat := 0
  paRsvd : Nat := 0
  mallReuse : Nat := 0
  deriving DecidableEq, Repr

/-- `pte_fields_t`; `pte_mask` only carries a mask to the verbose printer. -/
structure PteFields where
  valid : Bool := false
  system : Bool := false
  coherent : Bool := false
  tmz : Bool := false
  execute : Bool := false
  read : Bool := false
  write : Bool := false
  fragment : Nat := 0
  pageBaseAddr : Nat := 0
  prt : Bool := false
  pde : Bool := false
  further : Bool := false
  mtype : Nat := 0
  gcr : Bool := false
  llcNoalloc : Bool := false
  software : Nat := 0
  paRsvd : Nat := 0
  dcc : Bool := false
  pte : Bool := false
  deriving DecidableEq, Repr

def bitSlice (entry low width : Nat) : Nat := entry >>> low &&& (2 ^ width - 1)

def pdeBaseMask : Nat := 0xFFFFFFFFFFC0

def pageBaseMask : Nat := 0xFFFFFFFFF000

def decodePdeEntry (gfx : GfxVersion) (entry : Nat) : PdeFields :=
  match gfx.maj with
  | 9 =>
      { fragSize := bitSlice entry 59 5
        pteBaseAddr := entry &&& pdeBaseMask
        valid := entry.testBit 0
        system := entry.testBit 1
        coherent := entry.testBit 2
        pte := entry.testBit 54
        further := entry.testBit 56 }
  | 10 =>
      { fragSize := bitSlice entry 59 5
        pteBaseAddr := entry &&& pdeBaseMask
        valid := entry.testBit 0
        system := entry.testBit 1
        coherent := entry.testBit 2
        pte := entry.testBit 54
        further := entry.testBit 56
        llcNoalloc := decide (3 ≤ gfx.min) && entry.testBit 58 }
  | 11 =>
      { fragSize := bitSlice entry 59 5
        pteBaseAddr := entry &&& pdeBaseMask
        valid := entry.testBit 0
        system := entry.testBit 1
        coherent := entry.testBit 2
        mtype := bitSlice entry 48 3
        pte := entry.testBit 54
        further := entry.testBit 56
        tfsAddr := entry.testBit 57
        llcNoalloc := entry.testBit 58 }
  | 12 =>
      { fragSize := bitSlice entry 58 5
        pteBaseAddr := entry &&& pdeBaseMask
        valid := entry.testBit 0
        system := entry.testBit 1
        coherent := entry.testBit 2
        paRsvd := bitSlice entry 48 4
        mallReuse := bitSlice entry 54 2
        tfsAddr := entry.testBit 56
        pte := entry.testBit 63 }
  | _ => {}

def entryBaseAddr (isPde : Bool) (entry : Nat) : Nat :=
  if isPde then entry &&& pdeBaseMask else entry &&& pageBaseMask

def decodePteEntry (gfx : GfxVersion) (entry : Nat) : PteFields :=
  let common : PteFields :=
    { valid := entry.testBit 0
      system := entry.testBit 1
      coherent := entry.testBit 2
      tmz := entry.testBit 3
      execute := entry.testBit 4
      read := entry.testBit 5
      write := entry.testBit 6
      fragment := bitSlice entry 7 5 }
  match gfx.maj with
  | 9 =>
      { common with
        prt := entry.testBit 51
        pde := entry.testBit 54
        further := entry.testBit 56
        mtype := bitSlice entry 57 2
        pageBaseAddr := entryBaseAddr (entry.testBit 56) entry }
  | 10 =>
      { common with
        mtype := bitSlice entry 48 2
        prt := entry.testBit 51
        pde := entry.testBit 54
        further := entry.testBit 56
        gcr := entry.testBit 57
        llcNoalloc := decide (3 ≤ gfx.min) && entry.testBit 58
        pageBaseAddr := entryBaseAddr (entry.testBit 56) entry }
  | 11 =>
      { common with
        mtype := bitSlice entry 48 2
        prt := entry.testBit 51
        software := bitSlice entry 52 2
        pde := entry.testBit 54
        further := entry.testBit 56
        gcr := entry.testBit 57
        llcNoalloc := entry.testBit 58
        pageBaseAddr := entryBaseAddr (entry.testBit 56) entry }
  | 12 =>
      { common with
        paRsvd := bitSlice entry 48 4
        software := bitSlice entry 52 2
        mtype := bitSlice entry 54 2
        prt := entry.testBit 56
        gcr := entry.testBit 57
        dcc := entry.testBit 58
        pte := entry.testBit 63
        pageBaseAddr := entryBaseAddr (!entry.testBit 63) entry }
  | _ => { pageBaseAddr := entryBaseAddr false entry }

def PteFields.isPde (gfx : GfxVersion) (fields : PteFields) : Bool :=
  (fields.further && fields.valid) || (decide (12 ≤ gfx.maj) && !fields.pte && fields.valid)

theorem bitSlice_lt (entry low width : Nat) : bitSlice entry low width < 2 ^ width := by
  rw [bitSlice, Nat.and_two_pow_sub_one_eq_mod]
  exact Nat.mod_lt _ (by positivity)

theorem decodePdeEntry_fragSize_lt (gfx : GfxVersion) (entry : Nat) :
    (decodePdeEntry gfx entry).fragSize < 32 := by
  unfold decodePdeEntry
  split
  · exact bitSlice_lt entry 59 5
  · exact bitSlice_lt entry 59 5
  · exact bitSlice_lt entry 59 5
  · exact bitSlice_lt entry 58 5
  · norm_num

end Umr.Vm
