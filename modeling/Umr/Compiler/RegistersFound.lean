import Umr.Compiler.RegistersRead
import Umr.Registers.FindReg

/-!
# Compiled registers, found by name

The order in which the compiler prints is the one that the search by halving needs, so the lookup in
a block that was read back finds every register.
-/

set_option autoImplicit false

namespace Umr.Compiler

open Umr.Lib Umr.Database

/-! ## A block in memory -/

def cName (name : List Char) : CString := CString.ofBuffer (bytesOf name)

def loadedReg (r : Register) : Rumr.Reg where
  regname := cName r.regname
  type := UInt32.ofNat r.type.toNat
  addr := r.addr
  bit64 := r.bit64.toUInt64
  bits := r.bits.map fun b => ⟨cName b.regname, b.start, b.stop⟩

def loadedBlock (block : IpBlock) : Rumr.IpBlock where
  ipname := cName block.ipname
  discoverable :=
    ⟨UInt32.ofNat block.discoverable.die.toNat, UInt32.ofNat block.discoverable.maj.toNat,
      UInt32.ofNat block.discoverable.min.toNat, UInt32.ofNat block.discoverable.rev.toNat,
      UInt32.ofNat block.discoverable.inst.toNat, UInt32.ofNat block.discoverable.logicalInst.toNat⟩
  regs := block.regs.map loadedReg

theorem cName_bytes {name : List Char} (all : ∀ c ∈ name, inSymbol c = true) :
    (cName name).bytes = bytesOf name :=
  List.takeWhile_eq_self_iff.mpr fun b member => decide_eq_true (bytesOf_terminated all b member)

/-- No symbol begins with an `@`. -/
theorem strip_symbol {name : List Char} (all : ∀ c ∈ name, inSymbol c = true) :
    Registers.strip (bytesOf name) = bytesOf name := by
  cases name with
  | nil => rfl
  | cons c name =>
      have range := inSymbol_range (all c List.mem_cons_self)
      change Registers.strip (UInt8.ofNat c.toNat :: bytesOf name) = UInt8.ofNat c.toNat :: bytesOf name
      refine Registers.strip.eq_2 _ fun rest same => ?_
      have value := congrArg UInt8.toNat (List.cons.inj same).1
      rw [UInt8.toNat_ofNat', Nat.mod_eq_of_lt (by omega)] at value
      exact range.2.2 value

/-- In one sorted block that is not skipped, a name that is there is found. -/
theorem umrFindRegDataByIp_one {name : CString} {block : Rumr.IpBlock} (sorted : Registers.SortedRegs block.regs)
    (few : block.regs.length ≤ 2 ^ 30) (open_ : Registers.skips none (-1) block = false)
    (plain : Registers.strip name.bytes = name.bytes) (short : name.bytes.length < 96)
    {r : Rumr.Reg} (member : r ∈ block.regs) (named : Registers.SameName r.regname.bytes name.bytes) :
    ∃ place found, block.regs[place]? = some found ∧
      Registers.SameName found.regname.bytes name.bytes ∧
      Registers.umrFindRegDataByIp [block] none name = .found (0, place) := by
  obtain ⟨place, isPlace⟩ : ∃ place, Registers.findName block.regs name.bytes = some place := by
    refine Option.isSome_iff_exists.mp (List.findIdx?_isSome.trans ?_)
    exact List.any_eq_true.mpr ⟨r, member, decide_eq_true named⟩
  obtain ⟨inside, same, -⟩ := List.findIdx?_eq_some_iff_getElem.mp isPlace
  refine ⟨place, _, List.getElem?_eq_getElem inside, of_decide_eq_true same, ?_⟩
  have all : Registers.searchBlocks [block] none (-1) name.bytes = .found (0, place) := by
    rw [(Registers.searchBlocks_sound name.terminated fun b isBlock => by
      rw [List.mem_singleton.mp isBlock]; exact sorted).2 <|
        Registers.not_passOverflows_of_few fun b isBlock => by
          rw [List.mem_singleton.mp isBlock]; exact few]
    have found : Registers.findFirst (fun block => !Registers.skips none (-1) block) [block]
        name.bytes = some (0, place) := by
      rw [Registers.findFirst, List.zipIdx_singleton, List.findSome?_singleton]
      dsimp only
      rw [open_, isPlace]
      rfl
    rw [found]
    rfl
  rw [Registers.umrFindRegDataByIp, Registers.umrFindRegDataByIpByInstanceWithIp, if_pos short, plain,
    Option.elim_none, all]

/-- A block whose name has no `{` is not skipped. -/
theorem skips_open {block : IpBlock} (open_ : 123 ∉ bytesOf block.ipname) :
    Registers.skips none (-1) (loadedBlock block) = false := by
  have apart : ¬ Registers.ascii ['{'] <:+: (cName block.ipname).bytes := by
    intro inside
    have member : 123 ∈ (cName block.ipname).bytes := inside.subset (by decide)
    exact open_ ((List.takeWhile_sublist _).subset member)
  refine decide_eq_false ?_
  rintro (⟨positive, -⟩ | ⟨-, -, inside⟩)
  · exact absurd positive (by decide)
  · exact apart inside

/-- Every register of the headers is found by its name in the block that is read. -/
theorem compiledRegisters_found {s15 : Bool} {rf bf : List HeaderLine} {regs : List RegDef}
    {bs : List BitDef} (defines_ : Defines s15 rf bf regs bs) (few : regs.length ≤ 2 ^ 30)
    {text : List Char} (compiles : Compiles s15 (headerText rf) (headerText bf) text)
    (stale : Stale) {soc15 : Option (List Soc15)} {entry : Option Soc15} {soc15name : List Char}
    {cmnname filename : List Char} (open_ : 123 ∉ bytesOf cmnname) (named : IsWord filename)
    (found : NamesEntry soc15 soc15name entry) {inst : Nat} (table : TableFits regs entry inst) :
    ∃ block, umrDatabaseReadIpblock stale soc15 (some text) filename cmnname soc15name inst =
        .ok (some block, []) ∧
      ∀ d ∈ regs, d.name.length < 96 → ∃ place, ∃ e ∈ regs,
        Registers.SameName (bytesOf e.name) (bytesOf d.name) ∧
        block.regs[place]? = some (e.register bs (entry.map fun entry => entry.off inst)) ∧
        Registers.umrFindRegDataByIp [loadedBlock block] none (cName d.name) = .found (0, place) := by
  obtain ⟨sorted, perm, order, rfl⟩ := (defines_.compiles_iff text).mp compiles
  refine ⟨_, defines_.read perm stale cmnname named found table, fun d member short => ?_⟩
  have symbols : ∀ e ∈ regs, (cName e.name).bytes = bytesOf e.name := fun e isDef =>
    cName_bytes (defines_.regPrinted isDef).all
  obtain ⟨off, isOff⟩ : ∃ off, off = entry.map fun entry => entry.off inst := ⟨_, rfl⟩
  rw [← isOff]
  obtain ⟨block, isBlock⟩ : ∃ block : IpBlock, block =
      ⟨cmnname, UInt32.ofNat regs.length, sorted.map (RegDef.register bs off),
        fillIpverFromPath filename⟩ := ⟨_, rfl⟩
  have isRegs : (loadedBlock block).regs =
      sorted.map fun e => loadedReg (e.register bs off) := by
    rw [isBlock]
    exact List.map_map
  have inOrder : Registers.SortedRegs (loadedBlock block).regs := by
    rw [isRegs, Registers.SortedRegs, List.pairwise_map]
    refine order.imp_of_mem fun {a b} isA isB less => ?_
    change Registers.istrCmp (cName a.name).bytes (cName b.name).bytes ≤ 0
    rwa [symbols a (perm.mem_iff.mp isA), symbols b (perm.mem_iff.mp isB)]
  have bytes := symbols d member
  obtain ⟨place, r, isAt, same, isFound⟩ := @umrFindRegDataByIp_one (cName d.name)
    (loadedBlock block) inOrder
    (by rw [isRegs, List.length_map, perm.length_eq]; exact few)
    (skips_open (by rw [isBlock]; exact open_))
    (by rw [bytes]; exact strip_symbol (defines_.regPrinted member).all)
    (by rw [bytes, bytesOf, List.length_map]; exact short)
    (loadedReg (d.register bs off))
    (by rw [isRegs]; exact List.mem_map.mpr ⟨d, perm.mem_iff.mpr member, rfl⟩) rfl
  rw [isRegs, List.getElem?_map] at isAt
  obtain ⟨e, isE, rfl⟩ := Option.map_eq_some_iff.mp isAt
  have isDef : e ∈ regs := perm.mem_iff.mp (List.mem_of_getElem? isE)
  refine ⟨place, e, isDef, ?_, ?_, ?_⟩
  · rw [← symbols e isDef, ← bytes]
    exact same
  · dsimp only
    rw [List.getElem?_map, isE]
    rfl
  · rw [← isBlock]
    exact isFound

def scratchText : List Char :=
  "2\nixGAIN 2 0x20 0 0 4294967295\nregSCRATCH 0 0xb40 1 0 1\n\tVALUE 4 15\n".toList

theorem scratchText_compiles :
    Compiles true (headerText scratchRegHeader) (headerText scratchBitHeader) scratchText := by
  refine (scratchHeaders_define.compiles_iff scratchText).mpr ⟨scratchRegs.reverse, ?_, ?_, ?_⟩
  · exact List.reverse_perm _
  · decide
  · decide +kernel

theorem scratchText_found :
    ∃ block, umrDatabaseReadIpblock zeroStale none (some scratchText) "gfx_11_0_0.reg".toList
        "gfx1100".toList "GC".toList 0 = .ok (some block, []) ∧
      ∀ d ∈ scratchRegs, d.name.length < 96 → ∃ place, ∃ e ∈ scratchRegs,
        Registers.SameName (bytesOf e.name) (bytesOf d.name) ∧
        block.regs[place]? = some (e.register scratchBits none) ∧
        Registers.umrFindRegDataByIp [loadedBlock block] none (cName d.name) = .found (0, place) := by
  have named : IsWord "gfx_11_0_0.reg".toList :=
    ⟨by decide, List.forall_iff_forall_mem.mp (by decide)⟩
  refine @compiledRegisters_found _ _ _ _ _ scratchHeaders_define (by decide) _ scratchText_compiles
    zeroStale none none "GC".toList "gfx1100".toList _ (by decide) named rfl 0 ⟨?_, ?_⟩
  · exact fun none_ => absurd none_ Bool.false_ne_true
  · exact fun none_ => absurd none_ Bool.false_ne_true

end Umr.Compiler
