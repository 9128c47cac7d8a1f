import Umr.Harness.Script
import Umr.Lib.KeyedQueue
import Umr.Rumr.Protocol

/-!
# The callbacks of the test harness

`access_sram`, `access_linear_vram`, `read_reg` and `write_reg` of
`testing_harness.c`.  Register reads draw from the block lists as from queues;
memory reads leave the harness as it is.
-/

set_option autoImplicit false

namespace Umr.Harness

open Umr.Lib Umr.Rumr

/-- An access outside the storage of a block, or a loop that never ends. -/
inductive HarnessFault where
  | outside
  | hang
  deriving DecidableEq, Repr

/-! ## Memory -/

def RamBlock.covers (block : RamBlock) (address : UInt64) (size : UInt32) : Bool :=
  block.baseAddress ≤ address ∧
    address + size.toUInt64 ≤ block.baseAddress + block.size.toUInt64

/-- The first block that covers the range, with the bytes at `dst` and the
blocks after the access; `none` is the error return.  `data` is what a write
stores.  The end of the list is the block that is all zero. -/
def accessBlocks (address : UInt64) (size : UInt32) (data : Option (List UInt8)) :
    List RamBlock → Except HarnessFault (Option (List UInt8 × List RamBlock))
  | [] =>
      if (RamBlock.mk 0 0 []).covers address size then
        if size = 0 then .ok (some ([], [])) else .error .outside
      else .ok none
  | block :: blocks =>
      if block.covers address size then
        let offset := (address - block.baseAddress).toNat
        if block.contents.length < offset + size.toNat then .error .outside
        else
          match data with
          | none => .ok (some ((block.contents.drop offset).take size.toNat, block :: blocks))
          | some data =>
              let contents := block.contents.take offset ++ data.take size.toNat ++
                block.contents.drop (offset + size.toNat)
              .ok (some (data, { block with contents := contents } :: blocks))
      else do
        let found ← accessBlocks address size data blocks
        pure (found.map fun (bytes, blocks) => (bytes, block :: blocks))

def ramKind : MemSpace → RamKind
  | .vram => .vram
  | .sram => .sysram

def accessMemory (space : MemSpace) (th : TestHarness) (address : UInt64) (size : UInt32)
    (data : Option (List UInt8)) : Except HarnessFault (Option (List UInt8 × TestHarness)) := do
  let found ← accessBlocks address size data (th.ram (ramKind space))
  pure (found.map fun (bytes, blocks) =>
    (bytes, { th with ram := Function.update th.ram (ramKind space) blocks }))

def accessSram : TestHarness → UInt64 → UInt32 → Option (List UInt8) →
    Except HarnessFault (Option (List UInt8 × TestHarness)) := accessMemory .sram

def accessLinearVram : TestHarness → UInt64 → UInt32 → Option (List UInt8) →
    Except HarnessFault (Option (List UInt8 × TestHarness)) := accessMemory .vram

/-! ## Registers -/

/-- The registers the callbacks look up by name: the SQ pair, and the MM ones
each under its plain and its `BIF_BX_PF` name. -/
inductive IndirectReg where
  | sqIndData
  | sqIndIndex
  | mmData
  | bifMmData
  | mmIndex
  | bifMmIndex
  | mmIndexHi
  | bifMmIndexHi
  deriving DecidableEq, Repr

/-- `umr_find_reg` for those names: a dword address, or 0xFFFFFFFF. -/
abbrev FindReg := IndirectReg → UInt32

def noReg : FindReg := fun _ => 0xFFFFFFFF

def isReg (find : FindReg) (addr : UInt64) (reg : IndirectReg) : Prop :=
  addr >>> 2 = (find reg).toUInt64

instance (find : FindReg) (addr : UInt64) (reg : IndirectReg) : Decidable (isReg find addr reg) :=
  inferInstanceAs (Decidable (_ = _))

def deadbeef : UInt32 := 0xDEADBEEF

/-- The next value under `key`, from the first block that has one left: `live`
compares the current slot with the number of values. -/
def takeSlot {Key : Type} [DecidableEq Key] (live : UInt32 → UInt32 → Bool) (key : Key) :
    List (SlotBlock Key) → Except HarnessFault (Option (UInt32 × List (SlotBlock Key)))
  | [] => .ok none
  | block :: blocks =>
      if block.address = key ∧ live block.curSlot block.noValues then
        match block.values[block.curSlot.toNat]? with
        | none => .error .outside
        | some v => .ok (some (v, { block with curSlot := block.curSlot + 1 } :: blocks))
      else do
        let found ← takeSlot live key blocks
        pure (found.map fun (v, blocks) => (v, block :: blocks))

def takeMmio : UInt64 → List MmioBlock → Except HarnessFault (Option (UInt32 × List MmioBlock)) :=
  takeSlot fun curSlot noValues => curSlot ≠ noValues

def takeSq : UInt32 → List SqBlock → Except HarnessFault (Option (UInt32 × List SqBlock)) :=
  takeSlot fun curSlot noValues => curSlot < noValues

def mmIndexAddr (index : UInt64) : UInt64 :=
  (index &&& (0x7FFFFFFF : UInt64)) ||| ((index &&& (0xFFFFFFFF00000000 : UInt64)) >>> 1)

def readMmData (th : TestHarness) : Except HarnessFault UInt32 :=
  if th.vramMmIndex &&& ((1 : UInt64) <<< 31) ≠ 0 then do
    let found ← accessLinearVram th (mmIndexAddr th.vramMmIndex) 4 none
    match found with
    | some (bytes, _) => pure (bytesWord bytes)
    | none => pure 0
  else .ok 0

section Reg
variable (find : FindReg)

def readReg (th : TestHarness) (addr : UInt64) (type : RegClass) :
    Except HarnessFault (UInt32 × TestHarness) :=
  if type ≠ .mmio then .ok (deadbeef, th)
  else if isReg find addr .sqIndData then do
    let found ← takeSq th.sqIndIndex th.sq
    match found with
    | some (v, blocks) => pure (v, { th with sq := blocks })
    | none => pure (deadbeef, th)
  else if isReg find addr .sqIndIndex then .ok (th.sqIndIndex, th)
  else if isReg find addr .mmData ∨ isReg find addr .bifMmData then do
    let v ← readMmData th
    pure (v, th)
  else if isReg find addr .mmIndex ∨ isReg find addr .bifMmIndex then
    .ok (th.vramMmIndex.toUInt32, th)
  else if isReg find addr .mmIndexHi ∨ isReg find addr .bifMmIndexHi then
    .ok ((th.vramMmIndex >>> 32).toUInt32, th)
  else do
    let found ← takeMmio addr (th.mmio .mmio)
    match found with
    | some (v, blocks) => pure (v, { th with mmio := Function.update th.mmio .mmio blocks })
    | none => pure (deadbeef, th)

/-- The first block under `addr` gets the value into its current slot. -/
def putMmio (addr : UInt64) (value : UInt32) :
    List MmioBlock → Except HarnessFault (Option (List MmioBlock))
  | [] => if addr = 0 then .error .outside else .ok none
  | block :: blocks =>
      if block.address = addr then
        if block.curSlot.toNat < block.values.length then
          .ok (some ({ block with values := block.values.set block.curSlot.toNat value } :: blocks))
        else .error .outside
      else do
        let found ← putMmio addr value blocks
        pure (found.map fun blocks => block :: blocks)

/-- `none` is the return value -1. -/
def writeReg (th : TestHarness) (addr : UInt64) (value : UInt32) (type : RegClass) :
    Except HarnessFault (Option TestHarness) :=
  if type ≠ .mmio then .ok none
  else if isReg find addr .sqIndData then .ok none
  else if isReg find addr .sqIndIndex then .ok (some { th with sqIndIndex := value })
  else if isReg find addr .mmData ∨ isReg find addr .bifMmData then
    if th.vramMmIndex &&& ((1 : UInt64) <<< 31) ≠ 0 then do
      let found ← accessLinearVram th (mmIndexAddr th.vramMmIndex) 4 (some (wordBytes value))
      pure (found.map Prod.snd)
    else .ok none
  else if isReg find addr .mmIndex ∨ isReg find addr .bifMmIndex then
    .ok (some { th with
      vramMmIndex := (th.vramMmIndex &&& (0xFFFFFFFF00000000 : UInt64)) ||| value.toUInt64 })
  else if isReg find addr .mmIndexHi ∨ isReg find addr .bifMmIndexHi then
    .ok (some { th with
      vramMmIndex := (th.vramMmIndex &&& (0xFFFFFFFF : UInt64)) ||| (value.toUInt64 <<< 32) })
  else do
    let found ← putMmio addr value (th.mmio .mmio)
    pure (found.map fun blocks => { th with mmio := Function.update th.mmio .mmio blocks })

end Reg

/-! ## Blocks as queues -/

section Slots
variable {Key : Type} [DecidableEq Key] {blocks : List (SlotBlock Key)}

def SlotBlock.left (block : SlotBlock Key) : List UInt32 :=
  block.values.drop block.curSlot.toNat

/-- The values still to come under each key. -/
def queueOf (blocks : List (SlotBlock Key)) (key : Key) : List UInt32 :=
  blocks.flatMap fun block => if block.address = key then block.left else []

structure SlotBlock.Ok (block : SlotBlock Key) : Prop where
  filled : block.noValues.toNat = block.values.length
  slot : block.curSlot.toNat ≤ block.values.length

def TellsLeft (live : UInt32 → UInt32 → Bool) : Prop :=
  ∀ curSlot noValues : UInt32, curSlot.toNat ≤ noValues.toNat →
    (live curSlot noValues = true ↔ curSlot.toNat < noValues.toNat)

theorem tellsLeft_ne : TellsLeft fun curSlot noValues => curSlot ≠ noValues := by
  intro curSlot noValues le
  simp only [ne_eq, decide_not, Bool.not_eq_true', decide_eq_false_iff_not, ← UInt32.toNat_inj]
  omega

theorem tellsLeft_lt : TellsLeft fun curSlot noValues => curSlot < noValues := by
  intro curSlot noValues _
  simp only [decide_eq_true_eq]
  exact UInt32.lt_iff_toNat_lt

theorem queueOf_cons (block : SlotBlock Key) (blocks : List (SlotBlock Key)) (key : Key) :
    queueOf (block :: blocks) key =
      (if block.address = key then block.left else []) ++ queueOf blocks key :=
  List.flatMap_cons ..

omit [DecidableEq Key] in
/-- A block whose current slot holds `v` goes on with the values behind it. -/
theorem SlotBlock.left_cons {block : SlotBlock Key} (ok : block.Ok)
    (more : block.curSlot.toNat < block.values.length) :
    ∃ v, block.values[block.curSlot.toNat]? = some v ∧
      block.left = v :: ({ block with curSlot := block.curSlot + 1 } : SlotBlock Key).left ∧
      ({ block with curSlot := block.curSlot + 1 } : SlotBlock Key).Ok := by
  have next : (block.curSlot + 1).toNat = block.curSlot.toNat + 1 := by
    have bound := block.noValues.toNat_lt
    have filled := ok.filled
    have one : (1 : UInt32).toNat = 1 := rfl
    rw [UInt32.toNat_add, one, Nat.mod_eq_of_lt (by omega)]
  refine ⟨block.values[block.curSlot.toNat], List.getElem?_eq_getElem more, ?_, ok.filled, ?_⟩
  · rw [left, left, next]
    exact List.drop_eq_getElem_cons more
  · dsimp only
    rw [next]
    exact more

/-- Taking a value is drawing it from the queue of the key. -/
theorem takeSlot_spec {live : UInt32 → UInt32 → Bool} (tells : TellsLeft live) (key : Key)
    (blocks : List (SlotBlock Key)) : (∀ block ∈ blocks, block.Ok) →
    match queueOf blocks key with
    | [] => takeSlot live key blocks = .ok none
    | v :: queue => ∃ after, takeSlot live key blocks = .ok (some (v, after)) ∧
        (∀ block ∈ after, block.Ok) ∧
        queueOf after = Function.update (queueOf blocks) key queue := by
  induction blocks with
  | nil => exact fun _ => rfl
  | cons block blocks ih =>
      intro allOk
      have ok : block.Ok := allOk block (List.mem_cons_self ..)
      have behind := ih fun block member => allOk block (List.mem_cons_of_mem _ member)
      have leftIff := tells block.curSlot block.noValues (by rw [ok.filled]; exact ok.slot)
      rw [ok.filled] at leftIff
      by_cases own : block.address = key ∧ live block.curSlot block.noValues = true
      · obtain ⟨v, found, left, nextOk⟩ := SlotBlock.left_cons ok (leftIff.mp own.2)
        rw [queueOf_cons, if_pos own.1, left, List.cons_append]
        refine ⟨{ block with curSlot := block.curSlot + 1 } :: blocks, ?_, ?_, ?_⟩
        · rw [takeSlot, if_pos own, found]
        · intro other member
          rcases List.mem_cons.mp member with rfl | tail
          · exact nextOk
          · exact allOk other (List.mem_cons_of_mem _ tail)
        · funext other
          rw [queueOf_cons]
          by_cases same : other = key
          · subst same
            rw [Function.update_self, if_pos own.1]
          · rw [Function.update_of_ne same, queueOf_cons,
              if_neg fun equal => same (equal.symm.trans own.1),
              if_neg fun equal => same (equal.symm.trans own.1)]
      · have nothing : (if block.address = key then block.left else []) = [] := by
          split
          · rename_i same
            have dead : ¬ block.curSlot.toNat < block.values.length :=
              fun more => own ⟨same, leftIff.mpr more⟩
            exact List.drop_eq_nil_of_le (Nat.le_of_not_lt dead)
          · rfl
        rw [queueOf_cons, nothing, List.nil_append, takeSlot, if_neg own]
        generalize queueOf blocks key = queue at behind ⊢
        cases queue with
        | nil =>
            rw [behind]
            rfl
        | cons v queue =>
            obtain ⟨after, run, afterOk, queues⟩ := behind
            refine ⟨block :: after, by rw [run]; rfl, ?_, ?_⟩
            · intro other member
              rcases List.mem_cons.mp member with rfl | tail
              · exact ok
              · exact afterOk other tail
            · funext other
              rw [queueOf_cons, queues]
              by_cases same : other = key
              · subst same
                rw [Function.update_self, Function.update_self, nothing, List.nil_append]
              · rw [Function.update_of_ne same, Function.update_of_ne same, queueOf_cons]

end Slots

end Umr.Harness
