import Umr.Registers.Bitslice
import Umr.Waves.WaveOps

/-!
# Register accesses

`umr_read_reg` and `umr_write_reg` of `lowlevel/linux/mmio.c` with the selections of
`mmio.c`.  Without the kernel a bank is selected by a write to a register before the
access, and the default is selected again behind it.  With PCI, SMC registers are
behind a pair of registers that are accessed by name, through the same functions.
Beside what the functions return it is kept what the device got: whether the value of
a write was stored, and the selections that were.  The test log is left out.
-/

set_option autoImplicit false

namespace Umr.Registers

open Umr.Rumr (ChipFamily Reg)
open Umr.Waves (BankWords RegClass)

inductive RegFile where
  | mmio2 | mmio | pcie | smc
  deriving DecidableEq, Repr

inductive Selection where
  | grbm (se sh instance_ : UInt32)
  | srbm (me pipe queue vmid : UInt32)
  deriving DecidableEq, Repr

/-- Broadcast to all units, and the first queue of the first engine. -/
def Selection.default : Selection → Selection
  | .grbm .. => .grbm broadcast broadcast broadcast
  | .srbm .. => .srbm 0 0 0 0

def Selection.IsDefault (selection : Selection) : Prop := selection = selection.default

instance (selection : Selection) : Decidable selection.IsDefault :=
  inferInstanceAs (Decidable (selection = selection.default))

/-- `struct amdgpu_debugfs_regs2_iocdata`, and with an `xccId` its second version. -/
structure IocData where
  pgLock : Bool
  bank : Option Selection
  xccId : Option Int
  deriving DecidableEq, Repr

/-- What a write returns, and whether the value was stored at the register. -/
structure Written where
  ret : Int
  delivered : Bool
  deriving DecidableEq, Repr

inductive SmcReg where
  | mmSmcIndIndex1 | mmSmcIndData1 | mmMp0PubIndIndex1 | mmMp0PubIndData1
  deriving DecidableEq, Repr

/-- The calls that leave the program, over the state `σ` of the device.  `ioctl`,
`lseek` and `write` tell whether they succeeded. -/
structure RegDevice (σ : Type) where
  ioctl : IocData → σ → Bool × σ
  lseek : RegFile → UInt64 → σ → Bool × σ
  read : RegFile → σ → Option UInt32 × σ
  write : RegFile → UInt32 → σ → Bool × σ
  load : UInt64 → σ → UInt32
  store : UInt64 → UInt32 → σ → σ

/-- `pciSize` is the size of the mapped region, if `pci.mem` is set; `grbmIdx`,
`srbmIdx` and `smcReg` are what the search by name finds.  `umr_discover_asic` opens no
file for an ASIC in no-kernel mode. -/
structure RegAsic where
  family : ChipFamily
  gfxFamily : Nat
  noKernel : Bool
  usePci : Bool
  pgLock : Bool
  vmPartition : Int
  contextRegBank : UInt64
  bank : BankWords
  pciSize : Option UInt64
  opened : RegFile → Bool
  closed : noKernel = true → ∀ file, opened file = false
  grbmIdx : Option Reg
  srbmIdx : Option Reg
  smcReg : SmcReg → Option Reg

/-- The options the accesses change, and the selections that were stored so far. -/
structure RegState (σ : Type) where
  useBank : UInt32
  useV1 : Bool
  dev : σ
  selected : List Selection

/-- A `case` ends with `break`, or with a `return` of its own. -/
inductive CaseEnd (α : Type) where
  | broke (value : α)
  | returned (value : α)
  deriving DecidableEq, Repr

def CaseEnd.value {α : Type} : CaseEnd α → α
  | .broke value => value
  | .returned value => value

/-- `enum regclass`; a type without a name goes where `.indirect` goes. -/
def regClass (type : UInt32) : RegClass :=
  if type = 0 then .mmio
  else if type = 1 then .didt
  else if type = 2 then .smc
  else if type = 3 then .pcie
  else if type = 4 then .smn
  else .indirect

section Access
variable {σ : Type} (asic : RegAsic) (device : RegDevice σ)

/-- The bank of the options, in use as GRBM or as SRBM bank. -/
def RegAsic.chosen (useBank : UInt32) : Option Selection :=
  if useBank = 1 then some (.grbm asic.bank.word1 asic.bank.word2 asic.bank.word0)
  else if useBank = 2 then
    some (.srbm asic.bank.word0 asic.bank.word2 asic.bank.word1 asic.bank.word3)
  else none

/-- Registers of the context range are moved to the bank of the context. -/
def RegAsic.contextAddr (addr : UInt64) : UInt64 :=
  let mmioAddr := addr &&& 0xFFFFFFFF
  if 0xA000 * 4 ≤ mmioAddr ∧ mmioAddr < 0xB000 * 4 then addr + asic.contextRegBank * 0x1000
  else addr

def RegAsic.mapped (addr : UInt64) : Bool := asic.pciSize.any fun size => decide (addr < size)

/-- `umr_apply_bank_selection_address` without the newer file. -/
def bankSelectionAddress (useBank : UInt32) : UInt64 :=
  match asic.chosen useBank with
  | some (.grbm se sh instance_) =>
      ((1 : UInt64) <<< 62) ||| ((se.toUInt64 &&& 0x3FF) <<< 24) |||
        ((sh.toUInt64 &&& 0x3FF) <<< 34) ||| ((instance_.toUInt64 &&& 0x3FF) <<< 44)
  | some (.srbm me pipe queue vmid) =>
      ((1 : UInt64) <<< 61) ||| ((me.toUInt64 &&& 0x3FF) <<< 24) |||
        ((pipe.toUInt64 &&& 0x3FF) <<< 34) ||| ((queue.toUInt64 &&& 0x3FF) <<< 44) |||
        ((vmid.toUInt64 &&& 0x3FF) <<< 54)
  | none => 0

/-- Whether the state was set; once the second version fails it is not tried again. -/
def mmio2ApplyBank : StateM (RegState σ) Bool := fun state =>
  let data (xccId : Option Int) : IocData := ⟨asic.pgLock, asic.chosen state.useBank, xccId⟩
  let xccId := if asic.vmPartition = -1 then 0 else asic.vmPartition
  let (set, dev) := if state.useV1 then (false, state.dev) else device.ioctl (data xccId) state.dev
  if set then (true, { state with dev := dev })
  else
    let (set, dev) := device.ioctl (data none) dev
    (set, { state with dev := dev, useV1 := true })

/-- `lseek` on the descriptor of a file that was not opened fails. -/
def seek (file : RegFile) (offset : UInt64) (dev : σ) : Bool × σ :=
  if asic.opened file then device.lseek file offset dev else (false, dev)

def seekAndWrite (file : RegFile) (offset : UInt64) (value : UInt32) (dev : σ) : Written × σ :=
  let (sought, dev) := seek asic device file offset dev
  if sought then
    let (wrote, dev) := device.write file value dev
    (if wrote then ⟨0, true⟩ else ⟨-1, false⟩, dev)
  else (⟨-1, false⟩, dev)

/-- A failed `lseek` is only reported; a value that was not read is taken to be 0. -/
def seekAndRead (file : RegFile) (offset : UInt64) (dev : σ) : UInt32 × σ :=
  let (_, dev) := seek asic device file offset dev
  if asic.opened file then
    let (value, dev) := device.read file dev
    (value.getD 0, dev)
  else (0, dev)

/-! ## The class of MMIO registers -/

/-- `case REG_MMIO` of `umr_write_reg`. -/
def writeMmio (addr : UInt64) (value : UInt32) : StateM (RegState σ) (CaseEnd Written) := fun state =>
  if asic.mapped addr then
    (.broke ⟨0, true⟩, { state with dev := device.store addr value state.dev })
  else if asic.opened .mmio2 then
    let (set, state) := mmio2ApplyBank asic device state
    -- `[ERROR]: Could not set register IOCTL state`
    if !set then (.returned ⟨0, false⟩, state)
    else
      let (written, dev) := seekAndWrite asic device .mmio2 addr value state.dev
      (.broke written, { state with dev := dev })
  else
    let (written, dev) := seekAndWrite asic device .mmio
      ((addr &&& 0xFFFFFF) ||| bankSelectionAddress asic state.useBank) value state.dev
    (.broke written, { state with dev := dev })

/-- `case REG_MMIO` of `umr_read_reg`. -/
def readMmio (addr : UInt64) : StateM (RegState σ) (CaseEnd UInt32) := fun state =>
  if asic.mapped addr then (.broke (device.load addr state.dev), state)
  else if asic.opened .mmio2 then
    let (set, state) := mmio2ApplyBank asic device state
    if !set then (.returned 0, state)
    else
      let (sought, dev) := seek asic device .mmio2 addr state.dev
      if !sought then (.returned 0, { state with dev := dev })
      else
        let (value, dev) := device.read .mmio2 dev
        (value.elim (.returned 0) .broke, { state with dev := dev })
  else
    let (value, dev) := seekAndRead asic device .mmio
      ((addr &&& 0xFFFFFF) ||| bankSelectionAddress asic state.useBank) state.dev
    (.broke value, { state with dev := dev })

/-! ## Selections -/

/-- The register of a selection, and what is written to it. -/
def selectionWrite : Selection → Option (Reg × UInt32)
  | .grbm se sh instance_ =>
      let nv : Bool := ChipFamily.nv.code ≤ asic.family.code
      asic.grbmIdx.map fun reg => (reg, (selectValues reg (grbmValues nv se sh instance_)).getD 0)
  | .srbm me pipe queue vmid =>
      asic.srbmIdx.map fun reg => (reg, (selectValues reg (srbmValues me pipe queue vmid)).getD 0)

/-- `umr_grbm_select_index` and `umr_srbm_select_index`: a call of `umr_write_reg`
without a bank, for which the class of MMIO registers is all there is. -/
def selectIndex (selection : Selection) : StateM (RegState σ) Int := fun state =>
  match selectionWrite asic selection with
  | none => (-1, state)
  | some (reg, data) =>
      let bank := state.useBank
      let (done, state) :=
        writeMmio asic device (asic.contextAddr (reg.addr * 4)) data { state with useBank := 0 }
      (done.value.ret, { state with
        useBank := bank
        selected := if done.value.delivered then state.selected ++ [selection] else state.selected })

/-- The selection in front of an access to an MMIO register. -/
def selectedFor (state : RegState σ) : Option Selection :=
  if asic.noKernel then asic.chosen state.useBank else none

def withSelection {α : Type} (access : StateM (RegState σ) (CaseEnd α)) :
    StateM (RegState σ) α := fun state =>
  match selectedFor asic state with
  | none =>
      let (done, state) := access state
      (done.value, state)
  | some selection =>
      let (_, state) := selectIndex asic device selection state
      match access state with
      | (.returned value, state) => (value, state)
      | (.broke value, state) =>
          let (_, state) := selectIndex asic device selection.default state
          (value, state)

/-! ## Accesses by name -/

/-- `umr_write_reg_by_name` with the register that was found, over the callback of the
ASIC. -/
def umrWriteRegByName (writeReg : UInt64 → UInt32 → RegClass → StateT (RegState σ) Option Written)
    (found : Option Reg) (value : UInt64) : StateT (RegState σ) Option Written :=
  match found with
  | none => pure ⟨-1, false⟩
  | some reg =>
      let type := regClass reg.type
      let scale : UInt64 := if type = .mmio then 4 else 1
      if reg.bit64 ≠ 0 then do
        let low ← writeReg (reg.addr * scale) (value &&& 0xFFFFFFFF).toUInt32 type
        if low.ret = 0 then do
          let high ← writeReg ((reg.addr + 1) * scale) (value >>> 32).toUInt32 type
          pure ⟨high.ret, low.delivered && high.delivered⟩
        else pure ⟨low.ret, false⟩
      else writeReg (reg.addr * scale) value.toUInt32 type

def umrReadRegByName (readReg : UInt64 → RegClass → StateT (RegState σ) Option UInt32)
    (found : Option Reg) : StateT (RegState σ) Option UInt64 :=
  match found with
  | none => pure 0
  | some reg =>
      let type := regClass reg.type
      let scale : UInt64 := if type = .mmio then 4 else 1
      if reg.bit64 ≠ 0 then do
        let low ← readReg (reg.addr * scale) type
        let high ← readReg ((reg.addr + 1) * scale) type
        pure (low.toUInt64 ||| (high.toUInt64 <<< 32))
      else do
        let value ← readReg (reg.addr * scale) type
        pure value.toUInt64

/-! ## The other classes -/

def smcRegs : Option (SmcReg × SmcReg) :=
  if asic.gfxFamily ∈ [110, 120, 125, 130] then some (.mmSmcIndIndex1, .mmSmcIndData1)
  else if asic.gfxFamily = 135 then some (.mmMp0PubIndIndex1, .mmMp0PubIndData1)
  else none

def onDevice {α : Type} (op : σ → α × σ) : StateT (RegState σ) Option α := fun state =>
  let (value, dev) := op state.dev
  some (value, { state with dev := dev })

/-- What the write of the index returns is not looked at. -/
def umrSmcWrite (writeReg : UInt64 → UInt32 → RegClass → StateT (RegState σ) Option Written)
    (addr : UInt64) (value : UInt32) : StateT (RegState σ) Option Written :=
  if asic.usePci then
    match smcRegs asic with
    | none => pure ⟨-1, false⟩
    | some (index, data) => do
        let first ← umrWriteRegByName writeReg (asic.smcReg index) addr
        let second ← umrWriteRegByName writeReg (asic.smcReg data) value.toUInt64
        pure ⟨second.ret, first.delivered && second.delivered⟩
  else onDevice (seekAndWrite asic device .smc addr value)

def umrSmcRead (writeReg : UInt64 → UInt32 → RegClass → StateT (RegState σ) Option Written)
    (readReg : UInt64 → RegClass → StateT (RegState σ) Option UInt32) (addr : UInt64) :
    StateT (RegState σ) Option UInt32 :=
  if asic.usePci then
    match smcRegs asic with
    | none => pure 0
    | some (index, data) => do
        let _ ← umrWriteRegByName writeReg (asic.smcReg index) addr
        let value ← umrReadRegByName readReg (asic.smcReg data)
        pure value.toUInt32
  else onDevice (seekAndRead asic device .smc addr)

def umrPcieWrite (addr : UInt64) (value : UInt32) (dev : σ) : Written × σ :=
  if asic.usePci then (⟨-1, false⟩, dev) else seekAndWrite asic device .pcie addr value dev

def umrPcieRead (addr : UInt64) (dev : σ) : UInt32 × σ :=
  if asic.usePci then (0, dev) else seekAndRead asic device .pcie addr dev

/-- `depth` bounds the calls within calls: an SMC register that is itself reached by the
name of an SMC register has no end. -/
def umrWriteReg : Nat → UInt64 → UInt32 → RegClass → StateT (RegState σ) Option Written
  | 0, _, _, _ => fun _ => none
  | depth + 1, addr, value, type =>
      match type with
      | .smn | .pcie => onDevice (umrPcieWrite asic device (asic.contextAddr addr) value)
      | .mmio => fun state =>
          some (withSelection asic device (writeMmio asic device (asic.contextAddr addr) value) state)
      | .smc => umrSmcWrite asic device (umrWriteReg depth) (asic.contextAddr addr) value
      | _ => pure ⟨-1, false⟩

def umrReadReg : Nat → UInt64 → RegClass → StateT (RegState σ) Option UInt32
  | 0, _, _ => fun _ => none
  | depth + 1, addr, type =>
      match type with
      | .smn | .pcie => onDevice (umrPcieRead asic device (asic.contextAddr addr))
      | .mmio => fun state =>
          some (withSelection asic device (readMmio asic device (asic.contextAddr addr)) state)
      | .smc =>
          umrSmcRead asic device (umrWriteReg asic device depth) (umrReadReg depth)
            (asic.contextAddr addr)
      | _ => pure 0

end Access

/-! ## What is stored -/

section Answers
variable {σ : Type} (asic : RegAsic) (device : RegDevice σ)

/-- What becomes of a value that is written: it is stored, the `lseek` or the `write`
fails, or the state of the file cannot be set; `endless` stands for no end at all. -/
inductive Answer where
  | stored | refused | unset | endless
  deriving DecidableEq, Repr

def fileAnswer (file : RegFile) (offset : UInt64) (value : UInt32) (dev : σ) : Answer :=
  let (sought, dev) := seek asic device file offset dev
  if sought && (device.write file value dev).1 then .stored else .refused

/-- How the device answers the write of an MMIO register. -/
def mmioAnswer (addr : UInt64) (value : UInt32) (state : RegState σ) : Answer :=
  if asic.mapped addr then .stored
  else if asic.opened .mmio2 then
    let (set, state) := mmio2ApplyBank asic device state
    if set then fileAnswer asic device .mmio2 addr value state.dev else .unset
  else
    fileAnswer asic device .mmio ((addr &&& 0xFFFFFF) ||| bankSelectionAddress asic state.useBank)
      value state.dev

def accessState (state : RegState σ) : RegState σ :=
  (selectedFor asic state).elim state fun selection => (selectIndex asic device selection state).2

def regAnswer (addr : UInt64) (value : UInt32) (state : RegState σ) : Answer :=
  mmioAnswer asic device (asic.contextAddr addr) value (accessState asic device state)

def regAfter (addr : UInt64) (value : UInt32) (state : RegState σ) : RegState σ :=
  (withSelection asic device (writeMmio asic device (asic.contextAddr addr) value) state).2

/-- The answer to two writes, of which the second is made unless the first fails. -/
def Answer.andThen (low high : Answer) : Answer :=
  if low = .refused then .refused else if high = .stored then low else high

/-- The answer to a write by name with PCI: a value of 64 bits is written in halves, and
only MMIO registers take one. -/
def nameAnswer (found : Option Reg) (value : UInt64) (state : RegState σ) : Answer :=
  match found with
  | none => .refused
  | some reg =>
      match regClass reg.type with
      | .smc => .endless
      | .mmio =>
          if reg.bit64 ≠ 0 then
            let low := (value &&& 0xFFFFFFFF).toUInt32
            (regAnswer asic device (reg.addr * 4) low state).andThen
              (regAnswer asic device ((reg.addr + 1) * 4) (value >>> 32).toUInt32
                (regAfter asic device (reg.addr * 4) low state))
          else regAnswer asic device (reg.addr * 4) value.toUInt32 state
      | _ => .refused

/-- The state of the newer file can be set where an MMIO register is written through it.
Of the pair behind which an SMC register is with PCI, either the data register refuses the
value, or both registers take theirs. -/
def AccessWorks (addr : UInt64) (value : UInt32) (state : RegState σ) : RegClass → Prop
  | .mmio => regAnswer asic device addr value state ≠ .unset
  | .smc =>
      asic.usePci = true → ∀ index data, smcRegs asic = some (index, data) →
        ∀ first after, umrWriteRegByName (umrWriteReg asic device 1) (asic.smcReg index)
            (asic.contextAddr addr) state = some (first, after) →
          nameAnswer asic device (asic.smcReg data) value.toUInt64 after ∈
              [.refused, .endless] ∨
            nameAnswer asic device (asic.smcReg index) (asic.contextAddr addr) state = .stored ∧
              nameAnswer asic device (asic.smcReg data) value.toUInt64 after = .stored
  | _ => True

def Answer.written : Answer → Written
  | .stored => ⟨0, true⟩
  | .unset => ⟨0, false⟩
  | _ => ⟨-1, false⟩

def LeavesDefault (before after : RegState σ) : Prop :=
  ∃ selections, after.selected = before.selected ++ selections ∧
    ∀ last ∈ selections.getLast?, last.IsDefault

/-- A write returns 0 only for a value that was stored, and neither a write nor a read
leaves a selection behind. -/
def AccessSound (addr : UInt64) (value : UInt32) (type : RegClass) (state : RegState σ) : Prop :=
  (∀ depth written after,
    umrWriteReg asic device depth addr value type state = some (written, after) →
      (written.ret = 0 → written.delivered = true) ∧ LeavesDefault state after) ∧
  ∀ depth read after, umrReadReg asic device depth addr type state = some (read, after) →
    LeavesDefault state after

end Answers

/-! ## What stays -/

section Keep
variable {σ : Type} {asic : RegAsic} {device : RegDevice σ}

/-- Everything but the device and the version of the `ioctl`. -/
def KeepsSelected {α : Type} (access : StateM (RegState σ) α) : Prop :=
  ∀ state, (access state).2.selected = state.selected

theorem mmio2ApplyBank_keeps : KeepsSelected (mmio2ApplyBank asic device) := by
  intro state
  unfold mmio2ApplyBank
  dsimp only
  repeat' split
  all_goals rfl

theorem writeMmio_keeps (addr : UInt64) (value : UInt32) :
    KeepsSelected (writeMmio asic device addr value) := by
  intro state
  unfold writeMmio
  split
  · rfl
  · split
    · have kept := @mmio2ApplyBank_keeps σ asic device state
      generalize mmio2ApplyBank asic device state = applied at kept
      obtain ⟨set, after⟩ := applied
      cases set <;> exact kept
    · rfl

theorem readMmio_keeps (addr : UInt64) : KeepsSelected (readMmio asic device addr) := by
  intro state
  unfold readMmio
  split
  · rfl
  · split
    · have kept := @mmio2ApplyBank_keeps σ asic device state
      generalize mmio2ApplyBank asic device state = applied at kept
      obtain ⟨set, after⟩ := applied
      cases set with
      | false => exact kept
      | true =>
          dsimp only [Bool.not_true]
          split
          · exact kept
          · split <;> exact kept
    · rfl

/-- Without the newer file every access ends with `break`. -/
theorem writeMmio_broke (older : asic.opened .mmio2 = false) (addr : UInt64) (value : UInt32)
    (state : RegState σ) : ∃ written, (writeMmio asic device addr value state).1 = .broke written := by
  unfold writeMmio
  rw [older]
  split <;> exact ⟨_, rfl⟩

theorem readMmio_broke (older : asic.opened .mmio2 = false) (addr : UInt64) (state : RegState σ) :
    ∃ value, (readMmio asic device addr state).1 = .broke value := by
  unfold readMmio
  rw [older]
  split <;> exact ⟨_, rfl⟩

theorem seekAndWrite_closed {file : RegFile} (closed : asic.opened file = false) (offset : UInt64)
    (value : UInt32) (dev : σ) :
    seekAndWrite asic device file offset value dev = (⟨-1, false⟩, dev) := by
  simp [seekAndWrite, seek, closed]

end Keep

/-! ## Selections -/

section Selections
variable {σ : Type} {asic : RegAsic} {device : RegDevice σ}

theorem isDefault_default (selection : Selection) : selection.default.IsDefault := by
  cases selection <;> rfl

def reaches (asic : RegAsic) (selection : Selection) : Bool :=
  (selectionWrite asic selection).any fun write =>
    asic.mapped (asic.contextAddr (write.1.addr * 4))

/-- A selection and its default are written to the same register. -/
theorem reaches_default (selection : Selection) :
    reaches asic selection.default = reaches asic selection := by
  cases selection <;> simp [reaches, selectionWrite, Selection.default, Option.any_map]

/-- Without the kernel a selection is stored in the mapped region or nowhere. -/
theorem selectIndex_selected (noKernel : asic.noKernel = true) (selection : Selection)
    (state : RegState σ) : (selectIndex asic device selection state).2.selected =
      state.selected ++ if reaches asic selection then [selection] else [] := by
  unfold selectIndex reaches
  cases selectionWrite asic selection with
  | none => exact (List.append_nil _).symm
  | some write =>
      obtain ⟨reg, data⟩ := write
      rw [Option.any_some]
      dsimp only
      unfold writeMmio
      cases asic.mapped (asic.contextAddr (reg.addr * 4)) with
      | true => rfl
      | false =>
          rw [if_neg Bool.false_ne_true, asic.closed noKernel, if_neg Bool.false_ne_true,
            seekAndWrite_closed (asic.closed noKernel _)]
          exact (List.append_nil _).symm

theorem LeavesDefault.refl (state : RegState σ) : LeavesDefault state state :=
  ⟨[], (List.append_nil _).symm, fun last member => by cases member⟩

theorem LeavesDefault.of_selected {before after : RegState σ}
    (same : after.selected = before.selected) : LeavesDefault before after :=
  ⟨[], by rw [same, List.append_nil], fun last member => by cases member⟩

theorem LeavesDefault.trans {before middle after : RegState σ}
    (first : LeavesDefault before middle) (second : LeavesDefault middle after) :
    LeavesDefault before after := by
  obtain ⟨early, isEarly, earlyDefault⟩ := first
  obtain ⟨late, isLate, lateDefault⟩ := second
  refine ⟨early ++ late, by rw [isLate, isEarly, List.append_assoc], fun last member => ?_⟩
  rw [List.getLast?_append] at member
  cases isLast : late.getLast? with
  | none =>
      rw [isLast] at member
      exact earlyDefault last member
  | some other =>
      rw [isLast] at member
      cases member
      exact lateDefault last isLast

theorem withSelection_leavesDefault {α : Type} {access : StateM (RegState σ) (CaseEnd α)}
    (keeps : KeepsSelected access)
    (breaks : asic.opened .mmio2 = false → ∀ state, ∃ value, (access state).1 = .broke value)
    (state : RegState σ) :
    LeavesDefault state (withSelection asic device access state).2 := by
  unfold withSelection
  cases chosen : selectedFor asic state with
  | none => exact .of_selected (keeps state)
  | some selection =>
      have noKernel : asic.noKernel = true := by
        by_contra kernel
        rw [selectedFor, if_neg kernel] at chosen
        cases chosen
      have first := @selectIndex_selected σ asic device noKernel selection state
      dsimp only
      generalize selectIndex asic device selection state = select at first ⊢
      obtain ⟨_, selected⟩ := select
      dsimp only at first ⊢
      have kept := keeps selected
      obtain ⟨value, broke⟩ := breaks (asic.closed noKernel _) selected
      generalize access selected = done at kept broke ⊢
      obtain ⟨outcome, after⟩ := done
      dsimp only at kept broke
      subst broke
      have second := @selectIndex_selected σ asic device noKernel selection.default after
      change LeavesDefault state (selectIndex asic device selection.default after).2
      refine ⟨_, by rw [second, kept, first, List.append_assoc], fun last member => ?_⟩
      rw [reaches_default] at member
      cases stored : reaches asic selection with
      | false =>
          rw [stored] at member
          cases member
      | true =>
          rw [stored] at member
          cases member
          exact isDefault_default selection

def Leaves {α : Type} (access : StateT (RegState σ) Option α) : Prop :=
  ∀ state value after, access state = some (value, after) → LeavesDefault state after

theorem leaves_pure {α : Type} (value : α) : Leaves (pure value : StateT (RegState σ) Option α) := by
  intro state _ after run
  cases run
  exact .refl state

theorem leaves_bind {α β : Type} {first : StateT (RegState σ) Option α}
    {next : α → StateT (RegState σ) Option β} (here : Leaves first)
    (there : ∀ value, Leaves (next value)) : Leaves (first >>= next) := by
  intro state result final run
  obtain ⟨⟨value, middle⟩, ran, rest⟩ := Option.bind_eq_some_iff.mp run
  exact (here state value middle ran).trans (there value middle result final rest)

theorem leaves_onDevice {α : Type} (op : σ → α × σ) : Leaves (onDevice op) := by
  intro state value after run
  cases run
  exact .of_selected rfl

theorem leaves_withSelection {α : Type} {access : StateM (RegState σ) (CaseEnd α)}
    (keeps : KeepsSelected access)
    (breaks : asic.opened .mmio2 = false → ∀ state, ∃ value, (access state).1 = .broke value) :
    Leaves fun state => some (withSelection asic device access state) := by
  intro state value after run
  have default_ := @withSelection_leavesDefault σ asic device α access keeps breaks state
  rw [Option.some.inj run] at default_
  exact default_

theorem leaves_umrWriteRegByName
    {writeReg : UInt64 → UInt32 → RegClass → StateT (RegState σ) Option Written}
    (leaves : ∀ addr value type, Leaves (writeReg addr value type)) (found : Option Reg)
    (value : UInt64) : Leaves (umrWriteRegByName writeReg found value) := by
  unfold umrWriteRegByName
  cases found with
  | none => exact leaves_pure _
  | some reg =>
      dsimp only
      split
      · refine leaves_bind (leaves _ _ _) fun low => ?_
        split
        · exact leaves_bind (leaves _ _ _) fun high => leaves_pure _
        · exact leaves_pure _
      · exact leaves _ _ _

theorem leaves_umrReadRegByName
    {readReg : UInt64 → RegClass → StateT (RegState σ) Option UInt32}
    (leaves : ∀ addr type, Leaves (readReg addr type)) (found : Option Reg) :
    Leaves (umrReadRegByName readReg found) := by
  unfold umrReadRegByName
  cases found with
  | none => exact leaves_pure _
  | some reg =>
      dsimp only
      split
      · exact leaves_bind (leaves _ _) fun low => leaves_bind (leaves _ _) fun high => leaves_pure _
      · exact leaves_bind (leaves _ _) fun value => leaves_pure _

theorem leaves_umrWriteReg (depth : Nat) : ∀ addr value type,
    Leaves (umrWriteReg asic device depth addr value type) := by
  induction depth with
  | zero => exact fun _ _ _ _ _ _ run => by cases run
  | succ depth ih =>
      intro addr value type
      unfold umrWriteReg
      cases type with
      | mmio => exact leaves_withSelection (writeMmio_keeps _ _) fun older => writeMmio_broke older _ _
      | smn => exact leaves_onDevice _
      | pcie => exact leaves_onDevice _
      | didt => exact leaves_pure _
      | indirect => exact leaves_pure _
      | smc =>
          dsimp only
          unfold umrSmcWrite
          split
          · split
            · exact leaves_pure _
            · exact leaves_bind (leaves_umrWriteRegByName ih _ _) fun first =>
                leaves_bind (leaves_umrWriteRegByName ih _ _) fun second => leaves_pure _
          · exact leaves_onDevice _

theorem leaves_umrReadReg (depth : Nat) : ∀ addr type,
    Leaves (umrReadReg asic device depth addr type) := by
  induction depth with
  | zero => exact fun _ _ _ _ _ run => by cases run
  | succ depth ih =>
      intro addr type
      unfold umrReadReg
      cases type with
      | mmio => exact leaves_withSelection (readMmio_keeps _) fun older => readMmio_broke older _
      | smn => exact leaves_onDevice _
      | pcie => exact leaves_onDevice _
      | didt => exact leaves_pure _
      | indirect => exact leaves_pure _
      | smc =>
          dsimp only
          unfold umrSmcRead
          split
          · split
            · exact leaves_pure _
            · exact leaves_bind (leaves_umrWriteRegByName (leaves_umrWriteReg depth) _ _) fun _ =>
                leaves_bind (leaves_umrReadRegByName ih _) fun value => leaves_pure _
          · exact leaves_onDevice _

end Selections

/-! ## Reports -/

section Reports
variable {σ : Type} {asic : RegAsic} {device : RegDevice σ}

theorem seekAndWrite_answer (file : RegFile) (offset : UInt64) (value : UInt32) (dev : σ) :
    (seekAndWrite asic device file offset value dev).1 =
      (fileAnswer asic device file offset value dev).written := by
  unfold seekAndWrite fileAnswer
  rcases seek asic device file offset dev with ⟨sought, dev⟩
  cases sought with
  | false => rfl
  | true =>
      dsimp only [Bool.true_and, if_true]
      cases (device.write file value dev).1 <;> rfl

theorem fileAnswer_ne_endless (file : RegFile) (offset : UInt64) (value : UInt32) (dev : σ) :
    fileAnswer asic device file offset value dev ≠ .endless := by
  unfold fileAnswer
  dsimp only
  split <;> decide

theorem writeMmio_answer (addr : UInt64) (value : UInt32) (state : RegState σ) :
    (writeMmio asic device addr value state).1.value =
      (mmioAnswer asic device addr value state).written := by
  unfold writeMmio mmioAnswer
  split
  · rfl
  · split
    · rcases mmio2ApplyBank asic device state with ⟨set, after⟩
      cases set with
      | false => rfl
      | true => exact seekAndWrite_answer ..
    · exact seekAndWrite_answer ..

theorem withSelection_value {α : Type} (access : StateM (RegState σ) (CaseEnd α))
    (state : RegState σ) : (withSelection asic device access state).1 =
      (access (accessState asic device state)).1.value := by
  unfold withSelection accessState
  cases selectedFor asic state with
  | none => rfl
  | some selection =>
      dsimp only [Option.elim_some]
      generalize selectIndex asic device selection state = select
      obtain ⟨r, selected⟩ := select
      dsimp only
      generalize access selected = done
      obtain ⟨outcome, after⟩ := done
      cases outcome <;> rfl

theorem umrWriteReg_mmio (depth : Nat) (addr : UInt64) (value : UInt32) (state : RegState σ) :
    umrWriteReg asic device (depth + 1) addr value .mmio state =
      some ((regAnswer asic device addr value state).written,
        regAfter asic device addr value state) := by
  have value_ := @withSelection_value σ asic device Written
    (writeMmio asic device (asic.contextAddr addr) value) state
  rw [writeMmio_answer] at value_
  rw [umrWriteReg, regAnswer, ← value_]
  rfl

/-- With PCI only MMIO registers and SMC registers take a value. -/
theorem umrWriteReg_other (pci : asic.usePci = true) {type : RegClass} (mmio : type ≠ .mmio)
    (smc : type ≠ .smc) (depth : Nat) (addr : UInt64) (value : UInt32) (state : RegState σ) :
    umrWriteReg asic device (depth + 1) addr value type state = some (⟨-1, false⟩, state) := by
  cases type with
  | mmio => exact absurd rfl mmio
  | smc => exact absurd rfl smc
  | didt => rfl
  | indirect => rfl
  | pcie =>
      rw [umrWriteReg]
      unfold onDevice umrPcieWrite
      rw [if_pos pci]
  | smn =>
      rw [umrWriteReg]
      unfold onDevice umrPcieWrite
      rw [if_pos pci]

def IsSmc (found : Option Reg) : Prop := ∃ reg, found = some reg ∧ regClass reg.type = .smc

theorem stateT_bind_some {α β : Type} {first : StateT (RegState σ) Option α}
    {next : α → StateT (RegState σ) Option β} {state middle : RegState σ} {value : α}
    (ran : first state = some (value, middle)) : (first >>= next) state = next value middle := by
  change (first state).bind _ = _
  rw [ran]
  rfl

theorem failure_ne_zero : ¬ (-1 : Int) = 0 := by decide

/-- Nothing comes of a write by name if nothing comes of the writes within. -/
theorem umrWriteRegByName_none
    {writeReg : UInt64 → UInt32 → RegClass → StateT (RegState σ) Option Written} {reg : Reg}
    (none_ : ∀ addr value state, writeReg addr value (regClass reg.type) state = none)
    (value : UInt64) (state : RegState σ) :
    umrWriteRegByName writeReg (some reg) value state = none := by
  unfold umrWriteRegByName
  dsimp only
  split
  · change (writeReg _ _ _ state).bind _ = none
    rw [none_]
    rfl
  · exact none_ ..

theorem umrWriteRegByName_other (pci : asic.usePci = true) {reg : Reg}
    (mmio : regClass reg.type ≠ .mmio) (smc : regClass reg.type ≠ .smc) (depth : Nat)
    (value : UInt64) (state : RegState σ) :
    umrWriteRegByName (umrWriteReg asic device (depth + 1)) (some reg) value state =
      some (⟨-1, false⟩, state) := by
  unfold umrWriteRegByName
  dsimp only
  split
  · rw [stateT_bind_some (umrWriteReg_other pci mmio smc ..), if_neg failure_ne_zero]
    rfl
  · exact umrWriteReg_other pci mmio smc ..

theorem nameAnswer_other {reg : Reg} (mmio : regClass reg.type ≠ .mmio)
    (smc : regClass reg.type ≠ .smc) (value : UInt64) (state : RegState σ) :
    nameAnswer asic device (some reg) value state = .refused := by
  unfold nameAnswer
  dsimp only
  split
  · exact absurd (by assumption) smc
  · exact absurd (by assumption) mmio
  · rfl

theorem nameAnswer_smc {found : Option Reg} (smc : IsSmc found) (value : UInt64)
    (state : RegState σ) : nameAnswer asic device found value state = .endless := by
  obtain ⟨reg, rfl, same⟩ := smc
  rw [nameAnswer, same]

theorem regAnswer_ne_endless (addr : UInt64) (value : UInt32) (state : RegState σ) :
    regAnswer asic device addr value state ≠ .endless := by
  unfold regAnswer mmioAnswer
  split
  · exact fun impossible => by cases impossible
  · split
    · generalize mmio2ApplyBank asic device _ = applied
      obtain ⟨set, after⟩ := applied
      cases set with
      | false => exact fun impossible => by cases impossible
      | true => exact fileAnswer_ne_endless _ _ _ _
    · exact fileAnswer_ne_endless _ _ _ _

theorem andThen_written {low : Answer} (refused : low ≠ .refused) (endless : low ≠ .endless)
    (high : Answer) : low.written.ret = 0 ∧
      ⟨high.written.ret, low.written.delivered && high.written.delivered⟩ =
        (low.andThen high).written := by
  cases low with
  | refused => exact absurd rfl refused
  | endless => exact absurd rfl endless
  | stored => cases high <;> exact ⟨rfl, rfl⟩
  | unset => cases high <;> exact ⟨rfl, rfl⟩

theorem umrWriteRegByName_mmio {reg : Reg} (mmio : regClass reg.type = .mmio) (value : UInt64)
    (state : RegState σ) :
    ∃ after, ∀ depth, umrWriteRegByName (umrWriteReg asic device (depth + 1)) (some reg) value state =
      some ((nameAnswer asic device (some reg) value state).written, after) := by
  unfold umrWriteRegByName nameAnswer
  dsimp only
  rw [mmio]
  simp only [if_true]
  by_cases wide : reg.bit64 ≠ 0
  · simp only [if_pos wide]
    have first := fun depth => @umrWriteReg_mmio σ asic device depth (reg.addr * 4)
      (value &&& 0xFFFFFFFF).toUInt32 state
    have ends := @regAnswer_ne_endless σ asic device (reg.addr * 4)
      (value &&& 0xFFFFFFFF).toUInt32 state
    generalize regAnswer asic device (reg.addr * 4) (value &&& 0xFFFFFFFF).toUInt32 state = low
      at first ends ⊢
    generalize regAfter asic device (reg.addr * 4) (value &&& 0xFFFFFFFF).toUInt32 state = middle
      at first ⊢
    have second := fun depth => @umrWriteReg_mmio σ asic device depth ((reg.addr + 1) * 4)
      (value >>> 32).toUInt32 middle
    generalize regAnswer asic device ((reg.addr + 1) * 4) (value >>> 32).toUInt32 middle = high
      at second ⊢
    by_cases fails : low = .refused
    · refine ⟨middle, fun depth => ?_⟩
      rw [stateT_bind_some (first depth), fails]
      rfl
    · obtain ⟨zero, both⟩ := andThen_written fails ends high
      refine ⟨regAfter asic device ((reg.addr + 1) * 4) (value >>> 32).toUInt32 middle,
        fun depth => ?_⟩
      rw [stateT_bind_some (first depth), if_pos zero, stateT_bind_some (second depth), ← both]
      rfl
  · simp only [if_neg wide]
    exact ⟨_, fun depth => umrWriteReg_mmio ..⟩

/-- A write by name of any depth that suffices ends in one state, with what the answer
says. -/
theorem umrWriteRegByName_answer (pci : asic.usePci = true) {found : Option Reg}
    (other : ¬ IsSmc found) (value : UInt64) (state : RegState σ) :
    ∃ after, (∀ depth, umrWriteRegByName (umrWriteReg asic device (depth + 1)) found value state =
        some ((nameAnswer asic device found value state).written, after)) ∧
      ∀ result, umrWriteRegByName (umrWriteReg asic device 0) found value state = some result →
        result = ((nameAnswer asic device found value state).written, after) := by
  cases found with
  | none => exact ⟨state, fun _ => rfl, fun result run => (Option.some.inj run).symm⟩
  | some reg =>
      have smc : regClass reg.type ≠ .smc := fun same => other ⟨reg, rfl, same⟩
      have shallow : umrWriteRegByName (umrWriteReg asic device 0) (some reg) value state = none :=
        umrWriteRegByName_none (fun _ _ _ => rfl) value state
      rw [shallow]
      by_cases mmio : regClass reg.type = .mmio
      · obtain ⟨after, run⟩ := @umrWriteRegByName_mmio σ asic device reg mmio value state
        exact ⟨after, run, fun result impossible => by cases impossible⟩
      · rw [nameAnswer_other mmio smc]
        exact ⟨state, fun depth => umrWriteRegByName_other pci mmio smc depth value state,
          fun result impossible => by cases impossible⟩

theorem umrWriteRegByName_smc {found : Option Reg} (smc : IsSmc found)
    {writeReg : UInt64 → UInt32 → RegClass → StateT (RegState σ) Option Written}
    (none_ : ∀ addr value state, writeReg addr value .smc state = none) (value : UInt64)
    (state : RegState σ) : umrWriteRegByName writeReg found value state = none := by
  obtain ⟨reg, rfl, same⟩ := smc
  refine umrWriteRegByName_none ?_ value state
  rw [same]
  exact none_

/-- SMC registers behind an SMC register have no end. -/
theorem umrWriteReg_endless (pci : asic.usePci = true) {index data : SmcReg}
    (pair : smcRegs asic = some (index, data))
    (smc : IsSmc (asic.smcReg index) ∨ IsSmc (asic.smcReg data)) (depth : Nat) :
    ∀ addr value state, umrWriteReg asic device depth addr value .smc state = none := by
  induction depth with
  | zero => exact fun _ _ _ => rfl
  | succ depth ih =>
      intro addr value state
      rw [umrWriteReg, umrSmcWrite, if_pos pci, pair]
      dsimp only
      rcases smc with first | second
      · change (umrWriteRegByName _ _ _ _).bind _ = none
        rw [umrWriteRegByName_smc first ih]
        rfl
      · cases ran : umrWriteRegByName (umrWriteReg asic device depth) (asic.smcReg index)
          (asic.contextAddr addr) state with
        | none =>
            change (umrWriteRegByName _ _ _ _).bind _ = none
            rw [ran]
            rfl
        | some result =>
            obtain ⟨written, after⟩ := result
            rw [stateT_bind_some ran]
            change (umrWriteRegByName _ _ _ _).bind _ = none
            rw [umrWriteRegByName_smc second ih]
            rfl

theorem pair_reports_iff (index data : Answer) :
    ((data.written.ret = 0) → (index.written.delivered && data.written.delivered) = true) ↔
      data ∈ [Answer.refused, .endless] ∨ index = .stored ∧ data = .stored := by
  cases index <;> cases data <;> decide

theorem seekAndWrite_reports (file : RegFile) (offset : UInt64) (value : UInt32) (dev : σ)
    (zero : (seekAndWrite asic device file offset value dev).1.ret = 0) :
    (seekAndWrite asic device file offset value dev).1.delivered = true := by
  revert zero
  rw [seekAndWrite_answer]
  unfold fileAnswer
  dsimp only
  split
  · exact fun _ => rfl
  · exact fun impossible => absurd impossible failure_ne_zero

theorem onDevice_reports {op : σ → Written × σ}
    (reports : ∀ dev, (op dev).1.ret = 0 → (op dev).1.delivered = true)
    {state after : RegState σ} {written : Written}
    (run : onDevice op state = some (written, after)) : written.ret = 0 → written.delivered = true := by
  cases run
  exact reports state.dev

theorem smcWrite_pair_iff (pci : asic.usePci = true) {index data : SmcReg}
    (pair : smcRegs asic = some (index, data)) (first : ¬ IsSmc (asic.smcReg index))
    (second : ¬ IsSmc (asic.smcReg data)) (addr : UInt64) (value : UInt32) (state : RegState σ) :
    (∀ depth written after,
      umrWriteReg asic device depth addr value .smc state = some (written, after) →
        written.ret = 0 → written.delivered = true) ↔
      AccessWorks asic device addr value state .smc := by
  obtain ⟨middle, runIndex, noIndex⟩ := @umrWriteRegByName_answer σ asic device pci
    (asic.smcReg index) first (asic.contextAddr addr) state
  obtain ⟨last, runData, noData⟩ := @umrWriteRegByName_answer σ asic device pci
    (asic.smcReg data) second value.toUInt64 middle
  generalize isIndex : nameAnswer asic device (asic.smcReg index) (asic.contextAddr addr) state =
    indexAnswer at runIndex noIndex
  generalize isData : nameAnswer asic device (asic.smcReg data) value.toUInt64 middle =
    dataAnswer at runData noData
  have works : AccessWorks asic device addr value state .smc ↔
      (dataAnswer.written.ret = 0 →
        (indexAnswer.written.delivered && dataAnswer.written.delivered) = true) := by
    rw [pair_reports_iff, ← isIndex, ← isData]
    constructor
    · exact fun works => works pci index data pair _ middle (runIndex 0)
    · rintro answers _ _ _ same _ after run
      rw [pair] at same
      cases same
      rw [runIndex 0] at run
      cases run
      exact answers
  rw [works]
  constructor
  · intro reports
    have run : umrWriteReg asic device 2 addr value .smc state = some
        (⟨dataAnswer.written.ret, indexAnswer.written.delivered && dataAnswer.written.delivered⟩,
          last) := by
      rw [umrWriteReg, umrSmcWrite, if_pos pci, pair]
      dsimp only
      rw [stateT_bind_some (runIndex 0), stateT_bind_some (runData 0)]
      rfl
    exact reports 2 _ last run
  · intro answers depth written after run
    cases depth with
    | zero => cases run
    | succ depth =>
        rw [umrWriteReg, umrSmcWrite, if_pos pci, pair] at run
        dsimp only at run
        obtain ⟨⟨indexWritten, afterIndex⟩, ranIndex, rest⟩ := Option.bind_eq_some_iff.mp run
        obtain ⟨⟨dataWritten, afterData⟩, ranData, ends⟩ := Option.bind_eq_some_iff.mp rest
        cases ends
        have isWritten : (indexWritten, afterIndex) = (indexAnswer.written, middle) := by
          cases depth with
          | zero => exact noIndex _ ranIndex
          | succ depth => exact Option.some.inj (ranIndex.symm.trans (runIndex depth))
        cases isWritten
        have isLast : (dataWritten, after) = (dataAnswer.written, last) := by
          cases depth with
          | zero => exact noData _ ranData
          | succ depth => exact Option.some.inj (ranData.symm.trans (runData depth))
        cases isLast
        exact answers

theorem smcWrite_reports_iff (addr : UInt64) (value : UInt32) (state : RegState σ) :
    (∀ depth written after,
      umrWriteReg asic device depth addr value .smc state = some (written, after) →
        written.ret = 0 → written.delivered = true) ↔
      AccessWorks asic device addr value state .smc := by
  by_cases pci : asic.usePci = true
  · cases pair : smcRegs asic with
    | none =>
        refine iff_of_true (fun depth written after run => ?_) fun _ index data impossible => ?_
        · cases depth with
          | zero => cases run
          | succ depth =>
              rw [umrWriteReg, umrSmcWrite, if_pos pci, pair] at run
              cases run
              exact fun impossible => absurd impossible failure_ne_zero
        · rw [pair] at impossible
          cases impossible
    | some regs =>
        obtain ⟨index, data⟩ := regs
        by_cases first : IsSmc (asic.smcReg index)
        · refine iff_of_true (fun depth written after run => ?_) fun _ _ _ same _ _ run => ?_
          · rw [umrWriteReg_endless pci pair (Or.inl first)] at run
            cases run
          · rw [pair] at same
            cases same
            rw [umrWriteRegByName_smc first (umrWriteReg_endless pci pair (Or.inl first) 1)] at run
            cases run
        · by_cases second : IsSmc (asic.smcReg data)
          · refine iff_of_true (fun depth written after run => ?_) fun _ _ _ same _ after _ => ?_
            · rw [umrWriteReg_endless pci pair (Or.inr second)] at run
              cases run
            · rw [pair] at same
              cases same
              rw [nameAnswer_smc second]
              exact Or.inl (by decide)
          · exact smcWrite_pair_iff pci pair first second addr value state
  · refine iff_of_true (fun depth written after run => ?_) fun impossible => absurd impossible pci
    cases depth with
    | zero => cases run
    | succ depth =>
        rw [umrWriteReg, umrSmcWrite, if_neg pci] at run
        exact onDevice_reports (seekAndWrite_reports .smc _ value) run

end Reports

section Result
variable {σ : Type} (asic : RegAsic) (device : RegDevice σ)

end Result

/-- The `ioctl` of the newer file fails. -/
def refusingDevice : RegDevice Unit where
  ioctl := fun _ dev => (false, dev)
  lseek := fun _ _ dev => (true, dev)
  read := fun _ dev => (some 0, dev)
  write := fun _ _ dev => (true, dev)
  load := fun _ _ => 0
  store := fun _ _ dev => dev

/-- The newer file is open and nothing is mapped. -/
def kernelAsic : RegAsic where
  family := .nv
  gfxFamily := 143
  noKernel := false
  usePci := false
  pgLock := false
  vmPartition := -1
  contextRegBank := 0
  bank := ⟨0, 0, 0, 0⟩
  pciSize := none
  opened := fun file => decide (file ≠ .mmio)
  closed := fun impossible => by cases impossible
  grbmIdx := some grbmGfxIndex
  srbmIdx := none
  smcReg := fun _ => none

end Umr.Registers
