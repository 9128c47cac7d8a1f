import Umr.Registers.FindReg
import Umr.Rumr.Protocol
import Mathlib.Logic.Function.Basic

/-!
# Registers by name as a store

`umr_read_reg_by_name_by_ip_by_instance` and `umr_write_reg_by_name_by_ip_by_instance` of `mmio.c`.
A register has one word or two; as long as the registers that are named share no words, each of
them is a cell of its own.
-/

set_option autoImplicit false

namespace Umr.Registers

open Umr.Lib Umr.Rumr

/-- `reg_funcs` over the state of a device; a write returns 0 or an error. -/
structure RegFuncs (σ : Type) where
  readReg : UInt64 → UInt32 → σ → UInt32 × σ
  writeReg : UInt64 → UInt32 → UInt32 → σ → Int × σ

structure RegName where
  ip : Option CString
  inst : Int
  name : CString

def regUnit (type : UInt32) : UInt64 := if type = RegClass.mmio.code then 4 else 1

/-- `umr_find_reg_data_by_ip_by_instance`; the outer `none` is an undefined lookup. -/
def lookupReg (blocks : List IpBlock) (reg : RegName) : Option (Option Reg) :=
  match umrFindRegDataByIpByInstanceWithIp blocks reg.ip reg.inst reg.name with
  | .undefined => none
  | .null => some none
  | .found place => (blocks[place.1]?.bind fun block => block.regs[place.2]?).map some

section Access
variable {σ : Type} (funcs : RegFuncs σ)

def readFound (reg : Reg) (state : σ) : UInt64 × σ :=
  let (low, state) := funcs.readReg (reg.addr * regUnit reg.type) reg.type state
  if reg.bit64 ≠ 0 then
    let (high, state) := funcs.readReg ((reg.addr + 1) * regUnit reg.type) reg.type state
    (joinWords low high, state)
  else (low.toUInt64, state)

def writeFound (reg : Reg) (value : UInt64) (state : σ) : Int × σ :=
  if reg.bit64 ≠ 0 then
    let (r, state) := funcs.writeReg (reg.addr * regUnit reg.type) (loWord value) reg.type state
    if r = 0 then
      funcs.writeReg ((reg.addr + 1) * regUnit reg.type) (hiWord value) reg.type state
    else (r, state)
  else funcs.writeReg (reg.addr * regUnit reg.type) (loWord value) reg.type state

variable (blocks : List IpBlock)

def umrReadRegByNameByIpByInstance (name : RegName) (state : σ) : Option (UInt64 × σ) :=
  (lookupReg blocks name).map fun found =>
    match found with
    | some reg => readFound funcs reg state
    | none => (0, state)

def umrWriteRegByNameByIpByInstance (name : RegName) (value : UInt64) (state : σ) :
    Option (Int × σ) :=
  (lookupReg blocks name).map fun found =>
    match found with
    | some reg => writeFound funcs reg value state
    | none => (-1, state)

end Access

/-! ## Runs of calls -/

inductive NamedCall where
  | read (name : RegName)
  | write (name : RegName) (value : UInt64)

def NamedCall.name : NamedCall → RegName
  | .read name => name
  | .write name _ => name

inductive NamedAnswer where
  | value (value : UInt64)
  | status (r : Int)
  deriving DecidableEq, Repr

section Calls
variable {σ : Type} (funcs : RegFuncs σ) (blocks : List IpBlock)

def namedCall (state : σ) : NamedCall → Option (NamedAnswer × σ)
  | .read name =>
      (umrReadRegByNameByIpByInstance funcs blocks name state).map fun (value, state) =>
        (.value value, state)
  | .write name value =>
      (umrWriteRegByNameByIpByInstance funcs blocks name value state).map fun (r, state) =>
        (.status r, state)

def namedCalls : List NamedCall → σ → Option (List NamedAnswer × σ)
  | [], state => some ([], state)
  | call :: calls, state => do
      let (answer, state) ← namedCall funcs blocks state call
      let (answers, state) ← namedCalls calls state
      pure (answer :: answers, state)

end Calls

/-! ## The store -/

/-- What a register is to its callers, under whatever name. -/
structure RegCell where
  place : UInt64
  type : UInt32
  wide : Bool
  deriving DecidableEq, Repr

namespace RegCell

def low (c : RegCell) : UInt64 × UInt32 := (c.place, c.type)

def high (c : RegCell) : UInt64 × UInt32 := (c.place + regUnit c.type, c.type)

def words (c : RegCell) : List (UInt64 × UInt32) := if c.wide then [c.low, c.high] else [c.low]

def Apart (c d : RegCell) : Prop := ∀ word ∈ c.words, word ∉ d.words

instance (c d : RegCell) : Decidable (c.Apart d) :=
  List.decidableBAll (fun word => word ∉ d.words) c.words

def fit (c : RegCell) (value : UInt64) : UInt64 := if c.wide then value else (loWord value).toUInt64

def value (c : RegCell) (view : UInt64 × UInt32 → UInt32) : UInt64 :=
  if c.wide then joinWords (view c.low) (view c.high) else (view c.low).toUInt64

end RegCell

def regCell (reg : Reg) : RegCell := ⟨reg.addr * regUnit reg.type, reg.type, reg.bit64 ≠ 0⟩

def cellOf (blocks : List IpBlock) (name : RegName) : Option RegCell :=
  (lookupReg blocks name).join.map regCell

/-- A write that fails leaves the cell as it was, or changes the low half only. -/
inductive StoreStep (cellOf : RegName → Option RegCell) :
    NamedCall → NamedAnswer → (RegCell → UInt64) → (RegCell → UInt64) → Prop where
  | noRead {name : RegName} {store : RegCell → UInt64} (absent : cellOf name = none) :
      StoreStep cellOf (.read name) (.value 0) store store
  | noWrite {name : RegName} {value : UInt64} {store : RegCell → UInt64}
      (absent : cellOf name = none) : StoreStep cellOf (.write name value) (.status (-1)) store store
  | read {name : RegName} {c : RegCell} {store : RegCell → UInt64} (found : cellOf name = some c) :
      StoreStep cellOf (.read name) (.value (store c)) store store
  | write {name : RegName} {c : RegCell} {value : UInt64} {store : RegCell → UInt64}
      (found : cellOf name = some c) :
      StoreStep cellOf (.write name value) (.status 0) store
        (Function.update store c (c.fit value))
  | refused {name : RegName} {value : UInt64} {r : Int} {store : RegCell → UInt64}
      (failed : r ≠ 0) : StoreStep cellOf (.write name value) (.status r) store store
  | halfway {name : RegName} {c : RegCell} {value : UInt64} {r : Int} {store : RegCell → UInt64}
      (found : cellOf name = some c) (wide : c.wide = true) (failed : r ≠ 0) :
      StoreStep cellOf (.write name value) (.status r) store
        (Function.update store c (joinWords (loWord value) (hiWord (store c))))

inductive StoreRun (cellOf : RegName → Option RegCell) :
    List NamedCall → List NamedAnswer → (RegCell → UInt64) → (RegCell → UInt64) → Prop where
  | done {store : RegCell → UInt64} : StoreRun cellOf [] [] store store
  | step {call : NamedCall} {answer : NamedAnswer} {calls : List NamedCall}
      {answers : List NamedAnswer} {store next final : RegCell → UInt64}
      (first : StoreStep cellOf call answer store next)
      (behind : StoreRun cellOf calls answers next final) :
      StoreRun cellOf (call :: calls) (answer :: answers) store final

/-- A device whose registers are words of their own, where a write that fails does nothing. -/
structure KeepsWords {σ : Type} (funcs : RegFuncs σ) (content : σ → UInt64 × UInt32 → UInt32) :
    Prop where
  read : ∀ addr type state, (funcs.readReg addr type state).1 = content state (addr, type)
  quiet : ∀ addr type state, content (funcs.readReg addr type state).2 = content state
  written : ∀ addr value type state, (funcs.writeReg addr value type state).1 = 0 →
    content (funcs.writeReg addr value type state).2 =
      Function.update (content state) (addr, type) value
  failed : ∀ addr value type state, (funcs.writeReg addr value type state).1 ≠ 0 →
    content (funcs.writeReg addr value type state).2 = content state

/-! ## Cells and words -/

section Cells
variable {c d : RegCell} {view after : UInt64 × UInt32 → UInt32}

theorem regUnit_ne (type : UInt32) : regUnit type ≠ 0 := by
  unfold regUnit
  split <;> decide

theorem RegCell.low_ne_high (c : RegCell) : c.low ≠ c.high := by
  intro same
  have place : c.place = c.place + regUnit c.type := congrArg Prod.fst same
  exact regUnit_ne c.type (UInt64.left_eq_add.mp place)

theorem RegCell.low_mem (c : RegCell) : c.low ∈ c.words := by
  unfold words
  split <;> exact List.mem_cons_self

theorem RegCell.high_mem (wide : c.wide = true) : c.high ∈ c.words := by
  rw [words, if_pos wide]
  exact List.mem_cons_of_mem _ (List.mem_singleton_self _)

theorem RegCell.value_congr (same : ∀ word ∈ c.words, after word = view word) :
    c.value after = c.value view := by
  unfold value
  rw [same c.low c.low_mem]
  by_cases wide : c.wide = true
  · rw [same c.high (high_mem wide)]
  · rw [if_neg wide, if_neg wide]

theorem RegCell.value_low (narrow : c.wide = false) (value : UInt32) :
    c.value (Function.update view c.low value) = value.toUInt64 := by
  rw [RegCell.value, narrow, if_neg Bool.false_ne_true, Function.update_self]

/-- A change inside one cell is none to the cells apart from it. -/
theorem values_update {cells : RegCell → Prop}
    (apart : ∀ d, cells d → d ≠ c → d.Apart c)
    (elsewhere : ∀ word, word ∉ c.words → after word = view word)
    {store : RegCell → UInt64} (shown : ∀ d, cells d → store d = d.value view) :
    ∀ d, cells d → Function.update store c (c.value after) d = d.value after := by
  intro d inside
  by_cases same : d = c
  · rw [same, Function.update_self]
  · rw [Function.update_of_ne same, shown d inside]
    exact (RegCell.value_congr fun word member =>
      elsewhere word (apart d inside same word member)).symm

theorem hiWord_joinWords (lo hi : UInt32) : hiWord (joinWords lo hi) = hi := by
  have small := lo.toNat_lt
  apply UInt32.toNat_inj.mp
  rw [hiWord_toNat, joinWords_toNat]
  omega

end Cells

/-! ## The calls are runs of the store -/

section Refines
variable {σ : Type} {funcs : RegFuncs σ} {content : σ → UInt64 × UInt32 → UInt32}
variable {blocks : List IpBlock} {cells : RegCell → Prop}

theorem lookupReg_cell {name : RegName} {found : Option Reg}
    (looked : lookupReg blocks name = some found) : cellOf blocks name = found.map regCell := by
  rw [cellOf, looked]
  rfl

theorem high_place (reg : Reg) : (reg.addr + 1) * regUnit reg.type =
    reg.addr * regUnit reg.type + regUnit reg.type := by
  rw [UInt64.add_mul, UInt64.one_mul]

section Found
variable (keeps : KeepsWords funcs content) (reg : Reg) (state : σ)

include keeps

theorem readFound_value : (readFound funcs reg state).1 = (regCell reg).value (content state) ∧
    content (readFound funcs reg state).2 = content state := by
  have low := keeps.read (reg.addr * regUnit reg.type) reg.type state
  have quiet := keeps.quiet (reg.addr * regUnit reg.type) reg.type state
  unfold readFound RegCell.value regCell RegCell.low RegCell.high
  dsimp only
  by_cases wide : reg.bit64 ≠ 0
  · have high := keeps.read ((reg.addr + 1) * regUnit reg.type) reg.type
      (funcs.readReg (reg.addr * regUnit reg.type) reg.type state).2
    rw [if_pos wide, if_pos (decide_eq_true wide), low, high, quiet, high_place]
    exact ⟨rfl, (keeps.quiet _ _ _).trans quiet⟩
  · rw [if_neg wide, if_neg (by simpa using wide), low]
    exact ⟨rfl, quiet⟩

theorem writeFound_words (value : UInt64) :
    (∀ word, word ∉ (regCell reg).words →
      content (writeFound funcs reg value state).2 word = content state word) ∧
    ((writeFound funcs reg value state).1 = 0 →
      (regCell reg).value (content (writeFound funcs reg value state).2) =
        (regCell reg).fit value) ∧
    ((writeFound funcs reg value state).1 ≠ 0 →
      content (writeFound funcs reg value state).2 = content state ∨
      (regCell reg).wide = true ∧
        (regCell reg).value (content (writeFound funcs reg value state).2) =
          joinWords (loWord value) (hiWord ((regCell reg).value (content state)))) := by
  have written := keeps.written (reg.addr * regUnit reg.type) (loWord value) reg.type state
  have failed := keeps.failed (reg.addr * regUnit reg.type) (loWord value) reg.type state
  have others : ∀ (view : UInt64 × UInt32 → UInt32) (place : UInt64 × UInt32) (v : UInt32),
      place ∈ (regCell reg).words → ∀ word, word ∉ (regCell reg).words →
        Function.update view place v word = view word := by
    intro view place v inside word outside
    refine Function.update_of_ne (fun same => ?_) v view
    rw [same] at outside
    exact outside inside
  unfold writeFound
  by_cases wide : reg.bit64 ≠ 0
  · have isWide : (regCell reg).wide = true := decide_eq_true wide
    rw [if_pos wide]
    generalize funcs.writeReg (reg.addr * regUnit reg.type) (loWord value) reg.type state = first
      at written failed
    obtain ⟨r, middle⟩ := first
    dsimp only at written failed ⊢
    by_cases done : r = 0
    · have secondWritten := keeps.written ((reg.addr + 1) * regUnit reg.type) (hiWord value)
        reg.type middle
      have secondFailed := keeps.failed ((reg.addr + 1) * regUnit reg.type) (hiWord value)
        reg.type middle
      have low := written done
      rw [if_pos done]
      generalize funcs.writeReg ((reg.addr + 1) * regUnit reg.type) (hiWord value) reg.type middle =
        second at secondWritten secondFailed
      obtain ⟨r', last⟩ := second
      dsimp only at secondWritten secondFailed ⊢
      rw [low, high_place] at secondWritten
      rw [low] at secondFailed
      change r' = 0 → content last = Function.update (Function.update (content state)
        (regCell reg).low (loWord value)) (regCell reg).high (hiWord value) at secondWritten
      change r' ≠ 0 → content last = Function.update (content state) (regCell reg).low
        (loWord value) at secondFailed
      refine ⟨fun word outside => ?_, fun ended => ?_, fun stopped => Or.inr ⟨isWide, ?_⟩⟩
      · by_cases ended : r' = 0
        · rw [secondWritten ended, others _ _ _ (RegCell.high_mem isWide) word outside,
            others _ _ _ (RegCell.low_mem _) word outside]
        · rw [secondFailed ended, others _ _ _ (RegCell.low_mem _) word outside]
      · rw [secondWritten ended, RegCell.value, if_pos isWide, RegCell.fit, if_pos isWide,
          Function.update_self, Function.update_of_ne (RegCell.low_ne_high _), Function.update_self,
          joinWords_halves]
      · rw [secondFailed stopped, RegCell.value, if_pos isWide, RegCell.value, if_pos isWide,
          Function.update_self, Function.update_of_ne (RegCell.low_ne_high _).symm,
          hiWord_joinWords]
    · rw [if_neg done]
      refine ⟨fun word _ => ?_, fun ended => absurd ended done, fun _ => Or.inl (failed done)⟩
      rw [failed done]
  · have narrow : (regCell reg).wide = false := decide_eq_false wide
    rw [if_neg wide]
    change _ → _ = Function.update (content state) (regCell reg).low (loWord value) at written
    refine ⟨fun word outside => ?_, fun ended => ?_, fun stopped => Or.inl (failed stopped)⟩
    · by_cases ended : (funcs.writeReg (reg.addr * regUnit reg.type) (loWord value) reg.type
        state).1 = 0
      · rw [written ended, others _ _ _ (RegCell.low_mem _) word outside]
      · rw [failed ended]
    · rw [written ended, RegCell.value_low narrow, RegCell.fit, narrow, if_neg Bool.false_ne_true]

end Found

section Runs
variable (keeps : KeepsWords funcs content)
  (apart : ∀ c, cells c → ∀ d, cells d → d ≠ c → d.Apart c)

include keeps apart

theorem namedCall_step {call : NamedCall} {answer : NamedAnswer} {state after : σ}
    {store : RegCell → UInt64} (inside : ∀ c, cellOf blocks call.name = some c → cells c)
    (shown : ∀ d, cells d → store d = d.value (content state))
    (ran : namedCall funcs blocks state call = some (answer, after)) :
    ∃ next, StoreStep (cellOf blocks) call answer store next ∧
      ∀ d, cells d → next d = d.value (content after) := by
  cases call with
  | read name =>
      rw [namedCall, umrReadRegByNameByIpByInstance, Option.map_map] at ran
      obtain ⟨found, looked, result⟩ := Option.map_eq_some_iff.mp ran
      have isCell := lookupReg_cell looked
      cases found with
      | none =>
          obtain ⟨rfl, rfl⟩ := Prod.mk.inj result
          exact ⟨store, .noRead isCell, shown⟩
      | some reg =>
          obtain ⟨value, quiet⟩ := readFound_value keeps reg state
          obtain ⟨rfl, rfl⟩ := Prod.mk.inj result
          refine ⟨store, ?_, fun d member => ?_⟩
          · change StoreStep _ _ (.value (readFound funcs reg state).1) _ _
            rw [value, ← shown _ (inside _ isCell)]
            exact .read isCell
          · change store d = d.value (content (readFound funcs reg state).2)
            rw [quiet]
            exact shown d member
  | write name value =>
      rw [namedCall, umrWriteRegByNameByIpByInstance, Option.map_map] at ran
      obtain ⟨found, looked, result⟩ := Option.map_eq_some_iff.mp ran
      have isCell := lookupReg_cell looked
      cases found with
      | none =>
          obtain ⟨rfl, rfl⟩ := Prod.mk.inj result
          exact ⟨store, .noWrite isCell, shown⟩
      | some reg =>
          obtain ⟨elsewhere, accepted, failed⟩ := writeFound_words keeps reg state value
          obtain ⟨rfl, rfl⟩ := Prod.mk.inj result
          have member := inside _ isCell
          have changed := values_update (apart _ member) elsewhere shown
          change ∃ next : RegCell → UInt64,
            StoreStep _ _ (.status (writeFound funcs reg value state).1) _ _ ∧
            ∀ d, cells d → next d = d.value (content (writeFound funcs reg value state).2)
          by_cases ended : (writeFound funcs reg value state).1 = 0
          · rw [accepted ended] at changed
            rw [ended]
            exact ⟨_, .write isCell, changed⟩
          · rcases failed ended with same | ⟨wide, half⟩
            · refine ⟨store, .refused ended, ?_⟩
              rw [same]
              exact shown
            · rw [half, ← shown _ member] at changed
              exact ⟨_, .halfway isCell wide ended, changed⟩

theorem namedCalls_run {calls : List NamedCall} {answers : List NamedAnswer} {state after : σ}
    {store : RegCell → UInt64}
    (inside : ∀ call ∈ calls, ∀ c, cellOf blocks call.name = some c → cells c)
    (shown : ∀ d, cells d → store d = d.value (content state))
    (ran : namedCalls funcs blocks calls state = some (answers, after)) :
    ∃ final, StoreRun (cellOf blocks) calls answers store final ∧
      ∀ d, cells d → final d = d.value (content after) := by
  induction calls generalizing answers state store with
  | nil =>
      obtain ⟨rfl, rfl⟩ := Prod.mk.inj (Option.some.inj ran)
      exact ⟨store, .done, shown⟩
  | cons call calls ih =>
      obtain ⟨here, behind⟩ := List.forall_mem_cons.mp inside
      rw [namedCalls] at ran
      obtain ⟨⟨answer, middle⟩, first, ran⟩ := Option.bind_eq_some_iff.mp ran
      obtain ⟨⟨further, last⟩, rest, result⟩ := Option.bind_eq_some_iff.mp ran
      obtain ⟨rfl, rfl⟩ := Prod.mk.inj (Option.some.inj result)
      obtain ⟨next, step, shownNext⟩ := namedCall_step keeps apart here shown first
      obtain ⟨final, run, shownFinal⟩ := ih behind shownNext rest
      exact ⟨final, .step step run, shownFinal⟩

end Runs

def namedCells (blocks : List IpBlock) (calls : List NamedCall) : List RegCell :=
  calls.filterMap fun call => cellOf blocks call.name

/-- Two registers that are named are the same one, or share no word. -/
def CellsApart (blocks : List IpBlock) (calls : List NamedCall) : Prop :=
  ∀ c ∈ namedCells blocks calls, ∀ d ∈ namedCells blocks calls, d ≠ c → d.Apart c

instance (blocks : List IpBlock) (calls : List NamedCall) : Decidable (CellsApart blocks calls) :=
  inferInstanceAs (Decidable (∀ c ∈ namedCells blocks calls, ∀ d ∈ namedCells blocks calls,
    d ≠ c → d.Apart c))

theorem cell_named {blocks : List IpBlock} {calls : List NamedCall} :
    ∀ call ∈ calls, ∀ c, cellOf blocks call.name = some c → c ∈ namedCells blocks calls :=
  fun call member _ found => List.mem_filterMap.mpr ⟨call, member, found⟩

/-- Calls on cells that share no words are a run of the store, whatever writes fail. -/
theorem namedCalls_store {σ : Type} {funcs : RegFuncs σ} {content : σ → UInt64 × UInt32 → UInt32}
    (keeps : KeepsWords funcs content) {blocks : List IpBlock} {calls : List NamedCall}
    (apart : CellsApart blocks calls) {answers : List NamedAnswer} {state after : σ}
    (ran : namedCalls funcs blocks calls state = some (answers, after)) :
    ∃ final, StoreRun (cellOf blocks) calls answers (fun c => c.value (content state)) final ∧
      ∀ c ∈ namedCells blocks calls, final c = c.value (content after) :=
  namedCalls_run keeps apart cell_named (fun _ _ => rfl) ran

/-- Calls that write to other cells leave the answer to a read behind them. -/
theorem storeRun_getLast {cellOf : RegName → Option RegCell} {c : RegCell} {name : RegName}
    (found : cellOf name = some c) {between : List NamedCall} {answers : List NamedAnswer}
    {store final : RegCell → UInt64}
    (others : ∀ call ∈ between, cellOf call.name = some c → ∃ name, call = .read name)
    (run : StoreRun cellOf (between ++ [.read name]) answers store final) :
    answers.getLast? = some (.value (store c)) := by
  induction between generalizing answers store with
  | nil =>
      cases run with
      | step first behind =>
          cases behind
          cases first with
          | noRead absent => cases absent.symm.trans found
          | read isCell =>
              cases isCell.symm.trans found
              rfl
  | cons call between ih =>
      obtain ⟨here, behindOthers⟩ := List.forall_mem_cons.mp others
      cases run with
      | @step _ _ _ answersBehind _ next _ first behind =>
          have kept : next c = store c := by
            cases first with
            | noRead absent => rfl
            | noWrite absent => rfl
            | read isCell => rfl
            | refused failed => rfl
            | @write _ d _ _ isCell =>
                refine Function.update_of_ne (fun same => ?_) _ _
                subst same
                obtain ⟨_, impossible⟩ := here isCell
                cases impossible
            | @halfway _ d _ _ _ isCell wide failed =>
                refine Function.update_of_ne (fun same => ?_) _ _
                subst same
                obtain ⟨_, impossible⟩ := here isCell
                cases impossible
          have last := ih behindOthers behind
          rw [kept] at last
          cases answersBehind with
          | nil => cases last
          | cons answer answers =>
              rw [List.getLast?_cons_cons]
              exact last

/-- A register reads what the last write that was accepted put there, under any of its names. -/
theorem namedCalls_read_written {σ : Type} {funcs : RegFuncs σ}
    {content : σ → UInt64 × UInt32 → UInt32} (keeps : KeepsWords funcs content)
    {blocks : List IpBlock} {writeName readName : RegName} {value : UInt64} {c : RegCell}
    {between : List NamedCall} (written : cellOf blocks writeName = some c)
    (read : cellOf blocks readName = some c)
    (others : ∀ call ∈ between, cellOf blocks call.name = some c → ∃ name, call = .read name)
    (apart : CellsApart blocks (.write writeName value :: (between ++ [.read readName])))
    {answers : List NamedAnswer} {state after : σ}
    (ran : namedCalls funcs blocks (.write writeName value :: (between ++ [.read readName])) state =
      some (.status 0 :: answers, after)) :
    answers.getLast? = some (.value (c.fit value)) := by
  obtain ⟨final, run, _⟩ := namedCalls_run keeps apart cell_named (fun _ _ => rfl) ran
  cases run with
  | step first behind =>
      have last := storeRun_getLast read others behind
      cases first with
      | write isCell =>
          cases isCell.symm.trans written
          rw [last, Function.update_self]
      | refused failed => exact absurd rfl failed
      | halfway isCell wide failed => exact absurd rfl failed

/-! ### A small device -/

def wordFuncs : RegFuncs (UInt64 × UInt32 → UInt32) where
  readReg addr type state := (state (addr, type), state)
  writeReg addr value type state := (0, Function.update state (addr, type) value)

theorem wordFuncs_keeps : KeepsWords wordFuncs id where
  read _ _ _ := rfl
  quiet _ _ _ := rfl
  written _ _ _ _ _ := rfl
  failed _ _ _ _ failed := absurd rfl failed

end Refines

def pairBlocks : List IpBlock :=
  [namedBlock "gfx1100".toList [⟨cstring "regCP".toList, 0, 0x10, 1, []⟩,
    ⟨cstring "regGRBM".toList, 0, 0x12, 0, []⟩]]

def pairName (name : List Char) : RegName := ⟨none, -1, cstring name⟩

def pairWords : UInt64 × UInt32 → UInt32 :=
  Function.update (Function.update (Function.update (fun _ => 0) (0x40, 0) 2) (0x44, 0) 1)
    (0x48, 0) 4

def pairCalls : List NamedCall :=
  [.write (pairName "regCP".toList) 0x100000002, .write (pairName "regGRBM".toList) 0x300000004,
    .read (pairName "mmCP".toList)]

theorem pairCalls_store :
    ∃ final, StoreRun (cellOf pairBlocks) pairCalls
        [.status 0, .status 0, .value 0x100000002] (fun c => c.value fun _ => 0) final ∧
      ∀ c ∈ namedCells pairBlocks pairCalls, final c = c.value pairWords :=
  namedCalls_store wordFuncs_keeps (by decide) rfl

theorem pairCalls_read_written :
    ([.status 0, .value 0x100000002] : List NamedAnswer).getLast? =
      some (.value ((⟨0x40, 0, true⟩ : RegCell).fit 0x100000002)) := by
  have others : ∀ call ∈ [NamedCall.write (pairName "regGRBM".toList) 0x300000004],
      cellOf pairBlocks call.name = some ⟨0x40, 0, true⟩ → ∃ name, call = .read name := by
    intro call member found
    rw [List.mem_singleton.mp member] at found
    exact absurd found (by decide)
  exact @namedCalls_read_written _ wordFuncs id wordFuncs_keeps pairBlocks (pairName "regCP".toList)
    (pairName "mmCP".toList) 0x100000002 ⟨0x40, 0, true⟩ _ (by decide) (by decide) others
    (by decide) [.status 0, .value 0x100000002] (fun _ => 0) pairWords rfl

end Umr.Registers
