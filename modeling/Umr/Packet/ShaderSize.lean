import Umr.Lib.Loop
import Mathlib.Data.Nat.Find

/-!
# The size of a shader

`umr_compute_shader_size` of `shader_disasm.c`: the words of a shader are read in pages of 64 until
five of them in a row end a program, or a page cannot be read.
-/

set_option autoImplicit false

namespace Umr.Packet.Shader

open Umr.Lib

/-! ## The scan -/

def sEndpgm : UInt32 := 0xBF810000

def sEndinv : UInt32 := 0xBF9F0000

def isEnd (word : UInt32) : Bool := word = sEndpgm ∨ word = sEndinv

structure SizeScan where
  addr : UInt64
  buf : Nat → UInt32
  lastendpgm : UInt32
  endpgmCnt : UInt32
  y : UInt32
  x : UInt32

def SizeScan.size (scan : SizeScan) : UInt32 :=
  if scan.endpgmCnt = 5 then scan.y - 16 else scan.lastendpgm + 4

section Scan
variable (earlyTerm : Bool) (readPage : UInt64 → Option (Nat → UInt32))

def wordTurn (scan : SizeScan) : Turn SizeScan UInt32 :=
  let scan := { scan with y := scan.y + 4 }
  if isEnd (scan.buf scan.x.toNat) then
    let scan := { scan with lastendpgm := scan.y - 4, endpgmCnt := scan.endpgmCnt + 1 }
    if scan.endpgmCnt = 5 then .done scan.size
    else if earlyTerm then .done scan.size
    else .again { scan with x := scan.x + 1 }
  else .again { scan with endpgmCnt := 0, x := scan.x + 1 }

/-- A page that cannot be read is taken for the end of what is mapped. -/
def sizeTurn (scan : SizeScan) : Turn SizeScan UInt32 :=
  if scan.x = 256 / 4 then
    match readPage scan.addr with
    | none => .done scan.size
    | some buf => wordTurn earlyTerm { scan with addr := scan.addr + 256, buf := buf, x := 0 }
  else wordTurn earlyTerm scan

/-- `readPage` is `umr_read_vram` of 256 bytes; `none` is a scan that goes on. -/
def umrComputeShaderSize (addr : UInt64) (fuel : Nat) : Option UInt32 :=
  loop (sizeTurn earlyTerm readPage) fuel ⟨addr, fun _ => 0, 0, 0, 0, 256 / 4⟩

end Scan

/-! ## Where it stops -/

section Stop
variable (earlyTerm : Bool) (readPage : UInt64 → Option (Nat → UInt32)) (addr : UInt64)

def shaderWord (i : Nat) : Option UInt32 :=
  (readPage (addr + 256 * UInt64.ofNat (i / 64))).map fun page => page (i % 64)

def endsAt (i : Nat) : Bool := (shaderWord readPage addr i).any isEnd

def FifthEnd (i : Nat) : Prop := 4 ≤ i ∧ ∀ k < 5, endsAt readPage addr (i - k) = true

instance (i : Nat) : Decidable (FifthEnd readPage addr i) :=
  inferInstanceAs (Decidable (4 ≤ i ∧ ∀ k < 5, endsAt readPage addr (i - k) = true))

def Stops (i : Nat) : Prop :=
  shaderWord readPage addr i = none ∨ FifthEnd readPage addr i ∨
    earlyTerm = true ∧ endsAt readPage addr i = true

/-- The last place in front of `i` that ends a program; 0 if there is none. -/
def lastEnd : Nat → Nat
  | 0 => 0
  | i + 1 => if endsAt readPage addr i then i else lastEnd i

/-- Up to the first of the five, or else up to the last end that was seen, which is the first word
where there was none. -/
def sizeAt (i : Nat) : UInt32 :=
  if FifthEnd readPage addr i then UInt32.ofNat (4 * (i - 3))
  else UInt32.ofNat (4 * (lastEnd readPage addr (i + 1) + 1))

def endsBefore : Nat → Nat
  | 0 => 0
  | i + 1 => if endsAt readPage addr i then endsBefore i + 1 else 0

variable {earlyTerm readPage addr}

theorem le_endsBefore_iff {k i : Nat} : k ≤ endsBefore readPage addr i ↔
    k ≤ i ∧ ∀ j < k, endsAt readPage addr (i - 1 - j) = true := by
  induction i generalizing k with
  | zero =>
      rw [endsBefore]
      refine ⟨fun none_ => ⟨none_, fun j inside => ?_⟩, And.left⟩
      omega
  | succ i ih =>
      rw [endsBefore, Nat.add_sub_cancel]
      cases ends : endsAt readPage addr i with
      | false =>
          rw [if_neg Bool.false_ne_true]
          constructor
          · intro none_
            exact ⟨by omega, fun j inside => by omega⟩
          · rintro ⟨_, all⟩
            by_contra some_
            have first := all 0 (by omega)
            rw [Nat.sub_zero, ends] at first
            cases first
      | true =>
          rw [if_pos rfl]
          cases k with
          | zero =>
              exact ⟨fun _ => ⟨Nat.zero_le _, fun j inside => absurd inside (Nat.not_lt_zero j)⟩,
                fun _ => Nat.zero_le _⟩
          | succ k =>
              rw [Nat.add_le_add_iff_right, Nat.add_le_add_iff_right, ih]
              refine and_congr_right fun _ => ⟨fun all j inside => ?_, fun all j inside => ?_⟩
              · cases j with
                | zero => exact ends
                | succ j =>
                    rw [← Nat.sub_sub, Nat.sub_right_comm]
                    exact all j (by omega)
              · have behind := all (j + 1) (by omega)
                rwa [← Nat.sub_sub, Nat.sub_right_comm] at behind

theorem fifthEnd_iff (i : Nat) :
    FifthEnd readPage addr i ↔ 5 ≤ endsBefore readPage addr (i + 1) := by
  rw [le_endsBefore_iff, Nat.add_sub_cancel]
  exact and_congr_left fun _ => by omega

theorem lastEnd_cases (i : Nat) : lastEnd readPage addr i = 0 ∨
    lastEnd readPage addr i < i ∧ endsAt readPage addr (lastEnd readPage addr i) = true := by
  induction i with
  | zero => exact Or.inl rfl
  | succ i ih =>
      rw [lastEnd]
      cases ends : endsAt readPage addr i with
      | true => exact Or.inr ⟨Nat.lt_succ_self i, ends⟩
      | false =>
          rw [if_neg Bool.false_ne_true]
          rcases ih with none_ | ⟨less, isEnd_⟩
          · exact Or.inl none_
          · exact Or.inr ⟨Nat.lt_succ_of_lt less, isEnd_⟩

theorem endsAt_some {i : Nat} {word : UInt32} (isWord : shaderWord readPage addr i = some word) :
    endsAt readPage addr i = isEnd word := by
  rw [endsAt, isWord, Option.any_some]

theorem endsAt_none {i : Nat} (missing : shaderWord readPage addr i = none) :
    endsAt readPage addr i = false := by
  rw [endsAt, missing, Option.any_none]

theorem not_fifthEnd {i : Nat} (other : endsAt readPage addr i = false) :
    ¬ FifthEnd readPage addr i := by
  rintro ⟨_, all⟩
  have last := all 0 (by omega)
  rw [Nat.sub_zero, other] at last
  cases last

end Stop

/-! ## What the scan knows -/

section Run
variable {earlyTerm : Bool} {readPage : UInt64 → Option (Nat → UInt32)} {addr : UInt64}

/-- The counters behind the first `i` words. -/
structure Counted (readPage : UInt64 → Option (Nat → UInt32)) (addr : UInt64) (i : Nat)
    (scan : SizeScan) : Prop where
  lastendpgm : scan.lastendpgm = UInt32.ofNat (4 * lastEnd readPage addr i)
  endpgmCnt : scan.endpgmCnt = UInt32.ofNat (endsBefore readPage addr i)
  y : scan.y = UInt32.ofNat (4 * i)
  few : endsBefore readPage addr i < 5

structure ScanAt (readPage : UInt64 → Option (Nat → UInt32)) (addr : UInt64) (i : Nat)
    (scan : SizeScan) : Prop extends Counted readPage addr i scan where
  next : scan.addr = addr + 256 * UInt64.ofNat ((i + 63) / 64)
  place : scan.x = UInt32.ofNat ((i + 63) % 64 + 1)
  page : i % 64 ≠ 0 → readPage (addr + 256 * UInt64.ofNat (i / 64)) = some scan.buf

structure Loaded (readPage : UInt64 → Option (Nat → UInt32)) (addr : UInt64) (i : Nat)
    (scan : SizeScan) : Prop extends Counted readPage addr i scan where
  next : scan.addr = addr + 256 * UInt64.ofNat (i / 64 + 1)
  place : scan.x = UInt32.ofNat (i % 64)
  page : readPage (addr + 256 * UInt64.ofNat (i / 64)) = some scan.buf

theorem ofNat_four_succ (i : Nat) : UInt32.ofNat (4 * i) + 4 = UInt32.ofNat (4 * (i + 1)) := by
  rw [Nat.mul_add, UInt32.ofNat_add]
  rfl

theorem size_of_few {scan : SizeScan} {i : Nat}
    (lastendpgm : scan.lastendpgm = UInt32.ofNat (4 * lastEnd readPage addr i))
    (few : scan.endpgmCnt ≠ 5) :
    scan.size = UInt32.ofNat (4 * (lastEnd readPage addr i + 1)) := by
  rw [SizeScan.size, if_neg few, lastendpgm, ofNat_four_succ]

theorem Counted.cnt_ne {i : Nat} {scan : SizeScan} (counted : Counted readPage addr i scan) :
    scan.endpgmCnt ≠ 5 := by
  intro five
  have few := counted.few
  have count := congrArg UInt32.toNat (counted.endpgmCnt.symm.trans five)
  rw [UInt32.toNat_ofNat', Nat.mod_eq_of_lt (by omega)] at count
  rw [count] at few
  exact absurd few (by decide)

theorem Counted.five_iff {i : Nat} {scan : SizeScan} (counted : Counted readPage addr i scan)
    (ends : endsAt readPage addr i = true) :
    scan.endpgmCnt + 1 = 5 ↔ FifthEnd readPage addr i := by
  have few := counted.few
  have next : endsBefore readPage addr (i + 1) = endsBefore readPage addr i + 1 := if_pos ends
  have count : scan.endpgmCnt + 1 = UInt32.ofNat (endsBefore readPage addr i + 1) := by
    rw [counted.endpgmCnt, UInt32.ofNat_add]
    rfl
  have small : (UInt32.ofNat (endsBefore readPage addr i + 1)).toNat =
      endsBefore readPage addr i + 1 := by
    rw [UInt32.toNat_ofNat', Nat.mod_eq_of_lt (by omega)]
  rw [fifthEnd_iff, next, count, ← UInt32.toNat_inj, small]
  change _ = 5 ↔ _
  omega

theorem wordTurn_loaded {i : Nat} {scan : SizeScan} (loaded : Loaded readPage addr i scan) :
    (Stops earlyTerm readPage addr i →
      wordTurn earlyTerm scan = .done (sizeAt readPage addr i)) ∧
    (¬ Stops earlyTerm readPage addr i → ∃ next, wordTurn earlyTerm scan = .again next ∧
      ScanAt readPage addr (i + 1) next) := by
  have inside : i % 64 < 64 := Nat.mod_lt _ (by decide)
  have x : scan.x.toNat = i % 64 := by
    rw [loaded.place, UInt32.toNat_ofNat', Nat.mod_eq_of_lt (by omega)]
  have isWord : shaderWord readPage addr i = some (scan.buf (i % 64)) := by
    rw [shaderWord, loaded.page]
    rfl
  have ends := endsAt_some isWord
  have y := ofNat_four_succ i
  have nextPlace : scan.x + 1 = UInt32.ofNat ((i + 1 + 63) % 64 + 1) := by
    rw [loaded.place, show (i + 1 + 63) % 64 = i % 64 by omega, UInt32.ofNat_add]
    rfl
  have nextAddr : scan.addr = addr + 256 * UInt64.ofNat ((i + 1 + 63) / 64) := by
    rw [loaded.next, show (i + 1 + 63) / 64 = i / 64 + 1 by omega]
  have samePage : (i + 1) % 64 ≠ 0 →
      readPage (addr + 256 * UInt64.ofNat ((i + 1) / 64)) = some scan.buf := by
    intro within
    rw [show (i + 1) / 64 = i / 64 by omega]
    exact loaded.page
  unfold wordTurn
  dsimp only
  rw [x, ← ends, loaded.y, y]
  cases isEnd_ : endsAt readPage addr i with
  | false =>
      have last : lastEnd readPage addr (i + 1) = lastEnd readPage addr i :=
        if_neg (by rw [isEnd_]; exact Bool.false_ne_true)
      have none_ : endsBefore readPage addr (i + 1) = 0 :=
        if_neg (by rw [isEnd_]; exact Bool.false_ne_true)
      rw [if_neg Bool.false_ne_true]
      refine ⟨?_, fun _ => ⟨_, rfl, ⟨?_, ?_, rfl, ?_⟩, nextAddr, nextPlace, samePage⟩⟩
      · rintro (missing | five | ⟨_, early⟩)
        · cases missing.symm.trans isWord
        · exact absurd five (not_fifthEnd isEnd_)
        · cases early.symm.trans isEnd_
      · rw [last]
        exact loaded.lastendpgm
      · rw [none_]
        rfl
      · rw [none_]
        decide
  | true =>
      have last : lastEnd readPage addr (i + 1) = i := if_pos isEnd_
      have one : endsBefore readPage addr (i + 1) = endsBefore readPage addr i + 1 := if_pos isEnd_
      have five := loaded.five_iff isEnd_
      have lastendpgm : UInt32.ofNat (4 * (i + 1)) - 4 =
          UInt32.ofNat (4 * lastEnd readPage addr (i + 1)) := by
        rw [last, ← y, UInt32.add_sub_cancel]
      rw [if_pos rfl]
      by_cases isFifth : FifthEnd readPage addr i
      · refine ⟨fun _ => ?_, fun goesOn => absurd (Or.inr (Or.inl isFifth)) goesOn⟩
        rw [if_pos (five.mpr isFifth), SizeScan.size, if_pos (five.mpr isFifth), sizeAt,
          if_pos isFifth]
        have four := isFifth.1
        have back : UInt32.ofNat (4 * (i + 1)) = UInt32.ofNat (4 * (i - 3)) + 16 := by
          rw [show 4 * (i + 1) = 4 * (i - 3) + 16 by omega, UInt32.ofNat_add]
          rfl
        dsimp only
        rw [back, UInt32.add_sub_cancel]
      · rw [if_neg (mt five.mp isFifth)]
        cases early : earlyTerm with
        | true =>
            rw [if_pos rfl]
            refine ⟨fun _ => ?_, fun goesOn => absurd (Or.inr (Or.inr ⟨rfl, isEnd_⟩)) goesOn⟩
            rw [sizeAt, if_neg isFifth]
            exact congrArg Turn.done (size_of_few lastendpgm (mt five.mp isFifth))
        | false =>
            rw [if_neg Bool.false_ne_true]
            refine ⟨?_, fun _ => ⟨_, rfl, ⟨lastendpgm, ?_, rfl, ?_⟩, nextAddr, nextPlace, samePage⟩⟩
            · rintro (missing | fifth | ⟨never, _⟩)
              · cases missing.symm.trans isWord
              · exact absurd fifth isFifth
              · cases never
            · rw [one, UInt32.ofNat_add, ← loaded.endpgmCnt]
              rfl
            · exact Nat.lt_of_not_le (mt (fifthEnd_iff i).mpr isFifth)

theorem sizeTurn_at {i : Nat} {scan : SizeScan} (at_ : ScanAt readPage addr i scan) :
    (Stops earlyTerm readPage addr i →
      sizeTurn earlyTerm readPage scan = .done (sizeAt readPage addr i)) ∧
    (¬ Stops earlyTerm readPage addr i → ∃ next, sizeTurn earlyTerm readPage scan = .again next ∧
      ScanAt readPage addr (i + 1) next) := by
  have inside : (i + 63) % 64 < 64 := Nat.mod_lt _ (by decide)
  have usedUp : scan.x = 256 / 4 ↔ i % 64 = 0 := by
    rw [at_.place, ← UInt32.toNat_inj, UInt32.toNat_ofNat', Nat.mod_eq_of_lt (by omega)]
    change _ = 64 ↔ _
    omega
  unfold sizeTurn
  by_cases first : i % 64 = 0
  · have here : (i + 63) / 64 = i / 64 := by omega
    rw [if_pos (usedUp.mpr first), at_.next, here]
    cases page : readPage (addr + 256 * UInt64.ofNat (i / 64)) with
    | none =>
        have missing : shaderWord readPage addr i = none := by
          rw [shaderWord, page]
          rfl
        have other := endsAt_none missing
        have last : lastEnd readPage addr (i + 1) = lastEnd readPage addr i :=
          if_neg (by rw [other]; exact Bool.false_ne_true)
        refine ⟨fun _ => ?_, fun goesOn => absurd (Or.inl missing) goesOn⟩
        rw [sizeAt, if_neg (not_fifthEnd other), last]
        exact congrArg Turn.done (size_of_few at_.lastendpgm at_.cnt_ne)
    | some buf =>
        refine wordTurn_loaded ⟨⟨at_.lastendpgm, at_.endpgmCnt, at_.y, at_.few⟩, ?_, ?_, page⟩
        · rw [UInt64.ofNat_add, UInt64.mul_add, UInt64.add_assoc]
          rfl
        · rw [first]
          rfl
  · rw [if_neg (mt usedUp.mp first)]
    refine wordTurn_loaded ⟨at_.toCounted, ?_, ?_, at_.page first⟩
    · rw [at_.next, show (i + 63) / 64 = i / 64 + 1 by omega]
    · rw [at_.place, show (i + 63) % 64 + 1 = i % 64 by omega]

theorem scanAt_start : ScanAt readPage addr 0 ⟨addr, fun _ => 0, 0, 0, 0, 256 / 4⟩ := by
  refine ⟨⟨rfl, rfl, rfl, by rw [endsBefore]; decide⟩, ?_, rfl, fun within => absurd rfl within⟩
  change addr = addr + 256 * 0
  rw [UInt64.mul_zero, UInt64.add_zero]

/-- From word `i` on the scan ends at the first place that stops it. -/
theorem loop_stops {n : Nat} (stops : Stops earlyTerm readPage addr n) :
    ∀ (left i : Nat) {scan : SizeScan}, i + left = n → ScanAt readPage addr i scan →
      (∀ j, i ≤ j → j < n → ¬ Stops earlyTerm readPage addr j) →
      loop (sizeTurn earlyTerm readPage) (left + 1) scan = some (sizeAt readPage addr n) := by
  intro left
  induction left with
  | zero =>
      intro i scan isLast at_ _
      obtain rfl : i = n := isLast
      exact loop_done ((sizeTurn_at at_).1 stops) 0
  | succ left ih =>
      intro i scan before at_ goesOn
      have later : ¬ Stops earlyTerm readPage addr i := goesOn i (Nat.le_refl i) (by omega)
      obtain ⟨next, turn, behind⟩ := (sizeTurn_at at_).2 later
      rw [loop_again turn]
      exact ih (i + 1) (by omega) behind fun j beyond => goesOn j (by omega)

theorem loop_never (never : ∀ i, ¬ Stops earlyTerm readPage addr i) (fuel : Nat) :
    ∀ (i : Nat) {scan : SizeScan}, ScanAt readPage addr i scan →
      loop (sizeTurn earlyTerm readPage) fuel scan = none := by
  induction fuel with
  | zero => exact fun _ _ _ => rfl
  | succ fuel ih =>
      intro i scan at_
      obtain ⟨next, turn, behind⟩ := (sizeTurn_at at_).2 (never i)
      rw [loop_again turn]
      exact ih (i + 1) behind

structure StopsFirst (earlyTerm : Bool) (readPage : UInt64 → Option (Nat → UInt32))
    (addr : UInt64) (n : Nat) : Prop where
  stops : Stops earlyTerm readPage addr n
  first : ∀ i < n, ¬ Stops earlyTerm readPage addr i

theorem computes_of_stopsFirst {n : Nat} (stop : StopsFirst earlyTerm readPage addr n) :
    umrComputeShaderSize earlyTerm readPage addr (n + 1) = some (sizeAt readPage addr n) :=
  loop_stops stop.stops n 0 (Nat.zero_add n) scanAt_start fun j _ => stop.first j

theorem stopsFirst_of_computes {fuel : Nat} {size : UInt32}
    (computed : umrComputeShaderSize earlyTerm readPage addr fuel = some size) :
    ∃ n, StopsFirst earlyTerm readPage addr n ∧ size = sizeAt readPage addr n := by
  classical
  by_cases some_ : ∃ n, Stops earlyTerm readPage addr n
  · have stop : StopsFirst earlyTerm readPage addr (Nat.find some_) :=
      ⟨Nat.find_spec some_, fun i less => Nat.find_min some_ less⟩
    refine ⟨Nat.find some_, stop, ?_⟩
    have enough := (loop_fuel (Nat.le_max_left fuel (Nat.find some_ + 1)) computed).1
    have other := (loop_fuel (Nat.le_max_right fuel (Nat.find some_ + 1))
      (computes_of_stopsFirst stop)).1
    exact Option.some.inj (enough.symm.trans other)
  · have none_ := loop_never (not_exists.mp some_) fuel 0 (@scanAt_start readPage addr)
    cases computed.symm.trans none_

/-- The scan returns if and only if some place stops it, and the first such place says what. -/
theorem umrComputeShaderSize_iff (earlyTerm : Bool) (readPage : UInt64 → Option (Nat → UInt32))
    (addr : UInt64) (size : UInt32) :
    (∃ fuel, umrComputeShaderSize earlyTerm readPage addr fuel = some size) ↔
      ∃ n, StopsFirst earlyTerm readPage addr n ∧ size = sizeAt readPage addr n := by
  constructor
  · rintro ⟨fuel, computed⟩
    exact stopsFirst_of_computes computed
  · rintro ⟨n, stop, rfl⟩
    exact ⟨n + 1, computes_of_stopsFirst stop⟩

end Run

/-! ## What can be read -/

section Readable
variable {earlyTerm : Bool} {readPage : UInt64 → Option (Nat → UInt32)} {addr : UInt64}

theorem not_missing {i : Nat} (goesOn : ¬ Stops earlyTerm readPage addr i) :
    shaderWord readPage addr i ≠ none := fun missing => goesOn (Or.inl missing)

theorem shaderWord_zero : shaderWord readPage addr 0 = none ↔ readPage addr = none := by
  rw [shaderWord, Option.map_eq_none_iff]
  change readPage (addr + 256 * 0) = none ↔ _
  rw [UInt64.mul_zero, UInt64.add_zero]

/-- The words that are counted can be read, unless there is nothing at all. -/
theorem sizeAt_readable {n : Nat} (stop : StopsFirst earlyTerm readPage addr n)
    (mapped : readPage addr ≠ none) {i : Nat} (counted : 4 * i < (sizeAt readPage addr n).toNat) :
    shaderWord readPage addr i ≠ none := by
  rw [sizeAt] at counted
  split at counted
  · have inside := Nat.lt_of_lt_of_le counted (Nat.mod_le _ _)
    exact not_missing (stop.first i (by omega))
  · have inside := Nat.lt_of_lt_of_le counted (Nat.mod_le _ _)
    rcases @lastEnd_cases readPage addr (n + 1) with none_ | ⟨less, isEnd_⟩
    · obtain rfl : i = 0 := by omega
      exact mt shaderWord_zero.mp mapped
    · by_cases before : i < n
      · exact not_missing (stop.first i before)
      · obtain rfl : i = lastEnd readPage addr (n + 1) := by omega
        intro missing
        cases isEnd_.symm.trans (endsAt_none missing)

theorem umrComputeShaderSize_readable_iff {fuel : Nat} {size : UInt32}
    (computed : umrComputeShaderSize earlyTerm readPage addr fuel = some size) :
    (∀ i, 4 * i < size.toNat → shaderWord readPage addr i ≠ none) ↔ readPage addr ≠ none := by
  obtain ⟨n, stop, rfl⟩ := stopsFirst_of_computes computed
  refine ⟨fun all => ?_, fun mapped i => sizeAt_readable stop mapped⟩
  intro unmapped
  have missing : shaderWord readPage addr 0 = none := shaderWord_zero.mpr unmapped
  have isFirst : n = 0 := by
    by_contra later
    exact stop.first 0 (Nat.pos_of_ne_zero later) (Or.inl missing)
  subst isFirst
  refine all 0 ?_ missing
  have noEnd : lastEnd readPage addr 1 = 0 := by
    rw [lastEnd, lastEnd, ite_self]
  rw [sizeAt, if_neg (fun five => absurd five.1 (by decide)), noEnd]
  decide

def onePage (addr : UInt64) : Option (Nat → UInt32) :=
  if addr = 0x1000 then some fun i => if i < 2 then 0 else sEndinv else none

theorem onePage_readable :
    (∀ i, 4 * i < (12 : UInt32).toNat → shaderWord onePage 0x1000 i ≠ none) ↔
      onePage 0x1000 ≠ none :=
  @umrComputeShaderSize_readable_iff false onePage 0x1000 7 12 (by decide)

end Readable

end Umr.Packet.Shader
