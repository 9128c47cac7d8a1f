import Umr.Gui.TraceEvents
import Umr.Lib.Interning
import Umr.Lib.Slices
import Mathlib.Data.List.Forall2

/-!
# The strings of a capture in memory

`string_array_push` and `string_array_lookup_or_push` of `commands.c` on the two arrays
they work on: the characters of all strings one behind the other, and the place of each.
The list of names is what they stand for.
-/

set_option autoImplicit false

namespace Umr.Gui.Trace

open Umr.Lib

/-! ## The two arrays -/

/-- `struct string_array`; `start` and `count` of a slice are `offset` and `len`. -/
structure StringTable where
  strings : List UInt8
  stringsCapacity : Nat
  lenOff : List Slice
  lenOffCapacity : Nat
  deriving DecidableEq, Repr

def StringTable.init : StringTable := ⟨[], 128, [], 8⟩

/-- `strncmp` is zero; behind a string stands its terminator. -/
def strncmpSame : Nat → List UInt8 → List UInt8 → Bool
  | 0, _, _ => true
  | n + 1, a, b =>
      a.headD 0 == b.headD 0 && (a.headD 0 == 0 || strncmpSame n a.tail b.tail)

/-- `none` where the arithmetic of `int` ends: an array is allocated with twice its capacity. -/
def StringTable.growLenOff (arr : StringTable) : Option Nat :=
  if arr.lenOff.length = arr.lenOffCapacity then
    if 2 * arr.lenOffCapacity < 2 ^ 30 then some (2 * arr.lenOffCapacity) else none
  else some arr.lenOffCapacity

def StringTable.push (arr : StringTable) (str : List UInt8) : Option (Nat × StringTable) := do
  let lenOffCapacity ← arr.growLenOff
  let stringsCapacity ← doubleUntil (fun capacity =>
    decide (arr.strings.length + str.length < capacity)) (2 ^ 30) 32 arr.stringsCapacity
  some (arr.lenOff.length, ⟨arr.strings ++ str, stringsCapacity,
    arr.lenOff ++ [⟨arr.strings.length, str.length⟩], lenOffCapacity⟩)

def StringTable.isAt (strings str : List UInt8) (slice : Slice) : Bool :=
  slice.count = str.length ∧ strncmpSame str.length (strings.drop slice.start) str = true

def StringTable.lookupOrPush (arr : StringTable) (str : List UInt8) : Option (Nat × StringTable) :=
  match arr.lenOff.findIdx? (StringTable.isAt arr.strings str) with
  | some i => some (i, arr)
  | none => arr.push str

def StringTable.calls : StringTable → List CString → Option (StringTable × List Nat)
  | arr, [] => some (arr, [])
  | arr, str :: strs => do
      let (id, arr) ← arr.lookupOrPush str.bytes
      let (arr, ids) ← arr.calls strs
      some (arr, id :: ids)

/-- The index stands for the string. -/
def StringTable.Denotes (arr : StringTable) (id : Nat) (str : CString) : Prop :=
  ∃ slice, arr.lenOff[id]? = some slice ∧ slice.count = str.bytes.length ∧
    slice.of arr.strings = str.bytes

/-! ## What the arrays stand for -/

section Refinement
variable {table : StringTable} {arr : StringArray}

structure Represents (table : StringTable) (arr : StringArray) : Prop where
  strings : table.strings = (arr.names.map CString.bytes).flatten
  lenOff : table.lenOff = layout 0 (arr.names.map CString.bytes)
  stringsCapacity : table.stringsCapacity = arr.stringsCapacity
  lenOffCapacity : table.lenOffCapacity = arr.lenOffCapacity

theorem represents_init : Represents StringTable.init StringArray.init := ⟨rfl, rfl, rfl, rfl⟩

theorem strncmpSame_iff {part str : List UInt8} (terminated : ∀ byte ∈ part, byte ≠ 0)
    (same : part.length = str.length) (rest : List UInt8) :
    strncmpSame str.length (part ++ rest) str = true ↔ part = str := by
  induction part generalizing str with
  | nil =>
      cases List.length_eq_zero_iff.mp same.symm
      exact iff_of_true rfl rfl
  | cons a part ih =>
      cases str with
      | nil => cases same
      | cons b str =>
          obtain ⟨nonzero, later⟩ := List.forall_mem_cons.mp terminated
          have noEnd : (a == 0) = false := beq_eq_false_iff_ne.mpr nonzero
          rw [List.length_cons, strncmpSame]
          simp only [List.cons_append, List.headD_cons, List.tail_cons, noEnd, Bool.false_or,
            Bool.and_eq_true, beq_iff_eq, ih later (Nat.succ.inj same), List.cons.injEq]

theorem isAt_iff {before part str : List UInt8} (terminated : ∀ byte ∈ part, byte ≠ 0)
    (rest : List UInt8) :
    StringTable.isAt (before ++ (part ++ rest)) str ⟨before.length, part.length⟩ = true ↔
      part = str := by
  unfold StringTable.isAt
  rw [decide_eq_true_eq]
  dsimp only
  rw [List.drop_left]
  constructor
  · rintro ⟨same, equal⟩
    exact (strncmpSame_iff terminated same rest).mp equal
  · rintro rfl
    exact ⟨rfl, (strncmpSame_iff terminated rfl rest).mpr rfl⟩

theorem findIdx?_layout (str : CString) (names : List CString) (before : List UInt8) :
    (layout before.length (names.map CString.bytes)).findIdx?
        (StringTable.isAt (before ++ (names.map CString.bytes).flatten) str.bytes) =
      names.findIdx? fun other => decide (other = str) := by
  induction names generalizing before with
  | nil => rfl
  | cons name names ih =>
      have later := ih (before ++ name.bytes)
      rw [List.length_append, List.append_assoc] at later
      rw [List.map_cons, layout, List.flatten_cons, List.findIdx?_cons, List.findIdx?_cons, later]
      have here : StringTable.isAt (before ++ (name.bytes ++ (names.map CString.bytes).flatten))
          str.bytes ⟨before.length, name.bytes.length⟩ = decide (name = str) := by
        rw [Bool.eq_iff_iff, isAt_iff name.terminated, decide_eq_true_eq, CString.ext_iff]
      rw [here]

theorem Represents.used (represents : Represents table arr) :
    table.strings.length = arr.used := by
  rw [represents.strings, List.length_flatten, List.map_map]
  rfl

theorem Represents.count (represents : Represents table arr) :
    table.lenOff.length = arr.names.length := by
  rw [represents.lenOff, length_layout, List.length_map]

theorem Represents.push (represents : Represents table arr) (name : CString) :
    match arr.push name with
    | none => table.push name.bytes = none
    | some (id, next) => ∃ table', table.push name.bytes = some (id, table') ∧
        Represents table' next := by
  unfold StringArray.push StringTable.push StringArray.growLenOff StringTable.growLenOff
  rw [represents.used, represents.count, represents.lenOffCapacity, represents.stringsCapacity]
  generalize (if arr.names.length = arr.lenOffCapacity then
    if 2 * arr.lenOffCapacity < 2 ^ 30 then some (2 * arr.lenOffCapacity) else none
    else some arr.lenOffCapacity) = lenOffGrown
  generalize doubleUntil (fun capacity => decide (arr.used + name.bytes.length < capacity)) (2 ^ 30)
    32 arr.stringsCapacity = stringsGrown
  cases lenOffGrown with
  | none => rfl
  | some lenOffCapacity =>
      cases stringsGrown with
      | none => rfl
      | some stringsCapacity =>
          refine ⟨_, rfl, ?_, ?_, rfl, rfl⟩
          · rw [List.map_append, List.flatten_append, represents.strings]
            simp
          · have used := represents.used
            rw [represents.strings] at used
            rw [List.map_append, List.map_singleton, layout_concat, represents.lenOff, Nat.zero_add,
              used]

/-- The arrays do what the list of names does. -/
theorem Represents.lookupOrPush (represents : Represents table arr) (name : CString) :
    match arr.lookupOrPush name with
    | none => table.lookupOrPush name.bytes = none
    | some (id, next) => ∃ table', table.lookupOrPush name.bytes = some (id, table') ∧
        Represents table' next := by
  have found := findIdx?_layout name arr.names []
  rw [List.length_nil, List.nil_append, ← represents.strings, ← represents.lenOff] at found
  unfold StringArray.lookupOrPush StringTable.lookupOrPush
  rw [found]
  cases arr.names.findIdx? fun other => decide (other = name) with
  | none => exact represents.push name
  | some i => exact ⟨table, rfl, represents⟩

theorem Represents.denotes (represents : Represents table arr) {id : Nat} {name : CString}
    (found : arr.names[id]? = some name) : table.Denotes id name := by
  have inBytes : (arr.names.map CString.bytes)[id]? = some name.bytes := by
    rw [List.getElem?_map, found]
    rfl
  obtain ⟨slice, isSlice, count, of⟩ := layout_of inBytes []
  refine ⟨slice, ?_, count, ?_⟩
  · rw [represents.lenOff]
    exact isSlice
  · rw [represents.strings]
    exact of

end Refinement

/-! ## Sequences of calls -/

/-- The characters of the strings, those of equal strings once. -/
def distinctLength (strs : List CString) : Nat :=
  (strs.eraseDups.map fun str => str.bytes.length).sum

structure Interned (table : StringTable) (strs : List CString) (ids : List Nat) : Prop where
  denotes : List.Forall₂ table.Denotes ids strs
  same : ∀ j k, j < strs.length → k < strs.length → (ids[j]? = ids[k]? ↔ strs[j]? = strs[k]?)
  strings : table.strings.length ≤ table.stringsCapacity
  lenOff : table.lenOff.length ≤ table.lenOffCapacity

/-- All calls return, and after each of them every index so far stands for its string. -/
def InternedRun (strs : List CString) : Prop :=
  ∃ ids : List Nat, ∀ n ≤ strs.length, ∃ table,
    StringTable.init.calls (strs.take n) = some (table, ids.take n) ∧
      Interned table (strs.take n) (ids.take n)

section Runs
variable {strs : List CString} {arr : StringArray} {table : StringTable}

/-- The capacities are powers of two, and there is room. -/
structure After (strs : List CString) (arr : StringArray) : Prop where
  names : arr.names = strs.eraseDups
  strings : ∃ a ≤ 29, arr.stringsCapacity = 2 ^ a ∧ arr.used < 2 ^ a
  lenOff : ∃ b ≤ 29, arr.lenOffCapacity = 2 ^ b ∧ arr.names.length ≤ 2 ^ b

theorem after_init : After [] StringArray.init :=
  ⟨rfl, ⟨7, by decide, rfl, by decide⟩, ⟨3, by decide, rfl, by decide⟩⟩

theorem After.used (after : After strs arr) : arr.used = distinctLength strs := by
  rw [StringArray.used, after.names, distinctLength]

theorem After.small (after : After strs arr) : distinctLength strs < 2 ^ 29 := by
  obtain ⟨a, within, -, room⟩ := after.strings
  rw [← after.used]
  exact Nat.lt_of_lt_of_le room (Nat.pow_le_pow_right (by decide) within)

theorem distinctLength_concat (strs : List CString) (str : CString) :
    distinctLength (strs ++ [str]) =
      if str ∈ strs then distinctLength strs else distinctLength strs + str.bytes.length := by
  rw [distinctLength, eraseDups_concat]
  split
  · rfl
  · rw [List.map_append, List.sum_append]
    rfl

theorem distinctLength_append_le (strs more : List CString) :
    distinctLength strs ≤ distinctLength (strs ++ more) := by
  obtain ⟨behind, isWhole⟩ := eraseDups_prefix strs more
  rw [distinctLength, distinctLength, ← isWhole, List.map_append, List.sum_append]
  exact Nat.le_add_right _ _

theorem doubleUntil_pow {need e a steps : Nat} (within : a ≤ e) (enough : e - a < steps) :
    (need < 2 ^ e → ∃ b ≤ e, doubleUntil (fun capacity => decide (need < capacity)) (2 ^ (e + 1))
      steps (2 ^ a) = some (2 ^ b) ∧ need < 2 ^ b) ∧
    (2 ^ e ≤ need → doubleUntil (fun capacity => decide (need < capacity)) (2 ^ (e + 1)) steps
      (2 ^ a) = none) := by
  induction steps generalizing a with
  | zero => exact absurd enough (Nat.not_lt_zero _)
  | succ steps ih =>
      rw [doubleUntil]
      have doubled : 2 * 2 ^ a = 2 ^ (a + 1) := by rw [pow_succ, Nat.mul_comm]
      rw [doubled]
      by_cases room : need < 2 ^ a
      · rw [if_pos (decide_eq_true room)]
        refine ⟨fun _ => ⟨a, within, rfl, room⟩, fun large => ?_⟩
        have fits : 2 ^ a ≤ 2 ^ e := Nat.pow_le_pow_right (by decide) within
        omega
      · rw [if_neg (by simpa using room)]
        by_cases last : a = e
        · subst last
          rw [if_neg (Nat.lt_irrefl _)]
          exact ⟨fun small => absurd small room, fun _ => rfl⟩
        · have later : a + 1 ≤ e := by omega
          have below : 2 ^ (a + 1) < 2 ^ (e + 1) := Nat.pow_lt_pow_right (by decide) (by omega)
          rw [if_pos below]
          exact ih later (by omega)

theorem findIdx?_eq_idxOf (names : List CString) (name : CString) :
    (names.findIdx? fun other => decide (other = name)) =
      if name ∈ names then some (names.idxOf name) else none := by
  induction names with
  | nil => rfl
  | cons first names ih =>
      rw [List.findIdx?_cons, ih]
      by_cases here : first = name
      · rw [here, if_pos (decide_eq_true rfl), if_pos List.mem_cons_self, List.idxOf_cons_self]
      · rw [if_neg (by simpa using here), List.idxOf_cons_ne _ here]
        by_cases later : name ∈ names
        · rw [if_pos later, if_pos (List.mem_cons_of_mem first later)]
          rfl
        · have absent : name ∉ first :: names :=
            fun member => (List.mem_cons.mp member).elim (fun same => here same.symm) later
          rw [if_neg later, if_neg absent]
          rfl

theorem After.old (after : After strs arr) {str : CString} (old : str ∈ strs) :
    arr.lookupOrPush str = some ((strs ++ [str]).eraseDups.idxOf str, arr) ∧
      After (strs ++ [str]) arr := by
  have kept : (strs ++ [str]).eraseDups = strs.eraseDups := by
    rw [eraseDups_concat, if_pos old]
  refine ⟨?_, by rw [kept]; exact after.names, after.strings, after.lenOff⟩
  unfold StringArray.lookupOrPush
  rw [findIdx?_eq_idxOf, after.names, if_pos (List.mem_eraseDups.mpr old), kept]

/-- A new string is pushed as long as there are fewer than 2^29 characters. -/
theorem After.new (after : After strs arr) {str : CString} (new : str ∉ strs) :
    (distinctLength (strs ++ [str]) < 2 ^ 29 → ∃ next,
      arr.lookupOrPush str = some ((strs ++ [str]).eraseDups.idxOf str, next) ∧
        After (strs ++ [str]) next) ∧
    (2 ^ 29 ≤ distinctLength (strs ++ [str]) → arr.lookupOrPush str = none) := by
  have added : (strs ++ [str]).eraseDups = strs.eraseDups ++ [str] := by
    rw [eraseDups_concat, if_neg new]
  have fresh : str ∉ strs.eraseDups := fun member => new (List.mem_eraseDups.mp member)
  have pushed : arr.lookupOrPush str = arr.push str := by
    unfold StringArray.lookupOrPush
    rw [findIdx?_eq_idxOf, after.names, if_neg fresh]
  have total : distinctLength (strs ++ [str]) = arr.used + str.bytes.length := by
    rw [distinctLength_concat, if_neg new, after.used]
  obtain ⟨a, aWithin, isStrings, aRoom⟩ := after.strings
  obtain ⟨b, bWithin, isLenOff, bRoom⟩ := after.lenOff
  have grows := @doubleUntil_pow (arr.used + str.bytes.length) 29 a 32 aWithin (by omega)
  rw [pushed, total, StringArray.push, isStrings]
  constructor
  · intro small
    obtain ⟨a', a'Within, grown, a'Room⟩ := grows.1 small
    have few : arr.names.length < 2 ^ 29 := by
      have nodup : ((strs ++ [str]).eraseDups.map CString.bytes).Nodup :=
        (nodup_eraseDups _).map fun _ _ same => CString.ext same
      have fewer := length_le_sum_length nodup
      rw [List.length_map, List.map_map] at fewer
      change (strs ++ [str]).eraseDups.length ≤ distinctLength (strs ++ [str]) + 1 at fewer
      rw [total, added, List.length_append, ← after.names] at fewer
      have one : [str].length = 1 := rfl
      omega
    have lenOffGrown : ∃ b' ≤ 29, arr.growLenOff = some (2 ^ b') ∧ arr.names.length + 1 ≤ 2 ^ b' := by
      unfold StringArray.growLenOff
      rw [isLenOff]
      by_cases full : arr.names.length = 2 ^ b
      · have later : b < 29 := by
          rw [full] at few
          exact (Nat.pow_lt_pow_iff_right (by decide)).mp few
        have doubled : 2 * 2 ^ b = 2 ^ (b + 1) := by rw [pow_succ, Nat.mul_comm]
        have below : 2 ^ (b + 1) < 2 ^ 30 := Nat.pow_lt_pow_right (by decide) (by omega)
        have positive : 0 < 2 ^ b := Nat.two_pow_pos b
        rw [if_pos full, doubled, if_pos below]
        exact ⟨b + 1, later, rfl, by omega⟩
      · rw [if_neg full]
        exact ⟨b, bWithin, rfl, by omega⟩
    obtain ⟨b', b'Within, isGrown, b'Room⟩ := lenOffGrown
    rw [isGrown]
    change ∃ next, (doubleUntil _ (2 ^ 30) 32 (2 ^ a) >>= _) = _ ∧ _
    rw [grown]
    refine ⟨⟨arr.names ++ [str], 2 ^ b', 2 ^ a'⟩, ?_, ?_, ⟨a', a'Within, rfl, ?_⟩,
      ⟨b', b'Within, rfl, ?_⟩⟩
    · rw [added, List.idxOf_append_of_notMem fresh, List.idxOf_cons_self, Nat.add_zero, after.names]
      rfl
    · rw [added, after.names]
    · change ((arr.names ++ [str]).map fun name => name.bytes.length).sum < 2 ^ a'
      rw [List.map_append, List.sum_append]
      exact a'Room
    · rw [List.length_append]
      exact b'Room
  · intro large
    cases arr.growLenOff with
    | none => rfl
    | some lenOffCapacity =>
        change (doubleUntil _ (2 ^ 30) 32 (2 ^ a) >>= _) = _
        rw [grows.2 large]
        rfl

theorem After.lookupOrPush (after : After strs arr) (str : CString) :
    (distinctLength (strs ++ [str]) < 2 ^ 29 → ∃ next,
      arr.lookupOrPush str = some ((strs ++ [str]).eraseDups.idxOf str, next) ∧
        After (strs ++ [str]) next) ∧
    (2 ^ 29 ≤ distinctLength (strs ++ [str]) → arr.lookupOrPush str = none) := by
  by_cases old : str ∈ strs
  · obtain ⟨found, same⟩ := after.old old
    refine ⟨fun _ => ⟨arr, found, same⟩, fun large => ?_⟩
    exact absurd same.small (Nat.not_lt.mpr large)
  · exact after.new old

/-- The calls behind some others: all of them return, or one of them comes to the limit. -/
theorem calls_run (represents : Represents table arr) (after : After strs arr)
    (more : List CString) :
    (distinctLength (strs ++ more) < 2 ^ 29 → ∃ table' arr',
      table.calls more = some (table', more.map fun str => (strs ++ more).eraseDups.idxOf str) ∧
        Represents table' arr' ∧ After (strs ++ more) arr') ∧
    (2 ^ 29 ≤ distinctLength (strs ++ more) → table.calls more = none) := by
  induction more generalizing strs arr table with
  | nil =>
      rw [List.append_nil]
      exact ⟨fun _ => ⟨table, arr, rfl, represents, after⟩,
        fun large => absurd after.small (Nat.not_lt.mpr large)⟩
  | cons str more ih =>
      have one := represents.lookupOrPush str
      have shape : strs ++ str :: more = (strs ++ [str]) ++ more := by simp
      rw [shape, StringTable.calls]
      rcases Nat.lt_or_ge (distinctLength (strs ++ [str])) (2 ^ 29) with small | large
      · obtain ⟨next, looked, later⟩ := (after.lookupOrPush str).1 small
        rw [looked] at one
        obtain ⟨table', called, kept⟩ := one
        obtain ⟨returns, stops⟩ := ih kept later
        rw [called]
        refine ⟨fun total => ?_, fun total => ?_⟩
        · obtain ⟨last, arr', calls, represents', after'⟩ := returns total
          refine ⟨last, arr', ?_, represents', after'⟩
          change (table'.calls more >>= _) = _
          rw [calls, List.map_cons,
            idxOf_eraseDups_append (List.mem_append_right strs List.mem_cons_self) more]
          rfl
        · change (table'.calls more >>= _) = _
          rw [stops total]
          rfl
      · have stuck := (after.lookupOrPush str).2 large
        rw [stuck] at one
        rw [one]
        have total := Nat.le_trans large (distinctLength_append_le (strs ++ [str]) more)
        exact ⟨fun small => absurd small (Nat.not_lt.mpr total), fun _ => rfl⟩

theorem interned_after (represents : Represents table arr) (after : After strs arr) :
    Interned table strs (strs.map fun str => strs.eraseDups.idxOf str) := by
  refine ⟨?_, ?_, ?_, ?_⟩
  · rw [List.forall₂_map_left_iff, List.forall₂_same]
    intro str member
    refine represents.denotes ?_
    rw [after.names]
    exact getElem?_idxOf_eraseDups member
  · intro j k jInside kInside
    rw [List.getElem?_map, List.getElem?_map, List.getElem?_eq_getElem jInside,
      List.getElem?_eq_getElem kInside, Option.map_some, Option.map_some, Option.some.injEq,
      Option.some.injEq]
    exact idxOf_eraseDups_inj (List.getElem_mem jInside) (List.getElem_mem kInside)
  · obtain ⟨a, -, capacity, room⟩ := after.strings
    rw [represents.used, represents.stringsCapacity, capacity]
    exact Nat.le_of_lt room
  · obtain ⟨b, -, capacity, room⟩ := after.lenOff
    rw [represents.count, represents.lenOffCapacity, capacity]
    exact room

/-- All calls are answered as they should, exactly if the strings are of fewer than 2^29
characters together. -/
theorem internedRun_iff (strs : List CString) : InternedRun strs ↔ distinctLength strs < 2 ^ 29 := by
  constructor
  · rintro ⟨ids, run⟩
    obtain ⟨table, calls, -⟩ := run strs.length (Nat.le_refl _)
    rw [List.take_length] at calls
    by_contra large
    rw [(calls_run represents_init after_init strs).2 (Nat.not_lt.mp large)] at calls
    cases calls
  · intro small
    refine ⟨strs.map fun str => strs.eraseDups.idxOf str, fun n within => ?_⟩
    have whole := List.take_append_drop n strs
    have fewer : distinctLength ([] ++ strs.take n) < 2 ^ 29 := by
      have shorter := distinctLength_append_le (strs.take n) (strs.drop n)
      rw [whole] at shorter
      exact Nat.lt_of_le_of_lt shorter small
    obtain ⟨table, arr, calls, represents, after⟩ :=
      (calls_run represents_init after_init (strs.take n)).1 fewer
    have ids : (strs.map fun str => strs.eraseDups.idxOf str).take n =
        (strs.take n).map fun str => (strs.take n).eraseDups.idxOf str := by
      rw [← List.map_take]
      refine List.map_congr_left fun str member => ?_
      have stable := idxOf_eraseDups_append member (strs.drop n)
      rw [whole] at stable
      exact stable
    rw [ids]
    exact ⟨table, calls, interned_after represents after⟩

def longName : CString :=
  ⟨List.replicate (2 ^ 29) 97, fun _ member => by rw [List.eq_of_mem_replicate member]; decide⟩

/-- The capacity of a name that long is no `int`. -/
theorem longName_overflows :
    StringTable.init.calls [longName] = none ∧ ¬ InternedRun [longName] := by
  have long : distinctLength ([] ++ [longName]) = 2 ^ 29 := by
    have empty : distinctLength [] = 0 := rfl
    have bytes : longName.bytes.length = 2 ^ 29 := List.length_replicate
    rw [distinctLength_concat, if_neg List.not_mem_nil, empty, bytes, Nat.zero_add]
  have stops : StringTable.init.calls [longName] = none :=
    (calls_run represents_init after_init [longName]).2 (Nat.le_of_eq long.symm)
  refine ⟨stops, ?_⟩
  rintro ⟨ids, run⟩
  obtain ⟨table, calls, -⟩ := run 1 (Nat.le_refl 1)
  rw [List.take_of_length_le (Nat.le_refl 1), stops] at calls
  cases calls

end Runs

end Umr.Gui.Trace
