import Umr.Gui.TraceEvents
import Umr.Lib.Markers
import Umr.Registers.FindReg

/-!
# Signaled fences of the rings

`get_rings_last_signaled_fences` and `compare_fence_infos` of `commands.c`.  A ring
is found by its header, and the next number is taken for its last signaled fence;
a text as the kernel writes it is read ring by ring.
-/

set_option autoImplicit false

namespace Umr.Gui

open Umr.Lib Umr.Registers Umr.Gui.Trace

/-- The object that is made for a ring; it has no name if the name is not UTF-8. -/
structure Fence where
  name : Option (List Char)
  value : UInt64
  deriving DecidableEq, Repr

structure FenceDelta where
  name : Option (List Char)
  delta : UInt32
  deriving DecidableEq, Repr

def ringMarker : List Char := "--- ring".toList

/-- `json_object_set_string`; the check sees the terminator behind the text. -/
def jsonString (text : List Char) : Option (List Char) :=
  if isValidUtf8 (ascii text ++ [0]) text.length then some text else none

/-- The name of the next ring and the text from its number on, if there are both; `none` is a `)` that
is missing or a name that does not fit `ring_name`. -/
def findFence (fenceInfo : List Char) : Option (Option (List Char × List Char)) :=
  match (strstr ringMarker fenceInfo).bind (strchr '(') with
  | none => some none
  | some nextRingStart =>
      match strchr ')' (nextRingStart.drop 1) with
      | none => none
      | some nextRingEnd =>
          let ringName := (nextRingStart.drop 1).takeWhile (· ≠ ')')
          if ringName.length < 128 then
            some ((strstr "0x".toList (nextRingEnd.drop 1)).map fun nextLine => (ringName, nextLine))
          else none

def fenceOf (ringFilter : Option (List Char)) (ringName nextLine : List Char) : Option Fence := do
  let rest ← scanLiteral "0x".toList nextLine
  let (lastSignaled, _) ← scanHex 8 rest
  if ringFilter.all (· = ringName) then some ⟨jsonString ringName, lastSignaled⟩ else none

/-- The cursor moves on by the length of `0x00000000` and a newline, which must not lead out of the
text. -/
def fencesFrom (ringFilter : Option (List Char)) : Nat → List Char → Option (List Fence)
  | 0, _ => none
  | fuel + 1, fenceInfo =>
      match findFence fenceInfo with
      | none => none
      | some none => some []
      | some (some (ringName, nextLine)) =>
          if nextLine.length < 11 then none
          else
            (fencesFrom ringFilter fuel (nextLine.drop 11)).map fun fences =>
              (fenceOf ringFilter ringName nextLine).toList ++ fences

def getRingsLastSignaledFences (fenceInfo : List Char) (ringFilter : Option (List Char)) :
    Option (List Fence) :=
  fencesFrom ringFilter (fenceInfo.length + 1) fenceInfo

/-- `(uint32_t)` of a number, which must fit. -/
def numberUint32 (value : UInt64) : Option UInt32 :=
  if value.toNat < 2 ^ 32 then some value.toUInt32 else none

/-- A ring that is missing in the second array has the value 0. -/
def compareFences : List Fence → List Fence → Option (List FenceDelta)
  | [], _ => some []
  | b :: before, after => do
      let v1 ← numberUint32 b.value
      let v2 ← numberUint32 (after.head?.elim 0 Fence.value)
      let fences ← compareFences before after.tail
      pure (⟨b.name, v2 - v1⟩ :: fences)

def compareFenceInfos (fenceInfoBefore fenceInfoAfter : List Char) : Option (List FenceDelta) := do
  let before ← getRingsLastSignaledFences fenceInfoBefore none
  let after ← getRingsLastSignaledFences fenceInfoAfter none
  compareFences before after

/-! ## The text of the kernel -/

structure CounterLine where
  label : List Char
  value : UInt32
  oneLine : '\n' ∉ label
  noHeader : ¬ ringMarker <:+: label

structure RingInfo where
  number : Nat
  name : List Char
  lastSignaled : UInt32
  further : List CounterLine
  short : name.length < 128
  noParens : '(' ∉ name ∧ ')' ∉ name

/-- The JSON library takes the name. -/
def RingInfo.IsText (ring : RingInfo) : Prop :=
  isValidUtf8 (ascii ring.name ++ [0]) ring.name.length = true

def counterText (value : UInt32) : List Char :=
  '0' :: 'x' :: (printPadded 8 value.toNat ++ ['\n'])

def CounterLine.text (line : CounterLine) : List Char := line.label ++ counterText line.value

def RingInfo.text (ring : RingInfo) : List Char :=
  ringMarker ++ (' ' :: (printDec ring.number ++ (" (".toList ++ (ring.name ++ (") ---\n".toList ++
    ("Last signaled fence          ".toList ++ (counterText ring.lastSignaled ++
      ring.further.flatMap CounterLine.text)))))))

def fenceInfo (rings : List RingInfo) : List Char := rings.flatMap RingInfo.text

/-! ## One ring -/

theorem strstr_counterText {before rest : List Char} (clear : ¬ ringMarker <:+: before)
    (value : UInt32) :
    strstr ringMarker (before ++ (counterText value ++ rest)) = strstr ringMarker rest := by
  have digits : ¬ ringMarker <:+: printPadded 8 value.toNat := by
    intro inside
    have dash := isxdigit_printPadded 8 value.toNat '-' (inside.subset (by decide))
    exact absurd dash (by decide)
  have empty : ¬ ringMarker <:+: [] := by decide
  unfold counterText
  rw [List.cons_append, strstr_skip clear (by decide), List.cons_append]
  have skipped : strstr ringMarker ([] ++ 'x' :: (printPadded 8 value.toNat ++ ['\n'] ++ rest)) = _ :=
    strstr_skip empty (by decide)
  rw [List.nil_append] at skipped
  rw [skipped, List.append_assoc]
  exact strstr_skip digits (by decide)

theorem strstr_further (lines : List CounterLine) (rest : List Char) :
    strstr ringMarker (lines.flatMap CounterLine.text ++ rest) = strstr ringMarker rest := by
  induction lines with
  | nil => rfl
  | cons line lines ih =>
      rw [List.flatMap_cons, CounterLine.text, List.append_assoc, List.append_assoc,
        strstr_counterText line.noHeader, ih]

theorem counterText_append (value : UInt32) (rest : List Char) :
    counterText value ++ rest = "0x".toList ++ (printPadded 8 value.toNat ++ '\n' :: rest) := by
  simp [counterText]

theorem findFence_ring (ring : RingInfo) (rest : List Char) :
    findFence (ring.text ++ rest) = some (some (ring.name,
      counterText ring.lastSignaled ++ (ring.further.flatMap CounterLine.text ++ rest))) := by
  have paren : '(' ∉ ringMarker ++ ' ' :: (printDec ring.number ++ [' ']) := by
    intro member
    rcases List.mem_append.mp member with marker | member
    · exact absurd marker (by decide)
    · rcases List.mem_cons.mp member with same | member
      · cases same
      · rcases List.mem_append.mp member with digit | blank
        · exact absurd (isdigit_printDec ring.number '(' digit) (by decide)
        · cases List.mem_singleton.mp blank
  have zero : '0' ∉ " ---\nLast signaled fence          ".toList := by decide
  have shape : ring.text ++ rest = (ringMarker ++ ' ' :: (printDec ring.number ++ [' '])) ++
      '(' :: (ring.name ++ ')' :: (" ---\nLast signaled fence          ".toList ++
        (counterText ring.lastSignaled ++ (ring.further.flatMap CounterLine.text ++ rest)))) := by
    simp [RingInfo.text]
  have header : strstr ringMarker (ring.text ++ rest) = some (ring.text ++ rest) := by
    rw [RingInfo.text, List.append_assoc]
    exact strstr_here _ _
  have name : ∀ text, (ring.name ++ ')' :: text).takeWhile (· ≠ ')') = ring.name := by
    intro text
    refine takeWhile_append_stop (fun c member => decide_eq_true ?_) ?_
    · rintro rfl
      exact ring.noParens.2 member
    · intro c first
      cases first
      rfl
  have number : ∀ more, strstr "0x".toList (" ---\nLast signaled fence          ".toList ++
      (counterText ring.lastSignaled ++ more)) = some (counterText ring.lastSignaled ++ more) := by
    intro more
    rw [counterText_append]
    exact strstr_behind zero
  rw [findFence, header, Option.bind_some, shape, strchr_behind paren]
  dsimp only
  rw [List.drop_one, List.tail_cons, strchr_behind ring.noParens.2]
  dsimp only
  rw [name, if_pos ring.short, List.drop_one, List.tail_cons, number, Option.map_some]

theorem fenceOf_counterText (name : List Char) (value : UInt32) (rest : List Char) :
    fenceOf none name (counterText value ++ rest) = some ⟨jsonString name, value.toUInt64⟩ := by
  have literal : ∀ more, scanLiteral "0x".toList ("0x".toList ++ more) = some more := fun _ => rfl
  rw [fenceOf, counterText_append, literal]
  change (scanHex 8 _ >>= _) = _
  rw [scanHex_printPadded (by decide) value.toNat_lt]
  have widened : UInt64.ofNat value.toNat = value.toUInt64 := by
    rw [← UInt64.toNat_inj, UInt64.toNat_ofNat', UInt32.toNat_toUInt64]
    exact Nat.mod_eq_of_lt (Nat.lt_trans value.toNat_lt (by decide))
  rw [← widened]
  rfl

/-! ## All rings -/

theorem RingInfo.jsonString_name (ring : RingInfo) :
    jsonString ring.name = some ring.name ↔ ring.IsText := by
  unfold jsonString RingInfo.IsText
  split
  · rename_i taken
    exact iff_of_true rfl taken
  · rename_i refused
    exact iff_of_false (Option.some_ne_none _).symm refused

theorem length_counterText (value : UInt32) : (counterText value).length = 11 := by
  rw [counterText, List.length_cons, List.length_cons, List.length_append,
    length_printPadded_eq (by decide) value.toNat_lt, List.length_singleton]

/-- Each ring is found once, in order, with its first number. -/
theorem fencesFrom_rings (rings : List RingInfo) {fuel : Nat} (enough : rings.length < fuel)
    (lines : List CounterLine) :
    fencesFrom none fuel (lines.flatMap CounterLine.text ++ fenceInfo rings) =
      some (rings.map fun ring => ⟨jsonString ring.name, ring.lastSignaled.toUInt64⟩) := by
  induction rings generalizing fuel lines with
  | nil =>
      obtain ⟨fuel, rfl⟩ := Nat.exists_eq_add_one.mpr enough
      have none_ : findFence (lines.flatMap CounterLine.text ++ fenceInfo []) = some none := by
        rw [findFence, strstr_further]
        rfl
      rw [fencesFrom, none_]
      rfl
  | cons ring rings ih =>
      obtain ⟨fuel, rfl⟩ := Nat.exists_eq_add_one.mpr (Nat.lt_of_le_of_lt (Nat.zero_le _) enough)
      have found : findFence (lines.flatMap CounterLine.text ++ fenceInfo (ring :: rings)) =
          some (some (ring.name, counterText ring.lastSignaled ++
            (ring.further.flatMap CounterLine.text ++ fenceInfo rings))) := by
        rw [← findFence_ring, findFence, strstr_further, findFence]
        rfl
      have long : ∀ rest, ¬ (counterText ring.lastSignaled ++ rest).length < 11 := by
        intro rest
        rw [List.length_append, length_counterText]
        omega
      rw [fencesFrom, found]
      dsimp only
      rw [if_neg (long _), List.drop_left' (length_counterText _), fenceOf_counterText,
        ih (Nat.lt_of_succ_lt_succ enough)]
      rfl

theorem length_le_fenceInfo (rings : List RingInfo) : rings.length ≤ (fenceInfo rings).length := by
  induction rings with
  | nil => exact Nat.le_refl 0
  | cons ring rings ih =>
      have some_ : 0 < ring.text.length := by
        rw [RingInfo.text, List.length_append]
        exact Nat.add_pos_left (by decide) _
      have whole : fenceInfo (ring :: rings) = ring.text ++ fenceInfo rings := rfl
      rw [whole, List.length_append, List.length_cons]
      omega

theorem getRings_fenceInfo (rings : List RingInfo) :
    getRingsLastSignaledFences (fenceInfo rings) none =
      some (rings.map fun ring => ⟨jsonString ring.name, ring.lastSignaled.toUInt64⟩) :=
  fencesFrom_rings rings (Nat.lt_succ_of_le (length_le_fenceInfo rings)) []

theorem numberUint32_toUInt64 (value : UInt32) : numberUint32 value.toUInt64 = some value := by
  have fits : value.toUInt64.toNat < 2 ^ 32 := by
    rw [UInt32.toNat_toUInt64]
    exact value.toNat_lt
  rw [numberUint32, if_pos fits, UInt32.toUInt32_toUInt64]

/-- One entry for each ring, in order, with the difference of its last signaled fences, and with
the name if the JSON library takes it. -/
theorem compareFenceInfos_rings {before after : List RingInfo}
    (same : before.map RingInfo.name = after.map RingInfo.name) :
    compareFenceInfos (fenceInfo before) (fenceInfo after) =
      some (List.zipWith (fun b a => ⟨jsonString b.name, a.lastSignaled - b.lastSignaled⟩)
        before after) := by
  rw [compareFenceInfos, getRings_fenceInfo, getRings_fenceInfo]
  change compareFences _ _ = _
  induction before generalizing after with
  | nil => rfl
  | cons b before ih =>
      cases after with
      | nil => cases same
      | cons a after =>
          have rest := ih (List.cons.inj same).2
          rw [List.map_cons, List.map_cons, compareFences, numberUint32_toUInt64]
          change (do
            let v2 ← numberUint32 a.lastSignaled.toUInt64
            let fences ← compareFences _ _
            pure (_ :: fences)) = _
          rw [numberUint32_toUInt64]
          change (do
            let fences ← compareFences _ _
            pure (_ :: fences)) = _
          rw [List.tail_cons, rest]
          rfl

def RingInfo.delta (before after : RingInfo) : FenceDelta :=
  ⟨some before.name, after.lastSignaled - before.lastSignaled⟩

/-- Each ring gets its entry exactly if the JSON library takes all names. -/
theorem compareFenceInfos_iff {before after : List RingInfo}
    (same : before.map RingInfo.name = after.map RingInfo.name) :
    compareFenceInfos (fenceInfo before) (fenceInfo after) =
        some (List.zipWith RingInfo.delta before after) ↔
      ∀ ring ∈ before, ring.IsText := by
  rw [compareFenceInfos_rings same, Option.some.injEq]
  induction before generalizing after with
  | nil => simp
  | cons b before ih =>
      cases after with
      | nil => cases same
      | cons a after =>
          rw [List.zipWith_cons_cons, List.zipWith_cons_cons, List.cons.injEq,
            ih (List.cons.inj same).2, List.forall_mem_cons, ← b.jsonString_name]
          refine and_congr_left fun _ => ?_
          rw [RingInfo.delta, FenceDelta.mk.injEq]
          exact and_iff_left rfl

def gfxRing (value : UInt32) : RingInfo where
  number := 0
  name := "gfx_0.0.0".toList
  lastSignaled := value
  further := [⟨"Last emitted                 ".toList, value, by decide, by decide⟩]
  short := by decide
  noParens := by decide

example : fenceInfo [gfxRing 0xE67EE] =
    ("--- ring 0 (gfx_0.0.0) ---\nLast signaled fence          0x000e67ee\n" ++
      "Last emitted                 0x000e67ee\n").toList := by decide

theorem gfxRing_wraps :
    compareFenceInfos (fenceInfo [gfxRing 0xFFFFFFFF]) (fenceInfo [gfxRing 1]) =
      some [⟨some "gfx_0.0.0".toList, 2⟩] := by
  refine (@compareFenceInfos_iff [gfxRing 0xFFFFFFFF] [gfxRing 1] rfl).mpr ?_
  intro ring member
  rw [List.mem_singleton.mp member]
  have taken : isValidUtf8 (ascii "gfx_0.0.0".toList ++ [0]) 9 = true := by decide
  exact taken

def latinRing (value : UInt32) : RingInfo where
  number := 0
  name := [Char.ofNat 0xE9]
  lastSignaled := value
  further := []
  short := by decide
  noParens := by decide

theorem latinRing_unnamed :
    compareFenceInfos (fenceInfo [latinRing 1]) (fenceInfo [latinRing 3]) = some [⟨none, 2⟩] ∧
      compareFenceInfos (fenceInfo [latinRing 1]) (fenceInfo [latinRing 3]) ≠
        some (List.zipWith RingInfo.delta [latinRing 1] [latinRing 3]) := by
  have read : compareFenceInfos (fenceInfo [latinRing 1]) (fenceInfo [latinRing 3]) =
      some [⟨none, 2⟩] := by
    decide
  exact ⟨read, by rw [read]; decide⟩

end Umr.Gui
