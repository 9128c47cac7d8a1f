import Umr.Gui.TraceHandOver
import Umr.Gui.VmInfo

/-!
# What is read of the buffers

A text of the kernel read by `parse_vm_info`, line by line: which lines become
buffers, and which of their values are those of the line.
-/

set_option autoImplicit false

namespace Umr.Gui

open Umr.Lib Umr.Registers Umr.Gui.Trace

/-! ## Names in front of other text -/

section Names
variable {b : UInt8}

/-- A sequence does not go on behind a character of its own. -/
theorem codePoint_cut (stop : isCont b = false) {string : List UInt8}
    (some_ : string ≠ []) (rest : List UInt8) :
    codePoint (string ++ b :: rest) = codePoint string := by
  cases string with
  | nil => exact absurd rfl some_
  | cons c string =>
      unfold codePoint
      dsimp only [List.cons_append]
      generalize numBytesInUtf8Sequence c = count
      rcases count with _ | _ | _ | _ | _ | count
      · rfl
      · rfl
      · rcases string with _ | ⟨c1, string⟩
        · simp [stop]
        · rfl
      · rcases string with _ | ⟨c1, _ | ⟨c2, string⟩⟩
        · cases rest <;> simp [stop]
        · simp [stop]
        · rfl
      · rcases string with _ | ⟨c1, _ | ⟨c2, _ | ⟨c3, string⟩⟩⟩
        · rcases rest with _ | ⟨d, _ | ⟨e, rest⟩⟩ <;> simp [stop]
        · cases rest <;> simp [stop]
        · simp [stop]
        · rfl
      · rfl

theorem verifyUtf8Sequence_cut (stop : isCont b = false) {string : List UInt8}
    (some_ : string ≠ []) (rest : List UInt8) :
    verifyUtf8Sequence (string ++ b :: rest) = verifyUtf8Sequence string := by
  rw [verifyUtf8Sequence, codePoint_cut stop some_, verifyUtf8Sequence]

theorem validFrom_cut (stop : isCont b = false) {steps left : Nat} {string : List UInt8}
    (within : left ≤ string.length) (rest : List UInt8) :
    validFrom steps (string ++ b :: rest) left = validFrom steps string left := by
  induction steps generalizing string left with
  | zero => rfl
  | succ steps ih =>
      unfold validFrom
      by_cases done : left = 0
      · rw [if_pos done, if_pos done]
      · have some_ : string ≠ [] := by
          rintro rfl
          exact done (Nat.le_zero.mp within)
        rw [if_neg done, if_neg done, verifyUtf8Sequence_cut stop some_]
        cases verified : verifyUtf8Sequence string with
        | none => rfl
        | some len =>
            have short := (verifyUtf8Sequence_append verified []).2
            dsimp only
            rw [List.drop_append_of_le_length short]
            refine ih ?_
            rw [List.length_drop]
            omega

/-- Only the name is checked, whatever character follows that is not part of a sequence. -/
theorem jsonStringWithLen_name {c : Char} (stop : isCont (UInt8.ofNat c.toNat) = false)
    (name rest : List Char) :
    jsonStringWithLen (name ++ c :: rest) name.length =
      if isValidUtf8 (ascii name ++ [0]) name.length then some name else none := by
  have within : name.length ≤ (ascii name).length := by
    rw [ascii, List.length_map]
  have asBytes : ascii (name ++ c :: rest) ++ [0] =
      ascii name ++ UInt8.ofNat c.toNat :: (ascii rest ++ [0]) := by
    simp [ascii]
  rw [jsonStringWithLen, asBytes, isValidUtf8, isValidUtf8, validFrom_cut stop within,
    validFrom_cut (by decide : isCont 0 = false) within, List.take_left]

end Names

/-! ## Attributes -/

section Attributes

def BoAttribute.words : BoAttribute → List (List Char)
  | .flag word => [word.name]
  | .cpuAccessRequired => ["CPU_ACCESS_REQUIRED".toList]
  | .visible => ["VISIBLE".toList]
  | .pinCount count => ["pin".toList, "count".toList, printDec count]
  | .importedFrom ino => ["imported".toList, "from".toList, "ino:".toList ++ printDec ino]
  | .exportedIno ino => ["exported".toList, "as".toList, "ino:".toList ++ printDec ino.toNat]
  | .exportedAs name => ["exported".toList, "as".toList, printPadded 16 name.toNat]

theorem sepWords_three (sep : Char) (first second third : List Char) :
    sepWords sep [first, second, third] = sep :: (first ++ (sep :: (second ++ (sep :: third)))) := by
  simp [sepWords]

theorem BoAttribute.text_eq (attr : BoAttribute) : attr.text = sepWords ' ' attr.words := by
  cases attr with
  | flag word => exact (List.append_nil _).symm
  | cpuAccessRequired => rfl
  | visible => rfl
  | pinCount count =>
      change _ = sepWords ' ' [_, _, _]
      change " pin count ".toList ++ printDec count = _
      rw [sepWords_three]
      generalize printDec count = digits
      rfl
  | importedFrom number =>
      change _ = sepWords ' ' [_, _, _]
      change " imported from ino:".toList ++ printDec number = _
      rw [sepWords_three]
      generalize printDec number = digits
      rfl
  | exportedIno number =>
      change _ = sepWords ' ' [_, _, _]
      change " exported as ino:".toList ++ printDec number.toNat = _
      rw [sepWords_three]
      generalize printDec number.toNat = digits
      rfl
  | exportedAs name =>
      change _ = sepWords ' ' [_, _, _]
      change " exported as ".toList ++ printPadded 16 name.toNat = _
      rw [sepWords_three]
      generalize printPadded 16 name.toNat = digits
      rfl

theorem flagChar_range {c : Char} (isFlag : isFlagChar c = true) : c ≠ ' ' ∧ c.toNat < 96 := by
  simp only [isFlagChar, decide_eq_true_eq, Char.le_def, UInt32.le_iff_toNat_le] at isFlag
  have range : (65 ≤ c.toNat ∧ c.toNat ≤ 90) ∨ (48 ≤ c.toNat ∧ c.toNat ≤ 57) ∨ c = '_' := isFlag
  have blank : ' '.toNat = 32 := rfl
  have line : '_'.toNat = 95 := rfl
  constructor
  · rintro rfl
    rw [blank] at range
    rcases range with low | low | same
    · omega
    · omega
    · cases same
  · rcases range with low | low | same
    · omega
    · omega
    · rw [same, line]
      omega

theorem FlagWord.absent (word : FlagWord) {c : Char} (high : 96 ≤ c.toNat) : c ∉ word.name := by
  intro member
  have low := (flagChar_range (word.capital c member)).2
  omega

theorem FlagWord.blank (word : FlagWord) : ' ' ∉ word.name := by
  intro member
  exact (flagChar_range (word.capital ' ' member)).1 rfl

theorem absent_printDec {c : Char} (noDigit : isdigit c = false) (n : Nat) : c ∉ printDec n := by
  intro member
  rw [isdigit_printDec n c member] at noDigit
  cases noDigit

def hexDigits : List Char := "0123456789abcdef".toList

theorem absent_printPadded {c : Char} (noDigit : c ∉ hexDigits) (width n : Nat) :
    c ∉ printPadded width n := by
  intro member
  rcases List.mem_append.mp member with zero | digit
  · rw [List.eq_of_mem_replicate zero] at noDigit
    exact noDigit (by decide)
  · have digits : ∀ d < 16, d.digitChar ∈ hexDigits := by
      intro d small
      interval_cases d <;> decide
    exact noDigit (forall_printHex digits n c digit)

/-- A character that neither the fixed words nor the numerals have, so that only flags may. -/
structure OnlyInFlags (c : Char) : Prop where
  fixed : c ∉ "pin count imported from exported as ino:".toList
  noDigit : isdigit c = false ∧ c ∉ hexDigits

theorem OnlyInFlags.absent {c : Char} (only : OnlyInFlags c) {attr : BoAttribute}
    (noFlag : ∀ word, attr ≠ .flag word) (noCpu : attr.isCpuAccess = false)
    (noVisible : attr.isVisible = false) : ∀ word ∈ attr.words, c ∉ word := by
  have letters : ∀ text : List Char, text ⊆ "pin count imported from exported as ino:".toList →
      c ∉ text := fun text within member => only.fixed (within member)
  have digits : ∀ n, c ∉ printDec n := absent_printDec only.noDigit.1
  have ino : ∀ n, c ∉ "ino:".toList ++ printDec n := fun n member =>
    (List.mem_append.mp member).elim (letters _ (by decide)) (digits n)
  cases attr with
  | flag word => exact absurd rfl (noFlag word)
  | cpuAccessRequired => cases noCpu
  | visible => cases noVisible
  | pinCount count =>
      exact List.forall_mem_cons.mpr ⟨letters _ (by decide), List.forall_mem_cons.mpr
        ⟨letters _ (by decide), List.forall_mem_singleton.mpr (digits count)⟩⟩
  | importedFrom number =>
      exact List.forall_mem_cons.mpr ⟨letters _ (by decide), List.forall_mem_cons.mpr
        ⟨letters _ (by decide), List.forall_mem_singleton.mpr (ino number)⟩⟩
  | exportedIno number =>
      exact List.forall_mem_cons.mpr ⟨letters _ (by decide), List.forall_mem_cons.mpr
        ⟨letters _ (by decide), List.forall_mem_singleton.mpr (ino number.toNat)⟩⟩
  | exportedAs name =>
      exact List.forall_mem_cons.mpr ⟨letters _ (by decide), List.forall_mem_cons.mpr
        ⟨letters _ (by decide), List.forall_mem_singleton.mpr
          (absent_printPadded only.noDigit.2 16 name.toNat)⟩⟩

theorem BoAttribute.words_whole (attr : BoAttribute) : ∀ word ∈ attr.words, ' ' ∉ word := by
  have digits : ∀ n, ' ' ∉ printDec n := absent_printDec (by decide)
  have ino : ∀ n, ' ' ∉ "ino:".toList ++ printDec n := fun n member =>
    (List.mem_append.mp member).elim (fun inside => absurd inside (by decide)) (digits n)
  have three : ∀ {a b c : List Char}, ' ' ∉ a → ' ' ∉ b → ' ' ∉ c → ∀ word ∈ [a, b, c], ' ' ∉ word :=
    fun first second third => List.forall_mem_cons.mpr
      ⟨first, List.forall_mem_cons.mpr ⟨second, List.forall_mem_singleton.mpr third⟩⟩
  cases attr with
  | flag word => exact List.forall_mem_singleton.mpr word.blank
  | cpuAccessRequired => exact List.forall_mem_singleton.mpr (by decide)
  | visible => exact List.forall_mem_singleton.mpr (by decide)
  | pinCount count => exact three (by decide) (by decide) (digits count)
  | importedFrom number => exact three (by decide) (by decide) (ino number)
  | exportedIno number => exact three (by decide) (by decide) (ino number.toNat)
  | exportedAs name =>
      exact three (by decide) (by decide) (absent_printPadded (by decide) 16 name.toNat)

theorem separated_attributes (attrs : List BoAttribute) :
    Separated ' ' (attrs.flatMap BoAttribute.text) := by
  cases attrs with
  | nil => exact fun c first => absurd first (Option.not_mem_none c)
  | cons attr attrs =>
      intro c first
      rw [List.flatMap_cons, attr.text_eq] at first
      cases attr <;> exact (Option.some.inj first).symm

/-- Placements and padding have no marker in them. -/
theorem Placement.name_capital (placement : Placement) :
    ∀ c ∈ placement.name, isFlagChar c = true := by
  cases placement <;> exact List.all_eq_true.mp (by decide)

theorem sepWords_blanks (count : Nat) :
    sepWords ' ' (List.replicate count []) = List.replicate count ' ' := by
  induction count with
  | zero => rfl
  | succ count ih =>
      rw [List.replicate_succ, List.replicate_succ, ← ih]
      rfl

section Marker
variable {needle : List Char} {found : BoAttribute → Bool}
  (miss : ∀ attr, found attr = false → ∀ word ∈ attr.words, Passed ' ' needle word)
  (hit : ∀ attr, found attr = true → ' ' :: needle <+: attr.text)
include miss hit

theorem strstr_attributes (attrs : List BoAttribute) :
    (strstr (' ' :: needle) (attrs.flatMap BoAttribute.text)).isSome = attrs.any found := by
  induction attrs with
  | nil => rfl
  | cons attr attrs ih =>
      rw [List.flatMap_cons, List.any_cons]
      cases isHit : found attr with
      | true =>
          obtain ⟨rest, isText⟩ := hit attr isHit
          rw [← isText, List.append_assoc, strstr_here]
          rfl
      | false =>
          rw [attr.text_eq, strstr_passed (miss attr isHit) (separated_attributes attrs), ih,
            Bool.false_or]

/-- In the text behind `byte` an attribute is found if and only if the line has it. -/
theorem strstr_behindByte (bare : Passed ' ' needle []) (line : BoLine)
    (named : Passed ' ' needle line.placement.name) :
    (strstr (' ' :: needle) line.behindByte).isSome = line.attributes.any found := by
  rw [← strstr_attributes miss hit line.attributes, BoLine.behindByte]
  cases padding : line.padding with
  | zero => rw [List.replicate_zero, List.nil_append, strstr_absent named.1]
  | succ count =>
      have words : List.replicate (count + 1) ' ' ++ (line.placement.name ++
          line.attributes.flatMap BoAttribute.text) =
          sepWords ' ' (List.replicate count [] ++ [line.placement.name]) ++
            line.attributes.flatMap BoAttribute.text := by
        have split : sepWords ' ' (List.replicate count [] ++ [line.placement.name]) =
            List.replicate count ' ' ++ (' ' :: line.placement.name) := by
          rw [sepWords, List.flatMap_append, ← sepWords_blanks]
          simp [sepWords]
        rw [split, List.replicate_succ']
        simp
      rw [words, strstr_passed ?_ (separated_attributes _)]
      intro word member
      rcases List.mem_append.mp member with blank | name
      · rw [List.eq_of_mem_replicate blank]
        exact bare
      · rw [List.mem_singleton.mp name]
        exact named

end Marker

theorem OnlyInFlags.passed {c : Char} {needle : List Char} (only : OnlyInFlags c)
    {attr : BoAttribute} (noFlag : ∀ word, attr ≠ .flag word) (noCpu : attr.isCpuAccess = false)
    (noVisible : attr.isVisible = false) : ∀ word ∈ attr.words, Passed ' ' (c :: needle) word := by
  intro word member
  refine passed_of_absent (attr.words_whole word member) ?_
    (only.absent noFlag noCpu noVisible word member)
  rintro rfl
  exact absurd only.fixed (by decide)

theorem strstr_cpuAccess (line : BoLine) :
    (strstr " CPU_ACCESS_REQUIRED".toList line.behindByte).isSome =
      line.attributes.any BoAttribute.isCpuAccess := by
  have isNeedle : " CPU_ACCESS_REQUIRED".toList = ' ' :: 'C' :: "PU_ACCESS_REQUIRED".toList := by rfl
  have only : OnlyInFlags 'C' := ⟨by decide, by decide⟩
  rw [isNeedle]
  refine strstr_behindByte ?_ ?_ ?_ line ?_
  · intro attr isMiss
    cases attr with
    | flag word =>
        exact List.forall_mem_singleton.mpr
          (passed_of_unlike word.blank (by decide) word.other.1)
    | cpuAccessRequired => cases isMiss
    | visible =>
        exact List.forall_mem_singleton.mpr
          (passed_of_unlike (by decide) (by decide) (by decide))
    | pinCount => exact only.passed (fun _ => BoAttribute.noConfusion) rfl rfl
    | importedFrom => exact only.passed (fun _ => BoAttribute.noConfusion) rfl rfl
    | exportedIno => exact only.passed (fun _ => BoAttribute.noConfusion) rfl rfl
    | exportedAs => exact only.passed (fun _ => BoAttribute.noConfusion) rfl rfl
  · intro attr isHit
    cases attr <;> first | exact List.prefix_rfl | cases isHit
  · exact passed_of_unlike (by decide) (by decide) (by decide)
  · cases line.placement <;> exact passed_of_unlike (by decide) (by decide) (by decide)

theorem strstr_visible (line : BoLine) :
    (strstr " VISIBLE".toList line.behindByte).isSome =
      line.attributes.any BoAttribute.isVisible := by
  have isNeedle : " VISIBLE".toList = ' ' :: 'V' :: "ISIBLE".toList := by rfl
  have only : OnlyInFlags 'V' := ⟨by decide, by decide⟩
  rw [isNeedle]
  refine strstr_behindByte ?_ ?_ ?_ line ?_
  · intro attr isMiss
    cases attr with
    | flag word =>
        exact List.forall_mem_singleton.mpr
          (passed_of_unlike word.blank (by decide) word.other.2)
    | visible => cases isMiss
    | cpuAccessRequired =>
        exact List.forall_mem_singleton.mpr
          (passed_of_unlike (by decide) (by decide) (by decide))
    | pinCount => exact only.passed (fun _ => BoAttribute.noConfusion) rfl rfl
    | importedFrom => exact only.passed (fun _ => BoAttribute.noConfusion) rfl rfl
    | exportedIno => exact only.passed (fun _ => BoAttribute.noConfusion) rfl rfl
    | exportedAs => exact only.passed (fun _ => BoAttribute.noConfusion) rfl rfl
  · intro attr isHit
    cases attr <;> first | exact List.prefix_rfl | cases isHit
  · exact passed_of_unlike (by decide) (by decide) (by decide)
  · cases line.placement <;> exact passed_of_unlike (by decide) (by decide) (by decide)

theorem strstr_pinCount (line : BoLine) :
    (strstr " pin count".toList line.behindByte).isSome =
      line.attributes.any BoAttribute.isPinCount := by
  have isNeedle : " pin count".toList = ' ' :: 'p' :: "in count".toList := by rfl
  rw [isNeedle]
  refine strstr_behindByte ?_ ?_ ?_ line ?_
  · intro attr isMiss word member
    refine passed_of_head (attr.words_whole word member) (by decide) ?_
    revert word
    cases attr with
    | flag word =>
        refine List.forall_mem_singleton.mpr ?_
        intro d first same
        rw [same] at first
        exact word.absent (by decide) (List.mem_of_mem_head? first)
    | cpuAccessRequired => simp [BoAttribute.words]
    | visible => simp [BoAttribute.words]
    | pinCount => cases isMiss
    | importedFrom => simp [BoAttribute.words]
    | exportedIno => simp [BoAttribute.words]
    | exportedAs name =>
        have digits : 'p' ∉ printPadded 16 name.toNat := absent_printPadded (by decide) 16 _
        refine List.forall_mem_cons.mpr ⟨head_unlike (by decide),
          List.forall_mem_cons.mpr ⟨head_unlike (by decide),
          List.forall_mem_singleton.mpr fun d first same => ?_⟩⟩
        rw [same] at first
        exact digits (List.mem_of_mem_head? first)
  · intro attr isHit
    cases attr <;> first | cases isHit; exact List.prefix_append _ _ | cases isHit
  · exact passed_of_head (by decide) (by decide) (head_unlike (by decide))
  · cases line.placement <;>
      exact passed_of_head (by decide) (by decide) (head_unlike (by decide))

/-! ### The exported inode -/

def exportMarker : List Char := "exported as".toList

theorem strstr_exported_absent {before rest : List Char} (absent : 'e' ∉ before) :
    strstr exportMarker (before ++ rest) = strstr exportMarker rest :=
  strstr_absent absent

theorem strstr_exported_none {attr : BoAttribute} (other : attr.exported = none)
    (rest : List Char) :
    strstr exportMarker (attr.text ++ rest) = strstr exportMarker rest := by
  have digits : ∀ n, 'e' ∉ printDec n := absent_printDec (by decide)
  cases attr with
  | flag word =>
      refine strstr_exported_absent fun member => ?_
      rcases List.mem_cons.mp member with same | inside
      · cases same
      · exact word.absent (by decide) inside
  | cpuAccessRequired => exact strstr_exported_absent (by decide)
  | visible => exact strstr_exported_absent (by decide)
  | pinCount count =>
      exact strstr_exported_absent fun member =>
        (List.mem_append.mp member).elim (fun inside => absurd inside (by decide)) (digits count)
  | importedFrom ino =>
      have split : BoAttribute.text (.importedFrom ino) ++ rest =
          " import".toList ++ ('e' :: ("d from ino:".toList ++ (printDec ino ++ rest))) := by
        change " imported from ino:".toList ++ printDec ino ++ rest = _
        rw [List.append_assoc]
        generalize printDec ino ++ rest = behind
        rfl
      rw [split, strstr_exported_absent (by decide)]
      have unlike : ¬ exportMarker <+: 'e' :: ("d from ino:".toList ++ (printDec ino ++ rest)) := by
        generalize printDec ino ++ rest = behind
        intro isPrefix
        have second := (List.cons_prefix_cons.mp isPrefix).2
        exact absurd (List.cons_prefix_cons.mp second).1 (by decide)
      rw [strstr, if_neg unlike, strstr_exported_absent (by decide), strstr_exported_absent (digits ino)]
  | exportedIno ino => cases other
  | exportedAs name => cases other

def BoAttribute.exportText : BoAttribute → List Char
  | .exportedIno ino => "ino:".toList ++ printDec ino.toNat
  | .exportedAs name => printPadded 16 name.toNat
  | _ => []

theorem strstr_exported_some {attr : BoAttribute} {what : Option UInt64}
    (isExport : attr.exported = some what) (rest : List Char) :
    strstr exportMarker (attr.text ++ rest) =
      some (exportMarker ++ (' ' :: (attr.exportText ++ rest))) := by
  have shape : attr.text ++ rest = " ".toList ++ (exportMarker ++ (' ' :: (attr.exportText ++ rest))) := by
    cases attr with
    | exportedIno ino =>
        change " exported as ino:".toList ++ printDec ino.toNat ++ rest =
          " ".toList ++ (exportMarker ++ ' ' :: ("ino:".toList ++ printDec ino.toNat ++ rest))
        rw [List.append_assoc, List.append_assoc]
        generalize printDec ino.toNat ++ rest = behind
        rfl
    | exportedAs name =>
        change " exported as ".toList ++ printPadded 16 name.toNat ++ rest =
          " ".toList ++ (exportMarker ++ ' ' :: (printPadded 16 name.toNat ++ rest))
        rw [List.append_assoc]
        generalize printPadded 16 name.toNat ++ rest = behind
        rfl
    | flag => cases isExport
    | cpuAccessRequired => cases isExport
    | visible => cases isExport
    | pinCount => cases isExport
    | importedFrom => cases isExport
  rw [shape, strstr_exported_absent (by decide), strstr_here]

theorem strstr_exports {attrs : List BoAttribute} (rest : List Char)
    (others : ∀ attr ∈ attrs, attr.exported = none) :
    strstr exportMarker (attrs.flatMap BoAttribute.text ++ rest) = strstr exportMarker rest := by
  induction attrs with
  | nil => rfl
  | cons attr attrs ih =>
      obtain ⟨first, later⟩ := List.forall_mem_cons.mp others
      rw [List.flatMap_cons, List.append_assoc, strstr_exported_none first, ih later]

theorem scan_exportText {attr : BoAttribute} {what : Option UInt64}
    (isExport : attr.exported = some what) {rest : List Char} (ends : StopsAt isdigit rest) :
    ((scanLiteral "ino:".toList (attr.exportText ++ rest)).bind fun rest =>
      (scanUlong rest).bind fun ino => some ino.toUInt32) = what.map UInt64.toUInt32 := by
  cases attr with
  | exportedIno ino =>
      cases isExport
      have literal : ∀ more, scanLiteral "ino:".toList ("ino:".toList ++ more) = some more :=
        fun _ => rfl
      rw [BoAttribute.exportText, List.append_assoc, literal, Option.bind_some,
        scanUlong_printDec ino.toNat_lt ends, UInt64.ofNat_toNat]
      rfl
  | exportedAs name =>
      cases isExport
      have length := length_printPadded 16 name.toNat
      have digits : 'i' ∉ printPadded 16 name.toNat := absent_printPadded (by decide) 16 _
      rw [BoAttribute.exportText]
      cases isText : printPadded 16 name.toNat with
      | nil =>
          rw [isText] at length
          cases length
      | cons d more =>
          have unlike : d ≠ 'i' := by
            rintro rfl
            exact digits (by rw [isText]; exact List.mem_cons_self)
          have none_ : scanLiteral "ino:".toList (d :: more ++ rest) = none := by
            change scanLiteral ('i' :: "no:".toList) (d :: (more ++ rest)) = none
            rw [scanLiteral, if_neg (by decide)]
            exact if_neg unlike
          rw [none_]
          rfl
  | flag => cases isExport
  | cpuAccessRequired => cases isExport
  | visible => cases isExport
  | pinCount => cases isExport
  | importedFrom => cases isExport

theorem drop_found {found line rest : List Char} (isFound : found <:+ line) (count : Nat) :
    (line ++ rest).drop (line.length - found.length + count) = (found ++ rest).drop count := by
  obtain ⟨before, rfl⟩ := isFound
  have place : (before ++ found).length - found.length = before.length := by
    rw [List.length_append]
    omega
  rw [place, List.append_assoc, ← List.drop_drop, List.drop_left]

theorem stopsAt_attributes (attrs : List BoAttribute) (rest : List Char) :
    StopsAt isdigit (attrs.flatMap BoAttribute.text ++ '\n' :: rest) := by
  intro c first
  have separated := separated_attributes attrs
  cases isText : attrs.flatMap BoAttribute.text with
  | nil =>
      rw [isText] at first
      cases first
      rfl
  | cons d more =>
      rw [isText] at first separated
      have blank := separated d rfl
      cases first
      rw [blank]
      rfl

theorem placement_absent (line : BoLine) {c : Char} (high : 96 ≤ c.toNat) :
    c ∉ List.replicate line.padding ' ' ++ line.placement.name := by
  intro member
  rcases List.mem_append.mp member with blank | letter
  · rw [List.eq_of_mem_replicate blank] at high
    exact absurd high (by decide)
  · have low := (flagChar_range (line.placement.name_capital c letter)).2
    omega

theorem exportedIno_line (line : BoLine) (rest : List Char) :
    exportedIno (line.behindByte ++ '\n' :: rest) line.behindByte =
      line.inode.map UInt64.toUInt32 := by
  unfold BoLine.inode
  have searched : strstr "exported as".toList line.behindByte =
      strstr exportMarker (line.attributes.flatMap BoAttribute.text) := by
    rw [BoLine.behindByte, ← List.append_assoc]
    exact strstr_exported_absent (placement_absent line (by decide))
  cases isExport : line.attributes.findSome? BoAttribute.exported with
  | none =>
      have others := List.findSome?_eq_none_iff.mp isExport
      have none_ : strstr "exported as".toList line.behindByte = none := by
        have passed := strstr_exports [] others
        rw [List.append_nil] at passed
        rw [searched, passed]
        rfl
      rw [exportedIno, none_]
      rfl
  | some what =>
      obtain ⟨before, attr, after, isSplit, first, others⟩ :=
        List.findSome?_eq_some_iff.mp isExport
      have found : strstr "exported as".toList line.behindByte =
          some (exportMarker ++ (' ' :: (attr.exportText ++ after.flatMap BoAttribute.text))) := by
        rw [searched, isSplit, List.flatMap_append, List.flatMap_cons, strstr_exports _ others,
          strstr_exported_some first]
      have behind : (exportMarker ++ (' ' :: (attr.exportText ++ after.flatMap BoAttribute.text)) ++
          '\n' :: rest).drop 12 =
            attr.exportText ++ (after.flatMap BoAttribute.text ++ '\n' :: rest) := by
        rw [List.append_assoc, List.cons_append, List.append_assoc]
        rfl
      have scanned := scan_exportText first (stopsAt_attributes after rest)
      rw [exportedIno, found]
      change ((scanLiteral _ _).bind fun rest => (scanUlong rest).bind fun ino => some ino.toUInt32) = _
      rw [drop_found (strstr_suffix found), behind]
      exact scanned

end Attributes

/-! ## One line -/

section Line

/-- The inode that is read, its lower half. -/
def BoLine.readInode (line : BoLine) : Option Nat := line.inode.map fun ino => ino.toUInt32.toNat

/-- The inode is read whole exactly if it is short. -/
theorem readInode_iff (line : BoLine) :
    line.readInode = line.inode.map UInt64.toNat ↔ line.ShortInode := by
  unfold BoLine.readInode BoLine.ShortInode
  cases line.inode with
  | none => simp
  | some ino =>
      have low : ino.toUInt32.toNat = ino.toNat % 2 ^ 32 := UInt64.toNat_toUInt32 ino
      simp only [Option.map_some, Option.some.injEq, forall_eq', low]
      exact Nat.mod_eq_iff_lt (by decide)

def BoLine.parsed (line : BoLine) : Bo :=
  { line.bo with
    size := toDouble line.size.toNat
    placement := if line.padding = 0 then line.placement.code else 0
    ino := line.readInode }

theorem placementOf_behindByte (line : BoLine) (rest : List Char) :
    placementOf (line.behindByte ++ rest) =
      if line.padding = 0 then line.placement.code else 0 := by
  rw [BoLine.behindByte, List.append_assoc, List.append_assoc]
  generalize line.attributes.flatMap BoAttribute.text ++ rest = behind
  cases line.padding with
  | zero => cases line.placement <;> rfl
  | succ count => rfl

theorem entry_drop (line : BoLine) (rest : List Char) :
    (line.entry ++ rest).drop 11 =
      List.replicate (12 - (printDec line.size.toNat).length + 1) ' ' ++
        (printDec line.size.toNat ++ (" byte ".toList ++ (line.behindByte ++ rest))) := by
  have front : ("0x".toList ++ (printPadded 8 line.id.toNat ++ ":".toList)).length = 11 := by
    rw [List.length_append, List.length_append, length_printPadded_eq (by decide) line.id.toNat_lt]
    rfl
  have shape : line.entry ++ rest = ("0x".toList ++ (printPadded 8 line.id.toNat ++ ":".toList)) ++
      (List.replicate (12 - (printDec line.size.toNat).length + 1) ' ' ++
        (printDec line.size.toNat ++ (" byte ".toList ++ (line.behindByte ++ rest)))) := by
    have colon : ": ".toList = ":".toList ++ [' '] := by rfl
    rw [BoLine.entry, alignRight, colon, List.replicate_succ]
    simp
  rw [shape, List.drop_left' front]

theorem entry_long (line : BoLine) : 11 ≤ line.entry.length := by
  have digits := length_printPadded 8 line.id.toNat
  have zero : "0x".toList.length = 2 := by rfl
  have colon : ": ".toList.length = 2 := by rfl
  rw [BoLine.entry, List.length_append, List.length_append, List.length_append, zero, colon]
  have byte : 1 ≤ (" byte ".toList ++ line.behindByte).length := Nat.succ_pos _
  rw [List.length_append]
  omega

theorem sizeText_drop (line : BoLine) (rest : List Char) :
    ((line.entry ++ rest).drop 11).dropWhile (· = ' ') =
      printDec line.size.toNat ++ (" byte ".toList ++ (line.behindByte ++ rest)) := by
  rw [entry_drop]
  refine dropWhile_append_stop ?_ ?_
  · intro c member
    exact decide_eq_true (List.eq_of_mem_replicate member)
  · intro c first
    have digits := isdigit_printDec line.size.toNat
    cases isText : printDec line.size.toNat with
    | nil => exact absurd isText (printDec_ne_nil _)
    | cons d more =>
        rw [isText] at first digits
        cases first
        refine decide_eq_false ?_
        rintro rfl
        exact absurd (digits ' ' List.mem_cons_self) (by decide)

theorem parseBo_entry (line : BoLine) (rest : List Char) :
    parseBo (line.entry ++ '\n' :: rest) ('\n' :: rest) = some (line.parsed, line.size) := by
  have size := sizeText_drop line ('\n' :: rest)
  have noB : 'b' ∉ printDec line.size.toNat ++ " ".toList := fun member =>
    (List.mem_append.mp member).elim (absent_printDec (by decide) _)
      (fun inside => absurd inside (by decide))
  have byte : strstr "byte".toList (printDec line.size.toNat ++
      (" byte ".toList ++ (line.behindByte ++ '\n' :: rest))) =
        some ("byte".toList ++ (" ".toList ++ (line.behindByte ++ '\n' :: rest))) := by
    have shape : printDec line.size.toNat ++ (" byte ".toList ++ (line.behindByte ++ '\n' :: rest)) =
        (printDec line.size.toNat ++ " ".toList) ++
          ("byte".toList ++ (" ".toList ++ (line.behindByte ++ '\n' :: rest))) := by
      rw [List.append_assoc]
      rfl
    rw [shape]
    exact strstr_behind noB
  have number : scanUlong (printDec line.size.toNat ++
      (" byte ".toList ++ (line.behindByte ++ '\n' :: rest))) = some line.size := by
    rw [scanUlong_printDec line.size.toNat_lt, UInt64.ofNat_toNat]
    intro c first
    cases first
    rfl
  have ptr : ("byte".toList ++ (" ".toList ++ (line.behindByte ++ '\n' :: rest))).drop 5 =
      line.behindByte ++ '\n' :: rest := rfl
  have text : (line.behindByte ++ '\n' :: rest).take
      ((line.behindByte ++ '\n' :: rest).length - ('\n' :: rest).length) = line.behindByte := by
    rw [List.length_append, Nat.add_sub_cancel, List.take_left]
  have inside : ¬ ((line.entry ++ '\n' :: rest).length < 11 ∨
      (line.behindByte ++ '\n' :: rest).length < ('\n' :: rest).length) := by
    have long := entry_long line
    rw [List.length_append, List.length_append]
    omega
  unfold parseBo
  simp only [size, byte, number, ptr, text, Option.bind_eq_bind, Option.bind_some, if_neg inside,
    placementOf_behindByte, strstr_cpuAccess, strstr_visible, exportedIno_line, Option.map_map,
    ← Option.not_isSome, strstr_pinCount]
  rfl

structure Foreign (c : Char) : Prop where
  only : OnlyInFlags c
  noFlag : isFlagChar c = false
  fixed : c ∉ "\t0x: byte".toList

theorem foreign_chars : Foreign '\n' ∧ Foreign 'v' := by
  refine ⟨⟨⟨by decide, by decide, by decide⟩, by decide, by decide⟩,
    ⟨⟨by decide, by decide, by decide⟩, by decide, by decide⟩⟩

theorem Foreign.flags {c : Char} (foreign : Foreign c) {text : List Char}
    (capital : ∀ d ∈ text, isFlagChar d = true) : c ∉ text := by
  intro member
  have isFlag := capital c member
  rw [foreign.noFlag] at isFlag
  cases isFlag

theorem Foreign.attribute {c : Char} (foreign : Foreign c) (attr : BoAttribute) :
    c ∉ attr.text := by
  have words : ∀ word ∈ attr.words, c ∉ word := by
    cases attr with
    | flag word => exact List.forall_mem_singleton.mpr (foreign.flags word.capital)
    | cpuAccessRequired => exact List.forall_mem_singleton.mpr (foreign.flags (List.all_eq_true.mp (by decide)))
    | visible => exact List.forall_mem_singleton.mpr (foreign.flags (List.all_eq_true.mp (by decide)))
    | pinCount => exact foreign.only.absent (fun _ => BoAttribute.noConfusion) rfl rfl
    | importedFrom => exact foreign.only.absent (fun _ => BoAttribute.noConfusion) rfl rfl
    | exportedIno => exact foreign.only.absent (fun _ => BoAttribute.noConfusion) rfl rfl
    | exportedAs => exact foreign.only.absent (fun _ => BoAttribute.noConfusion) rfl rfl
  rw [attr.text_eq]
  intro member
  obtain ⟨word, isWord, inside⟩ := List.mem_flatMap.mp member
  rcases List.mem_cons.mp inside with same | within
  · exact foreign.fixed (by rw [same]; decide)
  · exact words word isWord within

theorem Foreign.entry {c : Char} (foreign : Foreign c) (line : BoLine) : c ∉ line.entry := by
  have letters : ∀ text : List Char, text ⊆ "\t0x: byte".toList → c ∉ text :=
    fun text within member => foreign.fixed (within member)
  have blanks : ∀ count, c ∉ List.replicate count ' ' := fun count member =>
    foreign.fixed (by rw [List.eq_of_mem_replicate member]; decide)
  unfold BoLine.entry alignRight BoLine.behindByte
  simp only [List.mem_append, List.mem_flatMap, not_or, not_exists, not_and]
  exact ⟨letters _ (by decide), absent_printPadded foreign.only.noDigit.2 _ _,
    letters _ (by decide), ⟨blanks _, absent_printDec foreign.only.noDigit.1 _⟩,
    letters _ (by decide), blanks _, foreign.flags line.placement.name_capital,
    fun attr _ => foreign.attribute attr⟩

theorem Foreign.text {c : Char} (foreign : Foreign c) (line : BoLine) :
    c ∉ "\t\t".toList ++ line.entry := by
  intro member
  rcases List.mem_append.mp member with tab | inside
  · exact foreign.fixed ((show "\t\t".toList ⊆ "\t0x: byte".toList by decide) tab)
  · exact foreign.entry line inside

/-! ## The lines of a category -/

def PlainLine (text : List Char) : Prop :=
  ∃ line rest, text = line ++ '\n' :: rest ∧ '\n' ∉ line ∧ 'x' ∉ line

theorem boLines_end {text : List Char} (plain : PlainLine text) (fuel : Nat) :
    boLines (fuel + 1) text = some ([], text) := by
  obtain ⟨line, rest, rfl, oneLine, noHex⟩ := plain
  have noMarker : ¬ "0x".toList <:+: line := fun inside => noHex (inside.subset (by decide))
  have behind : strstr "0x".toList (line ++ '\n' :: rest) = strstr "0x".toList rest :=
    strstr_skip noMarker (by decide)
  rw [boLines, behind, strchr_behind oneLine]
  cases found : strstr "0x".toList rest with
  | none => rfl
  | some id =>
      have short := (strstr_suffix found).length_le
      dsimp only
      rw [if_neg (by rw [List.length_cons]; omega)]

theorem boLines_lines {lines : List BoLine} {fuel : Nat} (enough : lines.length < fuel)
    {rest : List Char} (plain : PlainLine rest) :
    boLines fuel (lines.flatMap BoLine.text ++ rest) =
      some (lines.map fun line => (line.parsed, line.size), rest) := by
  induction lines generalizing fuel with
  | nil =>
      obtain ⟨fuel, rfl⟩ := Nat.exists_eq_add_one.mpr enough
      exact boLines_end plain fuel
  | cons line lines ih =>
      obtain ⟨fuel, rfl⟩ := Nat.exists_eq_add_one.mpr (Nat.lt_of_le_of_lt (Nat.zero_le _) enough)
      generalize isMore : lines.flatMap BoLine.text ++ rest = more at ih
      have shape : (line :: lines).flatMap BoLine.text ++ rest =
          ("\t\t".toList ++ line.entry) ++ '\n' :: more := by
        rw [← isMore, List.flatMap_cons, BoLine.text]
        simp
      have id : strstr "0x".toList (("\t\t".toList ++ line.entry) ++ '\n' :: more) =
          some (line.entry ++ '\n' :: more) := by
        rw [List.append_assoc, BoLine.entry, List.append_assoc]
        exact strstr_behind (by decide)
      have longer : ('\n' :: more).length < (line.entry ++ '\n' :: more).length := by
        have some_ : 0 < line.entry.length := Nat.succ_pos _
        rw [List.length_append]
        omega
      rw [shape, boLines, id, strchr_behind (foreign_chars.1.text line)]
      dsimp only
      rw [if_pos longer, parseBo_entry, List.drop_one, List.tail_cons]
      change ((boLines fuel more).bind fun found => some ((line.parsed, line.size) :: found.1, found.2)) = _
      rw [ih (Nat.lt_of_succ_lt_succ enough)]
      rfl

end Line

end Umr.Gui
