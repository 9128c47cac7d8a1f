import Umr.Gui.GemInfo
import Umr.Gui.VmInfoRead

/-!
# What is read of the buffers by handle

The lines of the kernel split and parsed, and when the answer is the one the text
stands for.
-/

set_option autoImplicit false

namespace Umr.Gui

open Umr.Lib Umr.Registers Umr.Gui.Trace

/-! ## The line of a buffer -/

section Line
variable (line : BoLine)

def BoLine.sized : List Char :=
  printDec line.size.toNat ++ (" byte ".toList ++ line.behindByte)

/-- The blank behind `byte` taken for padding. -/
def BoLine.wider : BoLine := { line with padding := line.padding + 1 }

theorem sized_eq :
    line.sized = printDec line.size.toNat ++ (" byte".toList ++ line.wider.behindByte) := by
  have blank : " byte ".toList = " byte".toList ++ [' '] := by rfl
  have wide : line.wider.behindByte = ' ' :: line.behindByte := by
    rw [BoLine.behindByte, BoLine.wider, List.replicate_succ]
    rfl
  rw [BoLine.sized, wide, blank, List.append_assoc]
  rfl

/-- A word with a blank in front is looked for behind the blank after `byte`. -/
theorem strstr_sized {c : Char} {needle : List Char} (other : c ≠ 'b') :
    strstr (' ' :: c :: needle) line.sized = strstr (' ' :: c :: needle) line.wider.behindByte := by
  have digits : ' ' ∉ printDec line.size.toNat := absent_printDec (by decide) _
  have unlike : ¬ c :: needle <+: "byte".toList ++ line.wider.behindByte :=
    not_prefix_head fun d first => by
      cases first
      exact other.symm
  rw [sized_eq, strstr_absent digits]
  exact strstr_word (by decide) unlike

/-- A flag that would be taken for the placement. -/
def BoAttribute.isGtt : BoAttribute → Bool
  | .flag word => decide ("GTT".toList <+: word.name)
  | _ => false

theorem strstr_gtt_other (other : line.placement ≠ .gtt) :
    (strstr " GTT".toList line.behindByte).isSome = line.attributes.any BoAttribute.isGtt := by
  have only : OnlyInFlags 'G' := ⟨by decide, by decide⟩
  have isNeedle : " GTT".toList = ' ' :: 'G' :: "TT".toList := by rfl
  rw [isNeedle]
  refine strstr_behindByte ?_ ?_ ?_ line ?_
  · intro attr isMiss
    cases attr with
    | flag word =>
        exact List.forall_mem_singleton.mpr
          (passed_of_unlike word.blank (by decide) (of_decide_eq_false isMiss))
    | cpuAccessRequired =>
        exact List.forall_mem_singleton.mpr (passed_of_unlike (by decide) (by decide) (by decide))
    | visible =>
        exact List.forall_mem_singleton.mpr (passed_of_unlike (by decide) (by decide) (by decide))
    | pinCount => exact only.passed (fun _ => BoAttribute.noConfusion) rfl rfl
    | importedFrom => exact only.passed (fun _ => BoAttribute.noConfusion) rfl rfl
    | exportedIno => exact only.passed (fun _ => BoAttribute.noConfusion) rfl rfl
    | exportedAs => exact only.passed (fun _ => BoAttribute.noConfusion) rfl rfl
  · intro attr isHit
    cases attr with
    | flag word => exact List.cons_prefix_cons.mpr ⟨rfl, of_decide_eq_true isHit⟩
    | _ => cases isHit
  · exact passed_of_unlike (by decide) (by decide) (by decide)
  · cases isPlacement : line.placement with
    | gtt => exact absurd isPlacement other
    | _ => exact passed_of_unlike (by decide) (by decide) (by decide)

theorem strstr_gtt_sized
    (other : ∀ word, .flag word ∈ line.attributes → ¬ "GTT".toList <+: word.name) :
    (strstr " GTT".toList line.sized).isSome = decide (line.placement = .gtt) := by
  have passed : strstr " GTT".toList line.sized = strstr " GTT".toList line.wider.behindByte :=
    strstr_sized line (by decide)
  rw [passed]
  by_cases isGtt : line.placement = .gtt
  · have inside : " GTT".toList <:+: line.wider.behindByte := by
      have shape : line.wider.behindByte = List.replicate line.padding ' ' ++ " GTT".toList ++
          line.attributes.flatMap BoAttribute.text := by
        have name : line.wider.placement.name = "GTT".toList := congrArg Placement.name isGtt
        rw [BoLine.behindByte, name, BoLine.wider, List.replicate_succ']
        simp
      exact ⟨_, _, shape.symm⟩
    obtain ⟨found, isFound, -⟩ := strstr_within inside []
    rw [List.append_nil] at isFound
    rw [isFound, decide_eq_true isGtt]
    rfl
  · have none_ : line.attributes.any BoAttribute.isGtt = false := by
      refine List.any_eq_false.mpr fun attr member => ?_
      cases attr with
      | flag word => simpa [BoAttribute.isGtt] using other word member
      | _ => exact Bool.false_ne_true
    rw [decide_eq_false isGtt, ← none_]
    exact strstr_gtt_other line.wider isGtt

/-- `pin count` is in the words of no other attribute. -/
theorem strstr_pinCount_miss {attr : BoAttribute} (miss : attr.isPinCount = false)
    (rest : List Char) :
    strstr "pin count".toList (attr.text ++ rest) = strstr "pin count".toList rest := by
  have bare : ∀ {text : List Char}, 'p' ∉ text →
      strstr "pin count".toList (text ++ rest) = strstr "pin count".toList rest :=
    fun absent => strstr_absent absent
  have third : ∀ {word digits : List Char}, ¬ "pin count".toList <:+: word → 'p' ∉ digits →
      strstr "pin count".toList (word ++ 'd' :: (digits ++ rest)) =
        strstr "pin count".toList rest :=
    fun free absent => (strstr_skip free (by decide)).trans (strstr_absent absent)
  have digits : ∀ n, 'p' ∉ printDec n := absent_printDec (by decide)
  cases attr with
  | flag word =>
      refine bare fun member => ?_
      rcases List.mem_cons.mp member with same | inside
      · cases same
      · exact word.absent (by decide) inside
  | cpuAccessRequired => exact bare (by decide)
  | visible => exact bare (by decide)
  | pinCount => cases miss
  | importedFrom number =>
      have shape : (BoAttribute.importedFrom number).text = " importe".toList ++
          'd' :: (" from ino:".toList ++ printDec number) := by
        change " imported from ino:".toList ++ printDec number = _
        generalize printDec number = digits
        rfl
      rw [shape, List.append_assoc]
      exact third (by decide) (by simp [digits])
  | exportedIno number =>
      have shape : (BoAttribute.exportedIno number).text = " exporte".toList ++
          'd' :: (" as ino:".toList ++ printDec number.toNat) := by
        change " exported as ino:".toList ++ printDec number.toNat = _
        generalize printDec number.toNat = digits
        rfl
      rw [shape, List.append_assoc]
      exact third (by decide) (by simp [digits])
  | exportedAs name =>
      have hex : 'p' ∉ printPadded 16 name.toNat := absent_printPadded (by decide) 16 _
      have shape : (BoAttribute.exportedAs name).text = " exporte".toList ++
          'd' :: (" as ".toList ++ printPadded 16 name.toNat) := by
        change " exported as ".toList ++ printPadded 16 name.toNat = _
        generalize printPadded 16 name.toNat = digits
        rfl
      rw [shape, List.append_assoc]
      exact third (by decide) (by simp [hex])

theorem strstr_pinCount_sized :
    (strstr "pin count".toList line.sized).isSome = line.attributes.any BoAttribute.isPinCount := by
  have front : 'p' ∉ printDec line.size.toNat ++ (" byte ".toList ++
      (List.replicate line.padding ' ' ++ line.placement.name)) := by
    have digits : 'p' ∉ printDec line.size.toNat := absent_printDec (by decide) _
    have placement := placement_absent line (by decide : 96 ≤ 'p'.toNat)
    simp only [List.mem_append, not_or] at placement ⊢
    exact ⟨digits, by decide, placement⟩
  have shape : line.sized = (printDec line.size.toNat ++ (" byte ".toList ++
      (List.replicate line.padding ' ' ++ line.placement.name))) ++
        line.attributes.flatMap BoAttribute.text := by
    simp [BoLine.sized, BoLine.behindByte]
  have passed : strstr "pin count".toList line.sized =
      strstr "pin count".toList (line.attributes.flatMap BoAttribute.text) := by
    rw [shape]
    exact strstr_absent front
  rw [passed]
  generalize line.attributes = attrs
  induction attrs with
  | nil => rfl
  | cons attr attrs ih =>
      rw [List.flatMap_cons, List.any_cons]
      cases isHit : attr.isPinCount with
      | true =>
          cases attr with
          | pinCount count =>
              have inside : "pin count".toList <:+: (BoAttribute.pinCount count).text :=
                ⟨[' '], ' ' :: printDec count, rfl⟩
              obtain ⟨found, isFound, -⟩ :=
                strstr_within inside (attrs.flatMap BoAttribute.text)
              rw [isFound]
              rfl
          | _ => cases isHit
      | false => rw [strstr_pinCount_miss isHit, ih, Bool.false_or]

theorem strstr_exported_sized :
    strstr "exported as".toList line.sized =
      strstr exportMarker (line.attributes.flatMap BoAttribute.text) := by
  obtain ⟨first, more, isName, capital, later⟩ : ∃ first more, line.placement.name = first :: more ∧
      first ∉ exportMarker ∧ 'e' ∉ more := by
    cases line.placement <;> exact ⟨_, _, rfl, by decide, by decide⟩
  have shape : line.sized = (printDec line.size.toNat ++ (" byte ".toList ++
      List.replicate line.padding ' ')) ++ first :: (more ++
        line.attributes.flatMap BoAttribute.text) := by
    simp [BoLine.sized, BoLine.behindByte, isName]
  have free : ¬ exportMarker <:+: printDec line.size.toNat ++ (" byte ".toList ++
      List.replicate line.padding ' ') := by
    intro inside
    have member : 'x' ∈ printDec line.size.toNat ++ (" byte ".toList ++
      List.replicate line.padding ' ') := inside.subset (by decide)
    have digits : 'x' ∉ printDec line.size.toNat := absent_printDec (by decide) _
    simp [digits] at member
  rw [shape]
  exact (strstr_skip free capital).trans (strstr_exported_absent later)

theorem exportedText_sized :
    ∃ exported, exportedText line.sized = some exported ∧
      exported.bind Prod.fst = line.inode.map UInt64.toUInt32 := by
  unfold BoLine.inode
  cases isExport : line.attributes.findSome? BoAttribute.exported with
  | none =>
      have others := List.findSome?_eq_none_iff.mp isExport
      have none_ : strstr "exported as".toList line.sized = none := by
        have passed := strstr_exports [] others
        rw [List.append_nil] at passed
        rw [strstr_exported_sized, passed]
        rfl
      exact ⟨none, by rw [exportedText, none_], rfl⟩
  | some what =>
      obtain ⟨before, attr, after, isSplit, first, others⟩ :=
        List.findSome?_eq_some_iff.mp isExport
      have found : strstr "exported as".toList line.sized =
          some (exportMarker ++ (' ' :: (attr.exportText ++ after.flatMap BoAttribute.text))) := by
        rw [strstr_exported_sized, isSplit, List.flatMap_append, List.flatMap_cons,
          strstr_exports _ others, strstr_exported_some first]
      have behind : (exportMarker ++ (' ' :: (attr.exportText ++
          after.flatMap BoAttribute.text))).drop 12 =
            attr.exportText ++ after.flatMap BoAttribute.text := rfl
      have ends : StopsAt isdigit (after.flatMap BoAttribute.text) := by
        intro c isFirst
        rw [separated_attributes after c isFirst]
        rfl
      have scanned := scan_exportText first ends
      have long : ¬ (exportMarker ++ (' ' :: (attr.exportText ++
          after.flatMap BoAttribute.text))).length < 12 := by
        have length : exportMarker.length = 11 := by rfl
        rw [List.length_append, List.length_cons, length]
        omega
      have parsed : exportedText line.sized = some (some
          (((scanLiteral "ino:".toList (attr.exportText ++ after.flatMap BoAttribute.text)).bind
              scanUlong).map UInt64.toUInt32,
            (exportMarker ++ (' ' :: (attr.exportText ++ after.flatMap BoAttribute.text))).take
              (12 + ((attr.exportText ++ after.flatMap BoAttribute.text).takeWhile
                fun c => !isspace c).length))) := by
        rw [exportedText, found]
        dsimp only
        rw [if_neg long, behind]
      refine ⟨_, parsed, ?_⟩
      rw [Option.bind_some, Option.join_some, ← scanned]
      cases scanLiteral "ino:".toList (attr.exportText ++ after.flatMap BoAttribute.text) with
      | none => rfl
      | some digits =>
          dsimp only [Option.bind_some]
          cases scanUlong digits <;> rfl

theorem parseGemBo_entry
    (other : ∀ word, .flag word ∈ line.attributes → ¬ "GTT".toList <+: word.name) :
    ∃ txt, parseGemBo line.entry = some (⟨line.id, line.size.toUInt32.toNat,
      !line.attributes.any BoAttribute.isPinCount, decide (line.placement = .gtt),
      line.attributes.any BoAttribute.isCpuAccess, line.attributes.any BoAttribute.isVisible,
      line.readInode⟩, txt) := by
  obtain ⟨exported, isExported, ino⟩ := exportedText_sized line
  refine ⟨exported.map Prod.snd, ?_⟩
  have handle : (scanLiteral "0x".toList line.entry).bind sscanfHex =
      some (UInt64.ofNat line.id.toNat) := by
    have fits : line.id.toNat < 2 ^ 64 := Nat.lt_trans line.id.toNat_lt (by decide)
    have stop : ∀ rest, StopsAt isxdigit (": ".toList ++ rest) := by
      intro rest c first
      cases first
      rfl
    exact sscanfHex_printPadded (by decide) fits (stop _)
  have cursor : (line.entry.drop 11).dropWhile isspace = line.sized := by
    have blank : ∀ c ∈ List.replicate (12 - (printDec line.size.toNat).length + 1) ' ',
        isspace c = true := by
      intro c member
      rw [List.eq_of_mem_replicate member]
      rfl
    have digits : StopsAt isspace line.sized := (printDec_word _).stops _
    rw [← List.append_nil line.entry, entry_drop, List.append_nil]
    exact dropWhile_append_stop blank digits
  have number : scanUlong line.sized = some line.size := by
    rw [BoLine.sized, scanUlong_printDec line.size.toNat_lt, UInt64.ofNat_toNat]
    intro c first
    cases first
    rfl
  have long : ¬ line.entry.length < 11 := Nat.not_lt.mpr (entry_long line)
  have cpu : (strstr " CPU_ACCESS_REQUIRED".toList line.sized).isSome =
      line.attributes.any BoAttribute.isCpuAccess := by
    have passed : strstr " CPU_ACCESS_REQUIRED".toList line.sized = _ :=
      strstr_sized line (by decide)
    rw [passed]
    exact strstr_cpuAccess line.wider
  have visible : (strstr " VISIBLE".toList line.sized).isSome =
      line.attributes.any BoAttribute.isVisible := by
    have passed : strstr " VISIBLE".toList line.sized = _ := strstr_sized line (by decide)
    rw [passed]
    exact strstr_visible line.wider
  have id : (UInt64.ofNat line.id.toNat).toUInt32 = line.id := by
    refine UInt32.toNat.inj ?_
    rw [UInt64.toNat_toUInt32, UInt64.toNat_ofNat']
    have fits := line.id.toNat_lt
    omega
  unfold parseGemBo
  simp only [handle, cursor, number, isExported, Option.bind_eq_bind, Option.bind_some, if_neg long,
    cpu, visible, strstr_gtt_sized line other, ← Option.not_isSome, strstr_pinCount_sized, ino, id,
    Option.map_map]
  rfl

end Line

/-! ## The line of a process -/

section Heading
variable (process : GemProcess)

/-- The blanks in front of a command are passed over with those behind `command`. -/
def GemProcess.sentCommand : Option (List Char) :=
  let command := process.command.dropWhile isspace
  if isValidUtf8 (ascii command ++ [0]) command.length then some command else none

theorem parseApp_front (command : List Char) :
    parseApp ("pid ".toList ++ (alignRight 8 (printDec process.pid.toNat) ++
        (" command ".toList ++ command))) =
      (strchr ':' (command.dropWhile isspace)).bind fun ends =>
        some ⟨process.pid, jsonStringWithLen (command.dropWhile isspace)
          ((command.dropWhile isspace).length - ends.length), []⟩ := by
  have cursor : (("pid ".toList ++ (alignRight 8 (printDec process.pid.toNat) ++
      (" command ".toList ++ command))).drop 3).dropWhile isspace =
        printDec process.pid.toNat ++ (" command ".toList ++ command) := by
    have shape : ("pid ".toList ++ (alignRight 8 (printDec process.pid.toNat) ++
        (" command ".toList ++ command))).drop 3 =
          List.replicate (8 - (printDec process.pid.toNat).length + 1) ' ' ++
            (printDec process.pid.toNat ++ (" command ".toList ++ command)) := by
      rw [alignRight, List.replicate_succ, List.append_assoc]
      rfl
    have blank : ∀ c ∈ List.replicate (8 - (printDec process.pid.toNat).length + 1) ' ',
        isspace c = true := by
      intro c member
      rw [List.eq_of_mem_replicate member]
      rfl
    rw [shape]
    exact dropWhile_append_stop blank ((printDec_word _).stops _)
  have number : scanUlong (printDec process.pid.toNat ++ (" command ".toList ++ command)) =
      some (UInt64.ofNat process.pid.toNat) := by
    have fits : process.pid.toNat < 2 ^ 64 := Nat.lt_trans process.pid.toNat_lt (by decide)
    refine scanUlong_printDec fits ?_
    intro c first
    cases first
    rfl
  have found : strstr "command".toList (printDec process.pid.toNat ++
      (" command ".toList ++ command)) = some ("command".toList ++ (" ".toList ++ command)) := by
    have absent : 'c' ∉ printDec process.pid.toNat ++ [' '] := by
      simp [absent_printDec (by decide : isdigit 'c' = false)]
    have shape : printDec process.pid.toNat ++ (" command ".toList ++ command) =
        (printDec process.pid.toNat ++ [' ']) ++
          ("command".toList ++ (" ".toList ++ command)) := by
      rw [List.append_assoc]
      rfl
    rw [shape]
    exact strstr_behind absent
  have behind : (("command".toList ++ (" ".toList ++ command)).drop 7).dropWhile isspace =
      command.dropWhile isspace := rfl
  have pid : (UInt64.ofNat process.pid.toNat).toUInt32 = process.pid := by
    refine UInt32.toNat.inj ?_
    rw [UInt64.toNat_toUInt32, UInt64.toNat_ofNat']
    have fits := process.pid.toNat_lt
    omega
  unfold parseApp
  simp only [cursor, number, found, behind, pid, Option.bind_eq_bind, Option.bind_some]
  rfl

theorem parseApp_heading :
    parseApp process.heading = some ⟨process.pid, process.sentCommand, []⟩ := by
  have stripped : (process.command ++ [':']).dropWhile isspace =
      process.command.dropWhile isspace ++ [':'] := by
    rw [List.dropWhile_append]
    split
    · rename_i empty
      rw [List.isEmpty_iff.mp empty]
      rfl
    · rfl
  have noColon : ':' ∉ process.command.dropWhile isspace := fun member =>
    (process.plain ':' ((List.dropWhile_sublist _).subset member)).1 rfl
  rw [GemProcess.heading, parseApp_front, stripped, strchr_behind noColon, Option.bind_some]
  rw [List.length_append, Nat.add_sub_cancel, jsonStringWithLen_name (by decide)]
  rfl

/-- A command that goes on in the next line is not found. -/
theorem parseApp_cut {front : List Char} (noColon : ':' ∉ front) :
    parseApp ("pid ".toList ++ (alignRight 8 (printDec process.pid.toNat) ++
        (" command ".toList ++ front))) = none := by
  have absent : ':' ∉ front.dropWhile isspace :=
    fun member => noColon ((List.dropWhile_sublist _).subset member)
  rw [parseApp_front, strchr_none absent]
  rfl

end Heading

/-! ## The lines of the text -/

section Lines

structure Indented (item : List Char × List Char) : Prop where
  blank : ∀ c ∈ item.1, isspace c = true ∧ c ≠ '\n'
  starts : ∃ c ∈ item.2.head?, isspace c = false
  oneLine : '\n' ∉ item.2

def itemsText (items : List (List Char × List Char)) : List Char :=
  items.flatMap fun item => item.1 ++ (item.2 ++ ['\n'])

/-- There is room for the next line, as long as `max_lines` does not overflow. -/
structure LineArray.Room (array : LineArray) : Prop where
  room : array.lines.length + 1 < array.maxLines
  power : ∃ k ≤ 30, array.maxLines = 2 ^ k

theorem add_lines {array next : LineArray} {line : List Char} (added : array.add line = some next) :
    next.lines = array.lines ++ [line] := by
  obtain ⟨stored, isStored, grown⟩ := Option.bind_eq_some_iff.mp added
  unfold LineArray.store at isStored
  unfold LineArray.grow at grown
  split at isStored
  · cases isStored
    split at grown
    · cases grown
      rfl
    · split at grown
      · cases grown
      · cases grown
        rfl
  · cases isStored

theorem add_room {array : LineArray} (room : array.Room) (line : List Char)
    (few : array.lines.length + 2 < 2 ^ 30) :
    ∃ next, array.add line = some next ∧ next.lines = array.lines ++ [line] ∧ next.Room := by
  obtain ⟨lines, maxLines⟩ := array
  obtain ⟨inside, k, small, rfl⟩ := room
  dsimp only at inside few
  have stored : LineArray.store ⟨lines, 2 ^ k⟩ line = some ⟨lines ++ [line], 2 ^ k⟩ :=
    if_pos (Nat.lt_of_succ_lt inside)
  have length : (lines ++ [line]).length = lines.length + 1 := List.length_append
  by_cases fits : lines.length + 2 < 2 ^ k
  · refine ⟨⟨lines ++ [line], 2 ^ k⟩, ?_, rfl, by rw [length]; exact fits, k, small, rfl⟩
    rw [LineArray.add, stored, Option.bind_some, LineArray.grow,
      if_pos (by rw [length]; exact fits)]
  · have notLast : k < 30 := by
      refine Nat.lt_of_le_of_ne small ?_
      rintro rfl
      exact fits few
    have notFull : ¬ 2 ^ 30 ≤ 2 ^ k := Nat.not_le.mpr (Nat.pow_lt_pow_right (by decide) notLast)
    refine ⟨⟨lines ++ [line], 2 * 2 ^ k⟩, ?_, rfl, ?_, k + 1, notLast, (Nat.pow_succ').symm⟩
    · rw [LineArray.add, stored, Option.bind_some, LineArray.grow,
        if_neg (by rw [length]; exact fits), if_neg notFull]
    · dsimp only
      rw [length]
      omega

theorem add_full {array : LineArray} (room : array.Room) (line : List Char)
    (many : 2 ^ 30 ≤ array.lines.length + 2) : array.add line = none := by
  obtain ⟨lines, maxLines⟩ := array
  obtain ⟨inside, k, small, rfl⟩ := room
  dsimp only at inside many
  have stored : LineArray.store ⟨lines, 2 ^ k⟩ line = some ⟨lines ++ [line], 2 ^ k⟩ :=
    if_pos (Nat.lt_of_succ_lt inside)
  have length : (lines ++ [line]).length = lines.length + 1 := List.length_append
  have last : (2 : Nat) ^ k ≤ 2 ^ 30 := Nat.pow_le_pow_right (by decide) small
  rw [LineArray.add, stored, Option.bind_some, LineArray.grow,
    if_neg (by rw [length]; dsimp only; omega), if_pos (by dsimp only; omega)]

theorem splitLines_line {item : List Char × List Char} (indented : Indented item) (fuel : Nat)
    (rest : List Char) (array : LineArray) :
    splitLines (fuel + 1) (item.1 ++ (item.2 ++ '\n' :: rest)) array =
      (array.add item.2).bind fun grown => splitLines fuel rest grown := by
  obtain ⟨indent, body⟩ := item
  obtain ⟨blank, ⟨first, isFirst, solid⟩, oneLine⟩ := indented
  dsimp only at blank isFirst oneLine ⊢
  have noEnd : '\n' ∉ indent ++ body := by
    intro member
    rcases List.mem_append.mp member with inIndent | inBody
    · exact (blank _ inIndent).2 rfl
    · exact oneLine inBody
  have ends : strchr '\n' (indent ++ (body ++ '\n' :: rest)) = some ('\n' :: rest) := by
    rw [← List.append_assoc]
    exact strchr_behind noEnd
  have starts : StopsAt isspace (body ++ '\n' :: rest) := by
    intro c isHead
    cases body with
    | nil => cases isFirst
    | cons d body =>
        cases isHead
        cases isFirst
        exact solid
  have start : (indent ++ (body ++ '\n' :: rest)).dropWhile isspace = body ++ '\n' :: rest :=
    dropWhile_append_stop (fun c member => (blank c member).1) starts
  have copy : lineCopy (body ++ '\n' :: rest) ('\n' :: rest) = body := by
    rw [lineCopy, List.length_append, if_neg (by omega), Nat.add_sub_cancel, List.take_left]
  rw [splitLines, ends, start]
  dsimp only
  rw [copy, List.drop_one, List.tail_cons]

theorem splitLines_extends {fuel : Nat} {ptr : List Char} {array : LineArray}
    {lines : List (List Char)} (split_ : splitLines fuel ptr array = some lines) :
    array.lines <+: lines := by
  induction fuel generalizing ptr array with
  | zero => cases split_
  | succ fuel ih =>
      unfold splitLines at split_
      dsimp only at split_
      split at split_
      · split at split_
        · cases split_
          exact List.prefix_rfl
        · obtain ⟨stored, isStored, rfl⟩ := Option.map_eq_some_iff.mp split_
          unfold LineArray.store at isStored
          split at isStored
          · cases isStored
            exact List.prefix_append _ _
          · cases isStored
      · obtain ⟨grown, added, later⟩ := Option.bind_eq_some_iff.mp split_
        have extended := ih later
        rw [add_lines added] at extended
        exact (List.prefix_append _ _).trans extended

/-- What was split first stays, whatever comes behind it. -/
theorem splitLines_prefix {items : List (List Char × List Char)} {fuel : Nat} {rest : List Char}
    {array : LineArray} {lines : List (List Char)} (indented : ∀ item ∈ items, Indented item)
    (split_ : splitLines fuel (itemsText items ++ rest) array = some lines) :
    array.lines ++ items.map Prod.snd <+: lines := by
  induction items generalizing fuel array with
  | nil => simpa using splitLines_extends split_
  | cons item items ih =>
      obtain ⟨first, later⟩ := List.forall_mem_cons.mp indented
      cases fuel with
      | zero => cases split_
      | succ fuel =>
          have shape : itemsText (item :: items) ++ rest =
              item.1 ++ (item.2 ++ '\n' :: (itemsText items ++ rest)) := by
            simp [itemsText]
          rw [shape, splitLines_line first] at split_
          obtain ⟨grown, added, more⟩ := Option.bind_eq_some_iff.mp split_
          have extended := ih later more
          rw [add_lines added] at extended
          simpa using extended

theorem splitLines_items {items : List (List Char × List Char)} {fuel : Nat} {array : LineArray}
    (room : array.Room) (enough : items.length < fuel) (indented : ∀ item ∈ items, Indented item) :
    splitLines fuel (itemsText items) array =
      if array.lines.length + items.length + 1 < 2 ^ 30 then
        some (array.lines ++ items.map Prod.snd)
      else none := by
  induction items generalizing fuel array with
  | nil =>
      obtain ⟨fuel, rfl⟩ := Nat.exists_eq_add_one.mpr enough
      obtain ⟨k, small, isPower⟩ := room.power
      have last : (2 : Nat) ^ k ≤ 2 ^ 30 := Nat.pow_le_pow_right (by decide) small
      have few : array.lines.length + ([] : List (List Char × List Char)).length + 1 < 2 ^ 30 := by
        have inside := room.room
        rw [List.length_nil]
        omega
      rw [if_pos few, List.map_nil, List.append_nil]
      rfl
  | cons item items ih =>
      obtain ⟨first, later⟩ := List.forall_mem_cons.mp indented
      obtain ⟨fuel, rfl⟩ := Nat.exists_eq_add_one.mpr (Nat.lt_of_le_of_lt (Nat.zero_le _) enough)
      have shape : itemsText (item :: items) =
          item.1 ++ (item.2 ++ '\n' :: itemsText items) := by
        simp [itemsText]
      rw [shape, splitLines_line first]
      by_cases few : array.lines.length + 2 < 2 ^ 30
      · obtain ⟨next, added, lines, nextRoom⟩ := add_room room item.2 few
        have total : next.lines.length + items.length + 1 =
            array.lines.length + (item :: items).length + 1 := by
          rw [lines, List.length_append, List.length_singleton, List.length_cons]
          omega
        rw [added, Option.bind_some, ih nextRoom (Nat.lt_of_succ_lt_succ enough) later, total,
          lines]
        simp
      · rw [add_full room item.2 (Nat.not_lt.mp few), if_neg]
        · rfl
        · rw [List.length_cons]
          omega

end Lines

/-! ## The processes -/

section Processes

def GemLine.parsed (line : GemLine) : GemBo where
  handle := line.line.id
  size := line.line.size.toUInt32.toNat
  unpinned := !line.line.attributes.any BoAttribute.isPinCount
  gtt := decide (line.line.placement = .gtt)
  cpu := line.line.attributes.any BoAttribute.isCpuAccess
  visible := line.line.attributes.any BoAttribute.isVisible
  ino := line.line.readInode

def GemProcess.app (process : GemProcess) : GemApp where
  pid := process.pid
  command := process.sentCommand
  bos := process.lines.map GemLine.parsed

def GemProcess.items (process : GemProcess) : List (List Char × List Char) :=
  ([], process.heading) ::
    process.lines.map fun line => (List.replicate line.tabs '\t', line.line.entry)

theorem gemInfo_items (processes : List GemProcess) :
    gemInfo processes = itemsText (processes.flatMap GemProcess.items) := by
  have each : ∀ process : GemProcess, process.text = itemsText process.items := by
    intro process
    simp [GemProcess.text, GemProcess.items, itemsText, List.flatMap_map]
    rfl
  induction processes with
  | nil => rfl
  | cons process processes ih =>
      rw [gemInfo, List.flatMap_cons, List.flatMap_cons, itemsText, List.flatMap_append, each]
      exact congrArg _ ih

theorem length_le_itemsText (items : List (List Char × List Char)) :
    items.length ≤ (itemsText items).length := by
  induction items with
  | nil => exact Nat.le_refl _
  | cons item items ih =>
      rw [itemsText] at ih
      rw [itemsText, List.flatMap_cons, List.length_append, List.length_append, List.length_append,
        List.length_singleton, List.length_cons]
      omega

theorem length_le_lineCount (processes : List GemProcess) :
    processes.length ≤ lineCount processes := by
  induction processes with
  | nil => exact Nat.le_refl _
  | cons process processes ih =>
      rw [lineCount] at ih
      rw [lineCount, List.map_cons, List.sum_cons, List.length_cons]
      omega

theorem length_items (processes : List GemProcess) :
    (processes.flatMap GemProcess.items).length = lineCount processes := by
  rw [List.length_flatMap, lineCount]
  simp [GemProcess.items]

theorem entry_indented (line : GemLine) :
    Indented (List.replicate line.tabs '\t', line.line.entry) := by
  refine ⟨?_, ⟨'0', rfl, rfl⟩, foreign_chars.1.entry line.line⟩
  intro c member
  rw [List.eq_of_mem_replicate member]
  decide

theorem heading_indented {pid : UInt32} {command : List Char} (oneLine : '\n' ∉ command) :
    Indented ([], "pid ".toList ++ (alignRight 8 (printDec pid.toNat) ++
      (" command ".toList ++ command))) := by
  refine ⟨fun c member => absurd member List.not_mem_nil, ⟨'p', rfl, rfl⟩, ?_⟩
  have digits : '\n' ∉ printDec pid.toNat := absent_printDec (by decide) _
  simp [alignRight, digits, oneLine]

theorem items_indented {processes : List GemProcess}
    (oneLine : ∀ process ∈ processes, '\n' ∉ process.command) :
    ∀ item ∈ processes.flatMap GemProcess.items, Indented item := by
  intro item member
  obtain ⟨process, isProcess, isItem⟩ := List.mem_flatMap.mp member
  rcases List.mem_cons.mp isItem with rfl | isLine
  · refine heading_indented ?_
    have whole := oneLine process isProcess
    simp [whole]
  · obtain ⟨line, -, rfl⟩ := List.mem_map.mp isLine
    exact entry_indented line

def NextProcess (tail : List (List Char)) : Prop := ∀ line ∈ tail.head?, "pid".toList <+: line

theorem appBos_lines (lines : List GemLine) {tail : List (List Char)} (next : NextProcess tail)
    (state : AppState) :
    appBos [] (lines.map (fun line => line.line.entry) ++ tail) state =
      some ({ state.app with bos := state.app.bos ++ lines.map GemLine.parsed }, tail) := by
  induction lines generalizing state with
  | nil =>
      rw [List.map_nil, List.map_nil, List.nil_append, List.append_nil]
      cases tail with
      | nil => rfl
      | cons line tail => exact if_pos (next line rfl)
  | cons line lines ih =>
      obtain ⟨txt, isBo⟩ := parseGemBo_entry line.line line.other
      have noPid : ¬ "pid".toList <+: line.line.entry := by
        refine not_prefix_head ?_
        intro d first
        cases first
        decide
      have kept : ∀ state : AppState, state.override [] txt = state := by
        intro state
        cases txt with
        | none => rfl
        | some txt => simp [AppState.override]
      rw [List.map_cons, List.cons_append, appBos, if_neg noPid, isBo]
      change appBos [] _ (AppState.override [] _ txt) = _
      rw [kept, ih]
      simp [AppState.addBo, GemLine.parsed]

theorem heading_pid (process : GemProcess) : "pid".toList <+: process.heading := ⟨_, rfl⟩

theorem parseApps_processes {processes : List GemProcess} {tail : List (List Char)}
    (next : NextProcess tail) (fuel : Nat) (apps : List GemApp) :
    parseApps [] (processes.length + (fuel + 1))
        ((processes.flatMap GemProcess.items).map Prod.snd ++ tail) apps =
      parseApps [] (fuel + 1) tail (apps ++ processes.map GemProcess.app) := by
  induction processes generalizing apps with
  | nil => simp
  | cons process processes ih =>
      have nextHere : NextProcess ((processes.flatMap GemProcess.items).map Prod.snd ++ tail) := by
        cases processes with
        | nil => exact next
        | cons other processes =>
            intro line first
            cases first
            exact heading_pid other
      have shape : ((process :: processes).flatMap GemProcess.items).map Prod.snd ++ tail =
          process.heading :: (process.lines.map (fun line => line.line.entry) ++
            ((processes.flatMap GemProcess.items).map Prod.snd ++ tail)) := by
        simp [GemProcess.items]
      have turns : (process :: processes).length + (fuel + 1) =
          processes.length + (fuel + 1) + 1 := by
        rw [List.length_cons]
        omega
      rw [shape, turns, parseApps, if_pos (heading_pid process), parseApp_heading]
      simp only [Option.bind_eq_bind, Option.bind_some, appBos_lines process.lines nextHere]
      rw [ih]
      simp [GemProcess.app]

theorem sentCommand_iff (process : GemProcess) :
    process.sentCommand = some process.command ↔
      (∀ c ∈ process.command.head?, isspace c = false) ∧
        isValidUtf8 (ascii process.command ++ [0]) process.command.length = true := by
  unfold GemProcess.sentCommand
  constructor
  · intro sent
    dsimp only at sent
    split at sent
    · rename_i utf8
      have same := Option.some.inj sent
      rw [same] at utf8
      refine ⟨?_, utf8⟩
      intro c first
      cases isCommand : process.command with
      | nil =>
          rw [isCommand] at first
          cases first
      | cons d more =>
          rw [isCommand] at first same
          have isFirst := Option.some.inj first
          cases blank : isspace d with
          | false => rw [← isFirst, blank]
          | true =>
              have shorter := (List.dropWhile_sublist (l := more) isspace).length_le
              rw [List.dropWhile_cons_of_pos blank] at same
              rw [same, List.length_cons] at shorter
              omega
    · cases sent
  · rintro ⟨starts, utf8⟩
    have none_ : ∀ c ∈ ([] : List Char), isspace c = true :=
      fun c member => absurd member List.not_mem_nil
    have same : process.command.dropWhile isspace = process.command :=
      dropWhile_append_stop none_ starts
    dsimp only
    rw [same, if_pos utf8]

theorem boRight_iff (line : GemLine) :
    BoRight line line.parsed ↔ line.line.size.toNat < 2 ^ 32 ∧ line.line.ShortInode := by
  have low : line.line.size.toUInt32.toNat = line.line.size.toNat % 2 ^ 32 :=
    UInt64.toNat_toUInt32 _
  constructor
  · intro right
    have size : line.line.size.toUInt32.toNat = line.line.size.toNat := right.size
    refine ⟨?_, (readInode_iff line.line).mp right.ino⟩
    rw [← size]
    exact UInt32.toNat_lt _
  · rintro ⟨small, inode⟩
    exact ⟨rfl, low.trans (Nat.mod_eq_of_lt small), rfl, rfl, rfl, rfl,
      (readInode_iff line.line).mpr inode⟩

theorem bosRight_iff (lines : List GemLine) :
    List.Forall₂ BoRight lines (lines.map GemLine.parsed) ↔
      (∀ line ∈ lines, line.line.size.toNat < 2 ^ 32) ∧ ∀ line ∈ lines, line.line.ShortInode := by
  rw [List.forall₂_map_right_iff, List.forall₂_same, ← forall₂_and]
  exact forall₂_congr fun line _ => boRight_iff line

theorem appRight_iff {process : GemProcess} (oneLine : '\n' ∉ process.command) :
    AppRight process process.app ↔ process.Readable := by
  constructor
  · rintro ⟨-, command, bos⟩
    obtain ⟨starts, utf8⟩ := (sentCommand_iff process).mp command
    obtain ⟨sizes, inodes⟩ := (bosRight_iff process.lines).mp bos
    exact ⟨oneLine, starts, utf8, sizes, inodes⟩
  · rintro ⟨-, starts, utf8, sizes, inodes⟩
    exact ⟨rfl, (sentCommand_iff process).mpr ⟨starts, utf8⟩,
      (bosRight_iff process.lines).mpr ⟨sizes, inodes⟩⟩

/-- A command that is not in one line ends in an access through `NULL`. -/
theorem oneLine_of_parsed {processes : List GemProcess} {result : Option (List GemApp)}
    (parsed : parseGemInfo [] (gemInfo processes) = some result) :
    ∀ process ∈ processes, '\n' ∉ process.command := by
  obtain ⟨lines, isSplit, ran⟩ := Option.bind_eq_some_iff.mp parsed
  cases firstCut : processes.find? fun process => decide ('\n' ∈ process.command) with
  | none =>
      intro process member
      exact of_decide_eq_false (Bool.not_eq_true _ ▸ List.find?_eq_none.mp firstCut process member)
  | some cut =>
      exfalso
      obtain ⟨isCut, whole, more, isProcesses, isWhole⟩ :=
        List.find?_eq_some_iff_append.mp firstCut
      have oneLine : ∀ process ∈ whole, '\n' ∉ process.command := by
        intro process member
        simpa using isWhole process member
      obtain ⟨front, behind, isCommand, noEnd⟩ :=
        List.eq_append_cons_of_mem (of_decide_eq_true isCut)
      have noColon : ':' ∉ front := by
        intro member
        refine (cut.plain ':' ?_).1 rfl
        rw [isCommand]
        exact List.mem_append_left _ member
      let cutLine := "pid ".toList ++ (alignRight 8 (printDec cut.pid.toNat) ++
        (" command ".toList ++ front))
      let rest := behind ++ ':' :: '\n' :: (cut.lines.flatMap GemLine.text ++ gemInfo more)
      have text : gemInfo processes =
          itemsText (whole.flatMap GemProcess.items ++ [([], cutLine)]) ++ rest := by
        have front_ : gemInfo whole = itemsText (whole.flatMap GemProcess.items) :=
          gemInfo_items whole
        rw [isProcesses, itemsText, List.flatMap_append]
        change gemInfo (whole ++ cut :: more) = itemsText (whole.flatMap GemProcess.items) ++ _ ++ _
        rw [← front_]
        simp [gemInfo, GemProcess.text, GemProcess.heading, isCommand, cutLine, rest]
      have indented : ∀ item ∈ whole.flatMap GemProcess.items ++ [([], cutLine)], Indented item :=
        List.forall_mem_append.mpr ⟨items_indented oneLine,
          List.forall_mem_singleton.mpr (heading_indented noEnd)⟩
      rw [text] at isSplit
      obtain ⟨others, isLines⟩ := splitLines_prefix indented isSplit
      have shape : lines = (whole.flatMap GemProcess.items).map Prod.snd ++ cutLine :: others := by
        rw [← isLines]
        simp
      have next : NextProcess (cutLine :: others) := by
        intro line first
        cases first
        exact ⟨_, rfl⟩
      obtain ⟨fuel, turns⟩ : ∃ fuel, lines.length + 1 = whole.length + (fuel + 1) := by
        refine ⟨lines.length - whole.length, ?_⟩
        have enough := length_le_lineCount whole
        have length := congrArg List.length shape
        rw [List.length_append, List.length_map, length_items, List.length_cons] at length
        omega
      rw [turns, shape, parseApps_processes next, parseApps, if_pos (next cutLine rfl),
        parseApp_cut cut noColon] at ran
      cases ran

theorem parseGemInfo_processes {processes : List GemProcess}
    (oneLine : ∀ process ∈ processes, '\n' ∉ process.command) :
    parseGemInfo [] (gemInfo processes) =
      if lineCount processes + 1 < 2 ^ 30 then some (some (processes.map GemProcess.app))
      else none := by
  have room : LineArray.Room ⟨[], 128⟩ := ⟨by decide, 7, by decide, rfl⟩
  have enough : (processes.flatMap GemProcess.items).length < (gemInfo processes).length + 1 := by
    rw [gemInfo_items]
    exact Nat.lt_succ_of_le (length_le_itemsText _)
  have split_ := splitLines_items room enough (items_indented oneLine)
  rw [length_items, ← gemInfo_items] at split_
  rw [parseGemInfo, split_]
  dsimp only
  rw [List.length_nil, Nat.zero_add, List.nil_append]
  split
  · obtain ⟨fuel, turns⟩ : ∃ fuel, ((processes.flatMap GemProcess.items).map Prod.snd).length + 1 =
        processes.length + (fuel + 1) := by
      have enough := length_le_lineCount processes
      rw [List.length_map, length_items]
      exact ⟨lineCount processes - processes.length, by omega⟩
    have next : NextProcess [] := fun line first => absurd first (Option.not_mem_none line)
    have ran : parseApps [] (processes.length + (fuel + 1))
        ((processes.flatMap GemProcess.items).map Prod.snd ++ []) [] = _ :=
      parseApps_processes next fuel []
    rw [List.append_nil, List.nil_append, ← turns] at ran
    exact ran
  · rfl

theorem gemInfo_right_iff (processes : List GemProcess) :
    (∃ apps, parseGemInfo [] (gemInfo processes) = some (some apps) ∧
        List.Forall₂ AppRight processes apps) ↔
      (∀ process ∈ processes, process.Readable) ∧ lineCount processes + 1 < 2 ^ 30 := by
  constructor
  · rintro ⟨apps, parsed, right⟩
    have oneLine := oneLine_of_parsed parsed
    rw [parseGemInfo_processes oneLine] at parsed
    split at parsed
    · rename_i few
      cases parsed
      refine ⟨?_, few⟩
      rw [List.forall₂_map_right_iff, List.forall₂_same] at right
      exact fun process member => (appRight_iff (oneLine process member)).mp (right process member)
    · cases parsed
  · rintro ⟨readable, few⟩
    have oneLine := fun process member => (readable process member).oneLine
    refine ⟨processes.map GemProcess.app, ?_, ?_⟩
    · rw [parseGemInfo_processes oneLine, if_pos few]
    · rw [List.forall₂_map_right_iff, List.forall₂_same]
      intro process member
      exact (appRight_iff (oneLine process member)).mpr (readable process member)

def hugeProcess : GemProcess where
  pid := 44961
  command := "Xwayland".toList
  plain := by
    have each : "Xwayland".toList.all (fun c => c ≠ ':' ∧ c ≠ nul) = true := by decide
    exact fun c member => of_decide_eq_true (List.all_eq_true.mp each c member)
  lines := [⟨2, ⟨1, 0x100000000, 0, .vram, []⟩, fun word member => absurd member List.not_mem_nil⟩]

theorem hugeBuffer_cut : (parseGemInfo [] (gemInfo [hugeProcess])).map (Option.map fun apps =>
    apps.map fun app => app.bos.map GemBo.size) = some (some [[0]]) := by
  decide +kernel

theorem hugeBuffer_wrong : ¬ ∃ apps, parseGemInfo [] (gemInfo [hugeProcess]) = some (some apps) ∧
    List.Forall₂ AppRight [hugeProcess] apps := by
  rintro ⟨apps, parsed, right⟩
  have cut := hugeBuffer_cut
  rw [parsed] at cut
  cases right with
  | @cons _ app _ _ first none_ =>
      cases none_
      have sizes : app.bos.map GemBo.size = [0] :=
        (List.cons.inj (Option.some.inj (Option.some.inj cut))).1
      have listed := first.bos
      generalize app.bos = bos at sizes listed
      cases listed with
      | @cons _ bo _ _ right _ =>
          have zero : bo.size = 0 := (List.cons.inj sizes).1
          have whole : bo.size = 0x100000000 := right.size
          rw [zero] at whole
          cases whole

end Processes
end Umr.Gui
