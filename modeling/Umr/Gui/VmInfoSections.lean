import Umr.Gui.VmInfoRead

/-!
# Sections of buffers

The whole text of the kernel read by `parse_vm_info`: section by section, and
when it is read as it is meant.
-/

set_option autoImplicit false

namespace Umr.Gui

open Umr.Lib Umr.Registers Umr.Gui.Trace

/-! ## The categories of a section -/

section Categories

structure IsCategory (category : List Char) : Prop where
  nonempty : category ≠ []
  noTab : '\t' ∉ category
  oneLine : '\n' ∉ category
  noHex : 'x' ∉ category

theorem categories_known : ∀ category ∈ categories, IsCategory category := by
  intro category member
  have known : category = "Idle".toList ∨ category = "Evicted".toList ∨
      category = "Relocated".toList ∨ category = "Moved".toList ∨
      category = "Invalidated".toList ∨ category = "Done".toList := by
    simpa [categories] using member
  rcases known with rfl | rfl | rfl | rfl | rfl | rfl <;>
    exact ⟨by decide, by decide, by decide, by decide⟩

theorem listText_eq (category : List Char) (lines : List BoLine) (rest : List Char) :
    listText category lines ++ rest =
      ('\t' :: (category ++ " BOs:".toList)) ++ '\n' :: (lines.flatMap BoLine.text ++ rest) := by
  have label : " BOs:\n".toList = " BOs:".toList ++ ['\n'] := by rfl
  rw [listText, label]
  simp

theorem listText_plain {category : List Char} (known : IsCategory category) (lines : List BoLine)
    (rest : List Char) : PlainLine (listText category lines ++ rest) := by
  refine ⟨_, _, listText_eq category lines rest, ?_, ?_⟩
  · intro member
    rcases List.mem_cons.mp member with same | inside
    · cases same
    · exact (List.mem_append.mp inside).elim known.oneLine (fun label => absurd label (by decide))
  · intro member
    rcases List.mem_cons.mp member with same | inside
    · cases same
    · exact (List.mem_append.mp inside).elim known.noHex (fun label => absurd label (by decide))

theorem length_le_lines (lines : List BoLine) :
    lines.length ≤ (lines.flatMap BoLine.text).length := by
  induction lines with
  | nil => exact Nat.le_refl 0
  | cons line lines ih =>
      have some_ : 0 < line.text.length := Nat.succ_pos _
      rw [List.flatMap_cons, List.length_append, List.length_cons]
      omega

/-- A category depends only on where its name is found. -/
theorem categoryBos_congr {category : List Char} {more : List (List Char)} {ptr other : List Char}
    (same : strstr category ptr = strstr category other) :
    categoryBos (category :: more) ptr = categoryBos (category :: more) other := by
  rw [categoryBos, categoryBos, same]

theorem categoryBos_found {category : List Char} {more : List (List Char)}
    {ptr found nextLine rest : List Char} {bos : List (Bo × UInt64)}
    (isFound : strstr category ptr = some found) (isNext : strchr '\n' found = some nextLine)
    (read : boLines nextLine.length (nextLine.drop 1) = some (bos, rest)) :
    categoryBos (category :: more) ptr =
      (categoryBos more rest).map fun later => (bos ++ later.1, later.2) := by
  rw [categoryBos, isFound]
  change (strchr '\n' found >>= _) = _
  rw [isNext]
  change (boLines nextLine.length (nextLine.drop 1) >>= _) = _
  rw [read]
  change ((categoryBos more rest).bind fun later => some (bos ++ later.1, later.2)) = _
  cases categoryBos more rest <;> rfl

def parsedLine (line : BoLine) : Bo × UInt64 := (line.parsed, line.size)

theorem categoryBos_list {category : List Char} (known : IsCategory category)
    (more : List (List Char)) (lines : List BoLine) {rest : List Char} (plain : PlainLine rest) :
    categoryBos (category :: more) (listText category lines ++ rest) =
      (categoryBos more rest).map fun later => (lines.map parsedLine ++ later.1, later.2) := by
  have found : strstr category (listText category lines ++ rest) =
      some (category ++ (" BOs:".toList ++ '\n' :: (lines.flatMap BoLine.text ++ rest))) := by
    have shape : listText category lines ++ rest = [] ++ '\t' ::
        (category ++ (" BOs:".toList ++ '\n' :: (lines.flatMap BoLine.text ++ rest))) := by
      rw [listText_eq]
      simp
    have empty : ¬ category <:+: [] := fun inside => known.nonempty (List.infix_nil.mp inside)
    rw [shape, strstr_skip empty known.noTab, strstr_here]
  have next : strchr '\n' (category ++ (" BOs:".toList ++ '\n' ::
      (lines.flatMap BoLine.text ++ rest))) = some ('\n' :: (lines.flatMap BoLine.text ++ rest)) := by
    rw [← List.append_assoc]
    refine strchr_behind fun member => ?_
    exact (List.mem_append.mp member).elim known.oneLine (fun label => absurd label (by decide))
  refine categoryBos_found found next ?_
  refine boLines_lines ?_ plain
  have few := length_le_lines lines
  rw [List.length_cons, List.length_append]
  omega

/-- All lists are read, each behind the name of its category. -/
theorem categoryBos_lists {names : List (List Char)} {lists : List (List BoLine)}
    (known : ∀ category ∈ names, IsCategory category) (same : names.length = lists.length)
    {rest : List Char} (plain : PlainLine rest) :
    categoryBos names ((List.zipWith listText names lists).flatten ++ rest) =
      some (lists.flatten.map parsedLine, rest) ∧
    PlainLine ((List.zipWith listText names lists).flatten ++ rest) := by
  induction names generalizing lists with
  | nil =>
      cases List.length_eq_zero_iff.mp same.symm
      exact ⟨rfl, plain⟩
  | cons category names ih =>
      cases lists with
      | nil => cases same
      | cons lines lists =>
          obtain ⟨first, later⟩ := List.forall_mem_cons.mp known
          obtain ⟨read, plainLater⟩ := ih later (Nat.succ.inj same)
          rw [List.zipWith_cons_cons, List.flatten_cons, List.append_assoc]
          refine ⟨?_, listText_plain first lines _⟩
          rw [categoryBos_list first names lines plainLater, read, Option.map_some,
            List.flatten_cons, List.map_append]

/-! ## The first category -/

def VmSection.behindLine (sec : VmSection) : List Char :=
  ((sec.command ++ " ----------".toList).dropWhile (· ≠ ' ')).drop 1

def VmSection.listsText (sec : VmSection) : List Char :=
  (List.zipWith listText categories sec.lists).flatten

/-- The first list is passed over. -/
def VmSection.Hidden (sec : VmSection) : Prop := "Idle".toList <:+: sec.behindBlank

instance (sec : VmSection) : Decidable sec.Hidden := by
  unfold VmSection.Hidden
  infer_instance

def VmSection.seen (sec : VmSection) : List BoLine :=
  if sec.Hidden then sec.lists.tail.flatten else sec.lines

theorem behindLine_oneLine (sec : VmSection) : '\n' ∉ sec.behindLine := by
  intro member
  have inside := (List.dropWhile_suffix _).subset (List.mem_of_mem_drop member)
  rcases List.mem_append.mp inside with command | dashes
  · exact sec.oneLine command
  · exact absurd dashes (by decide)

theorem behindLine_cases (sec : VmSection) :
    (sec.behindLine = sec.behindBlank ++ " ----------".toList) ∨
      (sec.behindLine = "----------".toList ∧ sec.behindBlank = []) := by
  unfold VmSection.behindLine VmSection.behindBlank
  rw [List.dropWhile_append]
  cases isBehind : sec.command.dropWhile (· ≠ ' ') with
  | nil => exact .inr ⟨rfl, rfl⟩
  | cons blank behind => exact .inl rfl

/-- In a line whose command does not hide the first list, its name is not found. -/
theorem strstr_shown {sec : VmSection} (shown : ¬ sec.Hidden) (rest : List Char) :
    strstr "Idle".toList (sec.behindLine ++ '\n' :: rest) = strstr "Idle".toList rest := by
  have dashes : ¬ "Idle".toList <:+: "----------".toList := by decide
  rcases behindLine_cases sec with behind | ⟨behind, -⟩
  · have blank : " ----------".toList = ' ' :: "----------".toList := by rfl
    rw [behind, blank, List.append_assoc, List.cons_append, strstr_skip shown (by decide),
      strstr_skip dashes (by decide)]
  · rw [behind, strstr_skip dashes (by decide)]

theorem strstr_evicted (lines : List BoLine) (rest : List Char) :
    strstr "Evicted".toList (listText "Idle".toList lines ++ rest) =
      strstr "Evicted".toList rest := by
  have header : ¬ "Evicted".toList <:+: '\t' :: ("Idle".toList ++ " BOs:".toList) := by decide
  rw [listText_eq, strstr_skip header (by decide)]
  induction lines with
  | nil => rfl
  | cons line lines ih =>
      have free : ¬ "Evicted".toList <:+: "\t\t".toList ++ line.entry := fun inside =>
        foreign_chars.2.text line (inside.subset (by decide))
      have shape : (line :: lines).flatMap BoLine.text ++ rest =
          ("\t\t".toList ++ line.entry) ++ '\n' :: (lines.flatMap BoLine.text ++ rest) := by
        rw [List.flatMap_cons, BoLine.text]
        simp
      rw [shape, strstr_skip free (by decide), ih]

theorem categoryBos_section (sec : VmSection) {rest : List Char} (plain : PlainLine rest) :
    categoryBos categories (sec.behindLine ++ '\n' :: (sec.listsText ++ rest)) =
      some (sec.seen.map parsedLine, rest) := by
  obtain ⟨all, plainLists⟩ := @categoryBos_lists categories sec.lists categories_known rfl rest plain
  by_cases hidden : sec.Hidden
  · have inside : "Idle".toList <:+: sec.behindLine := by
      rcases behindLine_cases sec with behind | ⟨-, none_⟩
      · rw [behind]
        exact hidden.trans (List.prefix_append _ _).isInfix
      · have empty : "Idle".toList <:+: [] := none_ ▸ hidden
        exact absurd empty (by decide)
    obtain ⟨found, isFound, isSuffix⟩ := strstr_within inside ('\n' :: (sec.listsText ++ rest))
    have oneLine : '\n' ∉ found := fun member =>
      behindLine_oneLine sec (isSuffix.subset member)
    have later := (@categoryBos_lists categories.tail sec.lists.tail
      (fun category member => categories_known category (List.mem_of_mem_tail member)) rfl rest
      plain).1
    have split : sec.listsText ++ rest = listText "Idle".toList sec.idle ++
        ((List.zipWith listText categories.tail sec.lists.tail).flatten ++ rest) := by
      rw [← List.append_assoc]
      rfl
    have skipped : categoryBos categories.tail (sec.listsText ++ rest) =
        categoryBos categories.tail
          ((List.zipWith listText categories.tail sec.lists.tail).flatten ++ rest) := by
      rw [split]
      exact categoryBos_congr (strstr_evicted sec.idle _)
    have nextRead : boLines ('\n' :: (sec.listsText ++ rest)).length
        (('\n' :: (sec.listsText ++ rest)).drop 1) = some ([], sec.listsText ++ rest) :=
      boLines_end plainLists _
    refine (@categoryBos_found _ categories.tail _ _ _ _ _ isFound (strchr_behind oneLine)
      nextRead).trans ?_
    rw [skipped, later, Option.map_some, List.nil_append, VmSection.seen, if_pos hidden]
  · refine (categoryBos_congr (strstr_shown hidden _)).trans ?_
    rw [VmSection.seen, if_neg hidden]
    exact all

end Categories

/-! ## One section -/

section Sections
variable (comm : UInt32 → Option (List Char))

theorem strchr_split {c : Char} (text rest : List Char) :
    strchr c (text ++ c :: rest) = some ((text ++ c :: rest).dropWhile (· ≠ c)) := by
  have parts := List.takeWhile_append_dropWhile (p := fun d => decide (d ≠ c)) (l := text ++ c :: rest)
  have free : c ∉ (text ++ c :: rest).takeWhile (· ≠ c) := by
    intro member
    have apart := List.mem_takeWhile_imp member
    exact of_decide_eq_true apart rfl
  cases isBehind : (text ++ c :: rest).dropWhile (· ≠ c) with
  | nil =>
      have all := List.dropWhile_eq_nil_iff.mp isBehind c (by simp)
      exact absurd rfl (of_decide_eq_true all)
  | cons d behind =>
      have same : d = c := by
        have first := List.head?_dropWhile_not (fun d => decide (d ≠ c)) (text ++ c :: rest)
        rw [isBehind] at first
        simpa using first
      rw [isBehind, same] at parts
      rw [← parts, same]
      exact strchr_behind free

def VmSection.totalsText (sec : VmSection) : List Char :=
  (List.zipWith totalText totalLabels sec.lists).flatten

theorem totalText_absent {c : Char} {label : List Char} (noLabel : c ∉ label)
    (noDigit : isdigit c = false) (fixed : c ∉ " \tobjs:\t".toList) (lines : List BoLine) :
    c ∉ label ++ (alignRight 12 (printDec (sizeSum lines)) ++ ("\tobjs:\t".toList ++
      printDec lines.length)) := by
  have objs : c ∉ "\tobjs:\t".toList := fun member =>
    fixed ((show "\tobjs:\t".toList ⊆ " \tobjs:\t".toList by decide) member)
  have blanks : ∀ count, c ∉ List.replicate count ' ' := fun count member =>
    fixed (by rw [List.eq_of_mem_replicate member]; decide)
  unfold alignRight
  simp only [List.mem_append, not_or]
  exact ⟨noLabel, ⟨blanks _, absent_printDec noDigit _⟩, objs, absent_printDec noDigit _⟩

theorem totalText_eq (label : List Char) (lines : List BoLine) (rest : List Char) :
    totalText label lines ++ rest = (label ++ (alignRight 12 (printDec (sizeSum lines)) ++
      ("\tobjs:\t".toList ++ printDec lines.length))) ++ '\n' :: rest := by
  rw [totalText]
  simp

theorem totalLabels_known : ∀ label ∈ totalLabels, '\n' ∉ label ∧ 'x' ∉ label ∧ 'p' ∉ label := by
  have all : totalLabels.all (fun label => decide ('\n' ∉ label ∧ 'x' ∉ label ∧ 'p' ∉ label)) = true := by
    decide
  intro label member
  exact of_decide_eq_true (List.all_eq_true.mp all label member)

theorem totalsText_plain (sec : VmSection) (rest : List Char) : PlainLine (sec.totalsText ++ rest) := by
  obtain ⟨oneLine, noHex, -⟩ := totalLabels_known _ List.mem_cons_self
  refine ⟨_, (List.zipWith totalText totalLabels.tail sec.lists.tail).flatten ++ rest, ?_,
    totalText_absent oneLine (by decide) (by decide) sec.idle,
    totalText_absent noHex (by decide) (by decide) sec.idle⟩
  rw [← totalText_eq, ← List.append_assoc]
  rfl

theorem totals_noPid {labels : List (List Char)} (known : ∀ label ∈ labels, 'p' ∉ label)
    (lists : List (List BoLine)) : 'p' ∉ (List.zipWith totalText labels lists).flatten := by
  induction labels generalizing lists with
  | nil => exact List.not_mem_nil
  | cons label labels ih =>
      cases lists with
      | nil => exact List.not_mem_nil
      | cons lines lists =>
          obtain ⟨first, later⟩ := List.forall_mem_cons.mp known
          have one := totalText_absent first (by decide) (by decide) lines
          rw [List.zipWith_cons_cons, List.flatten_cons, ← List.append_nil (totalText label lines),
            totalText_eq]
          intro member
          rcases List.mem_append.mp member with inside | inside
          · rcases List.mem_append.mp inside with text | newline
            · exact one text
            · exact absurd newline (by decide)
          · exact ih later lists inside

structure ParsedAs (sec : VmSection) (fd : Fd) : Prop where
  bos : fd.bos = sec.seen.map BoLine.parsed
  total : fd.total = toDouble (sizeSum sec.seen % 2 ^ 64)

theorem toNat_sum_sizes (lines : List BoLine) :
    ((lines.map parsedLine).map Prod.snd).sum.toNat = sizeSum lines % 2 ^ 64 := by
  induction lines with
  | nil => rfl
  | cons line lines ih =>
      have sum : sizeSum (line :: lines) = line.size.toNat + sizeSum lines := List.sum_cons
      rw [List.map_cons, List.map_cons, List.sum_cons, UInt64.toNat_add, ih, Nat.add_mod_mod, sum]
      rfl

theorem parsedAs_sums (sec : VmSection) (command : Option (List Char)) :
    ParsedAs sec ⟨command, (sec.seen.map parsedLine).map Prod.fst,
      toDouble ((sec.seen.map parsedLine).map Prod.snd).sum.toNat⟩ := by
  refine ⟨?_, ?_⟩
  · rw [List.map_map]
    rfl
  · rw [toNat_sum_sizes]

theorem parseFd_found {ptr nextSpace rest : List Char} {bos : List (Bo × UInt64)}
    (isNext : strchr ' ' ptr = some nextSpace)
    (read : categoryBos categories (nextSpace.drop 1) = some (bos, rest)) :
    parseFd ptr = some (⟨jsonStringWithLen ptr (ptr.length - nextSpace.length), bos.map Prod.fst,
      toDouble (bos.map Prod.snd).sum.toNat⟩, rest) := by
  rw [parseFd, isNext]
  change (categoryBos categories (nextSpace.drop 1) >>= _) = _
  rw [read]
  rfl

theorem parseFd_section (sec : VmSection) (rest : List Char) :
    ∃ fd, ParsedAs sec fd ∧
      parseFd (sec.command ++ (" ----------\n".toList ++ (sec.listsText ++ (sec.totalsText ++ rest)))) =
        some (fd, sec.totalsText ++ rest) := by
  generalize isTail : sec.listsText ++ (sec.totalsText ++ rest) = tail
  have blank : " ----------\n".toList ++ tail = ' ' :: ("----------".toList ++ '\n' :: tail) := by rfl
  have nextSpace : strchr ' ' (sec.command ++ (" ----------\n".toList ++ tail)) =
      some (' ' :: (sec.behindLine ++ '\n' :: tail)) := by
    rw [blank, strchr_split]
    unfold VmSection.behindLine
    have dashes : " ----------".toList = ' ' :: "----------".toList := by rfl
    rw [List.dropWhile_append, List.dropWhile_append, dashes]
    cases isBehind : sec.command.dropWhile (· ≠ ' ') with
    | nil => rfl
    | cons c behind =>
        have same : c = ' ' := by
          have first := List.head?_dropWhile_not (fun d => decide (d ≠ ' ')) sec.command
          rw [isBehind] at first
          simpa using first
        rw [same]
        simp
  have read := categoryBos_section sec (totalsText_plain sec rest)
  rw [isTail] at read
  exact ⟨_, parsedAs_sums sec _, parseFd_found nextSpace read⟩

end Sections

end Umr.Gui
