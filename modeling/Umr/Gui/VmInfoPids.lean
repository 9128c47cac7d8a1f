import Umr.Gui.VmInfoSections

/-!
# Processes and their sections

The sections of a whole text, grouped by their pid, and when `parse_vm_info`
returns what the text says.
-/

set_option autoImplicit false

namespace Umr.Gui

open Umr.Lib Umr.Registers Umr.Gui.Trace

section Pids
variable (comm : UInt32 → Option (List Char))

/-! ## Grouping -/

/-- One entry for each key, with what came under it in order. -/
structure Grouped (pairs : List (UInt32 × Fd)) (pids : List PidEntry) : Prop where
  keys : pids.map PidEntry.pid = (pairs.map Prod.fst).eraseDups
  nodup : (pids.map PidEntry.pid).Nodup
  fds : ∀ p ∈ pids, p.fds = (pairs.filter fun pair => pair.1 = p.pid).map Prod.snd

theorem addFd_keys (pid : UInt32) (fd : Fd) (pids : List PidEntry) :
    (addFd comm pid fd pids).map PidEntry.pid =
      if pid ∈ pids.map PidEntry.pid then pids.map PidEntry.pid
      else pids.map PidEntry.pid ++ [pid] := by
  induction pids with
  | nil => rfl
  | cons p pids ih =>
      unfold addFd
      by_cases same : p.pid = pid
      · rw [if_pos same, if_pos (by rw [List.map_cons, same]; exact List.mem_cons_self)]
        rfl
      · rw [if_neg same, List.map_cons, ih]
        have apart : pid ∈ (p :: pids).map PidEntry.pid ↔ pid ∈ pids.map PidEntry.pid := by
          rw [List.map_cons, List.mem_cons]
          exact or_iff_right (Ne.symm same)
        by_cases known : pid ∈ pids.map PidEntry.pid
        · rw [if_pos known, if_pos (apart.mpr known)]
          rfl
        · rw [if_neg known, if_neg (mt apart.mp known)]
          rfl

/-- An entry keeps its buffers, and the one of the pid has the new ones behind them. -/
theorem addFd_fds {pid : UInt32} {fd : Fd} {pids : List PidEntry} {held : UInt32 → List Fd}
    (nodup : (pids.map PidEntry.pid).Nodup) (isHeld : ∀ p ∈ pids, p.fds = held p.pid)
    (fresh : pid ∉ pids.map PidEntry.pid → held pid = []) :
    ∀ p ∈ addFd comm pid fd pids,
      p.fds = if p.pid = pid then held p.pid ++ [fd] else held p.pid := by
  induction pids with
  | nil =>
      intro p member
      cases List.mem_singleton.mp member
      rw [if_pos rfl, fresh List.not_mem_nil]
      rfl
  | cons q pids ih =>
      obtain ⟨first, later⟩ := List.forall_mem_cons.mp isHeld
      obtain ⟨alone, nodupLater⟩ := List.nodup_cons.mp nodup
      intro p member
      unfold addFd at member
      by_cases same : q.pid = pid
      · rw [if_pos same] at member
        rcases List.mem_cons.mp member with rfl | inside
        · rw [if_pos same, first]
        · have apart : p.pid ≠ pid := fun isPid =>
            alone (by rw [same, ← isPid]; exact List.mem_map_of_mem inside)
          rw [if_neg apart, later p inside]
      · rw [if_neg same] at member
        rcases List.mem_cons.mp member with rfl | inside
        · rw [if_neg same, first]
        · refine ih nodupLater later (fun new => fresh ?_) p inside
          rw [List.map_cons, List.mem_cons]
          exact not_or.mpr ⟨Ne.symm same, new⟩

theorem Grouped.add {pairs : List (UInt32 × Fd)} {pids : List PidEntry}
    (grouped : Grouped pairs pids) (pid : UInt32) (fd : Fd) :
    Grouped (pairs ++ [(pid, fd)]) (addFd comm pid fd pids) := by
  obtain ⟨keys, nodup, fds⟩ := grouped
  have known : pid ∈ pids.map PidEntry.pid ↔ pid ∈ pairs.map Prod.fst := by
    rw [keys, List.mem_eraseDups]
  refine ⟨?_, ?_, ?_⟩
  · rw [addFd_keys, List.map_append, List.eraseDups_append, ← keys]
    by_cases old : pid ∈ pids.map PidEntry.pid
    · rw [if_pos old]
      simp [List.removeAll, known.mp old]
    · rw [if_neg old]
      simp [List.removeAll, mt known.mpr old, List.eraseDups_cons]
  · rw [addFd_keys]
    by_cases old : pid ∈ pids.map PidEntry.pid
    · rw [if_pos old]
      exact nodup
    · rw [if_neg old]
      exact List.nodup_append_comm.mp (List.nodup_cons.mpr ⟨old, nodup⟩)
  · intro p member
    let held : UInt32 → List Fd := fun pid => (pairs.filter fun pair => pair.1 = pid).map Prod.snd
    have fresh : pid ∉ pids.map PidEntry.pid →
        held pid = [] := by
      intro new
      change (pairs.filter fun pair => pair.1 = pid).map Prod.snd = []
      rw [List.map_eq_nil_iff, List.filter_eq_nil_iff]
      intro pair inside isPid
      exact new (known.mpr (List.mem_map.mpr ⟨pair, inside, of_decide_eq_true isPid⟩))
    have kept : ∀ p ∈ pids, p.fds = held p.pid := fds
    rw [addFd_fds comm nodup kept fresh p member, List.filter_append, List.map_append]
    have new : ([(pid, fd)].filter fun pair => pair.1 = p.pid).map Prod.snd =
        if p.pid = pid then [fd] else [] := by
      rw [List.filter_singleton]
      by_cases same : p.pid = pid
      · simp [same]
      · simp [same, Ne.symm same]
    rw [new]
    by_cases same : p.pid = pid
    · rw [if_pos same, if_pos same]
    · rw [if_neg same, if_neg same]
      exact (List.append_nil _).symm

theorem Grouped.foldl {pairs : List (UInt32 × Fd)} {pids : List PidEntry}
    (grouped : Grouped pairs pids) (more : List (UInt32 × Fd)) :
    Grouped (pairs ++ more) (more.foldl (fun pids pair => addFd comm pair.1 pair.2 pids) pids) := by
  induction more generalizing pairs pids with
  | nil =>
      rw [List.append_nil]
      exact grouped
  | cons pair more ih =>
      have later := ih (grouped.add comm pair.1 pair.2)
      rw [List.append_assoc] at later
      exact later

/-! ## The sections of a text -/

theorem section_text (sec : VmSection) (rest : List Char) :
    sec.text ++ rest = "pid:".toList ++ (printDec sec.pid.toNat ++ '\t' :: ("Process:".toList ++
      (sec.command ++ (" ----------\n".toList ++ (sec.listsText ++ (sec.totalsText ++ rest)))))) := by
  have label : "\tProcess:".toList = '\t' :: "Process:".toList := by rfl
  unfold VmSection.text VmSection.listsText VmSection.totalsText
  rw [label]
  simp

theorem parsePids_section {sec : VmSection} {before rest : List Char} (noPid : 'p' ∉ before)
    (fuel : Nat) (pids : List PidEntry) :
    ∃ fd, ParsedAs sec fd ∧ parsePids comm (fuel + 1) (before ++ (sec.text ++ rest)) pids =
      parsePids comm fuel (sec.totalsText ++ rest) (addFd comm sec.pid fd pids) := by
  obtain ⟨fd, parsed, read⟩ := parseFd_section sec rest
  refine ⟨fd, parsed, ?_⟩
  rw [section_text]
  generalize isBehind : sec.command ++ (" ----------\n".toList ++
    (sec.listsText ++ (sec.totalsText ++ rest))) = behind at read ⊢
  have found : strstr "pid:".toList (before ++ ("pid:".toList ++
      (printDec sec.pid.toNat ++ '\t' :: ("Process:".toList ++ behind)))) =
        some ("pid:".toList ++ (printDec sec.pid.toNat ++ '\t' :: ("Process:".toList ++ behind))) :=
    strstr_behind noPid
  have next : strchr '\t' ("pid:".toList ++
      (printDec sec.pid.toNat ++ '\t' :: ("Process:".toList ++ behind))) =
        some ('\t' :: ("Process:".toList ++ behind)) := by
    rw [← List.append_assoc]
    refine strchr_behind fun member => ?_
    rcases List.mem_append.mp member with label | digit
    · exact absurd label (by decide)
    · exact absent_printDec (by decide) _ digit
  have fits : sec.pid.toNat < 2 ^ 64 := Nat.lt_trans sec.pid.toNat_lt (by decide)
  have number : scanUlong (("pid:".toList ++
      (printDec sec.pid.toNat ++ '\t' :: ("Process:".toList ++ behind))).drop 4) =
        some (UInt64.ofNat sec.pid.toNat) := by
    refine scanUlong_printDec fits ?_
    intro c first
    cases first
    rfl
  have isPid : (UInt64.ofNat sec.pid.toNat).toUInt32 = sec.pid := by
    rw [← UInt32.toNat_inj, UInt64.toNat_toUInt32, UInt64.toNat_ofNat', Nat.mod_eq_of_lt fits]
    exact Nat.mod_eq_of_lt sec.pid.toNat_lt
  have long : ¬ ('\t' :: ("Process:".toList ++ behind)).length < 9 :=
    Nat.not_lt.mpr (Nat.le_add_left 9 behind.length)
  have drop : ('\t' :: ("Process:".toList ++ behind)).drop 9 = behind := by rfl
  rw [parsePids, found]
  change (strchr '\t' _ >>= _) = _
  rw [next, Option.bind_eq_bind, Option.bind_some, number]
  dsimp only
  rw [if_neg long, drop, read, isPid]
  rfl

/-- Every section is read once, in order. -/
theorem parsePids_sections {sections : List VmSection} {fuel : Nat}
    (enough : sections.length < fuel) {before : List Char} (noPid : 'p' ∉ before)
    (pids : List PidEntry) :
    ∃ fds, List.Forall₂ ParsedAs sections fds ∧
      parsePids comm fuel (before ++ vmInfo sections) pids =
        some (((sections.map VmSection.pid).zip fds).foldl
          (fun pids pair => addFd comm pair.1 pair.2 pids) pids) := by
  induction sections generalizing fuel before pids with
  | nil =>
      obtain ⟨fuel, rfl⟩ := Nat.exists_eq_add_one.mpr enough
      refine ⟨[], .nil, ?_⟩
      have absent : strstr "pid:".toList (before ++ vmInfo []) = none :=
        strstr_absent noPid
      rw [parsePids, absent]
      rfl
  | cons sec sections ih =>
      obtain ⟨fuel, rfl⟩ := Nat.exists_eq_add_one.mpr (Nat.lt_of_le_of_lt (Nat.zero_le _) enough)
      obtain ⟨fd, parsed, step⟩ :=
        @parsePids_section comm sec before (vmInfo sections) noPid fuel pids
      have noLabel : ∀ label ∈ totalLabels, 'p' ∉ label := fun label member =>
        (totalLabels_known label member).2.2
      obtain ⟨fds, later, run⟩ := ih (Nat.lt_of_succ_lt_succ enough)
        (totals_noPid noLabel sec.lists) (addFd comm sec.pid fd pids)
      exact ⟨fd :: fds, .cons parsed later, step.trans run⟩

theorem length_le_vmInfo (sections : List VmSection) : sections.length ≤ (vmInfo sections).length := by
  induction sections with
  | nil => exact Nat.le_refl 0
  | cons sec sections ih =>
      have some_ : 0 < sec.text.length := Nat.succ_pos _
      have shape : vmInfo (sec :: sections) = sec.text ++ vmInfo sections := rfl
      rw [shape, List.length_append, List.length_cons]
      omega

theorem parseVmInfo_grouped (sections : List VmSection) :
    ∃ fds pids, List.Forall₂ ParsedAs sections fds ∧
      Grouped ((sections.map VmSection.pid).zip fds) pids ∧
      parseVmInfo comm (vmInfo sections) = some pids := by
  have enough : sections.length < (vmInfo sections).length + 1 :=
    Nat.lt_succ_of_le (length_le_vmInfo sections)
  obtain ⟨fds, parsed, run⟩ :=
    @parsePids_sections comm sections _ enough [] List.not_mem_nil []
  have empty : Grouped [] [] := ⟨rfl, List.nodup_nil, fun p member => absurd member List.not_mem_nil⟩
  exact ⟨fds, _, parsed, empty.foldl comm _, run⟩

end Pids

/-! ## What the text says -/

section Right

theorem Placement.code_pos (placement : Placement) : placement.code ≠ 0 := by
  cases placement <;> decide

theorem BoLine.parsed_eq_bo (line : BoLine) :
    line.parsed = line.bo ↔
      line.padding = 0 ∧ toDouble line.size.toNat = line.size.toNat ∧ line.ShortInode := by
  constructor
  · intro same
    have placement := congrArg Bo.placement same
    refine ⟨?_, congrArg Bo.size same, (readInode_iff line).mp (congrArg Bo.ino same)⟩
    by_contra padded
    have unknown : (if line.padding = 0 then line.placement.code else 0) = line.placement.code :=
      placement
    rw [if_neg padded] at unknown
    exact line.placement.code_pos unknown.symm
  · rintro ⟨padding, size, inode⟩
    unfold BoLine.parsed
    rw [if_pos padding, size, (readInode_iff line).mpr inode]
    rfl

theorem VmSection.lines_eq (sec : VmSection) : sec.lines = sec.idle ++ sec.lists.tail.flatten := rfl

theorem VmSection.seen_length_iff (sec : VmSection) :
    sec.seen.length = sec.lines.length ↔ sec.idle = [] ∨ ¬ sec.Hidden := by
  unfold VmSection.seen
  by_cases hidden : sec.Hidden
  · rw [if_pos hidden, sec.lines_eq, List.length_append]
    constructor
    · intro same
      exact .inl (List.length_eq_zero_iff.mp (by omega))
    · rintro (none_ | shown)
      · rw [none_, List.length_nil, Nat.zero_add]
      · exact absurd hidden shown
  · rw [if_neg hidden]
    exact iff_of_true rfl (.inr hidden)

theorem VmSection.seen_lines {sec : VmSection} (shown : sec.idle = [] ∨ ¬ sec.Hidden) :
    sec.seen = sec.lines := by
  unfold VmSection.seen
  rcases shown with none_ | shown
  · have all : sec.lists.tail.flatten = sec.lines := by
      rw [sec.lines_eq, none_, List.nil_append]
    rw [all, ite_self]
  · exact if_neg shown

theorem map_eq_map_iff {lines : List BoLine} :
    lines.map BoLine.parsed = lines.map BoLine.bo ↔
      (∀ line ∈ lines, line.padding = 0) ∧
        (∀ line ∈ lines, toDouble line.size.toNat = line.size.toNat) ∧
        ∀ line ∈ lines, line.ShortInode := by
  rw [List.map_inj_left, ← forall₂_and, ← forall₂_and]
  exact forall₂_congr fun line _ => line.parsed_eq_bo

/-- What is parsed of a section is right exactly when the section is readable. -/
theorem fdRight_iff {sec : VmSection} {fd : Fd} (parsed : ParsedAs sec fd) :
    FdRight sec fd ↔ Readable sec := by
  constructor
  · rintro ⟨bos, total⟩
    have same : sec.seen.map BoLine.parsed = sec.lines.map BoLine.bo := parsed.bos.symm.trans bos
    have lengths := congrArg List.length same
    rw [List.length_map, List.length_map] at lengths
    have shown := sec.seen_length_iff.mp lengths
    have seen := VmSection.seen_lines shown
    rw [seen] at same
    obtain ⟨placements, sizes, inodes⟩ := map_eq_map_iff.mp same
    refine ⟨shown, placements, sizes, ?_, inodes⟩
    rw [← seen, ← parsed.total, seen]
    exact total
  · rintro ⟨shown, placements, sizes, total, inodes⟩
    have seen := VmSection.seen_lines shown
    refine ⟨?_, ?_⟩
    · rw [parsed.bos, seen]
      exact map_eq_map_iff.mpr ⟨placements, sizes, inodes⟩
    · rw [parsed.total, seen]
      exact total

theorem forall₂_filter {sections : List VmSection} {fds : List Fd} (pid : UInt32)
    (parsed : List.Forall₂ ParsedAs sections fds) :
    List.Forall₂ ParsedAs (sections.filter fun sec => sec.pid = pid)
      ((((sections.map VmSection.pid).zip fds).filter fun pair => pair.1 = pid).map Prod.snd) := by
  induction parsed with
  | nil => exact .nil
  | @cons sec fd sections fds first later ih =>
      rw [List.map_cons, List.zip_cons_cons, List.filter_cons, List.filter_cons]
      by_cases same : sec.pid = pid
      · rw [if_pos (decide_eq_true same), if_pos (decide_eq_true same)]
        exact .cons first ih
      · rw [if_neg (by simpa using same), if_neg (by simpa using same)]
        exact ih

theorem forall₂_right_iff {sections : List VmSection} {fds : List Fd}
    (parsed : List.Forall₂ ParsedAs sections fds) :
    List.Forall₂ FdRight sections fds ↔ ∀ sec ∈ sections, Readable sec := by
  induction parsed with
  | nil => exact iff_of_true .nil (fun sec member => absurd member List.not_mem_nil)
  | cons first later ih => rw [List.forall₂_cons, fdRight_iff first, ih, List.forall_mem_cons]

theorem grouped_right_iff {sections : List VmSection} {fds : List Fd} {pids : List PidEntry}
    (parsed : List.Forall₂ ParsedAs sections fds)
    (grouped : Grouped ((sections.map VmSection.pid).zip fds) pids) :
    VmRight sections pids ↔ ∀ sec ∈ sections, Readable sec := by
  have keys : pids.map PidEntry.pid = (sections.map VmSection.pid).eraseDups := by
    rw [grouped.keys, List.map_fst_zip (by rw [List.length_map, parsed.length_eq])]
  have one : ∀ p ∈ pids, List.Forall₂ FdRight (sections.filter fun sec => sec.pid = p.pid) p.fds ↔
      ∀ sec ∈ sections, sec.pid = p.pid → Readable sec := by
    intro p member
    rw [grouped.fds p member, forall₂_right_iff (forall₂_filter p.pid parsed)]
    simp only [List.mem_filter, decide_eq_true_eq, and_imp]
  constructor
  · rintro ⟨-, right⟩ sec member
    have known : sec.pid ∈ pids.map PidEntry.pid := by
      rw [keys, List.mem_eraseDups]
      exact List.mem_map_of_mem member
    obtain ⟨p, isEntry, isPid⟩ := List.mem_map.mp known
    exact (one p isEntry).mp (right p isEntry) sec member isPid.symm
  · intro readable
    exact ⟨keys, fun p member => (one p member).mpr fun sec isSec _ => readable sec isSec⟩

/-- Every buffer is returned once, with what its line says, exactly when no placement is
aligned, no command hides the first list, the sizes are doubles and the inodes have 32 bits. -/
theorem parseVmInfo_right_iff (comm : UInt32 → Option (List Char)) (sections : List VmSection) :
    (∃ pids, parseVmInfo comm (vmInfo sections) = some pids ∧ VmRight sections pids) ↔
      ∀ sec ∈ sections, Readable sec := by
  obtain ⟨fds, pids, parsed, grouped, read⟩ := parseVmInfo_grouped comm sections
  rw [← grouped_right_iff parsed grouped]
  constructor
  · rintro ⟨other, isRead, right⟩
    cases Option.some.inj (read.symm.trans isRead)
    exact right
  · intro right
    exact ⟨pids, read, right⟩

def alignedSection : VmSection :=
  ⟨0, [], List.not_mem_nil, [], [⟨0, 4096, 1, .gtt, []⟩], [], [], [], []⟩

/-- A buffer in `GTT`, which stands behind a blank of its own, has an unknown placement. -/
theorem alignedPlacement_unknown :
    parseVmInfo (fun _ => none) (vmInfo [alignedSection]) =
      some [⟨0, none, [⟨some [], [⟨4096, 0, false, true, false, none⟩], 4096⟩]⟩] ∧
    ¬ ∃ pids, parseVmInfo (fun _ => none) (vmInfo [alignedSection]) = some pids ∧
      VmRight [alignedSection] pids := by
  have read : parseVmInfo (fun _ => none) (vmInfo [alignedSection]) =
      some [⟨0, none, [⟨some [], [⟨4096, 0, false, true, false, none⟩], 4096⟩]⟩] := by
    decide +kernel
  refine ⟨read, ?_⟩
  rintro ⟨pids, isRead, right⟩
  cases Option.some.inj (read.symm.trans isRead)
  obtain ⟨first, -⟩ := List.forall₂_cons.mp (right.fds _ List.mem_cons_self)
  have placement : [(0 : Nat)] = [2] := congrArg (List.map Bo.placement) first.bos
  cases placement

end Right

end Umr.Gui
