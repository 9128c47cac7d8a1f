import Umr.Database.Match
import Umr.Lib.Scan
import Umr.Lib.Linked
import Mathlib.Algebra.Order.BigOperators.Group.List

/-!
# Scan of the database directories

`umr_do_scan` and `umr_database_scan` of `database/scan.c`.  The items are a
linked list whose last node is empty: a register file is written into the node
`it` points at and an empty node is allocated behind it.  A sub-directory is
scanned from the last node on, but the caller's `it` stays where it was, at the
first item of the sub-directory: the next register file is written over it and
cuts off what follows.
-/

set_option autoImplicit false

namespace Umr.Database

open Umr.Lib Umr.Lib.Linked

/-- What `readdir` returns of a directory, in order; `.` and `..` come with any content, and a
directory that does not open is an empty one. -/
inductive Listing where
  | done
  | file (name : List Char) (rest : Listing)
  | dir (name : List Char) (sub : Listing) (rest : Listing)
  deriving DecidableEq, Repr

def emptyItem : ScanItem := ⟨[], [], [], 0, 0, 0⟩

abbrev Heap := List (Cell ScanItem)

/-! ## Names of register files -/

def isReg (name : List Char) : Bool := strstr name ".reg".toList

def scanLower (text : List Char) : Option (List Char × List Char) :=
  let lower (c : Char) : Bool := ('a' ≤ c ∧ c ≤ 'z') ∨ isdigit c
  if text.takeWhile lower = [] then none else some (text.takeWhile lower, text.dropWhile lower)

def scanUnderscore : List Char → Option (List Char)
  | '_' :: rest => some rest
  | _ => none

/-- `_%d_%d_%d.reg`: the numbers found, each stored at once. -/
def scanVersion (it : ScanItem) (text : List Char) : ScanItem × Nat :=
  match (scanUnderscore text).bind scanInt with
  | none => (it, 0)
  | some (maj, rest) =>
      match (scanUnderscore rest).bind scanInt with
      | none => ({ it with maj := maj }, 1)
      | some (min, rest) =>
          match (scanUnderscore rest).bind scanInt with
          | none => ({ it with maj := maj, min := min }, 2)
          | some (rev, _) => ({ it with maj := maj, min := min, rev := rev }, 3)

/-- The two `sscanf` formats one after the other.  A name that fits neither leaves in the item what
was stored until then. -/
def scanName (it : ScanItem) (name : List Char) : ScanItem :=
  match scanLower name with
  | none => it
  | some (ipname, rest) =>
      let first := scanVersion { it with ipname := ipname } rest
      if first.2 = 3 then first.1
      else
        match (scanUnderscore rest).bind scanLower with
        | none => first.1
        | some (second, rest) =>
            let scanned := scanVersion first.1 rest
            if scanned.2 = 3 then { scanned.1 with ipname := ipname ++ '_' :: second }
            else scanned.1

def fill (path name : List Char) (it : ScanItem) : ScanItem :=
  scanName { it with path := path, fname := name } name

/-! ## The scan -/

/-- `strcpy` into `path[256]` and `fname[128]`; `none` is a write outside them. -/
def addItem (path name : List Char) (heap : Heap) (it : Nat) : Option (Heap × Nat) :=
  if path.length < 256 ∧ name.length < 128 then
    some (push (fill path name) emptyItem heap it, heap.length)
  else none

def readReg (path name : List Char) (heap : Heap) (it : Nat) : Option (Heap × Nat) :=
  if isReg name then addItem path name heap it else some (heap, it)

def descends (name : List Char) : Bool := name ≠ ".".toList ∧ name ≠ "..".toList

def subPath (path name : List Char) : List Char := path ++ '/' :: name

/-- The loop over `readdir`; `none` is a write outside a buffer. -/
def readEntries (path : List Char) : Listing → Heap → Nat → Option Heap
  | .done, heap, _ => some heap
  | .file name rest, heap, it =>
      (readReg path name heap it).bind fun next => readEntries path rest next.1 next.2
  | .dir name sub rest, heap, it =>
      (if descends name then
        if (subPath path name).length < 512 then
          readEntries (subPath path name) sub heap (lastFrom heap heap.length it)
        else none
      else some heap).bind fun heap =>
        (readReg path name heap it).bind fun next => readEntries path rest next.1 next.2

/-- Starts at the last item, which is empty. -/
def umrDoScan (heap : Heap) (it : Nat) (path : List Char) (entries : Listing) : Option Heap :=
  readEntries path entries heap (lastFrom heap heap.length it)

/-- The given path, `UMR_DATABASE_PATH`, `UMR_DB_DIR` and the database of the source: those that
are set, in this order. -/
def umrDatabaseScan (roots : List (List Char × Listing)) : Option Heap :=
  roots.foldlM (fun heap root => umrDoScan heap 0 root.1 root.2) [⟨emptyItem, none⟩]

/-! ## What is listed afterwards -/

/-- The register files of a tree, each with what is written for it into an empty item. -/
def regFiles (path : List Char) : Listing → List ScanItem
  | .done => []
  | .file name rest =>
      (if isReg name then [fill path name emptyItem] else []) ++ regFiles path rest
  | .dir name sub rest =>
      (if descends name then regFiles (subPath path name) sub else []) ++ regFiles path rest

/-- The list from `it` on after the loop, without the empty item at its end; `pending` is what
sub-directories have left there. -/
def itemsFrom (path : List Char) : List ScanItem → Listing → List ScanItem
  | pending, .done => pending
  | pending, .file name rest =>
      if isReg name then fill path name (pending.headD emptyItem) :: itemsFrom path [] rest
      else itemsFrom path pending rest
  | pending, .dir name sub rest =>
      let found := if descends name then itemsFrom (subPath path name) [] sub else []
      if isReg name then
        fill path name ((pending ++ found).headD emptyItem) :: itemsFrom path [] rest
      else itemsFrom path (pending ++ found) rest

/-- The items written, directories of such a name among them. -/
def written : Listing → Nat
  | .done => 0
  | .file name rest => (if isReg name then 1 else 0) + written rest
  | .dir name sub rest =>
      (if descends name then written sub else 0) + ((if isReg name then 1 else 0) + written rest)

/-- No buffer is written beyond its end. -/
def Fits (path : List Char) : Listing → Prop
  | .done => True
  | .file name rest =>
      (isReg name → path.length < 256 ∧ name.length < 128) ∧ Fits path rest
  | .dir name sub rest =>
      (descends name → (subPath path name).length < 512 ∧ Fits (subPath path name) sub) ∧
      (isReg name → path.length < 256 ∧ name.length < 128) ∧ Fits path rest

theorem readReg_some {path name : List Char} {heap : Heap} {it : Nat}
    (fits : isReg name → path.length < 256 ∧ name.length < 128) :
    readReg path name heap it = some (if isReg name then
      (push (fill path name) emptyItem heap it, heap.length) else (heap, it)) := by
  unfold readReg addItem
  split_ifs with reg room
  · rfl
  · exact absurd (fits reg) room
  · rfl

theorem readReg_isSome {path name : List Char} {heap : Heap} {it : Nat} {next : Heap × Nat}
    (ran : readReg path name heap it = some next) :
    isReg name → path.length < 256 ∧ name.length < 128 := by
  intro reg
  unfold readReg addItem at ran
  rw [if_pos reg] at ran
  by_contra overflow
  rw [if_neg overflow] at ran
  cases ran

/-- The buffers do not depend on the state of the list. -/
theorem readEntries_fits {path : List Char} {entries : Listing} {heap after : Heap} {it : Nat}
    (ran : readEntries path entries heap it = some after) : Fits path entries := by
  induction entries generalizing path heap after it with
  | done => trivial
  | file name rest ih =>
      obtain ⟨next, stored, restRan⟩ := Option.bind_eq_some_iff.mp ran
      exact ⟨readReg_isSome stored, ih restRan⟩
  | dir name sub rest ihSub ihRest =>
      obtain ⟨between, subRan, ran⟩ := Option.bind_eq_some_iff.mp ran
      obtain ⟨next, stored, restRan⟩ := Option.bind_eq_some_iff.mp ran
      refine ⟨?_, readReg_isSome stored, ihRest restRan⟩
      intro down
      rw [if_pos down] at subRan
      by_cases room : (subPath path name).length < 512
      · rw [if_pos room] at subRan
        exact ⟨room, ihSub subRan⟩
      · rw [if_neg room] at subRan
        cases subRan

def Ends (heap : Heap) (before : List Nat) (it : Nat) (pending : List ScanItem) : Prop :=
  ∃ nodes, nodes.head? = some it ∧ Lists heap (before ++ nodes) ∧
    items heap nodes = pending ++ [emptyItem]

def Unchanged (heap after : Heap) (before : List Nat) : Prop :=
  ∀ it ∈ before, after[it]? = heap[it]?

theorem Unchanged.items {heap after : Heap} {before : List Nat}
    (unchanged : Unchanged heap after before) : items after before = items heap before := by
  refine List.filterMap_congr ?_
  intro it member
  rw [unchanged it member]

theorem Ends.extend {heap : Heap} {before front : List Nat} {it following : Nat}
    {shown pending : List ScanItem} (ends : Ends heap (before ++ front) following pending)
    (starts : (front ++ [following]).head? = some it) (frontItems : items heap front = shown) :
    Ends heap before it (shown ++ pending) := by
  obtain ⟨nodes, isHead, lists, nodeItems⟩ := ends
  refine ⟨front ++ nodes, ?_, ?_, ?_⟩
  · cases front with
    | nil =>
        cases starts
        exact isHead
    | cons first rest => exact starts
  · rw [← List.append_assoc]
    exact lists
  · rw [items, List.filterMap_append]
    change Linked.items heap front ++ Linked.items heap nodes = _
    rw [frontItems, nodeItems, List.append_assoc]

theorem Ends.push {heap : Heap} {before : List Nat} {it : Nat} {pending : List ScanItem}
    (ends : Ends heap before it pending) (write : ScanItem → ScanItem) :
    Ends (push write emptyItem heap it) (before ++ [it]) heap.length [] ∧
      items (push write emptyItem heap it) [it] = [write (pending.headD emptyItem)] ∧
      Unchanged heap (push write emptyItem heap it) before := by
  obtain ⟨nodes, isHead, lists, nodeItems⟩ := ends
  obtain ⟨after, rfl⟩ : ∃ after, nodes = it :: after := by
    cases nodes with
    | nil => cases isHead
    | cons first after =>
        cases isHead
        exact ⟨after, rfl⟩
  have itWithin : it < heap.length := lists.within it (by simp)
  have itItem : heap[it].item = pending.headD emptyItem := by
    simp only [items, List.filterMap_cons, List.getElem?_eq_getElem itWithin, Option.map_some]
      at nodeItems
    cases pending with
    | nil => exact (List.cons.inj nodeItems).1
    | cons first rest => exact (List.cons.inj nodeItems).1
  refine ⟨⟨[heap.length], rfl, ?_, ?_⟩, ?_, ?_⟩
  · have shown : Lists (Linked.push write emptyItem heap it) (before ++ [it, heap.length]) :=
      lists.push
    simpa using shown
  · simp only [items, List.filterMap_cons, getElem?_push_fresh, Option.map_some,
      List.filterMap_nil, List.nil_append]
  · simp only [items, List.filterMap_cons, getElem?_push_self itWithin,
      List.getElem?_eq_getElem itWithin, Option.map_some, List.filterMap_nil, itItem]
  · intro other member
    have below : other < it :=
      (List.pairwise_append.mp lists.increasing).2.2 other member it List.mem_cons_self
    exact getElem?_push_other (by omega) (by omega)

/-- A sub-directory is scanned from the empty item on. -/
theorem Ends.last {heap : Heap} {before : List Nat} {it : Nat} {pending : List ScanItem}
    (ends : Ends heap before it pending) :
    ∃ front, Ends heap (before ++ front) (lastFrom heap heap.length it) [] ∧
      (front ++ [lastFrom heap heap.length it]).head? = some it ∧
      items heap front = pending := by
  obtain ⟨nodes, isHead, lists, nodeItems⟩ := ends
  obtain ⟨after, rfl⟩ : ∃ after, nodes = it :: after := by
    cases nodes with
    | nil => cases isHead
    | cons first after =>
        cases isHead
        exact ⟨after, rfl⟩
  have shorter : after.length ≤ heap.length := by
    have := lists.length_le
    simp only [List.length_append, List.length_cons] at this
    omega
  have isLast : lastFrom heap heap.length it = (it :: after).getLast (List.cons_ne_nil _ _) :=
    (lists.suffix (List.cons_ne_nil _ _)).lastFrom shorter
  have split : it :: after = (it :: after).dropLast ++ [lastFrom heap heap.length it] := by
    rw [isLast, List.dropLast_append_getLast]
  have lastWithin : lastFrom heap heap.length it < heap.length := by
    refine lists.within _ ?_
    rw [split]
    simp
  have parted : items heap (it :: after).dropLast = pending ∧
      items heap [lastFrom heap heap.length it] = [emptyItem] := by
    rw [split, items, List.filterMap_append] at nodeItems
    have one : (items heap [lastFrom heap heap.length it]).length = 1 := by
      simp only [items, List.filterMap_cons, List.getElem?_eq_getElem lastWithin, Option.map_some,
        List.filterMap_nil, List.length_singleton]
    exact List.append_inj' nodeItems (by simpa using one)
  refine ⟨(it :: after).dropLast, ⟨[lastFrom heap heap.length it], rfl, ?_, ?_⟩, ?_, parted.1⟩
  · rw [List.append_assoc, ← split]
    exact lists
  · exact parted.2
  · rw [← split]
    rfl

structure Leaves (heap after : Heap) (before : List Nat) (it : Nat) (found : List ScanItem)
    (count : Nat) : Prop where
  ends : Ends after before it found
  unchanged : Unchanged heap after before
  grown : after.length = heap.length + count

theorem readReg_leaves {path name : List Char} {heap : Heap} {before : List Nat} {it : Nat}
    {pending : List ScanItem} (ends : Ends heap before it pending)
    (fits : isReg name → path.length < 256 ∧ name.length < 128)
    {restItems : List ScanItem → List ScanItem} {restCount : Nat} {rest : Heap → Nat → Option Heap}
    (restLeaves : ∀ (heap : Heap) (before : List Nat) (it : Nat) (pending : List ScanItem),
      Ends heap before it pending →
      ∃ after, rest heap it = some after ∧
        Leaves heap after before it (restItems pending) restCount) :
    ∃ after, ((readReg path name heap it).bind fun next => rest next.1 next.2) = some after ∧
      Leaves heap after before it
        (if isReg name then fill path name (pending.headD emptyItem) :: restItems []
          else restItems pending)
        ((if isReg name then 1 else 0) + restCount) := by
  rw [readReg_some fits]
  by_cases reg : isReg name = true
  · simp only [if_pos reg, Option.bind_some]
    obtain ⟨pushed, writtenItem, kept⟩ := ends.push (fill path name)
    obtain ⟨after, ran, restEnds, unchanged, grown⟩ := restLeaves _ _ _ _ pushed
    refine ⟨after, ran, ?_, ?_, ?_⟩
    · have shown : items after [it] = [fill path name (pending.headD emptyItem)] := by
        rw [← writtenItem]
        refine Unchanged.items ?_
        intro other member
        exact unchanged other (List.mem_append_right _ member)
      exact restEnds.extend rfl shown
    · intro other member
      rw [unchanged other (List.mem_append_left _ member), kept other member]
    · rw [grown, length_push]
      omega
  · simp only [if_neg reg, Option.bind_some, Nat.zero_add]
    exact restLeaves heap before it pending ends

theorem readEntries_leaves {entries : Listing} {path : List Char} (fits : Fits path entries)
    {heap : Heap} {before : List Nat} {it : Nat} {pending : List ScanItem}
    (ends : Ends heap before it pending) :
    ∃ after, readEntries path entries heap it = some after ∧
      Leaves heap after before it (itemsFrom path pending entries) (written entries) := by
  induction entries generalizing path heap before it pending with
  | done => exact ⟨heap, rfl, ends, fun _ _ => rfl, rfl⟩
  | file name rest ih =>
      exact readReg_leaves ends fits.1 fun _ _ _ _ restEnds => ih fits.2 restEnds
  | dir name sub rest ihSub ihRest =>
      obtain ⟨subFits, nameFits, restFits⟩ := fits
      by_cases down : descends name = true
      · obtain ⟨front, lastEnds, starts, frontItems⟩ := ends.last
        obtain ⟨between, subRan, subEnds, unchanged, grown⟩ :=
          ihSub (subFits down).2 lastEnds
        have betweenEnds : Ends between before it
            (pending ++ itemsFrom (subPath path name) [] sub) := by
          refine subEnds.extend starts ?_
          rw [← frontItems]
          refine Unchanged.items ?_
          intro other member
          exact unchanged other (List.mem_append_right _ member)
        obtain ⟨after, ran, restEnds, restUnchanged, restGrown⟩ :=
          readReg_leaves betweenEnds nameFits fun _ _ _ _ restEnds => ihRest restFits restEnds
        refine ⟨after, ?_, ?_, ?_, ?_⟩
        · simp only [readEntries, if_pos down, if_pos (subFits down).1, subRan, Option.bind_some]
          exact ran
        · simp only [itemsFrom, if_pos down]
          exact restEnds
        · intro other member
          rw [restUnchanged other member, unchanged other (List.mem_append_left _ member)]
        · simp only [written, if_pos down]
          omega
      · obtain ⟨after, ran, leaves⟩ :=
          readReg_leaves ends nameFits fun _ _ _ _ restEnds => ihRest restFits restEnds
        refine ⟨after, ?_, ?_⟩
        · simp only [readEntries, if_neg down, Option.bind_some]
          exact ran
        · simp only [itemsFrom, written, if_neg down, List.append_nil, Nat.zero_add]
          exact leaves

/-! ## Items that are lost -/

/-- Some entry of the directory itself has the name of a register file. -/
def regHere : Listing → Bool
  | .done => false
  | .file name rest => isReg name || regHere rest
  | .dir name _ rest => isReg name || regHere rest

/-- In every directory no register file is read after a sub-directory that holds one, and no
directory has the name of a register file. -/
def Sorted : Listing → Prop
  | .done => True
  | .file _ rest => Sorted rest
  | .dir name sub rest =>
      isReg name = false ∧
      (descends name → Sorted sub ∧ (written sub ≠ 0 → regHere rest = false)) ∧
      Sorted rest

theorem itemsFrom_of_not_regHere {entries : Listing} {path : List Char}
    (noneHere : regHere entries = false) (pending : List ScanItem) :
    itemsFrom path pending entries = pending ++ itemsFrom path [] entries := by
  induction entries generalizing pending with
  | done => rw [itemsFrom, itemsFrom, List.append_nil]
  | file name rest ih =>
      simp only [regHere, Bool.or_eq_false_iff] at noneHere
      simp only [itemsFrom, noneHere.1, Bool.false_eq_true, if_false]
      exact ih noneHere.2 pending
  | dir name sub rest _ ih =>
      simp only [regHere, Bool.or_eq_false_iff] at noneHere
      simp only [itemsFrom, noneHere.1, Bool.false_eq_true, if_false, List.nil_append]
      rw [ih noneHere.2, List.append_assoc, ← ih noneHere.2]

/-- A register file of the directory itself cuts off what was pending. -/
theorem length_itemsFrom_of_regHere {entries : Listing} {path : List Char}
    (here : regHere entries = true) (pending : List ScanItem) :
    (itemsFrom path pending entries).length = (itemsFrom path [] entries).length := by
  induction entries generalizing pending with
  | done => cases here
  | file name rest ih =>
      simp only [itemsFrom]
      by_cases reg : isReg name = true
      · simp only [if_pos reg, List.length_cons]
      · simp only [if_neg reg]
        simp only [regHere, reg, Bool.false_or] at here
        exact ih here pending
  | dir name sub rest _ ih =>
      simp only [itemsFrom]
      by_cases reg : isReg name = true
      · simp only [if_pos reg, List.length_cons]
      · simp only [if_neg reg]
        simp only [regHere, reg, Bool.false_or] at here
        rw [ih here, ← ih here ([] ++ _)]

theorem length_itemsFrom_le (entries : Listing) (path : List Char) (pending : List ScanItem) :
    (itemsFrom path pending entries).length ≤ pending.length + written entries := by
  induction entries generalizing path pending with
  | done => exact Nat.le_refl _
  | file name rest ih =>
      simp only [itemsFrom, written]
      split_ifs
      · have := ih path []
        simp only [List.length_cons, List.length_nil] at this ⊢
        omega
      · have := ih path pending
        omega
  | dir name sub rest ihSub ih =>
      simp only [itemsFrom, written]
      have found : (if descends name then itemsFrom (subPath path name) [] sub else []).length ≤
          if descends name then written sub else 0 := by
        split_ifs
        · have := ihSub (subPath path name) []
          simp only [List.length_nil, Nat.zero_add] at this
          exact this
        · exact Nat.le_refl _
      generalize (if descends name then itemsFrom (subPath path name) [] sub else []) = list at found
      split_ifs at found ⊢
      all_goals
        have := ih path []
        have := ih path (pending ++ list)
        simp only [List.length_cons, List.length_nil, List.length_append] at *
        omega

theorem length_regFiles_le (entries : Listing) (path : List Char) :
    (regFiles path entries).length ≤ written entries := by
  induction entries generalizing path with
  | done => exact Nat.le_refl _
  | file name rest ih =>
      have := ih path
      simp only [regFiles, written, List.length_append, apply_ite List.length, List.length_nil,
        List.length_singleton]
      split_ifs <;> omega
  | dir name sub rest ihSub ih =>
      have := ih path
      have := ihSub (subPath path name)
      simp only [regFiles, written, List.length_append, apply_ite List.length, List.length_nil]
      split_ifs <;> omega

theorem length_regFiles_of_sorted {entries : Listing} (sorted : Sorted entries)
    (path : List Char) : (regFiles path entries).length = written entries := by
  induction entries generalizing path with
  | done => rfl
  | file name rest ih =>
      have := ih sorted path
      simp only [regFiles, written, List.length_append, apply_ite List.length, List.length_nil,
        List.length_singleton]
      omega
  | dir name sub rest ihSub ih =>
      obtain ⟨notReg, subSorted, restSorted⟩ := sorted
      have := ih restSorted path
      simp only [regFiles, written, notReg, Bool.false_eq_true, if_false, List.length_append,
        apply_ite List.length, List.length_nil]
      split_ifs with down
      · have := ihSub (subSorted down).1 (subPath path name)
        omega
      · omega

theorem itemsFrom_of_sorted {entries : Listing} (sorted : Sorted entries) (path : List Char) :
    itemsFrom path [] entries = regFiles path entries := by
  induction entries generalizing path with
  | done => rfl
  | file name rest ih =>
      simp only [itemsFrom, regFiles]
      rw [ih sorted path]
      split_ifs <;> rfl
  | dir name sub rest ihSub ih =>
      obtain ⟨notReg, subSorted, restSorted⟩ := sorted
      simp only [itemsFrom, regFiles, notReg, Bool.false_eq_true, if_false, List.nil_append]
      by_cases down : descends name = true
      · simp only [if_pos down]
        rw [ihSub (subSorted down).1]
        by_cases holds : written sub = 0
        · have nothing : regFiles (subPath path name) sub = [] := by
            have := length_regFiles_le sub (subPath path name)
            exact List.length_eq_zero_iff.mp (by omega)
          rw [nothing, List.nil_append]
          exact ih restSorted path
        · rw [itemsFrom_of_not_regHere ((subSorted down).2 holds), ih restSorted path]
      · simp only [if_neg down, List.nil_append]
        exact ih restSorted path

/-- A list as long as the number of items written, all of them files. -/
theorem sorted_of_length {entries : Listing} {path : List Char}
    (files : (regFiles path entries).length = written entries)
    (kept : (itemsFrom path [] entries).length = written entries) : Sorted entries := by
  induction entries generalizing path with
  | done => trivial
  | file name rest ih =>
      simp only [regFiles, written, itemsFrom, List.length_append, apply_ite List.length,
        List.length_nil, List.length_cons] at files kept
      refine ih (?_ : (regFiles path rest).length = _) ?_
      · split_ifs at files <;> omega
      · split_ifs at kept <;> omega
  | dir name sub rest ihSub ih =>
      have subFiles := length_regFiles_le sub (subPath path name)
      have restFiles := length_regFiles_le rest path
      have subKept := length_itemsFrom_le sub (subPath path name) []
      have restKept := length_itemsFrom_le rest path []
      have notReg : isReg name = false := by
        by_contra reg
        simp only [regFiles, written, List.length_append, apply_ite List.length, List.length_nil,
          Bool.not_eq_false] at files reg
        rw [if_pos reg] at files
        split_ifs at files <;> omega
      simp only [List.length_nil, Nat.zero_add] at subKept restKept
      by_cases down : descends name = true
      · simp only [regFiles, written, itemsFrom, notReg, if_pos down, Bool.false_eq_true, if_false,
          List.length_append, List.nil_append, Nat.zero_add] at files kept
        -- Either the items of the sub-directory are kept, or there are none.
        have each : (itemsFrom (subPath path name) [] sub).length = written sub ∧
            (itemsFrom path [] rest).length = written rest ∧
            (written sub ≠ 0 → regHere rest = false) := by
          cases here : regHere rest with
          | true =>
              rw [length_itemsFrom_of_regHere here] at kept
              refine ⟨by omega, by omega, ?_⟩
              intro holds
              omega
          | false =>
              rw [itemsFrom_of_not_regHere here, List.length_append] at kept
              exact ⟨by omega, by omega, fun _ => rfl⟩
        obtain ⟨subAll, restAll, order⟩ := each
        exact ⟨notReg, fun _ => ⟨ihSub (by omega) subAll, order⟩, ih (by omega) restAll⟩
      · simp only [regFiles, written, itemsFrom, notReg, if_neg down, Bool.false_eq_true, if_false,
          List.append_nil, List.nil_append, Nat.zero_add] at files kept
        exact ⟨notReg, fun descend => absurd descend down, ih files kept⟩

/-! ## The whole scan -/

/-- Every item written is on the list, and the list has one item for each register file. -/
def Complete (roots : List (List Char × Listing)) : Prop :=
  ∃ heap, umrDatabaseScan roots = some heap ∧
    (∀ it < heap.length, it ∈ listed heap heap.length 0) ∧
    (items heap (listed heap heap.length 0)).Perm
      (roots.flatMap (fun root => regFiles root.1 root.2) ++ [emptyItem])

theorem umrDoScan_ends {heap : Heap} {path : List Char} {entries : Listing}
    {found : List ScanItem} (ends : Ends heap [] 0 found) (fits : Fits path entries) :
    ∃ after, umrDoScan heap 0 path entries = some after ∧
      Ends after [] 0 (found ++ itemsFrom path [] entries) ∧
      after.length = heap.length + written entries := by
  obtain ⟨front, lastEnds, starts, frontItems⟩ := ends.last
  obtain ⟨after, ran, afterEnds, unchanged, grown⟩ := readEntries_leaves fits lastEnds
  refine ⟨after, ran, afterEnds.extend starts ?_, grown⟩
  rw [← frontItems]
  exact Unchanged.items unchanged

theorem umrDatabaseScan_ends {roots : List (List Char × Listing)} {heap : Heap}
    {found : List ScanItem} (ends : Ends heap [] 0 found)
    (fits : ∀ root ∈ roots, Fits root.1 root.2) :
    ∃ after, roots.foldlM (fun heap root => umrDoScan heap 0 root.1 root.2) heap = some after ∧
      Ends after [] 0 (found ++ roots.flatMap fun root => itemsFrom root.1 [] root.2) ∧
      after.length = heap.length + (roots.map fun root => written root.2).sum := by
  induction roots generalizing heap found with
  | nil =>
      refine ⟨heap, rfl, ?_, rfl⟩
      rw [List.flatMap_nil, List.append_nil]
      exact ends
  | cons root roots ih =>
      obtain ⟨rootFits, restFits⟩ := List.forall_mem_cons.mp fits
      obtain ⟨between, ran, betweenEnds, grown⟩ := umrDoScan_ends ends rootFits
      obtain ⟨after, restRan, afterEnds, restGrown⟩ := ih betweenEnds restFits
      refine ⟨after, ?_, ?_, ?_⟩
      · rw [List.foldlM_cons, ran]
        exact restRan
      · rw [List.flatMap_cons, ← List.append_assoc]
        exact afterEnds
      · rw [List.map_cons, List.sum_cons]
        omega

theorem umrDatabaseScan_fits {roots : List (List Char × Listing)} {heap after : Heap}
    (ran : roots.foldlM (fun heap root => umrDoScan heap 0 root.1 root.2) heap = some after) :
    ∀ root ∈ roots, Fits root.1 root.2 := by
  induction roots generalizing heap with
  | nil => exact fun _ member => (nomatch member)
  | cons root roots ih =>
      rw [List.foldlM_cons] at ran
      obtain ⟨between, rootRan, restRan⟩ := Option.bind_eq_some_iff.mp ran
      exact List.forall_mem_cons.mpr ⟨readEntries_fits rootRan, ih restRan⟩

/-- The lists of all trees are as long as they can be only when each of them is. -/
theorem sorted_of_lengths {roots : List (List Char × Listing)}
    (files : (roots.flatMap fun root => regFiles root.1 root.2).length =
      (roots.map fun root => written root.2).sum)
    (kept : (roots.flatMap fun root => itemsFrom root.1 [] root.2).length =
      (roots.map fun root => written root.2).sum) :
    ∀ root ∈ roots, Sorted root.2 := by
  have bounds : ∀ roots : List (List Char × Listing),
      (roots.flatMap fun root => regFiles root.1 root.2).length ≤
        (roots.map fun root => written root.2).sum ∧
      (roots.flatMap fun root => itemsFrom root.1 [] root.2).length ≤
        (roots.map fun root => written root.2).sum := by
    intro roots
    rw [List.length_flatMap, List.length_flatMap]
    refine ⟨List.sum_le_sum ?_, List.sum_le_sum ?_⟩
    · intro root _
      exact length_regFiles_le root.2 root.1
    · intro root _
      have := length_itemsFrom_le root.2 root.1 []
      rwa [List.length_nil, Nat.zero_add] at this
  induction roots with
  | nil => exact fun _ member => (nomatch member)
  | cons root roots ih =>
      have restBounds := bounds roots
      have rootFiles := length_regFiles_le root.2 root.1
      have rootKept := length_itemsFrom_le root.2 root.1 []
      simp only [List.flatMap_cons, List.length_append, List.map_cons, List.sum_cons,
        List.length_nil] at files kept rootKept
      refine List.forall_mem_cons.mpr ⟨?_, ih (by omega) (by omega)⟩
      exact sorted_of_length (by omega : (regFiles root.1 root.2).length = _) (by omega)

/-- The items a scan lists: what its trees leave, and the empty one. -/
theorem umrDatabaseScan_listed {roots : List (List Char × Listing)}
    (fits : ∀ root ∈ roots, Fits root.1 root.2) :
    ∃ heap, umrDatabaseScan roots = some heap ∧
      ((∀ it < heap.length, it ∈ listed heap heap.length 0) ↔
        (roots.flatMap fun root => itemsFrom root.1 [] root.2).length =
          (roots.map fun root => written root.2).sum) ∧
      items heap (listed heap heap.length 0) =
        (roots.flatMap fun root => itemsFrom root.1 [] root.2) ++ [emptyItem] := by
  have start : Ends [⟨emptyItem, none⟩] [] 0 [] := by
    refine ⟨[0], rfl, ⟨List.isChain_singleton _, ?_, List.pairwise_singleton _ _, ?_⟩, rfl⟩
    · intro last isLast
      cases isLast
      rfl
    · intro it member
      rw [List.nil_append, List.mem_singleton] at member
      rw [member]
      exact Nat.zero_lt_one
  obtain ⟨heap, ran, ⟨nodes, isHead, lists, nodeItems⟩, grown⟩ := umrDatabaseScan_ends start fits
  rw [List.nil_append] at lists
  have isListed : listed heap heap.length 0 = nodes := by
    cases nodes with
    | nil => cases isHead
    | cons first after =>
        cases isHead
        exact lists.listed (Nat.le_of_succ_le lists.length_le)
  have lengths := lists.length_items
  rw [nodeItems, List.nil_append, List.length_append, List.length_singleton] at lengths
  refine ⟨heap, ran, ?_, ?_⟩
  · rw [isListed, lists.covers_iff]
    rw [List.length_singleton] at grown
    omega
  · rw [isListed, nodeItems, List.nil_append]

/-- The scan is complete exactly when the buffers hold every name and no register file is read
behind a sub-directory that holds one. -/
theorem umrDatabaseScan_complete_iff (roots : List (List Char × Listing)) :
    Complete roots ↔ ∀ root ∈ roots, Fits root.1 root.2 ∧ Sorted root.2 := by
  constructor
  · rintro ⟨heap, ran, covers, perm⟩
    have fits := umrDatabaseScan_fits ran
    obtain ⟨heap', ran', coversIff, isItems⟩ := umrDatabaseScan_listed fits
    cases ran.symm.trans ran'
    have kept := coversIff.mp covers
    rw [isItems] at perm
    have files := perm.length_eq
    simp only [List.length_append, List.length_singleton, Nat.add_right_cancel_iff] at files
    have sorted := sorted_of_lengths (files.symm.trans kept) kept
    exact fun root member => ⟨fits root member, sorted root member⟩
  · intro good
    obtain ⟨heap, ran, coversIff, isItems⟩ :=
      umrDatabaseScan_listed fun root member => (good root member).1
    have same : (roots.flatMap fun root => itemsFrom root.1 [] root.2) =
        roots.flatMap fun root => regFiles root.1 root.2 := by
      refine List.flatMap_congr ?_
      intro root member
      exact itemsFrom_of_sorted (good root member).2 root.1
    have files : (roots.flatMap fun root => regFiles root.1 root.2).length =
        (roots.map fun root => written root.2).sum := by
      rw [List.length_flatMap]
      refine congrArg List.sum (List.map_congr_left ?_)
      intro root member
      exact length_regFiles_of_sorted (good root member).2 root.1
    rw [same] at coversIff isItems
    refine ⟨heap, ran, coversIff.mpr files, ?_⟩
    rw [isItems]

def fileBehindDirectory : Listing :=
  .dir "ip".toList (.file "gc_11_0_0.reg".toList .done) (.file "hdp_6_0_0.reg".toList .done)

/-- A register file behind a sub-directory: the item of the sub-directory is written over. -/
theorem file_behind_directory_loses_item : ¬ Complete [("/db".toList, fileBehindDirectory)] := by
  rintro ⟨heap, ran, -, perm⟩
  have names : (umrDatabaseScan [("/db".toList, fileBehindDirectory)]).map
      (fun heap => (items heap (listed heap heap.length 0)).map ScanItem.fname) =
      some ["hdp_6_0_0.reg".toList, []] := by decide
  rw [ran, Option.map_some, Option.some.injEq] at names
  have gone : "gc_11_0_0.reg".toList ∉ ["hdp_6_0_0.reg".toList, []] := by decide
  refine gone ?_
  rw [← names, (perm.map ScanItem.fname).mem_iff]
  decide

end Umr.Database
