import Mathlib.Data.List.Chain
import Mathlib.Data.List.Nodup
import Mathlib.Data.List.Perm.Subperm

/-!
# Singly linked lists in a growing heap

Cells are allocated one after another and a pointer is the number of a cell.
`Lists heap nodes` says that the pointers lead through `nodes` and end there.
Cells are only linked to later ones, so that no list is longer than its heap.
-/

set_option autoImplicit false

namespace Umr.Lib.Linked

structure Cell (α : Type) where
  item : α
  next : Option Nat
  deriving DecidableEq, Repr

variable {α : Type}

def next (heap : List (Cell α)) (it : Nat) : Option Nat := heap[it]?.bind Cell.next

def lastFrom (heap : List (Cell α)) : Nat → Nat → Nat
  | 0, it => it
  | steps + 1, it =>
      match next heap it with
      | none => it
      | some following => lastFrom heap steps following

def listed (heap : List (Cell α)) : Nat → Nat → List Nat
  | 0, it => [it]
  | steps + 1, it =>
      match next heap it with
      | none => [it]
      | some following => it :: listed heap steps following

def items (heap : List (Cell α)) (nodes : List Nat) : List α :=
  nodes.filterMap fun it => heap[it]?.map Cell.item

def push (write : α → α) (fresh : α) (heap : List (Cell α)) (it : Nat) : List (Cell α) :=
  heap.modify it (fun old => ⟨write old.item, some heap.length⟩) ++ [⟨fresh, none⟩]

structure Lists (heap : List (Cell α)) (nodes : List Nat) : Prop where
  linked : nodes.IsChain fun it following => next heap it = some following
  closed : ∀ last ∈ nodes.getLast?, next heap last = none
  increasing : nodes.Pairwise (· < ·)
  within : ∀ it ∈ nodes, it < heap.length

theorem Lists.suffix {heap : List (Cell α)} {before nodes : List Nat}
    (lists : Lists heap (before ++ nodes)) (nonempty : nodes ≠ []) : Lists heap nodes where
  linked := lists.linked.right_of_append
  closed := by
    intro last isLast
    refine lists.closed last ?_
    rw [List.getLast?_append_of_ne_nil _ nonempty]
    exact isLast
  increasing := (List.pairwise_append.mp lists.increasing).2.1
  within := fun it member => lists.within it (List.mem_append_right _ member)

theorem Lists.subperm_range {heap : List (Cell α)} {nodes : List Nat}
    (lists : Lists heap nodes) : nodes.Subperm (List.range heap.length) := by
  have distinct : nodes.Nodup := lists.increasing.imp Nat.ne_of_lt
  refine List.Nodup.subperm distinct ?_
  intro it member
  exact List.mem_range.mpr (lists.within it member)

theorem Lists.length_le {heap : List (Cell α)} {nodes : List Nat} (lists : Lists heap nodes) :
    nodes.length ≤ heap.length := by
  have shorter := lists.subperm_range.length_le
  rwa [List.length_range] at shorter

/-- A list as long as the heap leaves out no cell. -/
theorem Lists.covers_iff {heap : List (Cell α)} {nodes : List Nat} (lists : Lists heap nodes) :
    (∀ it < heap.length, it ∈ nodes) ↔ nodes.length = heap.length := by
  constructor
  · intro covers
    have inside : List.range heap.length ⊆ nodes := by
      intro it member
      exact covers it (List.mem_range.mp member)
    have longer := (List.Nodup.subperm List.nodup_range inside).length_le
    rw [List.length_range] at longer
    exact Nat.le_antisymm lists.length_le longer
  · intro same it within
    have perm : nodes.Perm (List.range heap.length) := by
      refine lists.subperm_range.perm_of_length_le ?_
      rw [List.length_range, same]
    exact perm.mem_iff.mpr (List.mem_range.mpr within)

theorem Lists.length_items {heap : List (Cell α)} {nodes : List Nat} (lists : Lists heap nodes) :
    (items heap nodes).length = nodes.length := by
  refine List.filterMap_length_eq_length.mpr ?_
  intro it member
  rw [List.getElem?_eq_getElem (lists.within it member)]
  rfl

theorem Lists.next_head {heap : List (Cell α)} {it : Nat} {after : List Nat}
    (lists : Lists heap (it :: after)) : next heap it = after.head? := by
  cases after with
  | nil => exact lists.closed it rfl
  | cons following rest => exact (List.isChain_cons_cons.mp lists.linked).1

theorem Lists.tail {heap : List (Cell α)} {it following : Nat} {after : List Nat}
    (lists : Lists heap (it :: following :: after)) : Lists heap (following :: after) :=
  have shown : Lists heap ([it] ++ following :: after) := lists
  shown.suffix (List.cons_ne_nil _ _)

theorem Lists.lastFrom {heap : List (Cell α)} {it : Nat} {after : List Nat}
    (lists : Lists heap (it :: after)) {steps : Nat} (enough : after.length ≤ steps) :
    lastFrom heap steps it = (it :: after).getLast (List.cons_ne_nil _ _) := by
  induction after generalizing it steps with
  | nil =>
      have stop : next heap it = none := lists.next_head
      cases steps with
      | zero => rfl
      | succ steps => simp only [Linked.lastFrom, stop, List.getLast_singleton]
  | cons following after ih =>
      have go : next heap it = some following := lists.next_head
      cases steps with
      | zero => cases enough
      | succ steps =>
          simp only [Linked.lastFrom, go, List.getLast_cons_cons]
          exact ih lists.tail (Nat.le_of_succ_le_succ enough)

theorem Lists.listed {heap : List (Cell α)} {it : Nat} {after : List Nat}
    (lists : Lists heap (it :: after)) {steps : Nat} (enough : after.length ≤ steps) :
    listed heap steps it = it :: after := by
  induction after generalizing it steps with
  | nil =>
      have stop : next heap it = none := lists.next_head
      cases steps with
      | zero => rfl
      | succ steps => simp only [Linked.listed, stop]
  | cons following after ih =>
      have go : next heap it = some following := lists.next_head
      cases steps with
      | zero => cases enough
      | succ steps =>
          simp only [Linked.listed, go]
          rw [ih lists.tail (Nat.le_of_succ_le_succ enough)]

/-! ## Writing behind the end -/

section Push
variable {write : α → α} {fresh : α} {heap : List (Cell α)} {it : Nat}

@[simp]
theorem length_push : (push write fresh heap it).length = heap.length + 1 := by
  simp [push]

theorem getElem?_push_fresh : (push write fresh heap it)[heap.length]? = some ⟨fresh, none⟩ := by
  rw [push, List.getElem?_append_right (by simp)]
  simp

theorem getElem?_push_self (within : it < heap.length) :
    (push write fresh heap it)[it]? =
      heap[it]?.map fun old => ⟨write old.item, some heap.length⟩ := by
  rw [push, List.getElem?_append_left (by simpa using within), List.getElem?_modify_eq]
  rfl

theorem getElem?_push_other {other : Nat} (within : other < heap.length) (different : it ≠ other) :
    (push write fresh heap it)[other]? = heap[other]? := by
  rw [push, List.getElem?_append_left (by simpa using within), List.getElem?_modify_ne _ _ different]

theorem Lists.push {before after : List Nat} (lists : Lists heap (before ++ it :: after)) :
    Lists (push write fresh heap it) (before ++ [it, heap.length]) := by
  have itWithin : it < heap.length := lists.within it (by simp)
  have earlier : ∀ other ∈ before, other < it := by
    intro other member
    exact (List.pairwise_append.mp lists.increasing).2.2 other member it List.mem_cons_self
  have kept : ∀ other ∈ before,
      next (Linked.push write fresh heap it) other = next heap other := by
    intro other member
    have below := earlier other member
    rw [next, next, getElem?_push_other (by omega) (by omega)]
  refine ⟨?_, ?_, ?_, ?_⟩
  · have link : next (Linked.push write fresh heap it) it = some heap.length := by
      rw [next, getElem?_push_self itWithin, List.getElem?_eq_getElem itWithin]
      rfl
    obtain ⟨chain, -, joined⟩ := List.isChain_append.mp lists.linked
    refine List.isChain_append.mpr ⟨?_, List.isChain_pair.mpr link, ?_⟩
    · refine chain.imp_of_mem_imp ?_
      intro other following member _ linkedOn
      rw [kept other member]
      exact linkedOn
    · intro last isLast
      rw [kept last (List.mem_of_mem_getLast? isLast)]
      exact joined last isLast
  · intro last isLast
    have isFresh : last = heap.length := by simpa using isLast.symm
    rw [isFresh, next, getElem?_push_fresh]
    rfl
  · refine List.pairwise_append.mpr ⟨(List.pairwise_append.mp lists.increasing).1, ?_, ?_⟩
    · simpa using itWithin
    · intro other member node isNode
      have below := earlier other member
      simp only [List.mem_cons, List.not_mem_nil, or_false] at isNode
      omega
  · intro node member
    rw [length_push]
    simp only [List.mem_append, List.mem_cons, List.not_mem_nil, or_false] at member
    rcases member with inBefore | rfl | rfl
    · have below := earlier node inBefore
      omega
    · omega
    · omega

end Push

end Umr.Lib.Linked
