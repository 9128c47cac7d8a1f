import Mathlib.Data.List.Basic
import Mathlib.Tactic.Common

/-!
# Sequential readers and writers

A reader or writer is a fallible state transformer `StateT σ Option`; `none`
is a fault of the underlying storage.  `Reads` says that a reader consumes a
given prefix of the unread part of the state and returns a given value;
`emitAll` is the writer that appends a list of chunks one by one.  Both laws
compose along `bind` and along a counted loop, which is all a serializer and
its parser need.
-/

set_option autoImplicit false

namespace Umr.Lib

theorem flatten_flatMap {α τ : Type} (items : List α) (chunks : α → List (List τ)) :
    (items.flatMap chunks).flatten = items.flatMap fun item => (chunks item).flatten := by
  induction items with
  | nil => rfl
  | cons item rest ih => rw [List.flatMap_cons, List.flatten_append, ih, List.flatMap_cons]

section Read
variable {σ τ α β : Type}

/-- On every good state whose unread part starts with `items`, the reader
returns `value` and leaves exactly the rest unread. -/
def Reads (good : σ → Prop) (unread : σ → List τ) (reader : StateT σ Option α)
    (items : List τ) (value : α) : Prop :=
  ∀ state rest, good state → unread state = items ++ rest →
    ∃ next, reader state = some (value, next) ∧ good next ∧ unread next = rest

variable {good : σ → Prop} {unread : σ → List τ}

theorem Reads.pure (value : α) :
    Reads good unread (pure value : StateT σ Option α) [] value := by
  intro state rest isGood split
  exact ⟨state, rfl, isGood, by simpa using split⟩

theorem Reads.bind {reader : StateT σ Option α} {next : α → StateT σ Option β}
    {items more : List τ} {value : α} {result : β}
    (first : Reads good unread reader items value)
    (second : Reads good unread (next value) more result) :
    Reads good unread (reader >>= next) (items ++ more) result := by
  intro state rest isGood split
  rw [List.append_assoc] at split
  obtain ⟨middle, run, middleGood, middleUnread⟩ := first state _ isGood split
  obtain ⟨final, runRest, finalGood, finalUnread⟩ :=
    second middle rest middleGood middleUnread
  refine ⟨final, ?_, finalGood, finalUnread⟩
  change (reader state).bind (fun pair => next pair.1 pair.2) = _
  rw [run]
  exact runRest

theorem Reads.map {reader : StateT σ Option α} {items : List τ} {value : α}
    (build : α → β) (first : Reads good unread reader items value) :
    Reads good unread (reader >>= fun x => Pure.pure (build x)) items (build value) := by
  have composed : Reads good unread (reader >>= fun x => Pure.pure (build x))
      (items ++ []) (build value) := by
    apply Reads.bind first
    exact Reads.pure (build value)
  simpa using composed

def readMany (reader : StateT σ Option α) : Nat → StateT σ Option (List α)
  | 0 => Pure.pure []
  | n + 1 => do
      let head ← reader
      let tail ← readMany reader n
      Pure.pure (head :: tail)

theorem Reads.readMany {γ : Type} {reader : StateT σ Option α}
    (encode : γ → List τ) (decoded : γ → α) (values : List γ)
    (each : ∀ value ∈ values, Reads good unread reader (encode value) (decoded value)) :
    Reads good unread (readMany reader values.length) (values.flatMap encode)
      (values.map decoded) := by
  induction values with
  | nil => exact Reads.pure []
  | cons head tail ih =>
      have headReads := each head (List.mem_cons_self ..)
      have tailReads := ih fun value member => each value (List.mem_cons_of_mem _ member)
      exact headReads.bind (tailReads.map fun decodedTail => decoded head :: decodedTail)

end Read

section Write
variable {σ τ : Type}

def emitAll (append : List τ → StateT σ Option Unit) :
    List (List τ) → StateT σ Option Unit
  | [] => Pure.pure ()
  | chunk :: rest => do
      append chunk
      emitAll append rest

theorem emitAll_append (append : List τ → StateT σ Option Unit)
    (left right : List (List τ)) :
    emitAll append (left ++ right) = (do emitAll append left; emitAll append right) := by
  induction left with
  | nil => simp [emitAll]
  | cons chunk rest ih => simp [emitAll, ih]

def writeMany {γ : Type} (body : γ → StateT σ Option Unit) :
    List γ → StateT σ Option Unit
  | [] => Pure.pure ()
  | item :: rest => do
      body item
      writeMany body rest

theorem writeMany_eq_emitAll {γ : Type} (append : List τ → StateT σ Option Unit)
    (body : γ → StateT σ Option Unit) (chunks : γ → List (List τ))
    (each : ∀ item, body item = emitAll append (chunks item)) (items : List γ) :
    writeMany body items = emitAll append (items.flatMap chunks) := by
  induction items with
  | nil => simp [emitAll, writeMany]
  | cons head tail ih =>
      simp only [writeMany, List.flatMap_cons, emitAll_append, each head, ih]

end Write

end Umr.Lib
