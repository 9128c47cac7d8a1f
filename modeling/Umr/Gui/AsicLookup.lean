import Mathlib.Data.List.Infix
import Mathlib.Tactic.Common

/-!
# The ASIC of a request

How `umr_process_json_request` of `commands.c` starts: the table of the enumerated
ASICs is searched, and a command that needs an ASIC must have one.
-/

set_option autoImplicit false

namespace Umr.Gui

structure AsicKey where
  did : UInt32
  instance_ : Int32
  deriving DecidableEq, Repr

/-- `asics[16]`; a slot that is not used is `NULL`. -/
abbrev AsicTable := Vector (Option AsicKey) 16

/-- The fields of a request that are looked at; the numbers of `asic` as they are converted. -/
structure JsonRequest where
  command : Option (List Char)
  asic : Option AsicKey
  deriving DecidableEq, Repr

/-- What becomes of a request before its command is looked at. -/
inductive RequestStart where
  | error (lastError : List Char)
  | go (command : List Char) (asic : Option Nat)
  /-- A slot behind the table was read. -/
  | overread
  deriving DecidableEq, Repr

def asiclessCommands : List (List Char) :=
  ["enumerate".toList, "ping".toList, "tracing".toList, "read-trace-buffer".toList]

/-- The loop ends with an ASIC, or behind the table. -/
def findAsic (key : AsicKey) : Nat → List (Option AsicKey) → Option Nat
  | _, [] => none
  | i, slot :: slots => if slot = some key then some i else findAsic key (i + 1) slots

def checkAsic (command : List Char) (asic : Option Nat) : RequestStart :=
  if asic = none ∧ command ∉ asiclessCommands then .error "asic not found".toList
  else .go command asic

def umrProcessJsonRequest (asics : AsicTable) (request : JsonRequest) : RequestStart :=
  match request.command with
  | none => .error "missing command".toList
  | some command =>
      match request.asic with
      | none => checkAsic command none
      | some key =>
          match findAsic key 0 asics.toList with
          | none => .overread
          | some i => checkAsic command (some i)

/-! ## The search -/

section Search
variable {key : AsicKey}

theorem findAsic_some {slots : List (Option AsicKey)} {start i : Nat}
    (found : findAsic key start slots = some i) :
    start ≤ i ∧ slots[i - start]? = some (some key) := by
  induction slots generalizing start with
  | nil => cases found
  | cons slot slots ih =>
      rw [findAsic] at found
      by_cases here : slot = some key
      · rw [if_pos here] at found
        cases found
        rw [Nat.sub_self, here]
        exact ⟨Nat.le_refl _, rfl⟩
      · rw [if_neg here] at found
        obtain ⟨later, inSlots⟩ := ih found
        have place : i - start = i - (start + 1) + 1 := by omega
        rw [place, List.getElem?_cons_succ]
        exact ⟨Nat.le_of_succ_le later, inSlots⟩

/-- The loop comes to an end inside the table exactly if the ASIC is in it. -/
theorem findAsic_eq_none_iff {slots : List (Option AsicKey)} (start : Nat) :
    findAsic key start slots = none ↔ some key ∉ slots := by
  induction slots generalizing start with
  | nil => exact iff_of_true rfl List.not_mem_nil
  | cons slot slots ih =>
      rw [findAsic, List.mem_cons, not_or]
      by_cases here : slot = some key
      · rw [if_pos here]
        exact iff_of_false (Option.some_ne_none _) (fun both => both.1 here.symm)
      · rw [if_neg here, ih]
        exact (and_iff_right (Ne.symm here)).symm

end Search

/-! ## The answer -/

/-- A request that names an ASIC gets it, or goes on without one, or is an error. -/
inductive Answered (asics : AsicTable) (command : List Char) (key : AsicKey) : RequestStart → Prop where
  | selected (i : Nat) (enumerated : asics[i]? = some (some key)) :
      Answered asics command key (.go command (some i))
  | asicless (unknown : some key ∉ asics.toList) (needsNone : command ∈ asiclessCommands) :
      Answered asics command key (.go command none)
  | notFound (unknown : some key ∉ asics.toList) (needsOne : command ∉ asiclessCommands) :
      Answered asics command key (.error "asic not found".toList)

theorem umrProcessJsonRequest_unknown {asics : AsicTable} {key : AsicKey}
    (unknown : some key ∉ asics.toList) (command : List Char) :
    umrProcessJsonRequest asics ⟨some command, some key⟩ = .overread := by
  rw [umrProcessJsonRequest]
  dsimp only
  rw [(findAsic_eq_none_iff 0).mpr unknown]

theorem umrProcessJsonRequest_known {asics : AsicTable} {key : AsicKey}
    (known : some key ∈ asics.toList) (command : List Char) :
    ∃ i, asics[i]? = some (some key) ∧
      umrProcessJsonRequest asics ⟨some command, some key⟩ = .go command (some i) := by
  cases found : findAsic key 0 asics.toList with
  | none => exact absurd known ((findAsic_eq_none_iff 0).mp found)
  | some i =>
      obtain ⟨-, inTable⟩ := findAsic_some found
      refine ⟨i, by simpa using inTable, ?_⟩
      rw [umrProcessJsonRequest]
      dsimp only
      rw [found]
      rfl

/-- A request is answered exactly if the ASIC it names has been enumerated. -/
theorem umrProcessJsonRequest_answered_iff (asics : AsicTable) (command : List Char)
    (key : AsicKey) :
    Answered asics command key (umrProcessJsonRequest asics ⟨some command, some key⟩) ↔
      some key ∈ asics.toList := by
  by_cases known : some key ∈ asics.toList
  · obtain ⟨i, enumerated, start⟩ := umrProcessJsonRequest_known known command
    rw [start]
    exact iff_of_true (.selected i enumerated) known
  · rw [umrProcessJsonRequest_unknown known]
    refine iff_of_false ?_ known
    intro answered
    cases answered

/-- Without an ASIC in the request the table is not searched. -/
theorem umrProcessJsonRequest_unnamed (asics : AsicTable) (command : List Char) :
    umrProcessJsonRequest asics ⟨some command, none⟩ =
      if command ∈ asiclessCommands then .go command none
      else .error "asic not found".toList := by
  rw [umrProcessJsonRequest]
  dsimp only
  rw [checkAsic, ite_and, if_pos rfl, ite_not]

def oneAsic : AsicTable := (Vector.replicate 16 none).set 0 (some ⟨0x73BF, 0⟩)

/-- The second of two equal cards, where there is only one. -/
theorem secondAsic_overread :
    umrProcessJsonRequest oneAsic ⟨some "waves".toList, some ⟨0x73BF, 1⟩⟩ = .overread ∧
      ¬ Answered oneAsic "waves".toList ⟨0x73BF, 1⟩
        (umrProcessJsonRequest oneAsic ⟨some "waves".toList, some ⟨0x73BF, 1⟩⟩) := by
  have start : umrProcessJsonRequest oneAsic ⟨some "waves".toList, some ⟨0x73BF, 1⟩⟩ = .overread := by
    decide
  refine ⟨start, ?_⟩
  rw [start]
  intro answered
  cases answered

end Umr.Gui
