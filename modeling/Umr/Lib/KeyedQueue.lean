import Mathlib.Logic.Function.Basic
import Mathlib.Data.List.TakeDrop

/-!
# Values drawn from queues

A recorded run is played back from one queue of values for each key.  The values
that come back are the recorded ones exactly when, for each key, the recorded
values are the first ones of its queue.
-/

set_option autoImplicit false

namespace Umr.Lib

/-- Where a request gets its value from. -/
inductive Source (Key Value : Type) where
  | fixed (value : Value)
  | queue (key : Key)

section Queues
variable {Key Value : Type} [DecidableEq Key] (absent : Value)

/-- The value for a request and the queues behind it; `absent` is given when the
queue has run out. -/
def draw (queues : Key → List Value) : Source Key Value → Value × (Key → List Value)
  | .fixed value => (value, queues)
  | .queue key => ((queues key).head?.getD absent, Function.update queues key (queues key).tail)

def draws : (Key → List Value) → List (Source Key Value) → List Value
  | _, [] => []
  | queues, source :: sources =>
      (draw absent queues source).1 :: draws (draw absent queues source).2 sources

def valuesAt (key : Key) : List (Source Key Value × Value) → List Value
  | [] => []
  | (.fixed _, _) :: run => valuesAt key run
  | (.queue other, value) :: run =>
      if other = key then value :: valuesAt key run else valuesAt key run

/-- `run` is what the queues give back. -/
structure PlaysBack (queues : Key → List Value) (run : List (Source Key Value × Value)) : Prop where
  fixed : ∀ value recorded, (Source.fixed value, recorded) ∈ run → recorded = value
  queued : ∀ key, valuesAt key run = (queues key).takeD (valuesAt key run).length absent

theorem playsBack_fixed_cons (queues : Key → List Value) (value recorded : Value)
    (run : List (Source Key Value × Value)) :
    PlaysBack absent queues ((.fixed value, recorded) :: run) ↔
      recorded = value ∧ PlaysBack absent queues run := by
  constructor
  · intro plays
    refine ⟨plays.fixed value recorded (List.mem_cons_self ..), ?_, plays.queued⟩
    exact fun other same member => plays.fixed other same (List.mem_cons_of_mem _ member)
  · rintro ⟨same, plays⟩
    refine ⟨?_, plays.queued⟩
    intro other again member
    rcases List.mem_cons.mp member with head | tail
    · cases head
      exact same
    · exact plays.fixed other again tail

theorem playsBack_queue_cons (queues : Key → List Value) (key : Key) (recorded : Value)
    (run : List (Source Key Value × Value)) :
    PlaysBack absent queues ((.queue key, recorded) :: run) ↔
      recorded = (queues key).head?.getD absent ∧
        PlaysBack absent (Function.update queues key (queues key).tail) run := by
  have here : valuesAt key ((.queue key, recorded) :: run) = recorded :: valuesAt key run :=
    if_pos rfl
  have elsewhere : ∀ other, other ≠ key →
      valuesAt other ((.queue key, recorded) :: run) = valuesAt other run :=
    fun other different => if_neg (Ne.symm different)
  constructor
  · intro plays
    have queued := plays.queued key
    rw [here, List.length_cons, List.takeD_succ, List.cons_eq_cons] at queued
    refine ⟨queued.1, fun value same member => plays.fixed value same
      (List.mem_cons_of_mem _ member), fun other => ?_⟩
    by_cases same : other = key
    · subst same
      rw [Function.update_self]
      exact queued.2
    · rw [Function.update_of_ne same]
      have untouched := plays.queued other
      rwa [elsewhere other same] at untouched
  · rintro ⟨first, plays⟩
    refine ⟨fun value same member => ?_, fun other => ?_⟩
    · rcases List.mem_cons.mp member with head | tail
      · cases head
      · exact plays.fixed value same tail
    · have queued := plays.queued other
      by_cases same : other = key
      · subst same
        rw [Function.update_self] at queued
        rw [here, List.length_cons, List.takeD_succ, ← queued, first]
      · rw [Function.update_of_ne same] at queued
        rw [elsewhere other same]
        exact queued

theorem draws_eq_iff (run : List (Source Key Value × Value)) : ∀ queues : Key → List Value,
    draws absent queues (run.map Prod.fst) = run.map Prod.snd ↔ PlaysBack absent queues run := by
  induction run with
  | nil =>
      intro queues
      refine ⟨fun _ => ⟨?_, ?_⟩, fun _ => rfl⟩
      · exact fun _ _ member => nomatch member
      · exact fun _ => rfl
  | cons request run ih =>
      intro queues
      obtain ⟨source, recorded⟩ := request
      rw [List.map_cons, List.map_cons, draws, List.cons_eq_cons, ih]
      cases source with
      | fixed value =>
          rw [playsBack_fixed_cons]
          exact and_congr_left' eq_comm
      | queue key =>
          rw [playsBack_queue_cons]
          exact and_congr_left' eq_comm

end Queues

end Umr.Lib
