import Mathlib.Tactic.Common

/-!
# Programs that may fault

Total correctness up to a set of tolerated faults for programs in
`StateT σ (Except ε)`: from the given state the program either ends in a state
that satisfies the postcondition or stops with a tolerated fault.  The rules
follow the program: one for `pure`, one for `bind`, one for each branch.
-/

set_option autoImplicit false

namespace Umr.Lib

section Guard
variable {σ ε α β : Type}

/-- From `state`, `prog` ends in `post` or stops with a tolerated fault. -/
def Guarded (tolerated : ε → Prop) (prog : StateT σ (Except ε) α) (state : σ)
    (post : α → σ → Prop) : Prop :=
  match prog state with
  | .ok (value, next) => post value next
  | .error fault => tolerated fault

variable {tolerated : ε → Prop} {state : σ}

theorem Guarded.pure {value : α} {post : α → σ → Prop} (holds : post value state) :
    Guarded tolerated (pure value : StateT σ (Except ε) α) state post := holds

theorem Guarded.of_ok {prog : StateT σ (Except ε) α} {value : α} {next : σ}
    {post : α → σ → Prop} (run : prog state = .ok (value, next)) (holds : post value next) :
    Guarded tolerated prog state post := by
  rw [Guarded, run]
  exact holds

theorem Guarded.tolerates {prog : StateT σ (Except ε) α} {post : α → σ → Prop} {fault : ε}
    (run : Guarded tolerated prog state post) (stopped : prog state = .error fault) :
    tolerated fault := by
  rw [Guarded, stopped] at run
  exact run

theorem stateM_bind {first : StateM σ α} {next : α → StateM σ β} {after : σ}
    {value : α} (run : first state = (value, after)) :
    (first >>= next) state = next value after := by
  change (fun pair : α × σ => next pair.1 pair.2) (first state) = _
  rw [run]

theorem bind_of_ok {prog : StateT σ (Except ε) α} {next : α → StateT σ (Except ε) β}
    {value : α} {middle : σ} (run : prog state = .ok (value, middle)) :
    (prog >>= next) state = next value middle := by
  change Except.bind (prog state) _ = _
  rw [run]
  rfl

theorem bind_of_error {prog : StateT σ (Except ε) α} {next : α → StateT σ (Except ε) β}
    {fault : ε} (stopped : prog state = .error fault) :
    (prog >>= next) state = .error fault := by
  change Except.bind (prog state) _ = _
  rw [stopped]
  rfl

theorem Guarded.bind {prog : StateT σ (Except ε) α} {next : α → StateT σ (Except ε) β}
    {mid : α → σ → Prop} {post : β → σ → Prop}
    (first : Guarded tolerated prog state mid)
    (second : ∀ value middle, mid value middle → Guarded tolerated (next value) middle post) :
    Guarded tolerated (prog >>= next) state post := by
  rw [Guarded] at first
  cases run : prog state with
  | error fault =>
      rw [run] at first
      rw [Guarded, bind_of_error run]
      exact first
  | ok pair =>
      rw [run] at first
      rw [Guarded, bind_of_ok run]
      exact second pair.1 pair.2 first

theorem Guarded.ite {condition : Prop} [Decidable condition]
    {yes no : StateT σ (Except ε) α} {post : α → σ → Prop}
    (whenTrue : condition → Guarded tolerated yes state post)
    (whenFalse : ¬ condition → Guarded tolerated no state post) :
    Guarded tolerated (if condition then yes else no) state post := by
  split
  · rename_i holds
    exact whenTrue holds
  · rename_i fails
    exact whenFalse fails

theorem Guarded.weaken {prog : StateT σ (Except ε) α} {strong weak : α → σ → Prop}
    (run : Guarded tolerated prog state strong)
    (implies : ∀ value next, strong value next → weak value next) :
    Guarded tolerated prog state weak := by
  rw [Guarded] at run ⊢
  cases outcome : prog state with
  | error fault => simpa [outcome] using run
  | ok pair =>
      rw [outcome] at run
      exact implies _ _ run

end Guard

section Ends
variable {ε α β : Type}

def Ends (prog : Except ε α) : Prop := ∃ value, prog = .ok value

theorem ends_ok (value : α) : Ends (.ok value : Except ε α) := ⟨value, rfl⟩

theorem ends_pure (value : α) : Ends (pure value : Except ε α) := ⟨value, rfl⟩

theorem not_ends_error (fault : ε) : ¬ Ends (.error fault : Except ε α) := by
  rintro ⟨value, ended⟩
  cases ended

theorem ok_bind (value : α) (next : α → Except ε β) : (.ok value >>= next) = next value := rfl

theorem bind_ok {prog : Except ε α} {next : α → Except ε β} {result : β}
    (ran : (prog >>= next) = .ok result) : ∃ value, prog = .ok value ∧ next value = .ok result := by
  cases prog with
  | error fault => cases ran
  | ok value => exact ⟨value, rfl, ran⟩

theorem ends_bind {prog : Except ε α} {next : α → Except ε β} :
    Ends (prog >>= next) ↔ ∃ value, prog = .ok value ∧ Ends (next value) := by
  cases prog with
  | error fault =>
      refine iff_of_false (not_ends_error fault) ?_
      rintro ⟨value, ended, -⟩
      cases ended
  | ok value =>
      refine ⟨fun ends => ⟨value, rfl, ends⟩, ?_⟩
      rintro ⟨other, same, ends⟩
      cases same
      exact ends

theorem ends_ite {condition : Prop} [Decidable condition] {yes no : Except ε α} :
    Ends (if condition then yes else no) ↔
      (condition → Ends yes) ∧ (¬ condition → Ends no) := by
  by_cases holds : condition
  · rw [if_pos holds]
    exact ⟨fun ends => ⟨fun _ => ends, fun not_ => absurd holds not_⟩, fun both => both.1 holds⟩
  · rw [if_neg holds]
    exact ⟨fun ends => ⟨fun yes_ => absurd yes_ holds, fun _ => ends⟩, fun both => both.2 holds⟩

/-- Where the value does not matter to what comes behind. -/
theorem ends_bind_of {prog : Except ε α} {next : α → Except ε β} {rest : Prop}
    (same : ∀ value, Ends (next value) ↔ rest) : Ends (prog >>= next) ↔ Ends prog ∧ rest := by
  rw [ends_bind]
  constructor
  · rintro ⟨value, ended, ends⟩
    exact ⟨⟨value, ended⟩, (same value).mp ends⟩
  · rintro ⟨⟨value, ended⟩, holds⟩
    exact ⟨value, ended, (same value).mpr holds⟩

/-- What is only printed or returned behind a program does not matter. -/
theorem ends_map {prog : Except ε α} {shown : α → β} :
    Ends (prog >>= fun value => pure (shown value)) ↔ Ends prog :=
  (ends_bind_of fun value => iff_of_true (ends_pure (shown value)) trivial).trans
    (and_iff_left trivial)

end Ends

end Umr.Lib
