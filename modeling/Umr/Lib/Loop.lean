import Mathlib.Data.List.Infix

/-!
# Loops that may not end

A turn of a loop either ends it with a result or goes round again.  `loop` runs at most
`fuel` turns, `visited` lists the states at which these turns begin, and `EndsWithin` bounds
how often a loop goes round again without running it.
-/

set_option autoImplicit false

namespace Umr.Lib

inductive Turn (σ ρ : Type) where
  | again (next : σ)
  | done (result : ρ)
  deriving DecidableEq

section Loop
variable {σ ρ : Type} (step : σ → Turn σ ρ)

def loop : Nat → σ → Option ρ
  | 0, _ => none
  | fuel + 1, state =>
      match step state with
      | .again next => loop fuel next
      | .done result => some result

def visited : Nat → σ → List σ
  | 0, _ => []
  | fuel + 1, state =>
      match step state with
      | .again next => state :: visited fuel next
      | .done _ => [state]

def rounds : Nat → σ → Nat
  | 0, _ => 0
  | fuel + 1, state =>
      match step state with
      | .again next => rounds fuel next + 1
      | .done _ => 0

def EndsWithin : Nat → σ → Prop
  | 0, state => ∃ result, step state = .done result
  | count + 1, state =>
      match step state with
      | .again next => EndsWithin count next
      | .done _ => True

variable {step} {state next : σ} {result : ρ}

theorem loop_again (turn : step state = .again next) (fuel : Nat) :
    loop step (fuel + 1) state = loop step fuel next := by
  rw [loop, turn]

theorem loop_done (turn : step state = .done result) (fuel : Nat) :
    loop step (fuel + 1) state = some result := by
  rw [loop, turn]

theorem visited_again (turn : step state = .again next) (fuel : Nat) :
    visited step (fuel + 1) state = state :: visited step fuel next := by
  rw [visited, turn]

theorem visited_done (turn : step state = .done result) (fuel : Nat) :
    visited step (fuel + 1) state = [state] := by
  rw [visited, turn]

theorem start_visited (fuel : Nat) : state ∈ visited step (fuel + 1) state := by
  cases turn : step state with
  | again next =>
      rw [visited_again turn]
      exact List.mem_cons_self
  | done result =>
      rw [visited_done turn]
      exact List.mem_singleton_self state

/-- A result does not depend on the fuel that is left over. -/
theorem loop_fuel {fuel more : Nat} (le : fuel ≤ more) (ended : loop step fuel state = some result) :
    loop step more state = some result ∧ visited step more state = visited step fuel state := by
  induction fuel generalizing more state with
  | zero => cases ended
  | succ fuel ih =>
      obtain ⟨more, rfl⟩ := Nat.exists_eq_add_of_le' (Nat.le_trans (Nat.le_add_left 1 fuel) le)
      cases turn : step state with
      | again next =>
          rw [loop_again turn] at ended
          obtain ⟨same, path⟩ := ih (Nat.le_of_succ_le_succ le) ended
          rw [loop_again turn, visited_again turn, visited_again turn, path]
          exact ⟨same, rfl⟩
      | done other =>
          rw [loop_done turn] at ended
          rw [loop_done turn, visited_done turn, visited_done turn]
          exact ⟨ended, rfl⟩

theorem rounds_mono {fuel more : Nat} (le : fuel ≤ more) (state : σ) :
    rounds step fuel state ≤ rounds step more state := by
  induction fuel generalizing more state with
  | zero => exact Nat.zero_le _
  | succ fuel ih =>
      obtain ⟨more, rfl⟩ := Nat.exists_eq_add_of_le' (Nat.le_trans (Nat.le_add_left 1 fuel) le)
      rw [rounds, rounds]
      cases step state with
      | again next => exact Nat.succ_le_succ (ih (Nat.le_of_succ_le_succ le) next)
      | done result => exact le_refl 0

theorem endsWithin_iff_loop {count : Nat} :
    EndsWithin step count state ↔ (loop step (count + 1) state).isSome = true := by
  induction count generalizing state with
  | zero =>
      rw [EndsWithin]
      cases turn : step state with
      | again next =>
          rw [loop_again turn]
          exact ⟨nofun, nofun⟩
      | done result =>
          rw [loop_done turn]
          exact ⟨fun _ => rfl, fun _ => ⟨result, rfl⟩⟩
  | succ count ih =>
      rw [EndsWithin]
      cases turn : step state with
      | again next =>
          rw [loop_again turn]
          exact ih
      | done result =>
          rw [loop_done turn]
          exact ⟨fun _ => rfl, fun _ => trivial⟩

/-- The bound is on the turns of every run, however long. -/
theorem endsWithin_iff_rounds {count : Nat} :
    EndsWithin step count state ↔ ∀ fuel, rounds step fuel state ≤ count := by
  induction count generalizing state with
  | zero =>
      constructor
      · rintro ⟨result, turn⟩ fuel
        cases fuel with
        | zero => exact le_refl 0
        | succ fuel => rw [rounds, turn]
      · intro bound
        have once := bound 1
        cases turn : step state with
        | again next =>
            rw [rounds, turn] at once
            cases once
        | done result => exact ⟨result, turn⟩
  | succ count ih =>
      cases turn : step state with
      | again next =>
          rw [EndsWithin, turn]
          refine ih.trans ⟨fun bound fuel => ?_, fun bound fuel => ?_⟩
          · cases fuel with
            | zero => exact Nat.zero_le _
            | succ fuel =>
                rw [rounds, turn]
                exact Nat.succ_le_succ (bound fuel)
          · have longer := bound (fuel + 1)
            rw [rounds, turn] at longer
            exact Nat.le_of_succ_le_succ longer
      | done result =>
          rw [EndsWithin, turn]
          refine ⟨fun _ fuel => ?_, fun _ => trivial⟩
          cases fuel with
          | zero => exact Nat.zero_le _
          | succ fuel =>
              rw [rounds, turn]
              exact Nat.zero_le _

/-- A turn that leads back to its own state repeats for ever. -/
theorem loop_cycle (turn : step state = .again state) (fuel : Nat) :
    loop step fuel state = none := by
  induction fuel with
  | zero => rfl
  | succ fuel ih => rw [loop_again turn, ih]

/-- A measure that falls with every round ends the loop. -/
theorem loop_of_measure (inv : σ → Prop) (size : σ → Nat)
    (falls : ∀ state next, inv state → step state = .again next →
      inv next ∧ size next < size state)
    {fuel : Nat} (start : inv state) (enough : size state < fuel) :
    ∃ result, loop step fuel state = some result := by
  induction fuel generalizing state with
  | zero => cases enough
  | succ fuel ih =>
      cases turn : step state with
      | again next =>
          obtain ⟨kept, smaller⟩ := falls state next start turn
          rw [loop_again turn]
          exact ih kept (by omega)
      | done result => exact ⟨result, loop_done turn fuel⟩

/-- What holds at the start and is kept by every round holds wherever a turn begins. -/
theorem visited_invariant {inv : σ → Prop}
    (kept : ∀ state next, inv state → step state = .again next → inv next)
    {fuel : Nat} (start : inv state) : ∀ visit ∈ visited step fuel state, inv visit := by
  induction fuel generalizing state with
  | zero => exact nofun
  | succ fuel ih =>
      intro visit member
      cases turn : step state with
      | again next =>
          rw [visited_again turn] at member
          rcases List.mem_cons.mp member with rfl | later
          · exact start
          · exact ih (kept state next start turn) visit later
      | done result =>
          rw [visited_done turn] at member
          rwa [List.mem_singleton.mp member]

/-- The result comes from the last turn. -/
theorem loop_result {fuel : Nat} (ended : loop step fuel state = some result) :
    ∃ visit ∈ visited step fuel state, step visit = .done result := by
  induction fuel generalizing state with
  | zero => cases ended
  | succ fuel ih =>
      cases turn : step state with
      | again next =>
          rw [loop_again turn] at ended
          obtain ⟨visit, member, last⟩ := ih ended
          rw [visited_again turn]
          exact ⟨visit, List.mem_cons_of_mem _ member, last⟩
      | done other =>
          rw [loop_done turn] at ended
          rw [visited_done turn]
          exact ⟨state, List.mem_singleton_self state, by rw [turn, Option.some.inj ended]⟩

theorem loop_at_done {fuel : Nat} {visit : σ} (member : visit ∈ visited step fuel state)
    (stops : step visit = .done result) : loop step fuel state = some result := by
  induction fuel generalizing state with
  | zero => cases member
  | succ fuel ih =>
      cases turn : step state with
      | again next =>
          rw [visited_again turn] at member
          rw [loop_again turn]
          rcases List.mem_cons.mp member with rfl | later
          · cases turn.symm.trans stops
          · exact ih later
      | done other =>
          rw [visited_done turn] at member
          rw [List.mem_singleton.mp member] at stops
          exact loop_done stops fuel

variable {other : σ → Turn σ ρ}

/-- Loops that agree on every visited state run alike. -/
theorem loop_congr {fuel : Nat} (same : ∀ visit ∈ visited step fuel state, other visit = step visit) :
    loop other fuel state = loop step fuel state ∧
      visited other fuel state = visited step fuel state := by
  induction fuel generalizing state with
  | zero => exact ⟨rfl, rfl⟩
  | succ fuel ih =>
      cases turn : step state with
      | again next =>
          rw [visited_again turn] at same
          have here := (same state List.mem_cons_self).trans turn
          obtain ⟨results, paths⟩ := ih fun visit member => same visit (List.mem_cons_of_mem _ member)
          rw [loop_again turn, loop_again here, visited_again turn, visited_again here, paths]
          exact ⟨results, rfl⟩
      | done result =>
          rw [visited_done turn] at same
          have here := (same state (List.mem_singleton_self state)).trans turn
          rw [loop_done turn, loop_done here, visited_done turn, visited_done here]
          exact ⟨rfl, rfl⟩

/-- A loop that takes the same turns but may stop early visits no other states. -/
theorem visited_of_early {fuel : Nat}
    (early : ∀ visit, other visit = step visit ∨ ∃ result, other visit = .done result) :
    visited other fuel state <+: visited step fuel state := by
  induction fuel generalizing state with
  | zero => exact List.prefix_rfl
  | succ fuel ih =>
      rcases early state with same | ⟨result, stopped⟩
      · cases turn : step state with
        | again next =>
            rw [visited_again turn, visited_again (same.trans turn)]
            exact (List.prefix_cons_inj state).mpr ih
        | done result =>
            rw [visited_done turn, visited_done (same.trans turn)]
      · rw [visited_done stopped]
        cases turn : step state with
        | again next =>
            rw [visited_again turn]
            exact ⟨_, rfl⟩
        | done result => rw [visited_done turn]

end Loop

/-! ## Turns that may fault -/

section Faulting
variable {σ ρ ε : Type} (step : σ → Except ε (Turn σ ρ))

/-- At most `fuel` turns; nothing is returned where that is not enough. -/
def faultingLoop : Nat → σ → Except ε (Option ρ)
  | 0, _ => .ok none
  | fuel + 1, state =>
      match step state with
      | .error fault => .error fault
      | .ok (.again next) => faultingLoop fuel next
      | .ok (.done result) => .ok (some result)

def EndsWell (state : σ) : Prop := ∃ fuel result, faultingLoop step fuel state = .ok (some result)

inductive ReachedFrom (start : σ) : σ → Prop
  | start : ReachedFrom start start
  | again {state next : σ} (reached : ReachedFrom start state)
      (turn : step state = .ok (.again next)) : ReachedFrom start next

variable {step} {state next : σ}

theorem endsWell_again (turn : step state = .ok (.again next)) :
    EndsWell step state ↔ EndsWell step next := by
  constructor
  · rintro ⟨fuel, result, run⟩
    cases fuel with
    | zero => cases run
    | succ fuel =>
        rw [faultingLoop, turn] at run
        exact ⟨fuel, result, run⟩
  · rintro ⟨fuel, result, run⟩
    refine ⟨fuel + 1, result, ?_⟩
    rw [faultingLoop, turn]
    exact run

theorem endsWell_done {result : ρ} (turn : step state = .ok (.done result)) : EndsWell step state :=
  ⟨1, result, by rw [faultingLoop, turn]⟩

theorem not_endsWell_fault {fault : ε} (turn : step state = .error fault) :
    ¬ EndsWell step state := by
  rintro ⟨fuel, result, run⟩
  cases fuel with
  | zero => cases run
  | succ fuel =>
      rw [faultingLoop, turn] at run
      cases run

/-- Fuel that is left over changes nothing. -/
theorem faultingLoop_more {fuel more : Nat} {result : ρ}
    (run : faultingLoop step fuel state = .ok (some result)) (le : fuel ≤ more) :
    faultingLoop step more state = .ok (some result) := by
  induction fuel generalizing state more with
  | zero => cases run
  | succ fuel ih =>
      obtain ⟨more, rfl⟩ : ∃ less, more = less + 1 := ⟨more - 1, by omega⟩
      rw [faultingLoop] at run ⊢
      split at run
      · cases run
      · exact ih run (Nat.le_of_succ_le_succ le)
      · exact run

theorem ReachedFrom.endsWell {start : σ} (reached : ReachedFrom step start state)
    (ends : EndsWell step start) : EndsWell step state := by
  induction reached with
  | start => exact ends
  | again _ turn ih => exact (endsWell_again turn).mp ih

variable {rank : σ → Nat}

/-- A loop that descends has turns enough, with a result or a fault. -/
theorem faultingLoop_halts
    (descends : ∀ {state next}, step state = .ok (.again next) → rank next < rank state) :
    ∀ {fuel : Nat} {state : σ}, rank state < fuel → faultingLoop step fuel state ≠ .ok none := by
  intro fuel
  induction fuel with
  | zero => exact fun few => absurd few (Nat.not_lt_zero _)
  | succ fuel ih =>
      intro state few
      rw [faultingLoop]
      split
      · exact fun same => by cases same
      · next turn => exact ih (by have less := descends turn; omega)
      · exact fun same => by cases same

/-- A loop that descends ends well exactly if no turn faults. -/
theorem endsWell_iff {start : σ}
    (descends : ∀ {state next}, step state = .ok (.again next) → rank next < rank state) :
    EndsWell step start ↔ ∀ state, ReachedFrom step start state → ∃ turn, step state = .ok turn := by
  constructor
  · intro ends state reached
    cases turn : step state with
    | error fault => exact absurd (reached.endsWell ends) (not_endsWell_fault turn)
    | ok turned => exact ⟨turned, rfl⟩
  · intro fine
    have from_ : ∀ {bound : Nat} {state : σ}, rank state < bound → ReachedFrom step start state →
        EndsWell step state := by
      intro bound
      induction bound with
      | zero => exact fun few => absurd few (Nat.not_lt_zero _)
      | succ bound ih =>
          intro state few reached
          obtain ⟨turned, turn⟩ := fine state reached
          cases turned with
          | done result => exact endsWell_done turn
          | again next =>
              have less := descends turn
              exact (endsWell_again turn).mpr (ih (by omega) (reached.again turn))
    exact from_ (Nat.lt_succ_self _) .start

end Faulting

end Umr.Lib
