import Mathlib.Tactic.Common

/-!
# Runs of a partial step function

A step either yields the next state or faults.  `Safe` says that a whole run
stays inside an invariant and never faults; `Admitted` that every step of it is
taken in a state where a given condition holds.  When the condition describes
one step exactly, it describes every run exactly.
-/

set_option autoImplicit false

namespace Umr.Lib

section Run
variable {σ ι : Type} (step : ι → σ → Option σ)

def Safe (inv : σ → Prop) : List ι → σ → Prop
  | [], state => inv state
  | op :: ops, state => inv state ∧ ∃ next, step op state = some next ∧ Safe inv ops next

/-- Every step of the run is taken in a state that meets the condition. -/
def Admitted (ok : σ → ι → Prop) : List ι → σ → Prop
  | [], _ => True
  | op :: ops, state => ok state op ∧ ∀ next, step op state = some next → Admitted ok ops next

variable {step} {inv : σ → Prop} {ok : σ → ι → Prop}

theorem Safe.initial {ops : List ι} {state : σ} (safe : Safe step inv ops state) :
    inv state := by
  cases ops with
  | nil => exact safe
  | cons op ops => exact safe.1

theorem Safe.mono {other : σ → Prop} (weaker : ∀ state, inv state → other state) {ops : List ι}
    {state : σ} (safe : Safe step inv ops state) : Safe step other ops state := by
  induction ops generalizing state with
  | nil => exact weaker state safe
  | cons op ops ih =>
      obtain ⟨holds, next, taken, rest⟩ := safe
      exact ⟨weaker state holds, next, taken, ih rest⟩

/-- An exact description of one step is an exact description of every run. -/
theorem safe_iff_admitted
    (exact_ : ∀ state op, inv state →
      ((∃ next, step op state = some next ∧ inv next) ↔ ok state op)) :
    ∀ (ops : List ι) (state : σ), inv state →
      (Safe step inv ops state ↔ Admitted step ok ops state) := by
  intro ops
  induction ops with
  | nil => intro state holds; exact ⟨fun _ => trivial, fun _ => holds⟩
  | cons op ops ih =>
      intro state holds
      constructor
      · rintro ⟨_, next, taken, rest⟩
        refine ⟨(exact_ state op holds).mp ⟨next, taken, rest.initial⟩, ?_⟩
        intro other otherTaken
        have same : next = other := Option.some.inj (taken.symm.trans otherTaken)
        exact same ▸ (ih next rest.initial).mp rest
      · rintro ⟨admitted, rest⟩
        obtain ⟨next, taken, nextHolds⟩ := (exact_ state op holds).mpr admitted
        exact ⟨holds, next, taken, (ih next nextHolds).mpr (rest next taken)⟩

theorem safe_of_step {allowed : ι → Prop}
    (kept : ∀ state op, allowed op → inv state → ∃ next, step op state = some next ∧ inv next) :
    ∀ (ops : List ι), (∀ op ∈ ops, allowed op) → ∀ state, inv state → Safe step inv ops state := by
  intro ops
  induction ops with
  | nil => intro _ state holds; exact holds
  | cons op ops ih =>
      intro every state holds
      obtain ⟨next, taken, nextHolds⟩ := kept state op (every op List.mem_cons_self) holds
      refine ⟨holds, next, taken, ?_⟩
      exact ih (fun later member => every later (List.mem_cons_of_mem _ member)) next nextHolds

theorem admitted_congr {other : σ → ι → Prop}
    (same : ∀ state op, ok state op ↔ other state op) :
    ∀ (ops : List ι) (state : σ), Admitted step ok ops state ↔ Admitted step other ops state := by
  intro ops
  induction ops with
  | nil => intro state; exact Iff.rfl
  | cons op ops ih =>
      intro state
      refine and_congr (same state op) ?_
      exact forall_congr' fun next => imp_congr_right fun _ => ih next

end Run

end Umr.Lib
