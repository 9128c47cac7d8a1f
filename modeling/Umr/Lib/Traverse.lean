import Mathlib.Data.List.Basic

/-!
# Lists gone through with a result or none

`List.mapM` and `List.foldlM` in `Option`: what a result says of each element.
-/

set_option autoImplicit false

namespace Umr.Lib

section MapM
variable {α β : Type} {f : α → Option β} {a : α} {as : List α} {bs : List β}

theorem mapM_cons_some (mapped : (a :: as).mapM f = some bs) :
    ∃ b rest, f a = some b ∧ as.mapM f = some rest ∧ bs = b :: rest := by
  rw [List.mapM_cons] at mapped
  obtain ⟨b, first, mapped⟩ := Option.bind_eq_some_iff.mp mapped
  obtain ⟨rest, later, mapped⟩ := Option.bind_eq_some_iff.mp mapped
  exact ⟨b, rest, first, later, (Option.some.inj mapped).symm⟩

theorem mapM_length (mapped : as.mapM f = some bs) : bs.length = as.length := by
  induction as generalizing bs with
  | nil =>
      cases mapped
      rfl
  | cons a as ih =>
      obtain ⟨b, rest, -, later, rfl⟩ := mapM_cons_some mapped
      exact congrArg Nat.succ (ih later)

theorem mapM_getElem? (mapped : as.mapM f = some bs) (i : Nat) : bs[i]? = as[i]?.bind f := by
  induction as generalizing bs i with
  | nil =>
      cases mapped
      rfl
  | cons a as ih =>
      obtain ⟨b, rest, first, later, rfl⟩ := mapM_cons_some mapped
      cases i with
      | zero => exact first.symm
      | succ i => exact ih later i

theorem mapM_some (each : ∀ a ∈ as, ∃ b, f a = some b) : ∃ bs, as.mapM f = some bs := by
  induction as with
  | nil => exact ⟨[], rfl⟩
  | cons a as ih =>
      obtain ⟨⟨b, first⟩, later⟩ := List.forall_mem_cons.mp each
      obtain ⟨bs, mapped⟩ := ih later
      exact ⟨b :: bs, by rw [List.mapM_cons, first, mapped]; rfl⟩

end MapM

section FoldlM
variable {σ α : Type} {step : σ → α → Option σ} {start last : σ}

theorem foldlM_steps {as : List α} (ended : as.foldlM step start = some last) :
    ∀ a ∈ as, ∃ before after, step before a = some after := by
  induction as generalizing start with
  | nil => exact fun _ member => absurd member List.not_mem_nil
  | cons a as ih =>
      rw [List.foldlM_cons] at ended
      obtain ⟨next, first, later⟩ := Option.bind_eq_some_iff.mp ended
      exact List.forall_mem_cons.mpr ⟨⟨start, next, first⟩, ih later⟩

end FoldlM

end Umr.Lib
