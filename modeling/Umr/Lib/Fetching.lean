import Mathlib.Data.List.Basic

/-!
# Programs that fetch

A program has an array only through a fetch that compares the offset with a size.  It is
the tree of its fetches, each with what is done with the word.  The flag tells whether an
offset was not below the size; such a fetch yields a default.
-/

set_option autoImplicit false

namespace Umr.Lib

inductive Fetching (ω α : Type) where
  | done (value : α)
  | fetch (off : Nat) (next : ω → Fetching ω α)

namespace Fetching
variable {ω α β : Type}

protected def bind : Fetching ω α → (α → Fetching ω β) → Fetching ω β
  | .done value, next => next value
  | .fetch off further, next => .fetch off fun word => (further word).bind next

instance : Monad (Fetching ω) where
  pure := .done
  bind := Fetching.bind

instance : LawfulMonad (Fetching ω) := LawfulMonad.mk' _
  (fun prog => by
    induction prog with
    | done value => rfl
    | fetch off next ih => exact congrArg (Fetching.fetch off) (funext ih))
  (fun _ _ => rfl)
  (fun prog next further => by
    induction prog with
    | done value => rfl
    | fetch off behind ih => exact congrArg (Fetching.fetch off) (funext ih))

def word (off : Nat) : Fetching ω ω := .fetch off .done

/-- The result with the flag; nothing, where an offset below the size is outside the
array. -/
def run (size : Nat) (words : List ω) (default_ : ω) : Fetching ω α → Bool → Option (α × Bool)
  | .done value, flag => some (value, flag)
  | .fetch off next, flag =>
      if size ≤ off then (next default_).run size words default_ true
      else words[off]?.bind fun word => (next word).run size words default_ flag

variable {size : Nat} {words : List ω} {default_ : ω}

/-- With a size no larger than the array a program stays inside it, whatever it fetches. -/
theorem run_inside (whole : size ≤ words.length) (prog : Fetching ω α) :
    ∀ flag, ∃ result, prog.run size words default_ flag = some result := by
  induction prog with
  | done value => exact fun flag => ⟨_, rfl⟩
  | fetch off next ih =>
      intro flag
      rw [run]
      split
      · exact ih default_ true
      · next below =>
          rw [List.getElem?_eq_getElem (by omega)]
          exact ih _ flag

theorem run_bind {next : α → Fetching ω β} (prog : Fetching ω α) : ∀ flag,
    (prog >>= next).run size words default_ flag =
      (prog.run size words default_ flag).bind fun result =>
        (next result.1).run size words default_ result.2 := by
  induction prog with
  | done value => exact fun flag => rfl
  | fetch off further ih =>
      intro flag
      change (Fetching.fetch off fun word => further word >>= next).run size words default_ flag = _
      rw [run, run]
      split
      · exact ih default_ true
      · rw [Option.bind_assoc]
        exact congrArg _ (funext fun word => ih word flag)

theorem run_word {off : Nat} (below : off < size) {value : ω} (at_ : words[off]? = some value)
    (flag : Bool) : (word off).run size words default_ flag = some (value, flag) := by
  rw [word, run, if_neg (Nat.not_le.mpr below), at_]
  rfl

theorem run_word_past {off : Nat} (past : size ≤ off) (flag : Bool) :
    (word off).run size words default_ flag = some (default_, true) := by
  rw [word, run, if_pos past]
  rfl

/-- Whatever the words are, what is done with them ends in a value that satisfies `holds`. -/
def Yields (holds : α → Prop) : Fetching ω α → Prop
  | .done value => holds value
  | .fetch _ next => ∀ word, (next word).Yields holds

theorem Yields.run {holds : α → Prop} {prog : Fetching ω α} (yields : prog.Yields holds) :
    ∀ {flag : Bool} {result : α × Bool}, prog.run size words default_ flag = some result →
      holds result.1 := by
  induction prog with
  | done value =>
      intro flag result ran
      cases ran
      exact yields
  | fetch off next ih =>
      intro flag result ran
      rw [Fetching.run] at ran
      split at ran
      · exact ih _ (yields _) ran
      · obtain ⟨word, -, further⟩ := Option.bind_eq_some_iff.mp ran
        exact ih word (yields word) further

theorem Yields.bind {holds : α → Prop} {after : β → Prop} {prog : Fetching ω α}
    {next : α → Fetching ω β} (yields : prog.Yields holds)
    (further : ∀ value, holds value → (next value).Yields after) : (prog >>= next).Yields after := by
  induction prog with
  | done value => exact further value yields
  | fetch off behind ih => exact fun word => ih word (yields word)

theorem yields_word {after : α → Prop} {off : Nat} {next : ω → Fetching ω α}
    (further : ∀ word, (next word).Yields after) : (word off >>= next).Yields after := further

theorem Yields.mapM {ι : Type} {holds : α → Prop} {f : ι → Fetching ω α}
    (each : ∀ i, (f i).Yields holds) (is : List ι) : (is.mapM f).Yields fun values => ∀ value ∈ values, holds value := by
  induction is with
  | nil =>
      rw [List.mapM_nil]
      exact fun value member => absurd member List.not_mem_nil
  | cons i is ih =>
      rw [List.mapM_cons]
      refine (each i).bind fun value here => ih.bind fun values later => ?_
      exact List.forall_mem_cons.mpr ⟨here, later⟩

end Fetching

end Umr.Lib
