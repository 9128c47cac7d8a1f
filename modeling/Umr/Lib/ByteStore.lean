import Mathlib.Logic.Function.Basic
import Mathlib.Tactic.Common

/-!
# Byte stores and block copies

A byte store maps addresses to bytes.  Copying a block into a store leaves every
byte outside the block as it was; copying two adjacent blocks is the same as
copying them as one.  A store has a range when it has each byte of it.
-/

set_option autoImplicit false

namespace Umr.Lib

section Copy
variable {β : Type}

def copyBlock (source : Nat → β) (src : Nat) (target : Nat → β) (dst size : Nat) : Nat → β :=
  fun i => if dst ≤ i ∧ i < dst + size then source (src + (i - dst)) else target i

theorem copyBlock_outside (source : Nat → β) (src : Nat) (target : Nat → β) {dst size i : Nat}
    (outside : ¬ (dst ≤ i ∧ i < dst + size)) :
    copyBlock source src target dst size i = target i := if_neg outside

@[simp] theorem copyBlock_zero (source : Nat → β) (src : Nat) (target : Nat → β) (dst : Nat) :
    copyBlock source src target dst 0 = target := by
  funext i
  exact copyBlock_outside source src target (by omega)

theorem copyBlock_append (source : Nat → β) (src : Nat) (target : Nat → β) (dst first rest : Nat) :
    copyBlock source src target dst (first + rest) =
      copyBlock source (src + first) (copyBlock source src target dst first) (dst + first) rest := by
  funext i
  unfold copyBlock
  by_cases tail : dst + first ≤ i ∧ i < dst + first + rest
  · have whole : dst ≤ i ∧ i < dst + (first + rest) := by omega
    have position : src + (i - dst) = src + first + (i - (dst + first)) := by omega
    rw [if_pos whole, if_pos tail, position]
  · rw [if_neg tail]
    by_cases head : dst ≤ i ∧ i < dst + first
    · rw [if_pos head, if_pos (by omega)]
    · rw [if_neg head, if_neg (by omega)]

end Copy

section Range

def holdsRange (present : Nat → Bool) (address size : Nat) : Bool :=
  (List.range size).all fun i => present (address + i)

theorem holdsRange_iff (present : Nat → Bool) (address size : Nat) :
    holdsRange present address size = true ↔ ∀ i < size, present (address + i) = true := by
  simp [holdsRange, List.all_eq_true]

theorem holdsRange_append (present : Nat → Bool) (address first rest : Nat) :
    holdsRange present address (first + rest) =
      (holdsRange present address first && holdsRange present (address + first) rest) := by
  rw [Bool.eq_iff_iff, Bool.and_eq_true, holdsRange_iff, holdsRange_iff, holdsRange_iff]
  constructor
  · intro whole
    refine ⟨fun i lt => whole i (by omega), fun i lt => ?_⟩
    have := whole (first + i) (by omega)
    rwa [← Nat.add_assoc] at this
  · rintro ⟨head, tail⟩ i lt
    by_cases inHead : i < first
    · exact head i inHead
    · have := tail (i - first) (by omega)
      rwa [Nat.add_assoc, Nat.add_sub_cancel' (by omega)] at this

end Range

def littleEndian (bytes : Nat → UInt8) : Nat → Nat
  | 0 => 0
  | count + 1 => (bytes 0).toNat + 256 * littleEndian (fun i => bytes (i + 1)) count

theorem littleEndian_congr {left right : Nat → UInt8} {count : Nat}
    (same : ∀ i < count, left i = right i) :
    littleEndian left count = littleEndian right count := by
  induction count generalizing left right with
  | zero => rfl
  | succ count ih =>
      rw [littleEndian, littleEndian, same 0 (by omega)]
      rw [ih fun i lt => same (i + 1) (by omega)]

end Umr.Lib
