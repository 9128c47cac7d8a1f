import Umr.Lib.ByteStore
import Mathlib.Data.Set.Function

/-!
# One memory placed in several

The addresses of one memory are placed in the stores of others.  Where no two addresses share a
place, copying a block between a buffer and the place of the block is copying it between the buffer
and the one memory.
-/

set_option autoImplicit false

namespace Umr.Lib

variable {σ β : Type}

/-- What the stores hold where an address is placed. -/
def view (place : Nat → σ × Nat) (stores : σ → Nat → β) (address : Nat) : β :=
  stores (place address).1 (place address).2

/-- The block at an address is placed at consecutive addresses of one store. -/
def BlockAt (place : Nat → σ × Nat) (address size : Nat) (store : σ) (at_ : Nat) : Prop :=
  ∀ k < size, place (address + k) = (store, at_ + k)

section Block
variable {place : Nat → σ × Nat} {address size : Nat} {store : σ} {at_ : Nat}

theorem BlockAt.at (block : BlockAt place address size store at_) {i : Nat} (low : address ≤ i)
    (high : i < address + size) : place i = (store, at_ + (i - address)) := by
  have placed := block (i - address) (by omega)
  rwa [Nat.add_sub_cancel' low] at placed

/-- Reading a block of a store reads the block of the memory that is placed there. -/
theorem copyBlock_view (block : BlockAt place address size store at_) (stores : σ → Nat → β)
    (buf : Nat → β) (dst : Nat) :
    copyBlock (stores store) at_ buf dst size = copyBlock (view place stores) address buf dst size := by
  funext i
  unfold copyBlock
  by_cases inside : dst ≤ i ∧ i < dst + size
  · rw [if_pos inside, if_pos inside, view, block (i - dst) (by omega)]
  · rw [if_neg inside, if_neg inside]

variable [DecidableEq σ]

/-- Writing a block of a store writes the block of the memory that is placed there. -/
theorem view_update {region : Set Nat} (apart : Set.InjOn place region)
    (block : BlockAt place address size store at_)
    (inside : ∀ i, address ≤ i → i < address + size → i ∈ region) (stores : σ → Nat → β)
    (buf : Nat → β) (src : Nat) {i : Nat} (member : i ∈ region) :
    view place (Function.update stores store (copyBlock buf src (stores store) at_ size)) i =
      copyBlock buf src (view place stores) address size i := by
  by_cases written : address ≤ i ∧ i < address + size
  · have placed := block.at written.1 written.2
    have within : at_ ≤ at_ + (i - address) ∧ at_ + (i - address) < at_ + size := by omega
    rw [view, placed, Function.update_self, copyBlock, if_pos within, copyBlock, if_pos written,
      Nat.add_sub_cancel_left]
  · rw [copyBlock_outside _ _ _ written, view, view]
    by_cases same : (place i).1 = store
    · rw [same, Function.update_self]
      refine copyBlock_outside _ _ _ fun shared => written ?_
      -- a byte at the place of the block is a byte of the block
      have placed := block ((place i).2 - at_) (by omega)
      rw [Nat.add_sub_cancel' shared.1, ← same] at placed
      have isByte := apart (inside _ (Nat.le_add_right _ _) (by omega)) member placed
      omega
    · rw [Function.update_of_ne same]

/-- Writing a block leaves every byte alone where no address of the block is placed. -/
theorem update_unplaced (block : BlockAt place address size store at_) (stores : σ → Nat → β)
    (buf : Nat → β) (src : Nat) {other : σ} {byte : Nat}
    (unplaced : ∀ i, address ≤ i → i < address + size → place i ≠ (other, byte)) :
    Function.update stores store (copyBlock buf src (stores store) at_ size) other byte =
      stores other byte := by
  by_cases same : other = store
  · subst same
    rw [Function.update_self]
    refine copyBlock_outside _ _ _ fun shared => ?_
    have placed := block (byte - at_) (by omega)
    rw [Nat.add_sub_cancel' shared.1] at placed
    exact unplaced _ (Nat.le_add_right _ _) (by omega) placed
  · rw [Function.update_of_ne same]

end Block

end Umr.Lib
