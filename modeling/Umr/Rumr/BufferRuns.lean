import Umr.Lib.Run
import Umr.Rumr.Tcp

/-!
# Runs on a RUMR buffer

A buffer comes from `rumr_buffer_init`, from a file or from the network and is
then used through the append and read functions with arbitrary 32-bit lengths.
The representation invariant holds along such a run exactly as long as no sum
of two 32-bit counters wraps and, for a received buffer, the announced length
is the 1024 bytes that `rumr_buffer_init` wrote into `size`.
-/

set_option autoImplicit false

namespace Umr.Rumr

open Umr.Lib

inductive BufferOrigin where
  | init
  | loadFile (contents : List UInt8)
  | tcpRx (stream : List UInt8)

def BufferOrigin.obtain (heap : Nat → Bool) : BufferOrigin → Option (Option RumrBuffer)
  | .init => some (rumrBufferInit heap)
  | .loadFile contents => rumrBufferLoadFile heap contents
  | .tcpRx stream => (Umr.Rumr.tcpRx heap stream).map fun received => received.map Prod.fst

/-- One call on the buffer.  A length argument is a `uint32_t`, and the source
of `add_buffer` is itself a buffer whose written bytes exist. -/
inductive BufferOp where
  | addData (data : List UInt8) (bound : data.length < 2 ^ 32)
  | addUint32 (val : UInt32)
  | addBuffer (srcbuf : RumrBuffer) (readable : srcbuf.Readable)
  | readData (size : UInt32)
  | readUint32

def BufferOp.step (heap : Nat → Bool) : BufferOp → RumrBuffer → Option RumrBuffer
  | .addData data _, buf => (rumrBufferAddData heap data buf).map Prod.snd
  | .addUint32 val, buf => (rumrBufferAddUint32 heap val buf).map Prod.snd
  | .addBuffer srcbuf _, buf => (rumrBufferAddBuffer heap srcbuf buf).map Prod.snd
  | .readData size, buf => (rumrBufferReadData size buf).map Prod.snd
  | .readUint32, buf => (rumrBufferReadUint32 buf).map Prod.snd

def RumrBuffer.ReadOk (buf : RumrBuffer) (n : Nat) : Prop := buf.roffset.toNat + n < 2 ^ 32

def BufferOp.Ok (heap : Nat → Bool) (buf : RumrBuffer) : BufferOp → Prop
  | .addData data _ => buf.AppendOk heap data.length
  | .addUint32 _ => buf.AppendOk heap 4
  | .addBuffer srcbuf _ => buf.AppendOk heap srcbuf.woffset.toNat
  | .readData size => buf.ReadOk size.toNat
  | .readUint32 => buf.ReadOk 4

/-- A received packet: the announced length is 1024, or the payload does not
arrive and no buffer is handed out. -/
def ReceiveOk (heap : Nat → Bool) (len : UInt32) (available : Nat) : Prop :=
  len = 1024 ∨
    (len ≠ 0 ∧ (heap (len + rumrBufferPreheader).toNat = false ∨
      (available < len.toNat ∧ (len.toNat + 8 < 2 ^ 32 ∨ available = 0))))

def BufferOrigin.Ok (heap : Nat → Bool) : BufferOrigin → Prop
  | .init => True
  | .loadFile contents =>
      heap (UInt32.ofNat contents.length + rumrBufferPreheader).toNat = true →
        contents.length % 2 ^ 32 + 8 < 2 ^ 32
  | .tcpRx stream =>
      ∀ len, announcedLen stream = some len →
        heap (1024 + rumrBufferPreheader).toNat = true →
        ReceiveOk heap len (stream.drop 8).length

/-- No store outside the allocation while the buffer is made, and the invariant
in every state of the run that uses it. -/
def BufferOrigin.RunSafe (heap : Nat → Bool) (origin : BufferOrigin) (ops : List BufferOp) :
    Prop :=
  origin.obtain heap ≠ none ∧
    ∀ buf, origin.obtain heap = some (some buf) →
      Safe (BufferOp.step heap) RumrBuffer.Inv ops buf

/-! ## One call -/

theorem map_snd_inv_iff {α : Type} (outcome : Option (α × RumrBuffer)) :
    (∃ next, outcome.map Prod.snd = some next ∧ next.Inv) ↔
      ∃ pair, outcome = some pair ∧ pair.2.Inv := by
  cases outcome with
  | none => simp
  | some pair => simp

theorem readData_inv_iff (buf : RumrBuffer) (size : UInt32) (inv : buf.Inv) :
    (∃ pair, rumrBufferReadData size buf = some pair ∧ pair.2.Inv) ↔ buf.ReadOk size.toNat := by
  have rLe := UInt32.le_iff_toNat_le.mp inv.roffset_le
  have wLe := UInt32.le_iff_toNat_le.mp inv.woffset_le
  have sizeEq := inv.size_eq
  have wBound : buf.woffset.toNat < 2 ^ 32 := buf.woffset.toNat_lt
  unfold RumrBuffer.ReadOk
  by_cases noWrap : buf.roffset.toNat + size.toNat < 2 ^ 32
  · refine ⟨fun _ => noWrap, fun _ => ?_⟩
    have endEq := add_toNat_of_lt noWrap
    by_cases inside : buf.roffset.toNat + size.toNat ≤ buf.woffset.toNat
    · have test : buf.roffset + size ≤ buf.woffset := by
        rw [UInt32.le_iff_toNat_le, endEq]
        exact inside
      refine ⟨((buf.data.drop buf.roffset.toNat).take size.toNat,
        { buf with roffset := buf.roffset + size }), ?_, test, inv.woffset_le, sizeEq⟩
      simp only [rumrBufferReadData, if_pos test]
      rw [if_pos (Or.inr (by omega))]
    · refine ⟨_, rumrBufferReadData_short buf size noWrap (by omega), inv⟩
  · -- the wrapped end offset passes the test, and the copy leaves the block
    have sizeBound : size.toNat < 2 ^ 32 := size.toNat_lt
    have test : buf.roffset + size ≤ buf.woffset := by
      rw [UInt32.le_iff_toNat_le, UInt32.toNat_add]
      omega
    have fault : rumrBufferReadData size buf = none := by
      have sizeBound' : buf.size.toNat < 2 ^ 32 := buf.size.toNat_lt
      simp only [rumrBufferReadData, if_pos test]
      rw [if_neg (by omega)]
    rw [fault]
    constructor
    · rintro ⟨_, impossible, _⟩
      cases impossible
    · intro ok
      exact absurd ok noWrap

theorem readUint32_inv_iff (buf : RumrBuffer) :
    (∃ pair, rumrBufferReadUint32 buf = some pair ∧ pair.2.Inv) ↔
      ∃ pair, rumrBufferReadData 4 buf = some pair ∧ pair.2.Inv := by
  have unfolded : rumrBufferReadUint32 buf =
      (rumrBufferReadData 4 buf).map fun pair => (bytesWord pair.1, pair.2) := by
    change (rumrBufferReadData 4 buf).bind _ = _
    cases rumrBufferReadData 4 buf with
    | none => rfl
    | some pair => rfl
  rw [unfolded]
  cases rumrBufferReadData 4 buf with
  | none => simp
  | some pair => simp

theorem bufferOp_inv_iff (heap : Nat → Bool) (buf : RumrBuffer) (op : BufferOp)
    (inv : buf.Inv) :
    (∃ next, op.step heap buf = some next ∧ next.Inv) ↔ op.Ok heap buf := by
  have append : ∀ data : List UInt8, data.length < 2 ^ 32 →
      ((∃ next, (rumrBufferAddData heap data buf).map Prod.snd = some next ∧ next.Inv) ↔
        buf.AppendOk heap data.length) := by
    intro data bound
    rw [map_snd_inv_iff, ← addData_inv_iff inv bound]
    constructor
    · rintro ⟨⟨⟨⟩, next⟩, run, nextInv⟩
      exact ⟨next, run, nextInv⟩
    · rintro ⟨next, run, nextInv⟩
      exact ⟨((), next), run, nextInv⟩
  cases op with
  | addData data bound => exact append data bound
  | addUint32 val => exact append (wordBytes val) (by simp)
  | addBuffer srcbuf readable =>
      have wLe := readable.woffset_le
      have wBound : srcbuf.woffset.toNat < 2 ^ 32 := srcbuf.woffset.toNat_lt
      have length : (srcbuf.data.take srcbuf.woffset.toNat).length =
          srcbuf.woffset.toNat := by
        simp
        omega
      simp only [BufferOp.step, BufferOp.Ok, rumrBufferAddBuffer, if_pos wLe]
      rw [append _ (by omega), length]
  | readData size =>
      exact (map_snd_inv_iff _).trans (readData_inv_iff buf size inv)
  | readUint32 =>
      rw [BufferOp.step, map_snd_inv_iff, readUint32_inv_iff]
      exact readData_inv_iff buf 4 inv

/-! ## The three origins -/

/-- What is left of making a buffer: a store outside the allocation, no buffer,
or a buffer with the invariant. -/
def MadeInv : Option (Option RumrBuffer) → Prop
  | none => False
  | some none => True
  | some (some buf) => buf.Inv

theorem madeInv_iff (outcome : Option (Option RumrBuffer)) :
    (outcome ≠ none ∧ ∀ buf, outcome = some (some buf) → buf.Inv) ↔ MadeInv outcome := by
  rcases outcome with _ | _ | buf
  · simp [MadeInv]
  · simp [MadeInv]
  · simp [MadeInv]

theorem rumrBufferInit_madeInv (heap : Nat → Bool) : MadeInv (some (rumrBufferInit heap)) := by
  unfold rumrBufferInit
  split
  · exact ⟨by decide, by decide, (List.length_replicate ..).symm⟩
  · trivial

theorem rumrBufferLoadFile_madeInv_iff (heap : Nat → Bool) (contents : List UInt8) :
    MadeInv (rumrBufferLoadFile heap contents) ↔
      (heap (UInt32.ofNat contents.length + rumrBufferPreheader).toNat = true →
        contents.length % 2 ^ 32 + 8 < 2 ^ 32) := by
  have eight : rumrBufferPreheader.toNat = 8 := rfl
  have sizeEq : (UInt32.ofNat contents.length).toNat = contents.length % 2 ^ 32 :=
    UInt32.toNat_ofNat'
  have payload : payloadBytes (UInt32.ofNat contents.length + rumrBufferPreheader) =
      (contents.length % 2 ^ 32 + 8) % 2 ^ 32 - 8 := by
    rw [payloadBytes, UInt32.toNat_add, sizeEq, eight]
  simp only [rumrBufferLoadFile]
  cases granted : heap (UInt32.ofNat contents.length + rumrBufferPreheader).toNat with
  | false => simp [MadeInv]
  | true =>
      simp only [if_true, true_implies]
      by_cases small : contents.length % 2 ^ 32 + 8 < 2 ^ 32
      · rw [if_pos (by rw [sizeEq, payload]; omega)]
        refine ⟨fun _ => small, fun _ => ?_⟩
        refine ⟨UInt32.le_iff_toNat_le.mpr (Nat.zero_le _), UInt32.le_refl _, ?_⟩
        have shorter := Nat.mod_le contents.length (2 ^ 32)
        simp only [List.length_take, sizeEq]
        omega
      · rw [if_neg (by rw [sizeEq, payload]; omega)]
        exact ⟨False.elim, fun ok => absurd ok small⟩

section Receive
variable {heap : Nat → Bool} {stream : List UInt8} {len : UInt32}

theorem received_inv_iff (arrived : List UInt8) (complete : arrived.length = len.toNat) :
    (⟨arrived, 1024, 0, len, false⟩ : RumrBuffer).Inv ↔ len = 1024 := by
  constructor
  · intro inv
    apply UInt32.toNat_inj.mp
    exact complete.symm.trans inv.size_eq.symm
  · rintro rfl
    exact ⟨UInt32.le_iff_toNat_le.mpr (Nat.zero_le _), UInt32.le_refl _, complete.symm⟩

theorem tcpRx_denied_madeInv_iff (announced : announcedLen stream = some len)
    (granted : heap (1024 + rumrBufferPreheader).toNat = true)
    (denied : heap (len + rumrBufferPreheader).toNat = false) :
    MadeInv ((tcpRx heap stream).map fun received => received.map Prod.fst) ↔ len ≠ 0 := by
  have initial : rumrBufferInit heap =
      some ⟨List.replicate 1024 0, 1024, 0, 0, false⟩ := if_pos granted
  simp only [tcpRx, announced, initial, denied, Bool.false_eq_true, if_false]
  by_cases empty : len = 0
  · rw [if_pos empty]
    have inv : (⟨[], 1024, 0, 0, false⟩ : RumrBuffer).Inv ↔ (0 : UInt32) = 1024 :=
      received_inv_iff [] rfl
    exact ⟨fun made => absurd (inv.mp made) (by decide), fun some => absurd empty some⟩
  · rw [if_neg empty]
    exact ⟨fun _ => empty, fun _ => trivial⟩

/-- With a block for the payload: a size that wrapped leaves room for nothing
that arrives, and an incomplete payload is given up. -/
theorem tcpRx_granted_madeInv_iff (announced : announcedLen stream = some len)
    (granted : heap (1024 + rumrBufferPreheader).toNat = true)
    (block : heap (len + rumrBufferPreheader).toNat = true) :
    MadeInv ((tcpRx heap stream).map fun received => received.map Prod.fst) ↔
      len = 1024 ∨ ((stream.drop 8).length < len.toNat ∧
        (len.toNat + 8 < 2 ^ 32 ∨ (stream.drop 8).length = 0)) := by
  have initial : rumrBufferInit heap =
      some ⟨List.replicate 1024 0, 1024, 0, 0, false⟩ := if_pos granted
  have lenBound : len.toNat < 2 ^ 32 := len.toNat_lt
  have arrivedLength : ((stream.drop 8).take len.toNat).length =
      min len.toNat (stream.drop 8).length := List.length_take
  have len1024 : len = 1024 ↔ len.toNat = 1024 := by
    rw [← UInt32.toNat_inj]
    rfl
  have room : payloadBytes (len + rumrBufferPreheader) = (len.toNat + 8) % 2 ^ 32 - 8 := by
    rw [payloadBytes, UInt32.toNat_add]
    rfl
  simp only [tcpRx, announced, initial, block, if_true, room]
  by_cases stored : ((stream.drop 8).take len.toNat).length ≤ (len.toNat + 8) % 2 ^ 32 - 8
  · rw [if_pos stored]
    by_cases complete : ((stream.drop 8).take len.toNat).length = len.toNat
    · rw [if_pos complete]
      refine (received_inv_iff _ complete).trans ⟨Or.inl, ?_⟩
      rintro (full | ⟨short, _⟩)
      · exact full
      · omega
    · rw [if_neg complete]
      refine ⟨fun _ => Or.inr ?_, fun _ => trivial⟩
      omega
  · rw [if_neg stored]
    refine ⟨False.elim, ?_⟩
    rintro (full | ⟨short, small | nothing⟩)
    · have := len1024.mp full
      omega
    · omega
    · omega

theorem tcpRx_madeInv_iff (announced : announcedLen stream = some len)
    (granted : heap (1024 + rumrBufferPreheader).toNat = true) :
    MadeInv ((tcpRx heap stream).map fun received => received.map Prod.fst) ↔
      ReceiveOk heap len (stream.drop 8).length := by
  have len0 : len = 0 ↔ len.toNat = 0 := by
    rw [← UInt32.toNat_inj]
    rfl
  unfold ReceiveOk
  cases block : heap (len + rumrBufferPreheader).toNat with
  | false =>
      rw [tcpRx_denied_madeInv_iff announced granted block]
      refine ⟨fun some => Or.inr ⟨some, Or.inl rfl⟩, ?_⟩
      rintro (rfl | ⟨some, _⟩)
      · decide
      · exact some
  | true =>
      rw [tcpRx_granted_madeInv_iff announced granted block]
      apply or_congr_right
      constructor
      · rintro ⟨short, reason⟩
        exact ⟨fun empty => by rw [len0] at empty; omega, Or.inr ⟨short, reason⟩⟩
      · rintro ⟨_, denied | short⟩
        · cases denied
        · exact short

end Receive

theorem bufferOrigin_madeInv_iff (heap : Nat → Bool) (origin : BufferOrigin) :
    MadeInv (origin.obtain heap) ↔ origin.Ok heap := by
  cases origin with
  | init => exact ⟨fun _ => trivial, fun _ => rumrBufferInit_madeInv heap⟩
  | loadFile contents => exact rumrBufferLoadFile_madeInv_iff heap contents
  | tcpRx stream =>
      rw [BufferOrigin.obtain, BufferOrigin.Ok]
      cases announced : announcedLen stream with
      | none => simp [tcpRx, announced, MadeInv]
      | some len =>
          cases granted : heap (1024 + rumrBufferPreheader).toNat with
          | false =>
              have noBuffer : rumrBufferInit heap = none := by
                rw [rumrBufferInit, granted]
                rfl
              simp [tcpRx, announced, noBuffer, MadeInv]
          | true =>
              rw [tcpRx_madeInv_iff announced granted]
              constructor
              · intro ok other same _
                cases same
                exact ok
              · intro ok
                exact ok len rfl rfl

/-! ## Whole runs -/

/-- Along every run on a buffer of any origin, the invariant holds in every
state and nothing outside the allocation is touched exactly if the buffer was
made from an admissible input and every call is in range when it is made. -/
theorem rumrBuffer_runSafe_iff (heap : Nat → Bool) (origin : BufferOrigin)
    (ops : List BufferOp) :
    origin.RunSafe heap ops ↔
      origin.Ok heap ∧ ∀ buf, origin.obtain heap = some (some buf) →
        Admitted (BufferOp.step heap) (BufferOp.Ok heap) ops buf := by
  rw [← bufferOrigin_madeInv_iff, ← madeInv_iff]
  have run := fun buf inv =>
    safe_iff_admitted (bufferOp_inv_iff heap) ops buf inv
  constructor
  · rintro ⟨made, safe⟩
    refine ⟨⟨made, fun buf obtained => (safe buf obtained).initial⟩, ?_⟩
    intro buf obtained
    exact (run buf (safe buf obtained).initial).mp (safe buf obtained)
  · rintro ⟨⟨made, inv⟩, admitted⟩
    refine ⟨made, ?_⟩
    intro buf obtained
    exact (run buf (inv buf obtained)).mpr (admitted buf obtained)

/-- A peer that announces and sends four bytes leaves a buffer whose size is 1024. -/
theorem tcpRx_four_bytes_not_safe :
    ¬ (BufferOrigin.tcpRx (rumrMagic ++ wordBytes 4 ++ [1, 2, 3, 4])).RunSafe
      (fun _ => true) [] := by
  rintro ⟨_, safe⟩
  have inv := safe (receivedBuffer [1, 2, 3, 4]) (by decide)
  exact absurd inv.size_eq (by decide)

end Umr.Rumr
