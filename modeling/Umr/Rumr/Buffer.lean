import Umr.Lib.Bytes
import Umr.Lib.Codec
import Mathlib.Order.MinMax

/-!
# The RUMR buffer

`rumr_buffer` of `buffer.c`: a growable byte store with a read and a write
offset, all three counters 32-bit.  `data` holds the payload bytes that are
really allocated behind the `data` pointer, so its length and the `size` field
are two different things that the code has to keep equal.

A `memcpy` that leaves the allocation has no C meaning; the model answers
`none` there.  The allocator is a parameter: `heap n` says whether a request
for `n` bytes is granted.
-/

set_option autoImplicit false

namespace Umr.Rumr

open Umr.Lib

structure RumrBuffer where
  data : List UInt8
  size : UInt32
  roffset : UInt32
  woffset : UInt32
  failed : Bool
  deriving DecidableEq, Repr

/-- `RUMR_BUFFER_PREHEADER`: bytes in front of the payload, used by the
transport for its own header. -/
def rumrBufferPreheader : UInt32 := 8

def payloadBytes (request : UInt32) : Nat := request.toNat - rumrBufferPreheader.toNat

def rumrBufferInit (heap : Nat → Bool) : Option RumrBuffer :=
  if heap (1024 + rumrBufferPreheader).toNat then
    some ⟨List.replicate 1024 0, 1024, 0, 0, false⟩
  else none

/-- `realloc` of the payload.  C leaves the fresh bytes indeterminate; they lie
past `woffset`, where no read gets to see them. -/
def resize (data : List UInt8) (length : Nat) : List UInt8 :=
  data.take length ++ List.replicate (length - data.length) 0

/-- `memcpy(buf->data + buf->woffset, data, size); buf->woffset += size`. -/
def copyIn (data : List UInt8) : StateT RumrBuffer Option Unit := fun buf =>
  if data.length = 0 ∨ buf.woffset.toNat + data.length ≤ buf.data.length then
    some ((), { buf with
      data := buf.data.take buf.woffset.toNat ++ data ++
        buf.data.drop (buf.woffset.toNat + data.length)
      woffset := buf.woffset + UInt32.ofNat data.length })
  else none

def rumrBufferAddData (heap : Nat → Bool) (data : List UInt8) :
    StateT RumrBuffer Option Unit := fun buf =>
  let size := UInt32.ofNat data.length
  if buf.failed then some ((), buf)
  else if buf.woffset + size > buf.size then
    let newSize := buf.size + max 1024 size
    let request := newSize + rumrBufferPreheader
    if heap request.toNat then
      copyIn data { buf with data := resize buf.data (payloadBytes request), size := newSize }
    else some ((), { buf with failed := true })
  else copyIn data buf

def rumrBufferAddUint32 (heap : Nat → Bool) (val : UInt32) :
    StateT RumrBuffer Option Unit :=
  rumrBufferAddData heap (wordBytes val)

/-- Reads `srcbuf->woffset` bytes behind the source's `data` pointer. -/
def rumrBufferAddBuffer (heap : Nat → Bool) (srcbuf : RumrBuffer) :
    StateT RumrBuffer Option Unit := fun buf =>
  if srcbuf.woffset.toNat ≤ srcbuf.data.length then
    rumrBufferAddData heap (srcbuf.data.take srcbuf.woffset.toNat) buf
  else none

def rumrBufferReadData (size : UInt32) : StateT RumrBuffer Option (List UInt8) := fun buf =>
  if buf.roffset + size ≤ buf.woffset then
    if size.toNat = 0 ∨ buf.roffset.toNat + size.toNat ≤ buf.data.length then
      some ((buf.data.drop buf.roffset.toNat).take size.toNat,
        { buf with roffset := buf.roffset + size })
    else none
  else some (List.replicate size.toNat 0, buf)

def rumrBufferReadUint32 : StateT RumrBuffer Option UInt32 := do
  let tmp ← rumrBufferReadData 4
  pure (bytesWord tmp)

/-- `rumr_buffer_load_file` on a file with the given contents.  The length
passes through a `uint32_t`, and so does the size of the request. -/
def rumrBufferLoadFile (heap : Nat → Bool) (contents : List UInt8) :
    Option (Option RumrBuffer) :=
  let size := UInt32.ofNat contents.length
  let request := size + rumrBufferPreheader
  if heap request.toNat then
    if size.toNat ≤ payloadBytes request then
      some (some ⟨contents.take size.toNat, size, 0, size, false⟩)
    else none
  else some none

/-! ## What a buffer holds -/

def RumrBuffer.written (buf : RumrBuffer) : List UInt8 := buf.data.take buf.woffset.toNat

def RumrBuffer.unread (buf : RumrBuffer) : List UInt8 := buf.written.drop buf.roffset.toNat

/-- The representation invariant: offsets in order, and `size` is the number of
payload bytes that are really allocated. -/
structure RumrBuffer.Inv (buf : RumrBuffer) : Prop where
  roffset_le : buf.roffset ≤ buf.woffset
  woffset_le : buf.woffset ≤ buf.size
  size_eq : buf.size.toNat = buf.data.length

/-- What reading needs: the offsets are in order and the written bytes exist.
Weaker than `Inv`, which a received buffer does not satisfy. -/
structure RumrBuffer.Readable (buf : RumrBuffer) : Prop where
  roffset_le : buf.roffset ≤ buf.woffset
  woffset_le : buf.woffset.toNat ≤ buf.data.length

theorem RumrBuffer.Inv.readable {buf : RumrBuffer} (inv : buf.Inv) : buf.Readable := by
  refine ⟨inv.roffset_le, ?_⟩
  have := UInt32.le_iff_toNat_le.mp inv.woffset_le
  have := inv.size_eq
  omega

theorem RumrBuffer.Readable.written_length {buf : RumrBuffer} (readable : buf.Readable) :
    buf.written.length = buf.woffset.toNat := by
  have := readable.woffset_le
  simp [RumrBuffer.written]
  omega

theorem RumrBuffer.Readable.unread_length {buf : RumrBuffer} (readable : buf.Readable) :
    buf.unread.length = buf.woffset.toNat - buf.roffset.toNat := by
  rw [RumrBuffer.unread, List.length_drop, readable.written_length]

/-! ## Appending -/

/-- The `size` field after an append of `n` bytes at `woffset`, as a number
that does not wrap. -/
def grownSize (size woffset n : Nat) : Nat :=
  if size < woffset + n then size + max 1024 n else size

/-- When an append keeps the representation: the write offset does not wrap,
and neither does the grown size with its preheader. -/
def RumrBuffer.AppendOk (heap : Nat → Bool) (buf : RumrBuffer) (n : Nat) : Prop :=
  buf.failed = true ∨
    (buf.woffset.toNat + n < 2 ^ 32 ∧
      (buf.woffset.toNat + n ≤ buf.size.toNat ∨
        buf.size.toNat + max 1024 n + 8 < 2 ^ 32 ∨
        heap (buf.size + max 1024 (UInt32.ofNat n) + rumrBufferPreheader).toNat = false))

theorem resize_length (data : List UInt8) (length : Nat) :
    (resize data length).length = length := by
  simp [resize]
  omega

theorem resize_take (data : List UInt8) (length n : Nat) (kept : n ≤ data.length)
    (room : n ≤ length) : (resize data length).take n = data.take n := by
  rw [resize, List.take_append_of_le_length (by simp; omega), List.take_take,
    Nat.min_eq_left room]

theorem ofNat_toNat_of_lt {n : Nat} (bound : n < 2 ^ 32) : (UInt32.ofNat n).toNat = n := by
  rw [UInt32.toNat_ofNat']
  exact Nat.mod_eq_of_lt bound

theorem add_toNat_of_lt {a b : UInt32} (bound : a.toNat + b.toNat < 2 ^ 32) :
    (a + b).toNat = a.toNat + b.toNat := by
  rw [UInt32.toNat_add]
  exact Nat.mod_eq_of_lt bound

theorem max_toNat (a b : UInt32) : (max a b).toNat = max a.toNat b.toNat := by
  have unfolded : max a b = if a ≤ b then b else a := rfl
  rw [unfolded]
  split
  · rename_i order
    exact (max_eq_right (UInt32.le_iff_toNat_le.mp order)).symm
  · rename_i order
    have reverse : b.toNat ≤ a.toNat := by
      rw [UInt32.le_iff_toNat_le] at order
      omega
    exact (max_eq_left reverse).symm

theorem copyIn_spec (buf : RumrBuffer) (data : List UInt8) (inv : buf.Inv)
    (room : buf.woffset.toNat + data.length ≤ buf.size.toNat) :
    ∃ next, copyIn data buf = some ((), next) ∧ next.Inv ∧
      next.written = buf.written ++ data ∧ next.roffset = buf.roffset ∧
      next.size = buf.size ∧ next.failed = buf.failed ∧
      next.woffset.toNat = buf.woffset.toNat + data.length := by
  have sizeBound : buf.size.toNat < 2 ^ 32 := buf.size.toNat_lt
  have sizeEq := inv.size_eq
  have lengthEq : (UInt32.ofNat data.length).toNat = data.length :=
    ofNat_toNat_of_lt (by omega)
  have newOffset : (buf.woffset + UInt32.ofNat data.length).toNat =
      buf.woffset.toNat + data.length := by
    rw [add_toNat_of_lt (by omega), lengthEq]
  have headLength : (buf.data.take buf.woffset.toNat).length = buf.woffset.toNat := by
    simp
    omega
  refine ⟨_, if_pos (Or.inr (by omega)), ⟨?_, ?_, ?_⟩, ?_, rfl, rfl, rfl, newOffset⟩
  · rw [UInt32.le_iff_toNat_le, newOffset]
    have order := UInt32.le_iff_toNat_le.mp inv.roffset_le
    exact Nat.le_trans order (Nat.le_add_right _ _)
  · rw [UInt32.le_iff_toNat_le, newOffset]
    exact room
  · simp only [List.length_append, List.length_drop, headLength]
    omega
  · simp only [RumrBuffer.written, newOffset]
    rw [List.take_append_of_le_length (by simp only [List.length_append, headLength]; omega)]
    exact List.take_of_length_le (by simp only [List.length_append, headLength]; omega)

section Append
variable {heap : Nat → Bool} {buf : RumrBuffer} {data : List UInt8}

def RumrBuffer.grown (buf : RumrBuffer) (n : Nat) : RumrBuffer :=
  { buf with
    data := resize buf.data (buf.size.toNat + max 1024 n)
    size := buf.size + max 1024 (UInt32.ofNat n) }

theorem grown_size_toNat (buf : RumrBuffer) (n : Nat)
    (room : buf.size.toNat + max 1024 n < 2 ^ 32) :
    (buf.size + max 1024 (UInt32.ofNat n)).toNat = buf.size.toNat + max 1024 n := by
  have step : (max 1024 (UInt32.ofNat n)).toNat = max 1024 n := by
    rw [max_toNat, ofNat_toNat_of_lt (by omega)]
    rfl
  rw [add_toNat_of_lt (by omega), step]

theorem RumrBuffer.Inv.grown (inv : buf.Inv) (n : Nat)
    (room : buf.size.toNat + max 1024 n < 2 ^ 32) : (buf.grown n).Inv := by
  have newSize := grown_size_toNat buf n room
  refine ⟨inv.roffset_le, ?_, ?_⟩
  · rw [RumrBuffer.grown, UInt32.le_iff_toNat_le, newSize]
    exact Nat.le_trans (UInt32.le_iff_toNat_le.mp inv.woffset_le) (Nat.le_add_right _ _)
  · simp only [RumrBuffer.grown, resize_length, newSize]

theorem offset_toNat (noWrap : buf.woffset.toNat + data.length < 2 ^ 32) :
    (buf.woffset + UInt32.ofNat data.length).toNat = buf.woffset.toNat + data.length := by
  have length := ofNat_toNat_of_lt (show data.length < 2 ^ 32 by omega)
  rw [add_toNat_of_lt (by omega), length]

theorem addData_inPlace (live : buf.failed = false)
    (room : buf.woffset.toNat + data.length ≤ buf.size.toNat) :
    rumrBufferAddData heap data buf = copyIn data buf := by
  have sizeBound : buf.size.toNat < 2 ^ 32 := buf.size.toNat_lt
  have notLarger : ¬ buf.woffset + UInt32.ofNat data.length > buf.size := by
    rw [gt_iff_lt, UInt32.lt_iff_toNat_lt, offset_toNat (by omega)]
    omega
  simp only [rumrBufferAddData, live, Bool.false_eq_true, if_false, if_neg notLarger]

theorem addData_grows (live : buf.failed = false)
    (noWrap : buf.woffset.toNat + data.length < 2 ^ 32)
    (grows : buf.size.toNat < buf.woffset.toNat + data.length) :
    rumrBufferAddData heap data buf =
      (let newSize := buf.size + max 1024 (UInt32.ofNat data.length)
       let request := newSize + rumrBufferPreheader
       if heap request.toNat then
         copyIn data { buf with data := resize buf.data (payloadBytes request), size := newSize }
       else some ((), { buf with failed := true })) := by
  have larger : buf.woffset + UInt32.ofNat data.length > buf.size := by
    rw [gt_iff_lt, UInt32.lt_iff_toNat_lt, offset_toNat noWrap]
    exact grows
  simp only [rumrBufferAddData, live, Bool.false_eq_true, if_false, if_pos larger]

theorem addData_grown (live : buf.failed = false)
    (grows : buf.size.toNat < buf.woffset.toNat + data.length) (wLe : buf.woffset ≤ buf.size)
    (room : buf.size.toNat + max 1024 data.length + 8 < 2 ^ 32)
    (granted : heap (buf.size + max 1024 (UInt32.ofNat data.length) +
      rumrBufferPreheader).toNat = true) :
    rumrBufferAddData heap data buf = copyIn data (buf.grown data.length) := by
  have order := UInt32.le_iff_toNat_le.mp wLe
  have newSize := grown_size_toNat buf data.length (by omega)
  have eight : rumrBufferPreheader.toNat = 8 := rfl
  have payload : payloadBytes (buf.size + max 1024 (UInt32.ofNat data.length) +
      rumrBufferPreheader) = buf.size.toNat + max 1024 data.length := by
    rw [payloadBytes, add_toNat_of_lt (by omega), newSize]
    omega
  rw [addData_grows live (by omega) grows]
  simp only [granted, if_true, payload]
  rfl

/-- A granted block whose size wrapped is smaller than the data. -/
theorem addData_overgrown (live : buf.failed = false)
    (noWrap : buf.woffset.toNat + data.length < 2 ^ 32)
    (grows : buf.size.toNat < buf.woffset.toNat + data.length) (wLe : buf.woffset ≤ buf.size)
    (wraps : 2 ^ 32 ≤ buf.size.toNat + max 1024 data.length + 8)
    (granted : heap (buf.size + max 1024 (UInt32.ofNat data.length) +
      rumrBufferPreheader).toNat = true) :
    rumrBufferAddData heap data buf = none := by
  have order := UInt32.le_iff_toNat_le.mp wLe
  have sizeBound : buf.size.toNat < 2 ^ 32 := buf.size.toNat_lt
  have step : (max 1024 (UInt32.ofNat data.length)).toNat = max 1024 data.length := by
    rw [max_toNat, ofNat_toNat_of_lt (by omega)]
    rfl
  have eight : rumrBufferPreheader.toNat = 8 := rfl
  -- the block is the sum modulo 2^32, less the preheader
  have small : payloadBytes (buf.size + max 1024 (UInt32.ofNat data.length) +
      rumrBufferPreheader) < buf.woffset.toNat + data.length := by
    rw [payloadBytes, UInt32.toNat_add, UInt32.toNat_add, step, eight]
    omega
  rw [addData_grows live noWrap grows]
  simp only [granted, if_true, copyIn, resize_length]
  rw [if_neg (by omega)]

/-- A write offset that wraps passes the bounds test and leaves the block. -/
theorem addData_wraps (live : buf.failed = false) (inv : buf.Inv)
    (bound : data.length < 2 ^ 32) (wraps : 2 ^ 32 ≤ buf.woffset.toNat + data.length) :
    rumrBufferAddData heap data buf = none := by
  have order := UInt32.le_iff_toNat_le.mp inv.woffset_le
  have sizeBound : buf.size.toNat < 2 ^ 32 := buf.size.toNat_lt
  have sizeEq := inv.size_eq
  have notLarger : ¬ buf.woffset + UInt32.ofNat data.length > buf.size := by
    rw [gt_iff_lt, UInt32.lt_iff_toNat_lt, UInt32.toNat_add, ofNat_toNat_of_lt bound]
    omega
  simp only [rumrBufferAddData, live, Bool.false_eq_true, if_false, if_neg notLarger, copyIn]
  rw [if_neg (by omega)]

/-- An append inside the 32-bit range: the bytes are added, the read side is
untouched and the size follows the growth rule. -/
theorem rumrBufferAddData_spec (inv : buf.Inv) (live : buf.failed = false)
    (fits : grownSize buf.size.toNat buf.woffset.toNat data.length + 8 < 2 ^ 32)
    (granted : ∀ request, heap request = true) :
    ∃ next, rumrBufferAddData heap data buf = some ((), next) ∧ next.Inv ∧
      next.written = buf.written ++ data ∧ next.roffset = buf.roffset ∧
      next.failed = false ∧
      next.size.toNat = grownSize buf.size.toNat buf.woffset.toNat data.length ∧
      next.woffset.toNat = buf.woffset.toNat + data.length := by
  have order := UInt32.le_iff_toNat_le.mp inv.woffset_le
  have sizeEq := inv.size_eq
  by_cases grows : buf.size.toNat < buf.woffset.toNat + data.length
  · have rule : grownSize buf.size.toNat buf.woffset.toNat data.length =
        buf.size.toNat + max 1024 data.length := if_pos grows
    rw [rule] at fits ⊢
    have newSize := grown_size_toNat buf data.length (by omega)
    have grownInv := inv.grown data.length (by omega)
    obtain ⟨next, run, nextInv, written, roffset, size, failed, woffset⟩ :=
      copyIn_spec _ data grownInv (by simp only [RumrBuffer.grown, newSize]; omega)
    refine ⟨next, ?_, nextInv, ?_, roffset, failed.trans live, by rw [size]; exact newSize,
      woffset⟩
    · rw [addData_grown live grows inv.woffset_le fits (granted _)]
      exact run
    · rw [written]
      simp only [RumrBuffer.written, RumrBuffer.grown]
      rw [resize_take _ _ _ (by omega) (by omega)]
  · have rule : grownSize buf.size.toNat buf.woffset.toNat data.length =
        buf.size.toNat := if_neg grows
    obtain ⟨next, run, nextInv, written, roffset, size, failed, woffset⟩ :=
      copyIn_spec buf data inv (by omega)
    refine ⟨next, ?_, nextInv, written, roffset, failed.trans live, by rw [size, rule],
      woffset⟩
    rw [addData_inPlace live (by omega)]
    exact run

/-- From a buffer that satisfies the invariant, an append stays inside the
allocation and keeps the invariant exactly under `AppendOk`. -/
theorem addData_inv_iff (inv : buf.Inv) (bound : data.length < 2 ^ 32) :
    (∃ next, rumrBufferAddData heap data buf = some ((), next) ∧ next.Inv) ↔
      buf.AppendOk heap data.length := by
  have order := UInt32.le_iff_toNat_le.mp inv.woffset_le
  have sizeEq := inv.size_eq
  unfold RumrBuffer.AppendOk
  cases live : buf.failed with
  | true => exact ⟨fun _ => Or.inl rfl, fun _ => ⟨buf, by simp [rumrBufferAddData, live], inv⟩⟩
  | false =>
      simp only [Bool.false_eq_true, false_or]
      by_cases noWrap : buf.woffset.toNat + data.length < 2 ^ 32
      · by_cases room : buf.woffset.toNat + data.length ≤ buf.size.toNat
        · obtain ⟨next, run, nextInv, _⟩ := copyIn_spec buf data inv room
          rw [addData_inPlace live room]
          exact ⟨fun _ => ⟨noWrap, Or.inl room⟩, fun _ => ⟨next, run, nextInv⟩⟩
        · have grows : buf.size.toNat < buf.woffset.toNat + data.length := by omega
          cases granted : heap (buf.size + max 1024 (UInt32.ofNat data.length) +
              rumrBufferPreheader).toNat with
          | false =>
              refine ⟨fun _ => ⟨noWrap, Or.inr (Or.inr rfl)⟩, fun _ => ?_⟩
              rw [addData_grows live noWrap grows]
              simp only [granted, Bool.false_eq_true, if_false]
              exact ⟨_, rfl, inv.roffset_le, inv.woffset_le, inv.size_eq⟩
          | true =>
              by_cases small : buf.size.toNat + max 1024 data.length + 8 < 2 ^ 32
              · have newSize := grown_size_toNat buf data.length (by omega)
                obtain ⟨next, run, nextInv, _⟩ :=
                  copyIn_spec _ data (inv.grown data.length (by omega))
                    (by simp only [RumrBuffer.grown, newSize]; omega)
                rw [addData_grown live grows inv.woffset_le small granted]
                exact ⟨fun _ => ⟨noWrap, Or.inr (Or.inl small)⟩, fun _ => ⟨next, run, nextInv⟩⟩
              · rw [addData_overgrown live noWrap grows inv.woffset_le (by omega) granted]
                constructor
                · rintro ⟨_, impossible, _⟩
                  cases impossible
                · rintro ⟨_, fits | fits | denied⟩
                  · exact absurd fits room
                  · exact absurd fits small
                  · cases denied
      · rw [addData_wraps live inv bound (by omega)]
        constructor
        · rintro ⟨_, impossible, _⟩
          cases impossible
        · intro ok
          exact absurd ok.1 noWrap

end Append

/-! ## A sequence of appends -/

def emittedSize (size woffset : Nat) : List (List UInt8) → Nat
  | [] => size
  | chunk :: rest =>
      emittedSize (grownSize size woffset chunk.length) (woffset + chunk.length) rest

theorem size_le_grownSize (size woffset n : Nat) : size ≤ grownSize size woffset n := by
  unfold grownSize
  split <;> omega

theorem size_le_emittedSize (chunks : List (List UInt8)) (size woffset : Nat) :
    size ≤ emittedSize size woffset chunks := by
  induction chunks generalizing size woffset with
  | nil => exact le_refl size
  | cons chunk rest ih =>
      exact Nat.le_trans (size_le_grownSize size woffset chunk.length) (ih _ _)

theorem written_le_emittedSize (chunks : List (List UInt8)) (size woffset : Nat)
    (room : woffset ≤ size) :
    woffset + chunks.flatten.length ≤ emittedSize size woffset chunks := by
  induction chunks generalizing size woffset with
  | nil => simpa [emittedSize] using room
  | cons chunk rest ih =>
      have step : woffset + chunk.length ≤ grownSize size woffset chunk.length := by
        unfold grownSize
        split <;> omega
      have tail := ih _ _ step
      rw [List.flatten_cons, List.length_append, emittedSize]
      omega

/-- An upper bound on the last block: every append costs at most its length and
one kilobyte. -/
theorem emittedSize_le (chunks : List (List UInt8)) (size woffset : Nat) :
    emittedSize size woffset chunks ≤ size + 1024 * chunks.length + chunks.flatten.length := by
  induction chunks generalizing size woffset with
  | nil => simp [emittedSize]
  | cons chunk rest ih =>
      have step : grownSize size woffset chunk.length ≤ size + 1024 + chunk.length := by
        unfold grownSize
        split <;> omega
      have tail := ih (grownSize size woffset chunk.length) (woffset + chunk.length)
      rw [List.flatten_cons, List.length_append, List.length_cons, emittedSize]
      omega

theorem emittedSize_of_fits (chunks : List (List UInt8)) (size woffset : Nat)
    (fits : woffset + chunks.flatten.length ≤ size) :
    emittedSize size woffset chunks = size := by
  induction chunks generalizing woffset with
  | nil => rfl
  | cons chunk rest ih =>
      rw [List.flatten_cons, List.length_append] at fits
      have same : grownSize size woffset chunk.length = size := if_neg (by omega)
      rw [emittedSize, same]
      exact ih _ (by omega)

/-- All chunks are appended, in order, as long as the last block size fits. -/
theorem emitAll_spec {heap : Nat → Bool} (granted : ∀ request, heap request = true)
    (chunks : List (List UInt8)) (buf : RumrBuffer) (inv : buf.Inv)
    (live : buf.failed = false)
    (fits : emittedSize buf.size.toNat buf.woffset.toNat chunks + 8 < 2 ^ 32) :
    ∃ next, emitAll (rumrBufferAddData heap) chunks buf = some ((), next) ∧ next.Inv ∧
      next.written = buf.written ++ chunks.flatten ∧ next.roffset = buf.roffset ∧
      next.failed = false := by
  induction chunks generalizing buf with
  | nil => exact ⟨buf, rfl, inv, by simp, rfl, live⟩
  | cons chunk rest ih =>
      rw [emittedSize] at fits
      have firstFits : grownSize buf.size.toNat buf.woffset.toNat chunk.length + 8 < 2 ^ 32 :=
        Nat.lt_of_le_of_lt (Nat.add_le_add_right (size_le_emittedSize rest _ _) 8) fits
      obtain ⟨middle, run, middleInv, written, roffset, failed, size, woffset⟩ :=
        rumrBufferAddData_spec inv live firstFits granted
      rw [← size, ← woffset] at fits
      obtain ⟨final, runRest, finalInv, finalWritten, finalRoffset, finalFailed⟩ :=
        ih middle middleInv failed fits
      refine ⟨final, ?_, finalInv, ?_, finalRoffset.trans roffset, finalFailed⟩
      · change (rumrBufferAddData heap chunk buf).bind
          (fun pair => emitAll (rumrBufferAddData heap) rest pair.2) = _
        rw [run]
        exact runRest
      · rw [finalWritten, written, List.flatten_cons, List.append_assoc]

def emptyBuffer : RumrBuffer := ⟨List.replicate 1024 0, 1024, 0, 0, false⟩

theorem rumrBufferInit_granted {heap : Nat → Bool} (granted : ∀ request, heap request = true) :
    rumrBufferInit heap = some emptyBuffer := if_pos (granted _)

theorem emptyBuffer_inv : emptyBuffer.Inv := by
  refine ⟨by decide, by decide, ?_⟩
  change (1024 : UInt32).toNat = (List.replicate 1024 (0 : UInt8)).length
  rw [List.length_replicate]
  rfl

@[simp] theorem emptyBuffer_written : emptyBuffer.written = [] := rfl

/-! ## Reading -/

/-- A buffer with the bytes, sizes and write offset of `origin`, read up to
some point. -/
structure RumrBuffer.ReadFrom (origin buf : RumrBuffer) : Prop where
  readable : buf.Readable
  same : buf = { origin with roffset := buf.roffset }

theorem RumrBuffer.Readable.readFrom {buf : RumrBuffer} (readable : buf.Readable) :
    buf.ReadFrom buf := ⟨readable, rfl⟩

theorem rumrBufferReadData_reads (origin : RumrBuffer) (size : UInt32) (bytes : List UInt8)
    (length : bytes.length = size.toNat) :
    Reads origin.ReadFrom RumrBuffer.unread (rumrBufferReadData size) bytes bytes := by
  intro buf rest from_ split
  have readable := from_.readable
  have unreadLength := readable.unread_length
  rw [split, List.length_append] at unreadLength
  have wBound : buf.woffset.toNat < 2 ^ 32 := buf.woffset.toNat_lt
  have rLe := UInt32.le_iff_toNat_le.mp readable.roffset_le
  have wLe := readable.woffset_le
  have endEq : (buf.roffset + size).toNat = buf.roffset.toNat + size.toNat :=
    add_toNat_of_lt (by omega)
  have inside : buf.roffset + size ≤ buf.woffset := by
    rw [UInt32.le_iff_toNat_le, endEq]
    omega
  have chunk : (buf.data.drop buf.roffset.toNat).take size.toNat = bytes := by
    have whole : (buf.data.drop buf.roffset.toNat).take
        (buf.woffset.toNat - buf.roffset.toNat) = bytes ++ rest := by
      rw [← split, RumrBuffer.unread, RumrBuffer.written, List.drop_take]
    have shorter := congrArg (List.take size.toNat) whole
    rw [List.take_take, Nat.min_eq_left (by omega), ← length, List.take_left] at shorter
    rw [← length]
    exact shorter
  refine ⟨{ buf with roffset := buf.roffset + size }, ?_, ⟨⟨inside, wLe⟩, ?_⟩, ?_⟩
  · simp only [rumrBufferReadData, if_pos inside, chunk]
    rw [if_pos (Or.inr (by omega))]
  · rw [from_.same]
  · have advance : buf.unread.drop size.toNat = rest := by
      rw [split, ← length, List.drop_left]
    rw [← advance]
    simp only [RumrBuffer.unread, RumrBuffer.written, endEq, List.drop_drop]

theorem rumrBufferReadUint32_reads (origin : RumrBuffer) (value : UInt32) :
    Reads origin.ReadFrom RumrBuffer.unread rumrBufferReadUint32 (wordBytes value) value := by
  have data := (rumrBufferReadData_reads origin 4 (wordBytes value) rfl).map bytesWord
  rwa [bytesWord_wordBytes] at data

/-- A read past the written bytes returns zeros and moves nothing. -/
theorem rumrBufferReadData_short (buf : RumrBuffer) (size : UInt32)
    (noWrap : buf.roffset.toNat + size.toNat < 2 ^ 32)
    (short : buf.woffset.toNat < buf.roffset.toNat + size.toNat) :
    rumrBufferReadData size buf = some (List.replicate size.toNat 0, buf) := by
  have outside : ¬ buf.roffset + size ≤ buf.woffset := by
    rw [UInt32.le_iff_toNat_le, add_toNat_of_lt noWrap]
    omega
  simp only [rumrBufferReadData, if_neg outside]

end Umr.Rumr
