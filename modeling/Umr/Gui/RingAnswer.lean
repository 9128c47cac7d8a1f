import Umr.Lib.Slices
import Umr.Packet.Disassemble
import Mathlib.Data.List.Forall2

/-!
# The answer to a ring request

The callbacks of `commands.c` that collect the words of the packets: a stack of
open IBs, each with the words shown since it was opened.  An IB that is closed
is laid behind the ones closed before it, and its record says where it went.
-/

set_option autoImplicit false

namespace Umr.Gui

open Umr.Lib Umr.Packet

structure RawIb where
  address : UInt64
  vmid : UInt32
  opcodes : List UInt32
  deriving DecidableEq, Repr

/-- `opcodes` is `opcode_start` and `opcode_count`. -/
structure IbRecord where
  address : UInt64
  vmid : UInt32
  opcodes : Slice
  deriving DecidableEq, Repr

/-- `struct ring_decoding_data`; `ring` is not set before an IB at address 0 is
closed.  The IB opened last comes first. -/
structure RingDecodingData where
  ibs : List IbRecord
  ring : Option IbRecord
  openIbs : List RawIb
  concatenated : List UInt32
  deriving DecidableEq, Repr

def RingDecodingData.empty : RingDecodingData := ⟨[], none, [], []⟩

/-! ## The callbacks -/

section Callbacks
variable (sdma : Bool) (behind : Nat → UInt32)

def ringStartIb (data : RingDecodingData) (ibAddr : UInt64) (ibVmid : UInt32) :
    RingDecodingData :=
  { data with openIbs := ⟨ibAddr, ibVmid, []⟩ :: data.openIbs }

def copied (nwords : UInt32) : Nat := (if sdma then nwords - 1 else nwords).toNat

/-- `memcpy` out of an array; `behind` is the memory after it. -/
def copyWords (words : List UInt32) (count : Nat) : List UInt32 :=
  words.take count ++ (List.range (count - words.length)).map behind

/-- The room of an IB doubles from 128 words on in 32 bits: from `2 ^ 31` words
on the doubling does not end. -/
def ringStartOpcode (data : RingDecodingData) (nwords header : UInt32) (rawData : List UInt32) :
    Option RingDecodingData :=
  match data.openIbs with
  | [] => none
  | top :: others =>
      if top.opcodes.length + copied sdma nwords + 1 < 2 ^ 31 then
        let opcodes := top.opcodes ++ header :: copyWords behind rawData (copied sdma nwords)
        some { data with openIbs := { top with opcodes := opcodes } :: others }
      else none

def RingDecodingData.close (data : RingDecodingData) (ib : RawIb) : RingDecodingData :=
  let v : IbRecord := ⟨ib.address, ib.vmid, ⟨data.concatenated.length, ib.opcodes.length⟩⟩
  { data with
    ring := if ib.address = 0 then some v else data.ring
    ibs := if ib.address = 0 then data.ibs else data.ibs ++ [v]
    concatenated := data.concatenated ++ ib.opcodes }

/-- The words of all IBs are counted in 32 bits. -/
def ringDone (data : RingDecodingData) : Option RingDecodingData :=
  match data.openIbs with
  | [] => none
  | top :: others =>
      if data.concatenated.length + top.opcodes.length < 2 ^ 32 then
        some (RingDecodingData.close { data with openIbs := others } top)
      else none

def ringCallback (data : RingDecodingData) : Callback → Option RingDecodingData
  | .startIb ibAddr ibVmid => some (ringStartIb data ibAddr ibVmid)
  | .startOpcode nwords header rawData => ringStartOpcode sdma behind data nwords header rawData
  | .done => ringDone data

def runCallbacks (data : RingDecodingData) (calls : List Callback) : Option RingDecodingData :=
  calls.foldlM (ringCallback sdma behind) data

end Callbacks

/-! ## What the answer has to be -/

section Spec
variable {α : Type} (loop : StreamLoop α)

def streamWords : Linked α → List UInt32
  | .null => []
  | .node packet _ next => loop.header packet :: (loop.words packet ++ streamWords next)

/-- The IBs the decoder enters, in the order in which it leaves them, with the
words `content` has for them. -/
def entered (content : Linked α → List UInt32) : Linked α → List RawIb
  | .null => []
  | .node packet ib next =>
      (if loop.enters packet ib then
        entered content ib ++ [⟨(loop.source packet).1, (loop.source packet).2, content ib⟩]
        else []) ++
      if loop.stop packet then [] else entered content next

/-- The ring is left last. -/
def withRing (content : Linked α → List UInt32) (stream : Linked α) : List RawIb :=
  entered loop content stream ++ [⟨0, 0, content stream⟩]

end Spec

def Delimits (array : List UInt32) (record : IbRecord) (ib : RawIb) : Prop :=
  record.address = ib.address ∧ record.vmid = ib.vmid ∧ record.opcodes.of array = ib.opcodes

/-- The records of the answer are those of `ibs`, the last of them the ring. -/
structure Answers (data : RingDecodingData) (ibs : List RawIb) : Prop where
  ring : data.ring.isSome
  delimit : List.Forall₂ (Delimits data.concatenated) (data.ibs ++ data.ring.toList) ibs
  apart : (data.ibs ++ data.ring.toList).Pairwise fun first second =>
    first.opcodes.Apart second.opcodes
  cover : ∀ index < data.concatenated.length,
    ∃ record ∈ data.ibs ++ data.ring.toList, record.opcodes.Holds index

def Within (sdma : Bool) : Callback → Prop
  | .startOpcode nwords _ rawData => copied sdma nwords ≤ rawData.length
  | .startIb _ _ => True
  | .done => True

/-! ## A run of callbacks -/

section Run
variable {sdma : Bool} {behind : Nat → UInt32}

theorem runCallbacks_append (data : RingDecodingData) (calls more : List Callback) :
    runCallbacks sdma behind data (calls ++ more) =
      (runCallbacks sdma behind data calls).bind (runCallbacks sdma behind · more) :=
  List.foldlM_append

theorem copyWords_length (words : List UInt32) (count : Nat) :
    (copyWords behind words count).length = count := by
  rw [copyWords, List.length_append, List.length_take, List.length_map, List.length_range]
  omega

theorem copyWords_all (words : List UInt32) : copyWords behind words words.length = words := by
  rw [copyWords, List.take_length, Nat.sub_self]
  exact List.append_nil words

def closeAll (data : RingDecodingData) (ibs : List RawIb) : RingDecodingData :=
  ibs.foldl RingDecodingData.close data

theorem closeAll_append (data : RingDecodingData) (ibs more : List RawIb) :
    closeAll data (ibs ++ more) = closeAll (closeAll data ibs) more :=
  List.foldl_append

theorem closeAll_openIbs (data : RingDecodingData) (ibs : List RawIb) :
    (closeAll data ibs).openIbs = data.openIbs := by
  induction ibs generalizing data with
  | nil => rfl
  | cons ib ibs ih => exact ih (data.close ib)

theorem closeAll_reopen (data : RingDecodingData) (others : List RawIb) (ibs : List RawIb) :
    closeAll { data with openIbs := others } ibs =
      { closeAll data ibs with openIbs := others } := by
  induction ibs generalizing data with
  | nil => rfl
  | cons ib ibs ih => exact ih (data.close ib)

theorem closeAll_swap (data : RingDecodingData) (others around : List RawIb) (ibs : List RawIb) :
    { closeAll { data with openIbs := others } ibs with openIbs := around } =
      closeAll { data with openIbs := around } ibs := by
  rw [closeAll_reopen data others, closeAll_reopen data around]

theorem closeAll_concatenated (data : RingDecodingData) (ibs : List RawIb) :
    (closeAll data ibs).concatenated = data.concatenated ++ ibs.flatMap (·.opcodes) := by
  induction ibs generalizing data with
  | nil => exact (List.append_nil _).symm
  | cons ib ibs ih =>
      rw [closeAll, List.foldl_cons, ← closeAll, ih, List.flatMap_cons, ← List.append_assoc]
      rfl

theorem closeAll_concatenated_length (data : RingDecodingData) (ibs : List RawIb) :
    (closeAll data ibs).concatenated.length =
      data.concatenated.length + (ibs.flatMap (·.opcodes)).length := by
  rw [closeAll_concatenated, List.length_append]

def Fit (start : Nat) (ibs : List RawIb) : Prop :=
  (∀ ib ∈ ibs, ib.opcodes.length < 2 ^ 31) ∧
    start + (ibs.flatMap (·.opcodes)).length < 2 ^ 32

theorem fit_nil {start : Nat} (room : start < 2 ^ 32) : Fit start [] :=
  ⟨fun _ member => (nomatch member), by simpa using room⟩

theorem fit_append (start : Nat) (ibs more : List RawIb) :
    Fit start (ibs ++ more) ↔
      Fit start ibs ∧ Fit (start + (ibs.flatMap (·.opcodes)).length) more := by
  simp only [Fit, List.forall_mem_append, List.flatMap_append, List.length_append]
  constructor
  · rintro ⟨⟨first, second⟩, total⟩
    exact ⟨⟨first, by omega⟩, second, by omega⟩
  · rintro ⟨⟨first, _⟩, second, total⟩
    exact ⟨⟨first, second⟩, by omega⟩

theorem fit_single (start : Nat) (ib : RawIb) :
    Fit start [ib] ↔ ib.opcodes.length < 2 ^ 31 ∧ start + ib.opcodes.length < 2 ^ 32 := by
  simp only [Fit, List.mem_singleton, forall_eq, List.flatMap_cons, List.flatMap_nil,
    List.append_nil]

end Run

end Umr.Gui
