import Umr.Lib.Framing
import Umr.Lib.Fault

/-!
# UMSCH streams

`umr_umsch_decode_stream` of `read_umsch_stream.c`.  The size of a packet is taken
from its header and not compared with the words that are left: a stream is decoded
only if it is a sequence of whole packets.
-/

set_option autoImplicit false

namespace Umr.Packet

open Umr.Lib

structure UmschPacket where
  type : UInt32
  opcode : UInt32
  nwords : UInt32
  headerDw : UInt32
  words : List UInt32
  deriving DecidableEq, Repr

def umschHeader (header : UInt32) : UmschPacket where
  type := header &&& 0xF
  opcode := (header >>> 4) &&& 0xFF
  nwords := (header >>> 12) &&& 0xFF
  headerDw := header
  words := []

def zeroUmsch : UmschPacket := ⟨0, 0, 0, 0, []⟩

inductive UmschStop where
  /-- `memcpy` reads behind the stream, and `nwords` wraps around -/
  | outOfBounds
  | running
  deriving DecidableEq, Repr

/-- The loop, where `stream` holds the `nwords` words that are left. -/
def umschLoop : Nat → List UInt32 → Except UmschStop (List UmschPacket)
  | 0, _ => .error .running
  | _ + 1, [] => .ok []
  | turns + 1, header :: stream =>
      let ps := umschHeader header
      if stream.length < ps.nwords.toNat then .error .outOfBounds
      else do
        let next ← umschLoop turns (stream.drop ps.nwords.toNat)
        pure ({ ps with words := stream.take ps.nwords.toNat } :: next)

def umrUmschDecodeStream (stream : List UInt32) : Except UmschStop (List UmschPacket) :=
  if stream = [] then .ok [zeroUmsch] else umschLoop (stream.length + 1) stream

def UmschPacket.frame (packet : UmschPacket) : UInt32 × List UInt32 :=
  (packet.headerDw, packet.words)

/-- The stream is decoded without reading behind it, and its packets are a beginning of it. -/
def UmschDecodes (stream : List UInt32) : Prop :=
  ∃ packets, umrUmschDecodeStream stream = .ok packets ∧
    reassemble (packets.map UmschPacket.frame) <+: stream

def WholeUmsch (packets : List (UInt32 × List UInt32)) : Prop :=
  ∀ packet ∈ packets, packet.2.length = (umschHeader packet.1).nwords.toNat

theorem umschLoop_ends {turns : Nat} {stream : List UInt32} (enough : stream.length < turns) :
    umschLoop turns stream ≠ .error .running := by
  induction turns generalizing stream with
  | zero => exact absurd enough (Nat.not_lt_zero _)
  | succ turns ih =>
      cases stream with
      | nil => simp [umschLoop]
      | cons header stream =>
          have further := @ih (stream.drop (umschHeader header).nwords.toNat) (by
            rw [List.length_drop]
            rw [List.length_cons] at enough
            omega)
          rw [umschLoop]
          split
          · simp
          · cases next : umschLoop turns (stream.drop (umschHeader header).nwords.toNat) with
            | error stop =>
                intro same
                cases same
                exact further next
            | ok packets =>
                intro same
                cases same

theorem umschLoop_whole {packets : List (UInt32 × List UInt32)} (whole : WholeUmsch packets) :
    ∀ {turns : Nat}, (reassemble packets).length < turns →
      ∃ decoded, umschLoop turns (reassemble packets) = .ok decoded ∧
        decoded.map UmschPacket.frame = packets := by
  induction packets with
  | nil =>
      intro turns enough
      obtain ⟨more, rfl⟩ : ∃ more, turns = more + 1 := ⟨turns - 1, by omega⟩
      exact ⟨[], rfl, rfl⟩
  | cons packet packets ih =>
      intro turns enough
      obtain ⟨more, rfl⟩ : ∃ more, turns = more + 1 := ⟨turns - 1, by omega⟩
      obtain ⟨header, body⟩ := packet
      have size : body.length = (umschHeader header).nwords.toNat := whole _ List.mem_cons_self
      have stream : reassemble ((header, body) :: packets) =
          header :: (body ++ reassemble packets) := rfl
      obtain ⟨decoded, run, frames⟩ :=
        @ih (fun other member => whole other (List.mem_cons_of_mem _ member)) more (by
          rw [stream, List.length_cons, List.length_append] at enough
          omega)
      refine ⟨{ umschHeader header with words := body } :: decoded, ?_, ?_⟩
      · have inside : ¬ (body ++ reassemble packets).length < (umschHeader header).nwords.toNat := by
          rw [List.length_append]
          omega
        rw [stream, umschLoop]
        dsimp only
        rw [if_neg inside, ← size, List.drop_left, List.take_left, run]
        rfl
      · rw [List.map_cons, frames]
        rfl

theorem umschLoop_frames {turns : Nat} {stream : List UInt32} {decoded : List UmschPacket}
    (run : umschLoop turns stream = .ok decoded) :
    stream = reassemble (decoded.map UmschPacket.frame) ∧
      WholeUmsch (decoded.map UmschPacket.frame) := by
  induction turns generalizing stream decoded with
  | zero => cases run
  | succ turns ih =>
      cases stream with
      | nil =>
          cases run
          exact ⟨rfl, fun _ member => absurd member List.not_mem_nil⟩
      | cons header stream =>
          rw [umschLoop] at run
          split at run
          · cases run
          · rename_i inside
            obtain ⟨next, isNext, same⟩ := bind_ok run
            cases same
            obtain ⟨words, whole⟩ := ih isNext
            refine ⟨?_, ?_⟩
            · change header :: stream = header :: (stream.take _ ++
                reassemble (next.map UmschPacket.frame))
              rw [← words, List.take_append_drop]
            · intro packet member
              rcases List.mem_cons.mp member with rfl | later
              · change (stream.take _).length = _
                rw [List.length_take]
                exact Nat.min_eq_left (Nat.le_of_not_lt inside)
              · exact whole packet later

/-- A stream is decoded exactly when it is one or more whole packets. -/
theorem umschDecodes_iff (stream : List UInt32) :
    UmschDecodes stream ↔
      ∃ packets, packets ≠ [] ∧ WholeUmsch packets ∧ stream = reassemble packets := by
  constructor
  · rintro ⟨decoded, run, isBeginning⟩
    unfold umrUmschDecodeStream at run
    split at run
    · rename_i empty
      cases run
      rw [empty] at isBeginning
      exact absurd (List.prefix_nil.mp isBeginning) (by decide)
    · rename_i some_
      obtain ⟨words, whole⟩ := umschLoop_frames run
      refine ⟨decoded.map UmschPacket.frame, ?_, whole, words⟩
      intro none_
      rw [none_] at words
      exact some_ words
  · rintro ⟨packets, some_, whole, rfl⟩
    obtain ⟨decoded, run, frames⟩ := umschLoop_whole whole (Nat.lt_succ_self _)
    have nonempty : reassemble packets ≠ [] := by
      obtain ⟨packet, rest, rfl⟩ := List.exists_cons_of_ne_nil some_
      exact List.cons_ne_nil _ _
    refine ⟨decoded, ?_, ?_⟩
    · rw [umrUmschDecodeStream, if_neg nonempty, run]
    · exact ⟨[], by rw [frames, List.append_nil]⟩

theorem umschDecodes_not_truncated : ¬ UmschDecodes [0x1000] := by
  rintro ⟨packets, run, -⟩
  have stopped : umrUmschDecodeStream [0x1000] = .error .outOfBounds := by decide
  cases stopped.symm.trans run

end Umr.Packet
