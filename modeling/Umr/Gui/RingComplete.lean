import Umr.Gui.RingSlices

/-!
# When a ring answer is right

A stream whose packets are all shown with the words they store, and whose IBs
are not at the address that stands for the ring, has its words in the answer.
-/

set_option autoImplicit false

namespace Umr.Gui

open Umr.Lib Umr.Packet

/-- Every packet of the stream and of the IBs entered from it is `shown`, none ends its stream
early, and no IB is at address 0. -/
def Complete {α : Type} (loop : StreamLoop α) (shown : α → Prop) : Linked α → Prop
  | .null => True
  | .node packet ib next =>
      shown packet ∧ (loop.stop packet = true → next.isNull = true) ∧
        (loop.enters packet ib = true → (loop.source packet).1 ≠ 0 ∧ Complete loop shown ib) ∧
        Complete loop shown next

section Complete
variable {α : Type} {loop : StreamLoop α}

theorem Complete.congr {shown also : α → Prop} {stored : α → Prop}
    (same : ∀ packet, stored packet → (shown packet ↔ also packet)) {stream : Linked α}
    (all : stream.All stored) :
    Complete loop shown stream ↔ Complete loop also stream := by
  induction stream with
  | null => exact Iff.rfl
  | node packet ib next ibSame nextSame =>
      obtain ⟨here, inIb, behindIt⟩ := all
      simp only [Complete, same packet here, ibSame inIb, nextSame behindIt]

variable (loop) (sdma : Bool) (behind : Nat → UInt32)

def ShownWhole (packet : α) : Prop :=
  loop.fault packet = false ∧
    ∃ nwords, loop.call packet = some nwords ∧ copied sdma nwords = (loop.words packet).length

variable {loop sdma behind}

theorem shownWords_whole {packet : α} (whole : ShownWhole loop sdma packet) :
    shownWords loop sdma behind packet = loop.header packet :: loop.words packet := by
  obtain ⟨-, nwords, call, count⟩ := whole
  rw [shownWords, call]
  change loop.header packet :: copyWords behind _ _ = _
  rw [count, copyWords_all]

theorem shownWords_length_le {packet : α}
    (within : ∀ call ∈ loop.shows packet, Within sdma call) :
    (shownWords loop sdma behind packet).length ≤ (loop.words packet).length + 1 := by
  cases call : loop.call packet with
  | none =>
      rw [shownWords, call]
      exact Nat.zero_le _
  | some nwords =>
      rw [StreamLoop.shows, call] at within
      rw [shownWords, call]
      change (copyWords behind _ _).length + 1 ≤ _
      rw [copyWords_length]
      exact Nat.succ_le_succ (within _ List.mem_cons_self)

theorem shownWhole_of_length {packet : α} (alive : loop.fault packet = false)
    (length : (shownWords loop sdma behind packet).length = (loop.words packet).length + 1) :
    ShownWhole loop sdma packet := by
  refine ⟨alive, ?_⟩
  cases call : loop.call packet with
  | none =>
      rw [shownWords, call] at length
      cases length
  | some nwords =>
      rw [shownWords, call] at length
      change (copyWords behind _ _).length + 1 = _ at length
      rw [copyWords_length, Nat.add_right_cancel_iff] at length
      exact ⟨nwords, rfl, length⟩

theorem emitted_length_le {stream : Linked α} {calls : List Callback}
    (called : loop.calls stream = some calls) (within : ∀ call ∈ calls, Within sdma call) :
    (emitted loop sdma behind stream).length ≤ (streamWords loop stream).length := by
  induction stream generalizing calls with
  | null => exact Nat.zero_le _
  | node packet ib next _ nextLe =>
      obtain ⟨-, inner, further, -, furtherCalls, rfl⟩ := calls_node.mp called
      simp only [List.forall_mem_append] at within
      have first : (shownWords loop sdma behind packet).length ≤ (loop.words packet).length + 1 :=
        shownWords_length_le within.1
      simp only [emitted, streamWords, List.length_append, List.length_cons]
      split at furtherCalls
      next stops =>
        rw [if_pos stops, List.length_nil]
        omega
      next goesOn =>
        have later := nextLe furtherCalls within.2.2
        rw [if_neg goesOn]
        omega

theorem entered_length (content other : Linked α → List UInt32) (stream : Linked α) :
    (entered loop content stream).length = (entered loop other stream).length := by
  induction stream with
  | null => rfl
  | node packet ib next ibSame nextSame =>
      simp only [entered, List.length_append]
      congr 1
      · split
        · simp only [List.length_append, ibSame, List.length_singleton]
        · rfl
      · split
        · rfl
        · exact nextSame

theorem streamWords_eq_nil {stream : Linked α} (none_ : (streamWords loop stream).length = 0) :
    stream = .null := by
  cases stream with
  | null => rfl
  | node packet ib next => cases none_

variable (loop sdma behind) in
/-- What the callbacks collect is what the stream has, for the IB and for the IBs entered from
it. -/
structure CollectsAll (stream : Linked α) : Prop where
  own : emitted loop sdma behind stream = streamWords loop stream
  inner : entered loop (emitted loop sdma behind) stream = entered loop (streamWords loop) stream
  nonzero : ∀ ib ∈ entered loop (emitted loop sdma behind) stream, ib.address ≠ 0
  within : ∃ calls, loop.calls stream = some calls ∧ ∀ call ∈ calls, Within sdma call

theorem CollectsAll.null : CollectsAll loop sdma behind .null :=
  ⟨rfl, rfl, fun _ member => (nomatch member), [], rfl, fun _ member => (nomatch member)⟩

/-- The words of a packet and of the packets behind it are there only together. -/
theorem own_split {packet : α} {next : Linked α} {further : List Callback}
    (alive : loop.fault packet = false) (within : ∀ call ∈ loop.shows packet, Within sdma call)
    (furtherCalls : (if loop.stop packet then some [] else loop.calls next) = some further)
    (furtherWithin : ∀ call ∈ further, Within sdma call)
    (own : shownWords loop sdma behind packet ++
        (if loop.stop packet then [] else emitted loop sdma behind next) =
      loop.header packet :: (loop.words packet ++ streamWords loop next)) :
    ShownWhole loop sdma packet ∧ (loop.stop packet = true → next = .null) ∧
      emitted loop sdma behind next = streamWords loop next := by
  have first : (shownWords loop sdma behind packet).length ≤ (loop.words packet).length + 1 :=
    shownWords_length_le within
  have lengths := congrArg List.length own
  rw [List.length_append, List.length_cons, List.length_append] at lengths
  split at furtherCalls
  next stops =>
    rw [if_pos stops, List.length_nil] at lengths
    have nothing : (streamWords loop next).length = 0 := by omega
    have last := streamWords_eq_nil nothing
    subst last
    have here : (shownWords loop sdma behind packet).length = (loop.words packet).length + 1 := by
      omega
    exact ⟨shownWhole_of_length alive here, fun _ => rfl, rfl⟩
  next goesOn =>
    have later : (emitted loop sdma behind next).length ≤ (streamWords loop next).length :=
      emitted_length_le furtherCalls furtherWithin
    rw [if_neg goesOn] at lengths own
    have here : (shownWords loop sdma behind packet).length = (loop.words packet).length + 1 := by
      omega
    refine ⟨shownWhole_of_length alive here, fun stops => absurd stops goesOn, ?_⟩
    have split : shownWords loop sdma behind packet ++ emitted loop sdma behind next =
        (loop.header packet :: loop.words packet) ++ streamWords loop next := own
    exact List.append_inj_right split here

theorem CollectsAll.packet {packet : α} {ib next : Linked α}
    (all : CollectsAll loop sdma behind (.node packet ib next)) :
    ShownWhole loop sdma packet ∧ (loop.stop packet = true → next.isNull = true) ∧
      (loop.enters packet ib = true →
        (loop.source packet).1 ≠ 0 ∧ CollectsAll loop sdma behind ib) ∧
      CollectsAll loop sdma behind next := by
  obtain ⟨own, inner, nonzero, calls, called, within⟩ := all
  obtain ⟨alive, ibCalls, further, ibCalled, furtherCalls, rfl⟩ := calls_node.mp called
  simp only [List.forall_mem_append] at within
  obtain ⟨showsWithin, ibWithin, furtherWithin⟩ := within
  obtain ⟨whole, last, ownNext⟩ := own_split alive showsWithin furtherCalls furtherWithin own
  rw [entered, List.forall_mem_append] at nonzero
  obtain ⟨nonzeroHere, nonzeroNext⟩ := nonzero
  -- the IB of the packet comes before the IBs of the packets behind it
  obtain ⟨innerHere, innerNext⟩ := List.append_inj inner (by
    split
    · rw [List.length_append, List.length_append, entered_length _ (streamWords loop)]
      rfl
    · rfl)
  refine ⟨whole, fun stops => ?_, fun enters => ?_, ?_⟩
  · rw [last stops]
    rfl
  · rw [if_pos enters] at nonzeroHere ibCalled
    rw [if_pos enters, if_pos enters] at innerHere
    obtain ⟨calls, ibCalls_, rfl⟩ := Option.map_eq_some_iff.mp ibCalled
    obtain ⟨innerIb, ownIb⟩ := List.append_inj' innerHere rfl
    rw [List.forall_mem_append] at nonzeroHere
    refine ⟨nonzeroHere.2 _ (List.mem_singleton_self _), ?_, innerIb, nonzeroHere.1, calls,
      ibCalls_, ?_⟩
    · injection ownIb with sameIb
      injection sameIb
    · intro call member
      exact ibWithin call (List.mem_cons_of_mem _ (List.mem_append_left _ member))
  · by_cases stops : loop.stop packet = true
    · rw [last stops]
      exact CollectsAll.null
    · rw [if_neg stops] at nonzeroNext furtherCalls
      rw [if_neg stops, if_neg stops] at innerNext
      exact ⟨ownNext, innerNext, nonzeroNext, further, furtherCalls, furtherWithin⟩

theorem within_inIb {source : UInt64 × UInt32} {calls : List Callback} :
    (∀ call ∈ inIb source calls, Within sdma call) ↔ ∀ call ∈ calls, Within sdma call := by
  simp only [inIb, List.forall_mem_cons, List.forall_mem_append, List.not_mem_nil,
    IsEmpty.forall_iff, implies_true, Within, true_and, and_true]

theorem CollectsAll.node {packet : α} {ib next : Linked α} (whole : ShownWhole loop sdma packet)
    (last : loop.stop packet = true → next.isNull = true)
    (inIb : loop.enters packet ib = true →
      (loop.source packet).1 ≠ 0 ∧ CollectsAll loop sdma behind ib)
    (behindIt : CollectsAll loop sdma behind next) :
    CollectsAll loop sdma behind (.node packet ib next) := by
  obtain ⟨ownNext, innerNext, nonzeroNext, further, furtherCalls, furtherWithin⟩ := behindIt
  have showsWithin : ∀ call ∈ loop.shows packet, Within sdma call := by
    obtain ⟨-, nwords, call, count⟩ := whole
    rw [StreamLoop.shows, call]
    intro shown member
    rw [List.mem_singleton.mp member]
    exact Nat.le_of_eq count
  have ibCalled : ∃ calls, (if loop.enters packet ib then
      (loop.calls ib).map (Packet.inIb (loop.source packet)) else some []) = some calls ∧
      ∀ call ∈ calls, Within sdma call := by
    by_cases enters : loop.enters packet ib = true
    · obtain ⟨-, -, -, -, calls, called, within⟩ := inIb enters
      rw [if_pos enters, called]
      exact ⟨_, rfl, within_inIb.mpr within⟩
    · rw [if_neg enters]
      exact ⟨[], rfl, fun _ member => absurd member List.not_mem_nil⟩
  obtain ⟨ibCalls, ibCalls_, ibWithin⟩ := ibCalled
  have furtherCalled : ∃ calls, (if loop.stop packet then some [] else loop.calls next) =
      some calls ∧ ∀ call ∈ calls, Within sdma call := by
    split
    · exact ⟨[], rfl, fun _ member => absurd member List.not_mem_nil⟩
    · exact ⟨further, furtherCalls, furtherWithin⟩
  obtain ⟨calls, calls_, callsWithin⟩ := furtherCalled
  refine ⟨?_, ?_, ?_, _, calls_node.mpr ⟨whole.1, ibCalls, calls, ibCalls_, calls_, rfl⟩, ?_⟩
  · rw [emitted, shownWords_whole whole, streamWords]
    by_cases stops : loop.stop packet = true
    · rw [if_pos stops, Linked.eq_null (last stops)]
      rfl
    · rw [if_neg stops, ownNext]
      rfl
  · rw [entered, entered]
    congr 1
    · by_cases enters : loop.enters packet ib = true
      · rw [if_pos enters, if_pos enters, (inIb enters).2.own, (inIb enters).2.inner]
      · rw [if_neg enters, if_neg enters]
    · rw [innerNext]
  · rw [entered, List.forall_mem_append]
    refine ⟨?_, ?_⟩
    · by_cases enters : loop.enters packet ib = true
      · rw [if_pos enters, List.forall_mem_append]
        refine ⟨(inIb enters).2.nonzero, fun found member => ?_⟩
        rw [List.mem_singleton.mp member]
        exact (inIb enters).1
      · rw [if_neg enters]
        exact fun _ member => absurd member List.not_mem_nil
    · split
      · exact fun _ member => absurd member List.not_mem_nil
      · exact nonzeroNext
  · simp only [List.forall_mem_append]
    exact ⟨showsWithin, ibWithin, callsWithin⟩

theorem collectsAll_iff {stream : Linked α} :
    CollectsAll loop sdma behind stream ↔ Complete loop (ShownWhole loop sdma) stream := by
  induction stream with
  | null => exact ⟨fun _ => trivial, fun _ => CollectsAll.null⟩
  | node packet ib next ibAll nextAll =>
      rw [Complete, ← ibAll, ← nextAll]
      exact ⟨CollectsAll.packet, fun all => CollectsAll.node all.1 all.2.1 all.2.2.1 all.2.2.2⟩

variable (loop sdma behind) in
/-- The callbacks take the calls of the decoder to an answer for the stream, and no packet has more
words copied than it stores. -/
def AnswersStream (calls : Option (List Callback)) (stream : Linked α) : Prop :=
  ∃ shown, calls = some shown ∧ (∀ call ∈ shown, Within sdma call) ∧
    ∃ data, runCallbacks sdma behind .empty shown = some data ∧
      Answers data (withRing loop (streamWords loop) stream)

theorem answersStream_iff {stream : Linked α} :
    AnswersStream loop sdma behind (decodeStreamOpcodes loop 0 0 stream) stream ↔
      Complete loop (ShownWhole loop sdma) stream ∧
        Fit 0 (withRing loop (streamWords loop) stream) := by
  have many : (withRing loop (streamWords loop) stream).length =
      (withRing loop (emitted loop sdma behind) stream).length := by
    rw [withRing, withRing, List.length_append, List.length_append,
      entered_length (streamWords loop) (emitted loop sdma behind)]
    rfl
  have collected : Complete loop (ShownWhole loop sdma) stream ↔
      CollectsAll loop sdma behind stream := collectsAll_iff.symm
  rw [collected]
  constructor
  · rintro ⟨shown, decoded, within, data, ran, answers⟩
    obtain ⟨calls, called, rfl⟩ := Option.map_eq_some_iff.mp decoded
    obtain ⟨fits, rfl⟩ := (run_stream called data).mp ran
    obtain ⟨nonzero, same⟩ := (answers_closeAll rfl many).mp answers
    change withRing loop (emitted loop sdma behind) stream = _ at same
    rw [same] at fits
    obtain ⟨inner, ring⟩ := List.append_inj' same rfl
    injection ring with sameRing
    injection sameRing with _ _ own
    exact ⟨⟨own, inner, nonzero, calls, called, within_inIb.mp within⟩, fits⟩
  · rintro ⟨all, fits⟩
    obtain ⟨calls, called, within⟩ := all.within
    have same : withRing loop (emitted loop sdma behind) stream =
        withRing loop (streamWords loop) stream := by
      rw [withRing, withRing, all.inner, all.own]
    refine ⟨inIb (0, 0) calls, ?_, within_inIb.mpr within, _,
      (run_stream called _).mpr ⟨by rwa [same], rfl⟩, ?_⟩
    · rw [decodeStreamOpcodes, called]
      rfl
    · exact (answers_closeAll rfl many).mpr ⟨all.nonzero, same⟩

end Complete

end Umr.Gui
