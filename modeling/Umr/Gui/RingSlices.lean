import Umr.Gui.RingAnswer

/-!
# The slices of a ring answer

What the callbacks make of the calls of a decoder: every IB that was entered is
laid into the array when it is left, the ring last.  The answer is right exactly
when every packet was shown with the words it stores.
-/

set_option autoImplicit false

namespace Umr.Gui

open Umr.Lib Umr.Packet

section Run
variable {α : Type} (loop : StreamLoop α) (sdma : Bool) (behind : Nat → UInt32)

def shownWords (packet : α) : List UInt32 :=
  match loop.call packet with
  | none => []
  | some nwords =>
      loop.header packet :: copyWords behind (loop.words packet) (copied sdma nwords)

def emitted : Linked α → List UInt32
  | .null => []
  | .node packet _ next =>
      shownWords loop sdma behind packet ++ if loop.stop packet then [] else emitted next

variable {loop sdma behind}

theorem calls_node {packet : α} {ib next : Linked α} {calls : List Callback} :
    loop.calls (.node packet ib next) = some calls ↔
      loop.fault packet = false ∧ ∃ inner further,
        (if loop.enters packet ib then (loop.calls ib).map (inIb (loop.source packet))
          else some []) = some inner ∧
        (if loop.stop packet then some [] else loop.calls next) = some further ∧
        loop.shows packet ++ (inner ++ further) = calls := by
  rw [StreamLoop.calls]
  cases loop.fault packet with
  | true => simp only [if_true, Bool.true_eq_false, false_and, reduceCtorEq]
  | false =>
      simp only [Bool.false_eq_true, if_false, Option.bind_eq_some_iff, Option.map_eq_some_iff,
        true_and, exists_and_left]

variable (sdma behind) in
/-- The calls add `words` to the IB on top of the stack and lay `ibs` into the array. -/
def Runs (calls : List Callback) (words : List UInt32) (ibs : List RawIb) : Prop :=
  ∀ (data : RingDecodingData) (top : RawIb) (others : List RawIb), data.openIbs = top :: others →
    top.opcodes.length < 2 ^ 31 → data.concatenated.length < 2 ^ 32 →
    ∀ result, runCallbacks sdma behind data calls = some result ↔
      (top.opcodes.length + words.length < 2 ^ 31 ∧ Fit data.concatenated.length ibs) ∧
        result = closeAll
          { data with openIbs := { top with opcodes := top.opcodes ++ words } :: others } ibs

theorem Runs.nil : Runs sdma behind [] [] [] := by
  intro data top others opened small room result
  have nothing := fit_nil room
  simp only [List.append_nil, List.length_nil, Nat.add_zero, small, nothing, true_and]
  change some data = some result ↔ result = { data with openIbs := top :: others }
  rw [← opened, Option.some.injEq]
  exact eq_comm

theorem Runs.append {calls more : List Callback} {words moreWords : List UInt32}
    {ibs moreIbs : List RawIb} (first : Runs sdma behind calls words ibs)
    (second : Runs sdma behind more moreWords moreIbs) :
    Runs sdma behind (calls ++ more) (words ++ moreWords) (ibs ++ moreIbs) := by
  intro data top others opened small room result
  have then_ : top.opcodes.length + words.length < 2 ^ 31 →
      Fit data.concatenated.length ibs → (runCallbacks sdma behind (closeAll
        { data with openIbs := { top with opcodes := top.opcodes ++ words } :: others } ibs) more =
          some result ↔
        (top.opcodes.length + (words ++ moreWords).length < 2 ^ 31 ∧
          Fit (data.concatenated.length + (ibs.flatMap (·.opcodes)).length) moreIbs) ∧
        result = closeAll { data with openIbs :=
          { top with opcodes := top.opcodes ++ (words ++ moreWords) } :: others }
            (ibs ++ moreIbs)) := by
    intro short fits
    have between := closeAll_concatenated_length
      { data with openIbs := { top with opcodes := top.opcodes ++ words } :: others } ibs
    have ran := second _ _ _ (closeAll_openIbs
      { data with openIbs := { top with opcodes := top.opcodes ++ words } :: others } ibs)
      (by simpa using short) (by rw [between]; exact fits.2) result
    rw [closeAll_swap, between] at ran
    rw [ran, closeAll_append]
    simp only [List.append_assoc, List.length_append, Nat.add_assoc]
  rw [runCallbacks_append, Option.bind_eq_some_iff, fit_append]
  constructor
  · rintro ⟨middle, ran, last⟩
    obtain ⟨⟨short, fits⟩, rfl⟩ := (first data top others opened small room middle).mp ran
    obtain ⟨⟨total, further⟩, answer⟩ := (then_ short fits).mp last
    exact ⟨⟨total, fits, further⟩, answer⟩
  · rintro ⟨⟨total, fits, further⟩, answer⟩
    have short : top.opcodes.length + words.length < 2 ^ 31 := by
      rw [List.length_append] at total
      omega
    exact ⟨_, (first data top others opened small room _).mpr ⟨⟨short, fits⟩, rfl⟩,
      (then_ short fits).mpr ⟨⟨total, further⟩, answer⟩⟩

theorem Runs.shows (packet : α) :
    Runs sdma behind (loop.shows packet) (shownWords loop sdma behind packet) [] := by
  cases call : loop.call packet with
  | none =>
      simp only [StreamLoop.shows, shownWords, call]
      exact Runs.nil
  | some nwords =>
      intro data top others opened small room result
      have nothing := fit_nil room
      simp only [StreamLoop.shows, shownWords, call, List.length_cons, copyWords_length]
      change (ringStartOpcode sdma behind data nwords _ _).bind some = some result ↔ _
      rw [Option.bind_fun_some, ringStartOpcode, opened]
      by_cases room : top.opcodes.length + copied sdma nwords + 1 < 2 ^ 31
      · simp only [if_pos room, Option.some.injEq]
        rw [← Nat.add_assoc, eq_comm (a := result)]
        exact ⟨fun same => ⟨⟨room, nothing⟩, same⟩, And.right⟩
      · simp only [if_neg room]
        rw [← Nat.add_assoc]
        exact ⟨fun no => (nomatch no), fun fits => absurd fits.1.1 room⟩

theorem run_done {data result : RingDecodingData} {top : RawIb} {others : List RawIb}
    (opened : data.openIbs = top :: others) :
    runCallbacks sdma behind data [.done] = some result ↔
      data.concatenated.length + top.opcodes.length < 2 ^ 32 ∧
        result = RingDecodingData.close { data with openIbs := others } top := by
  change (ringDone data).bind some = some result ↔ _
  rw [Option.bind_fun_some, ringDone, opened]
  by_cases room : data.concatenated.length + top.opcodes.length < 2 ^ 32
  · simp only [if_pos room, Option.some.injEq]
    exact ⟨fun same => ⟨room, same.symm⟩, fun fits => fits.2.symm⟩
  · simp only [if_neg room]
    exact ⟨fun no => (nomatch no), fun fits => absurd fits.1 room⟩

theorem run_inIb {calls : List Callback} {words : List UInt32} {inner : List RawIb}
    {data result : RingDecodingData} {source : UInt64 × UInt32}
    (body : ∀ middle, runCallbacks sdma behind (ringStartIb data source.1 source.2) calls =
      some middle ↔ (words.length < 2 ^ 31 ∧ Fit data.concatenated.length inner) ∧
        middle = closeAll { data with openIbs := ⟨source.1, source.2, words⟩ :: data.openIbs }
          inner) :
    runCallbacks sdma behind data (inIb source calls) = some result ↔
      Fit data.concatenated.length (inner ++ [⟨source.1, source.2, words⟩]) ∧
        result = closeAll data (inner ++ [⟨source.1, source.2, words⟩]) := by
  have closed : ∀ middle, middle = closeAll { data with
        openIbs := ⟨source.1, source.2, words⟩ :: data.openIbs } inner →
      (runCallbacks sdma behind middle [.done] = some result ↔
        data.concatenated.length + (inner.flatMap (·.opcodes)).length + words.length < 2 ^ 32 ∧
          result = closeAll data (inner ++ [⟨source.1, source.2, words⟩])) := by
    rintro middle rfl
    rw [run_done (closeAll_openIbs _ _), closeAll_swap, closeAll_concatenated, List.length_append,
      closeAll_append]
    exact Iff.rfl
  change (runCallbacks sdma behind (ringStartIb data source.1 source.2) (calls ++ [.done])) =
    some result ↔ _
  rw [runCallbacks_append, Option.bind_eq_some_iff, fit_append, fit_single]
  constructor
  · rintro ⟨middle, ran, last⟩
    obtain ⟨⟨short, innerFit⟩, same⟩ := (body middle).mp ran
    obtain ⟨total, answer⟩ := (closed middle same).mp last
    exact ⟨⟨innerFit, short, total⟩, answer⟩
  · rintro ⟨⟨innerFit, short, total⟩, answer⟩
    exact ⟨_, (body _).mpr ⟨⟨short, innerFit⟩, rfl⟩, (closed _ rfl).mpr ⟨total, answer⟩⟩

theorem Runs.inIb {calls : List Callback} {words : List UInt32} {ibs : List RawIb}
    (body : Runs sdma behind calls words ibs) (source : UInt64 × UInt32) :
    Runs sdma behind (inIb source calls) [] (ibs ++ [⟨source.1, source.2, words⟩]) := by
  intro data top others opened small room result
  have whole : runCallbacks sdma behind data (Packet.inIb source calls) = some result ↔
      Fit data.concatenated.length (ibs ++ [⟨source.1, source.2, words⟩]) ∧
        result = closeAll data (ibs ++ [⟨source.1, source.2, words⟩]) := by
    refine run_inIb fun middle => ?_
    have ran := body (ringStartIb data source.1 source.2) ⟨source.1, source.2, []⟩ data.openIbs rfl
      (Nat.two_pow_pos 31) room middle
    rw [List.length_nil, Nat.zero_add] at ran
    exact ran
  rw [whole, List.append_nil, List.length_nil, Nat.add_zero, ← opened]
  exact ⟨fun fits => ⟨⟨small, fits.1⟩, fits.2⟩, fun fits => ⟨fits.1.2, fits.2⟩⟩

/-- What the calls of a decoder do, by induction on the stream and the IBs in it. -/
theorem run_calls {stream : Linked α} {calls : List Callback}
    (called : loop.calls stream = some calls) :
    Runs sdma behind calls (emitted loop sdma behind stream)
      (entered loop (emitted loop sdma behind) stream) := by
  induction stream generalizing calls with
  | null =>
      cases called
      exact Runs.nil
  | node packet ib next ibRun nextRun =>
      obtain ⟨-, inner, further, innerCalls, furtherCalls, rfl⟩ := calls_node.mp called
      have ibRuns : Runs sdma behind inner [] (if loop.enters packet ib then
          entered loop (emitted loop sdma behind) ib ++
            [⟨(loop.source packet).1, (loop.source packet).2, emitted loop sdma behind ib⟩]
          else []) := by
        split at innerCalls
        next enters =>
          obtain ⟨ibCalls, ibCalled, rfl⟩ := Option.map_eq_some_iff.mp innerCalls
          rw [if_pos enters]
          exact (ibRun ibCalled).inIb (loop.source packet)
        next stays =>
          cases innerCalls
          rw [if_neg stays]
          exact Runs.nil
      have furtherRuns : Runs sdma behind further
          (if loop.stop packet then [] else emitted loop sdma behind next)
          (if loop.stop packet then [] else entered loop (emitted loop sdma behind) next) := by
        split at furtherCalls
        next stops =>
          cases furtherCalls
          rw [if_pos stops, if_pos stops]
          exact Runs.nil
        next goesOn =>
          rw [if_neg goesOn, if_neg goesOn]
          exact nextRun furtherCalls
      exact (Runs.shows packet).append (ibRuns.append furtherRuns)

theorem run_stream {stream : Linked α} {calls : List Callback}
    (called : loop.calls stream = some calls) (result : RingDecodingData) :
    runCallbacks sdma behind .empty (inIb (0, 0) calls) = some result ↔
      Fit 0 (withRing loop (emitted loop sdma behind) stream) ∧
        result = closeAll .empty (withRing loop (emitted loop sdma behind) stream) := by
  refine run_inIb fun middle => ?_
  have runs : Runs sdma behind calls _ _ := run_calls called
  have ran := runs (ringStartIb .empty 0 0) ⟨0, 0, []⟩ [] rfl (Nat.two_pow_pos 31)
    (Nat.two_pow_pos 32) middle
  rw [List.length_nil, Nat.zero_add] at ran
  exact ran

end Run

/-! ## The records of an answer -/

def records (start : Nat) : List RawIb → List IbRecord
  | [] => []
  | ib :: ibs =>
      ⟨ib.address, ib.vmid, ⟨start, ib.opcodes.length⟩⟩ ::
        records (start + ib.opcodes.length) ibs

theorem records_slices (start : Nat) (ibs : List RawIb) :
    (records start ibs).map (·.opcodes) = layout start (ibs.map (·.opcodes)) := by
  induction ibs generalizing start with
  | nil => rfl
  | cons ib ibs ih => simp only [records, List.map_cons, layout, ih]

theorem records_length (start : Nat) (ibs : List RawIb) :
    (records start ibs).length = ibs.length := by
  induction ibs generalizing start with
  | nil => rfl
  | cons ib ibs ih => simp only [records, List.length_cons, ih]

theorem records_append (start : Nat) (ibs more : List RawIb) :
    records start (ibs ++ more) =
      records start ibs ++ records (start + (ibs.flatMap (·.opcodes)).length) more := by
  induction ibs generalizing start with
  | nil => rfl
  | cons ib ibs ih =>
      simp only [List.cons_append, records, ih, List.flatMap_cons, List.length_append,
        Nat.add_assoc]

theorem records_delimit (front : List UInt32) (ibs : List RawIb) :
    List.Forall₂ (Delimits (front ++ ibs.flatMap (·.opcodes))) (records front.length ibs) ibs := by
  induction ibs generalizing front with
  | nil => exact List.Forall₂.nil
  | cons ib ibs ih =>
      refine List.Forall₂.cons ⟨rfl, rfl, ?_⟩ ?_
      · rw [Slice.of, List.drop_left, List.flatMap_cons, List.take_left]
      · have further := ih (front ++ ib.opcodes)
        rw [List.length_append] at further
        simpa only [List.flatMap_cons, List.append_assoc] using further

theorem closeAll_ibs (data : RingDecodingData) (ibs : List RawIb) :
    (closeAll data ibs).ibs =
      data.ibs ++ (records data.concatenated.length ibs).filter (·.address ≠ 0) := by
  induction ibs generalizing data with
  | nil => exact (List.append_nil _).symm
  | cons ib ibs ih =>
      change (closeAll (data.close ib) ibs).ibs = _
      rw [ih]
      by_cases zero : ib.address = 0
      · simp [RingDecodingData.close, records, zero]
      · simp [RingDecodingData.close, records, zero]

theorem closeAll_ring (data : RingDecodingData) (front : List RawIb) (ring : RawIb)
    (zero : ring.address = 0) :
    (closeAll data (front ++ [ring])).ring.toList =
      records (data.concatenated.length + (front.flatMap (·.opcodes)).length) [ring] := by
  rw [closeAll_append, ← closeAll_concatenated_length]
  change (if ring.address = 0 then some _ else _ : Option IbRecord).toList = _
  rw [if_pos zero]
  rfl

theorem records_address {start : Nat} {ibs : List RawIb} :
    (∀ record ∈ records start ibs, record.address ≠ 0) ↔ ∀ ib ∈ ibs, ib.address ≠ 0 := by
  induction ibs generalizing start with
  | nil => exact ⟨fun _ _ member => (nomatch member), fun _ _ member => (nomatch member)⟩
  | cons ib ibs ih => simp only [records, List.forall_mem_cons, ih]

theorem delimits_unique {array : List UInt32} :
    Relator.RightUnique (Delimits array) := by
  rintro record ⟨address, vmid, opcodes⟩ ⟨address', vmid', opcodes'⟩ ⟨rfl, rfl, rfl⟩ ⟨rfl, rfl, rfl⟩
  rfl

theorem answers_records {data : RingDecodingData} {ibs : List RawIb} (ringSet : data.ring.isSome)
    (array : data.concatenated = ibs.flatMap (·.opcodes))
    (shown : data.ibs ++ data.ring.toList = records 0 ibs) : Answers data ibs where
  ring := ringSet
  delimit := by
    rw [shown, array]
    exact records_delimit [] ibs
  apart := by
    rw [shown, ← List.pairwise_map, records_slices]
    exact layout_apart 0 _
  cover := by
    intro index below
    rw [array, List.flatMap_def] at below
    obtain ⟨slice, member, holds⟩ := layout_covers 0 _ index (Nat.zero_le index)
      (by rwa [Nat.zero_add])
    rw [← records_slices, ← shown] at member
    obtain ⟨record, found, rfl⟩ := List.mem_map.mp member
    exact ⟨record, found, holds⟩

/-- The answer is the one for `expected`, which has as many IBs, exactly when no IB but the ring is
at address 0 and the laid out words are the expected ones. -/
theorem answers_closeAll {front expected : List RawIb} {ring : RawIb} (zero : ring.address = 0)
    (many : expected.length = (front ++ [ring]).length) :
    Answers (closeAll .empty (front ++ [ring])) expected ↔
      (∀ ib ∈ front, ib.address ≠ 0) ∧ front ++ [ring] = expected := by
  have array : (closeAll .empty (front ++ [ring])).concatenated =
      (front ++ [ring]).flatMap (·.opcodes) := closeAll_concatenated _ _
  have ringRecord : (closeAll .empty (front ++ [ring])).ring.toList =
      records (0 + (front.flatMap (·.opcodes)).length) [ring] :=
    closeAll_ring .empty front ring zero
  have shown : (closeAll .empty (front ++ [ring])).ibs =
      (records 0 front).filter (·.address ≠ 0) := by
    rw [closeAll_ibs]
    change [] ++ List.filter _ (records 0 (front ++ [ring])) = _
    rw [List.nil_append, records_append, List.filter_append]
    simp [records, zero]
  -- without an IB at address 0 all records are there
  have all : (∀ ib ∈ front, ib.address ≠ 0) → (closeAll .empty (front ++ [ring])).ibs ++
      (closeAll .empty (front ++ [ring])).ring.toList = records 0 (front ++ [ring]) := by
    intro nonzero
    rw [shown, ringRecord, records_append, List.filter_eq_self.mpr]
    intro record member
    exact decide_eq_true (records_address.mpr nonzero record member)
  constructor
  · intro answers
    have nonzero : ∀ ib ∈ front, ib.address ≠ 0 := by
      have lengths := answers.delimit.length_eq
      rw [many, List.length_append, List.length_append, shown, ringRecord, records_length,
        List.length_singleton, Nat.add_right_cancel_iff, ← records_length 0 front,
        List.length_filter_eq_length_iff] at lengths
      exact records_address.mp fun record member => of_decide_eq_true (lengths record member)
    refine ⟨nonzero, ?_⟩
    have delimited := answers.delimit
    rw [all nonzero, array] at delimited
    exact List.right_unique_forall₂' delimits_unique (records_delimit [] _) delimited
  · rintro ⟨nonzero, rfl⟩
    refine answers_records ?_ array (all nonzero)
    rw [← Option.length_toList_eq_one_iff, ringRecord]
    rfl

end Umr.Gui
