import Umr.Gui.TraceReader

/-!
# Lines and chunks

As long as the bytes that are moved to the front of the buffer are those of the unfinished
line, and no event is handed over before its stack frames are read, the lines and the
records are those of the text, however it was cut into reads.
-/

set_option autoImplicit false

namespace Umr.Gui.Trace

open Umr.Lib

/-! ## Texts read in two pieces -/

section Split
variable {seen first text chunk : List Char}

theorem splitFrom_append (seen first second : List Char) :
    splitFrom seen (first ++ second) =
      ((splitFrom seen first).1 ++ (splitFrom (splitFrom seen first).2 second).1,
        (splitFrom (splitFrom seen first).2 second).2) := by
  induction first generalizing seen with
  | nil => rfl
  | cons c first ih =>
      rw [List.cons_append, splitFrom, splitFrom]
      split
      · rw [ih]
        rfl
      · exact ih (seen ++ [c])

theorem splitFrom_seen (plain : '\n' ∉ seen) (before text : List Char) :
    splitFrom before (seen ++ text) = splitFrom (before ++ seen) text := by
  induction seen generalizing before with
  | nil => rw [List.nil_append, List.append_nil]
  | cons c seen ih =>
      obtain ⟨other, later⟩ := not_or.mp (fun same => plain (List.mem_cons.mpr same))
      rw [List.cons_append, splitFrom, if_neg (Ne.symm other), ih later, List.append_assoc]
      rfl

theorem unfinished_plain (plain : '\n' ∉ seen) (text : List Char) :
    '\n' ∉ (splitFrom seen text).2 := by
  induction text generalizing seen with
  | nil => exact plain
  | cons c text ih =>
      rw [splitFrom]
      split
      · exact ih List.not_mem_nil
      · rename_i other
        refine ih fun member => ?_
        rcases List.mem_append.mp member with before | here
        · exact plain before
        · exact other (List.mem_singleton.mp here).symm

/-- Only the unfinished line is needed of what was read before. -/
theorem split_chunk (text chunk : List Char) :
    completeLines (text ++ chunk) =
        completeLines text ++ (splitFrom [] (unfinishedLine text ++ chunk)).1 ∧
      unfinishedLine (text ++ chunk) = (splitFrom [] (unfinishedLine text ++ chunk)).2 := by
  have plain : '\n' ∉ unfinishedLine text := unfinished_plain List.not_mem_nil text
  have carried := splitFrom_seen plain [] chunk
  rw [List.nil_append] at carried
  have whole := splitFrom_append [] text chunk
  have behind : unfinishedLine (text ++ chunk) = _ := congrArg Prod.snd whole
  rw [carried]
  exact ⟨congrArg Prod.fst whole, behind⟩

end Split

/-! ## Records -/

section Records
variable {lines : List (List Char)} {calls : List LineCall} {records : List (List Char)}

theorem notHanded_of_kept {line : List Char} (isKept : isKeptFrame line = true) :
    isHanded line = false := by
  have isFrame := (of_decide_eq_true isKept).1
  exact decide_eq_false fun handed => handed.2.1 isFrame

theorem Assembled.handed (assembled : Assembled lines calls records) :
    calls.map LineCall.line = lines.filter isHanded := by
  induction assembled with
  | nil => rfl
  | @other lines calls records before line notHanded notKept ih =>
      rw [List.filter_append, ← ih, List.filter_cons_of_neg (by rw [notHanded]; decide)]
      simp
  | @frame lines calls records before line isKept ih =>
      have notHanded := notHanded_of_kept isKept
      rw [List.filter_append, ← ih, List.filter_cons_of_neg (by rw [notHanded]; decide)]
      simp
  | @event lines calls records before call handed ih =>
      rw [List.filter_append, ← ih, List.filter_cons_of_pos handed, List.map_append]
      rfl

theorem Assembled.none (assembled : Assembled lines calls records)
    (noRecord : ∀ call ∈ calls, call.record = Option.none) : records = [] := by
  induction assembled with
  | nil => rfl
  | other before notHanded notKept ih => exact ih noRecord
  | frame before isKept ih =>
      rw [ih noRecord]
      rfl
  | event before call handed ih =>
      obtain ⟨earlier, last⟩ := List.forall_mem_append.mp noRecord
      rw [ih earlier, last call List.mem_cons_self]
      rfl

/-- The records follow from the lines and the calls. -/
theorem Assembled.unique {other : List (List Char)} (assembled : Assembled lines calls records)
    (again : Assembled lines calls other) : records = other := by
  induction assembled generalizing other with
  | nil =>
      generalize isLines : ([] : List (List Char)) = lines at again
      generalize isCalls : ([] : List LineCall) = calls at again
      cases again with
      | nil => rfl
      | other => simp at isLines
      | frame => simp at isLines
      | event => simp at isLines
  | @other lines calls records before line notHanded notKept ih =>
      generalize isLines : lines ++ [line] = all at again
      cases again with
      | nil => simp at isLines
      | other before' =>
          obtain ⟨rfl, -⟩ := List.append_inj' isLines rfl
          exact ih before'
      | frame before' isKept =>
          obtain ⟨-, same⟩ := List.append_inj' isLines rfl
          rw [(List.cons.inj same).1, isKept] at notKept
          cases notKept
      | event before' call handed =>
          obtain ⟨-, same⟩ := List.append_inj' isLines rfl
          rw [(List.cons.inj same).1, handed] at notHanded
          cases notHanded
  | @frame lines calls records before line isKept ih =>
      have notHanded := notHanded_of_kept isKept
      generalize isLines : lines ++ [line] = all at again
      cases again with
      | nil => simp at isLines
      | other before' _ notKept =>
          obtain ⟨-, same⟩ := List.append_inj' isLines rfl
          rw [(List.cons.inj same).1, notKept] at isKept
          cases isKept
      | frame before' isKept =>
          obtain ⟨rfl, same⟩ := List.append_inj' isLines rfl
          rw [ih before', (List.cons.inj same).1]
      | event before' call handed =>
          obtain ⟨-, same⟩ := List.append_inj' isLines rfl
          rw [(List.cons.inj same).1, handed] at notHanded
          cases notHanded
  | @event lines calls records before call handed ih =>
      generalize isLines : lines ++ [call.line] = all at again
      generalize isCalls : calls ++ [call] = allCalls at again
      cases again with
      | nil => simp at isLines
      | other before' notHanded =>
          obtain ⟨-, same⟩ := List.append_inj' isLines rfl
          rw [(List.cons.inj same).1, notHanded] at handed
          cases handed
      | frame before' isKept =>
          obtain ⟨-, same⟩ := List.append_inj' isLines rfl
          have notHanded := notHanded_of_kept isKept
          rw [(List.cons.inj same).1, notHanded] at handed
          cases handed
      | event before' call' handed' =>
          obtain ⟨rfl, -⟩ := List.append_inj' isLines rfl
          obtain ⟨rfl, sameCall⟩ := List.append_inj' isCalls rfl
          rw [ih before', (List.cons.inj sameCall).1]

theorem recordBytes_append (first second : List (List Char)) :
    recordBytes (first ++ second) = recordBytes first ++ recordBytes second :=
  List.flatMap_append

theorem recordBytes_concat (before : List (List Char)) (last : List Char) :
    recordBytes (before ++ [last]) = recordBytes before ++ last ++ [nul] := by
  simp [recordBytes]

theorem framed_concat (before : List (List Char)) (last frame : List Char) :
    framed (before ++ [last]) frame = before ++ [last ++ '|' :: frame] := by
  simp [framed]

end Records

/-! ## The lines of one turn -/

section Turn
variable {σ : Type} {parseOneEvent : ParseOneEvent σ} {initial : σ}

/-- What a line is parsed to does not depend on what lies behind it. -/
def LineOnly (parseOneEvent : ParseOneEvent σ) : Prop :=
  ∀ parser line behind other, parseOneEvent parser line behind = parseOneEvent parser line other

def callAll (parseOneEvent : ParseOneEvent σ) (initial : σ) (lines : List (List Char)) :
    σ × List LineCall :=
  (lines.filter isHanded).foldl
    (fun state line =>
      ((parseOneEvent state.1 line []).1, state.2 ++ [⟨line, (parseOneEvent state.1 line []).2⟩]))
    (initial, [])

structure Recorded (parseOneEvent : ParseOneEvent σ) (initial : σ) (lines : List (List Char))
    (reader : Reader σ) (sent slot store : List (List Char)) : Prop where
  assembled : Assembled lines reader.calls (sent ++ (slot ++ store))
  taken : reader.taken = recordBytes sent
  slot : reader.eventBuffer.getD [] = recordBytes slot
  store : reader.store = recordBytes store
  calls : LineOnly parseOneEvent →
    (reader.parser, reader.calls) = callAll parseOneEvent initial lines

variable {lines : List (List Char)} {reader : Reader σ} {sent slot store : List (List Char)}

theorem recordBytes_ne_nil (some_ : store ≠ []) : recordBytes store ≠ [] := by
  intro none_
  cases store with
  | nil => exact some_ rfl
  | cons record store =>
      have length := congrArg List.length none_
      simp [recordBytes] at length

theorem callAll_other (line : List Char) (notHanded : isHanded line = false) :
    callAll parseOneEvent initial (lines ++ [line]) = callAll parseOneEvent initial lines := by
  rw [callAll, callAll, List.filter_append, List.filter_cons_of_neg (by rw [notHanded]; decide)]
  simp

theorem Recorded.other (recorded : Recorded parseOneEvent initial lines reader sent slot store)
    {line : List Char} (notHanded : isHanded line = false) (notKept : isKeptFrame line = false)
    (inStacktrace : Bool) :
    Recorded parseOneEvent initial (lines ++ [line]) { reader with inStacktrace := inStacktrace }
      sent slot store where
  assembled := recorded.assembled.other notHanded notKept
  taken := recorded.taken
  slot := recorded.slot
  store := recorded.store
  calls := by
    intro lineOnly
    rw [callAll_other line notHanded]
    exact recorded.calls lineOnly

/-- The frame goes behind the last record of the store. -/
theorem Recorded.frame (recorded : Recorded parseOneEvent initial lines reader sent slot store)
    {line : List Char} (isKept : isKeptFrame line = true) (some_ : store ≠ []) :
    ∃ store', Recorded parseOneEvent initial (lines ++ [line])
        { reader with
          inStacktrace := true
          store := reader.store.dropLast ++ '|' :: (line.drop 4 ++ [nul]) } sent slot store' ∧
      reader.store.getLast? = some nul := by
  obtain ⟨before, last, rfl⟩ : ∃ before last, store = before ++ [last] :=
    ⟨store.dropLast, store.getLast some_, (List.dropLast_append_getLast some_).symm⟩
  have bytes := recorded.store
  rw [recordBytes_concat] at bytes
  refine ⟨before ++ [last ++ '|' :: line.drop 4], ⟨?_, recorded.taken, recorded.slot, ?_, ?_⟩, ?_⟩
  · have assembled := recorded.assembled.frame isKept
    rw [← List.append_assoc, ← List.append_assoc, framed_concat, List.append_assoc,
      List.append_assoc] at assembled
    exact assembled
  · dsimp only
    rw [bytes, List.dropLast_concat, recordBytes_concat]
    simp
  · intro lineOnly
    rw [callAll_other line (notHanded_of_kept isKept)]
    exact recorded.calls lineOnly
  · rw [bytes]
    simp

theorem Recorded.event (recorded : Recorded parseOneEvent initial lines reader sent slot store)
    {line : List Char} (handed : isHanded line = true) (behind : List Char) :
    ∃ store', Recorded parseOneEvent initial (lines ++ [line])
      (processEvent parseOneEvent line behind reader) sent slot store' := by
  refine ⟨store ++ (parseOneEvent reader.parser line behind).2.toList, ⟨?_, recorded.taken,
    recorded.slot, ?_, ?_⟩⟩
  · have assembled := recorded.assembled.event
      ⟨line, (parseOneEvent reader.parser line behind).2⟩ handed
    rw [List.append_assoc, List.append_assoc] at assembled
    exact assembled
  · unfold processEvent
    dsimp only
    rw [recordBytes_append, recorded.store]
    cases (parseOneEvent reader.parser line behind).2 <;> simp [recordBytes]
  · intro lineOnly
    have before := recorded.calls lineOnly
    unfold callAll at before ⊢
    rw [List.filter_append, List.filter_cons_of_pos handed, List.filter_nil, List.foldl_append,
      ← before]
    unfold processEvent
    rw [lineOnly reader.parser line behind []]
    rfl

theorem processLine_recorded
    (recorded : Recorded parseOneEvent initial lines reader sent slot store) {line : List Char}
    (inPlace : frameInPlace line reader = true) (behind : List Char) :
    ∃ next store', processLine parseOneEvent line behind reader = some next ∧
      Recorded parseOneEvent initial (lines ++ [line]) next sent slot store' ∧
      next.left = reader.left ∧ next.buffer = reader.buffer := by
  unfold processLine
  by_cases comment : line.head? = some '#'
  · have notHanded : isHanded line = false := decide_eq_false fun handed => handed.1 comment
    have notKept : isKeptFrame line = false := by
      refine decide_eq_false fun kept => ?_
      obtain ⟨rest, rfl⟩ := kept.1
      cases comment
    rw [if_pos comment]
    exact ⟨_, store, rfl, recorded.other notHanded notKept false, rfl, rfl⟩
  · rw [if_neg comment]
    by_cases isFrame : " => ".toList <+: line
    · have notHanded : isHanded line = false := decide_eq_false fun handed => handed.2.1 isFrame
      rw [if_pos isFrame, processFrame]
      by_cases ignored : reader.store = [] ∨ "trace_event".toList <+: line.drop 4
      · rw [if_pos ignored]
        cases isKept : isKeptFrame line with
        | false => exact ⟨_, store, rfl, recorded.other notHanded isKept true, rfl, rfl⟩
        | true =>
            -- The store is empty, so there must be no record at all.
            have empty : reader.store = [] :=
              ignored.resolve_right (of_decide_eq_true isKept).2
            have noRecord : ∀ call ∈ reader.calls, call.record = none := by
              have placed := of_decide_eq_true inPlace
              rw [isKept] at placed
              rcases placed with kept | some_ | all
              · cases kept
              · exact absurd empty some_
              · intro call member
                exact Option.isNone_iff_eq_none.mp (List.all_eq_true.mp all call member)
            have none_ := recorded.assembled.none noRecord
            refine ⟨_, store, rfl,
              ⟨?_, recorded.taken, recorded.slot, recorded.store, ?_⟩, rfl, rfl⟩
            · have assembled := recorded.assembled.frame isKept
              rw [none_] at assembled ⊢
              exact assembled
            · intro lineOnly
              rw [callAll_other line notHanded]
              exact recorded.calls lineOnly
      · obtain ⟨some_, notTrace⟩ := not_or.mp ignored
        have isKept : isKeptFrame line = true := decide_eq_true ⟨isFrame, notTrace⟩
        have records : store ≠ [] := by
          rintro rfl
          exact some_ recorded.store
        obtain ⟨store', framed, terminated⟩ := recorded.frame isKept records
        rw [if_neg ignored, if_pos terminated]
        exact ⟨_, store', rfl, framed, rfl, rfl⟩
    · have notKept : isKeptFrame line = false := decide_eq_false fun kept => isFrame kept.1
      rw [if_neg isFrame]
      cases header : strstr "<stack trace>".toList line with
      | some found =>
          have notHanded : isHanded line = false :=
            by
            refine decide_eq_false fun handed => ?_
            have none_ := handed.2.2
            rw [header] at none_
            cases none_
          exact ⟨_, store, rfl, recorded.other notHanded notKept false, rfl, rfl⟩
      | none =>
          have handed : isHanded line = true :=
            decide_eq_true ⟨comment, isFrame, by rw [header]; rfl⟩
          obtain ⟨store', next⟩ := recorded.event handed behind
          exact ⟨_, store', rfl, next, rfl, rfl⟩

/-- All complete lines of the data, and what is left behind them. -/
theorem lineLoop_recorded {seen data stale : List Char}
    (recorded : Recorded parseOneEvent initial lines reader sent slot store)
    (inPlace : framesInPlace parseOneEvent seen data stale reader = true)
    (left : reader.left = seen.length + data.length) :
    ∃ next store', lineLoop parseOneEvent seen data stale reader = some next ∧
      Recorded parseOneEvent initial (lines ++ (splitFrom seen data).1) next sent slot store' ∧
      next.left = (splitFrom seen data).2.length ∧ next.buffer = reader.buffer := by
  induction data generalizing seen lines reader store with
  | nil =>
      refine ⟨reader, store, rfl, ?_, ?_, rfl⟩
      · rw [splitFrom, List.append_nil]
        exact recorded
      · rw [left, splitFrom]
        rfl
  | cons c data ih =>
      rw [lineLoop, splitFrom]
      rw [framesInPlace] at inPlace
      by_cases newline : c = '\n'
      · rw [if_pos newline] at inPlace ⊢
        rw [if_pos newline]
        obtain ⟨placed, later⟩ := Bool.and_eq_true_iff.mp inPlace
        have moved : Recorded parseOneEvent initial lines { reader with left := data.length }
            sent slot store :=
          ⟨recorded.assembled, recorded.taken, recorded.slot, recorded.store, recorded.calls⟩
        obtain ⟨next, middle, processed, nextRecorded, nextLeft, nextBuffer⟩ :=
          processLine_recorded moved placed (c :: (data ++ stale))
        rw [processed] at later ⊢
        have start : next.left = ([] : List Char).length + data.length := by
          rw [nextLeft, List.length_nil, Nat.zero_add]
        obtain ⟨last, store', ran, lastRecorded, lastLeft, lastBuffer⟩ :=
          ih nextRecorded later start
        refine ⟨last, store', ran, ?_, lastLeft, lastBuffer.trans nextBuffer⟩
        rw [List.append_assoc] at lastRecorded
        exact lastRecorded
      · rw [if_neg newline] at inPlace ⊢
        rw [if_neg newline]
        refine ih recorded inPlace ?_
        rw [left, List.length_append, List.length_cons, List.length_singleton]
        omega

end Turn

/-! ## Runs -/

section Runs
variable {σ : Type} {parseOneEvent : ParseOneEvent σ} {initial : σ} {text : List Char}
  {reader : Reader σ}

structure Kept (parseOneEvent : ParseOneEvent σ) (initial : σ) (text : List Char)
    (reader : Reader σ) : Prop where
  size : reader.buffer.length = 4096
  left : reader.left = (unfinishedLine text).length
  recorded : ∃ sent slot store,
    Recorded parseOneEvent initial (completeLines text) reader sent slot store

theorem init_kept {garbage : List Char} (size : garbage.length = 4096) :
    Kept parseOneEvent initial [] (Reader.init garbage initial) :=
  ⟨size, rfl, [], [], [], .nil, rfl, rfl, rfl, fun _ => rfl⟩

theorem handOver_recorded {lines sent slot store : List (List Char)}
    (recorded : Recorded parseOneEvent initial lines reader sent slot store) :
    ∃ slot' store', Recorded parseOneEvent initial lines reader.handOver sent slot' store' := by
  unfold Reader.handOver
  split
  · exact ⟨slot, store, recorded⟩
  · split
    · exact ⟨slot, store, recorded⟩
    · rename_i isFree
      have free : slot = [] := by
        by_contra some_
        have bytes := recorded.slot
        rw [isFree] at bytes
        exact recordBytes_ne_nil some_ bytes.symm
      refine ⟨store, [], ⟨?_, recorded.taken, recorded.store, rfl, recorded.calls⟩⟩
      have assembled := recorded.assembled
      rw [free, List.nil_append] at assembled
      rw [List.append_nil]
      exact assembled

theorem handOver_buffer (reader : Reader σ) :
    reader.handOver.buffer = reader.buffer ∧ reader.handOver.left = reader.left := by
  unfold Reader.handOver
  split
  · exact ⟨rfl, rfl⟩
  · split <;> exact ⟨rfl, rfl⟩

theorem take_kept (kept : Kept parseOneEvent initial text reader) :
    Kept parseOneEvent initial text reader.take := by
  obtain ⟨size, left, sent, slot, store, recorded⟩ := kept
  refine ⟨size, left, sent ++ slot, [], store, ?_, ?_, rfl, recorded.store, recorded.calls⟩
  · have assembled := recorded.assembled
    rw [← List.append_assoc] at assembled
    exact assembled
  · unfold Reader.take
    dsimp only
    rw [recordBytes_append, recorded.taken, recorded.slot]

theorem fill_length (size : reader.buffer.length = 4096) {chunk : List Char}
    (fits : reader.left + chunk.length ≤ 4096) : (reader.fill chunk).length = 4096 := by
  unfold Reader.fill
  rw [List.length_append, List.length_append, List.length_drop, List.length_drop, size]
  omega

theorem readTurn_kept (kept : Kept parseOneEvent initial text reader) {chunk : List Char}
    (meets : turnMeets parseOneEvent text chunk reader = true) :
    ∃ next, readTurn parseOneEvent chunk reader = some next ∧
      Kept parseOneEvent initial (text ++ chunk) next := by
  obtain ⟨fits, scans⟩ := of_decide_eq_true meets
  obtain ⟨size, left, sent, slot, store, recorded⟩ := kept
  unfold readTurn
  rw [if_neg (Nat.not_lt.mpr fits)]
  by_cases idle : chunk = [] ∧ reader.inStacktrace = false
  · rw [if_pos idle, idle.1, List.append_nil]
    refine ⟨_, rfl, fill_length size (by rw [← idle.1]; exact fits), left, sent, slot, store, ?_⟩
    exact ⟨recorded.assembled, recorded.taken, recorded.slot, recorded.store, recorded.calls⟩
  · obtain ⟨carried, inPlace⟩ := scans.resolve_left idle
    have data : (reader.scanStart chunk).buffer.take (reader.scanStart chunk).left =
        unfinishedLine text ++ chunk := by
      unfold Reader.scanStart Reader.fill
      dsimp only
      rw [carried, ← List.append_assoc]
      refine List.take_left' ?_
      rw [List.length_append, left]
    have start : Recorded parseOneEvent initial (completeLines text) (reader.scanStart chunk)
        sent slot store :=
      ⟨recorded.assembled, recorded.taken, recorded.slot, recorded.store, recorded.calls⟩
    have length : (reader.scanStart chunk).left =
        ([] : List Char).length + (unfinishedLine text ++ chunk).length := by
      rw [List.length_nil, Nat.zero_add, List.length_append, ← left]
      rfl
    rw [data] at inPlace
    obtain ⟨last, store', ran, lastRecorded, lastLeft, lastBuffer⟩ :=
      lineLoop_recorded start inPlace length
    obtain ⟨lines, unfinished⟩ := split_chunk text chunk
    rw [← lines] at lastRecorded
    obtain ⟨slot', finalStore, handed⟩ := handOver_recorded lastRecorded
    obtain ⟨sameBuffer, sameLeft⟩ := handOver_buffer last
    rw [if_neg idle]
    unfold scanTurn
    dsimp only
    rw [data, ran]
    refine ⟨_, rfl, ?_, ?_, sent, slot', finalStore, handed⟩
    · rw [sameBuffer, lastBuffer]
      exact fill_length size fits
    · rw [sameLeft, lastLeft, unfinished]

theorem run_kept {steps : List ReaderStep} (kept : Kept parseOneEvent initial text reader)
    (meets : runMeets parseOneEvent text steps reader = true) :
    ∃ last, Reader.run parseOneEvent steps reader = some last ∧
      Kept parseOneEvent initial (text ++ delivered steps) last := by
  induction steps generalizing text reader with
  | nil =>
      refine ⟨reader, rfl, ?_⟩
      rw [delivered, List.append_nil]
      exact kept
  | cons step steps ih =>
      cases step with
      | read chunk =>
          obtain ⟨first, later⟩ := Bool.and_eq_true_iff.mp meets
          obtain ⟨next, turned, nextKept⟩ := readTurn_kept kept first
          rw [turned] at later
          obtain ⟨last, ran, lastIntact⟩ := ih nextKept later
          refine ⟨last, ?_, ?_⟩
          · rw [Reader.run, turned]
            exact ran
          · rw [delivered, ← List.append_assoc]
            exact lastIntact
      | take => exact ih (take_kept kept) meets

theorem Kept.right (kept : Kept parseOneEvent initial text reader) :
    LinesRight text reader := by
  obtain ⟨-, -, sent, slot, store, recorded⟩ := kept
  refine ⟨recorded.assembled.handed, _, recorded.assembled, ?_⟩
  rw [Reader.bytes, recorded.taken, recorded.slot, recorded.store, recordBytes_append,
    recordBytes_append]

/-- Two runs that read the same text, each in its own pieces. -/
theorem Kept.same (lineOnly : LineOnly parseOneEvent) {other : Reader σ}
    (kept : Kept parseOneEvent initial text reader)
    (again : Kept parseOneEvent initial text other) :
    reader.calls = other.calls ∧ reader.bytes = other.bytes := by
  have right := kept.right
  have otherRight := again.right
  obtain ⟨-, -, sent, slot, store, recorded⟩ := kept
  obtain ⟨-, -, otherSent, otherSlot, otherStore, otherRecorded⟩ := again
  have calls : reader.calls = other.calls :=
    congrArg Prod.snd ((recorded.calls lineOnly).trans (otherRecorded.calls lineOnly).symm)
  refine ⟨calls, ?_⟩
  obtain ⟨records, assembled, bytes⟩ := right.records
  obtain ⟨otherRecords, otherAssembled, otherBytes⟩ := otherRight.records
  rw [← calls] at otherAssembled
  rw [bytes, otherBytes, assembled.unique otherAssembled]

/-- The lines and records are those of the text, and so the same for all pieces it is read in. -/
theorem traceLines_right (parseOneEvent : ParseOneEvent σ) (initial : σ) (garbage : List Char)
    (size : garbage.length = 4096) (steps : List ReaderStep)
    (meets : runMeets parseOneEvent [] steps (Reader.init garbage initial) = true) :
    ∃ reader, Reader.run parseOneEvent steps (Reader.init garbage initial) = some reader ∧
      LinesRight (delivered steps) reader ∧
      ∀ others, runMeets parseOneEvent [] others (Reader.init garbage initial) = true →
        delivered others = delivered steps → LineOnly parseOneEvent →
          ∃ other, Reader.run parseOneEvent others (Reader.init garbage initial) = some other ∧
            other.calls = reader.calls ∧ other.bytes = reader.bytes := by
  obtain ⟨reader, ran, kept⟩ := run_kept (init_kept size) meets
  refine ⟨reader, ran, kept.right, ?_⟩
  intro others othersMeet sameText lineOnly
  obtain ⟨other, otherRan, otherKept⟩ := run_kept (init_kept size) othersMeet
  rw [List.nil_append] at kept otherKept
  rw [sameText] at otherKept
  exact ⟨other, otherRan, otherKept.same lineOnly kept⟩

/-- `parse_one_event` for a trace of which every line with text is an event. -/
def wholeLine : ParseOneEvent Unit := fun _ line _ => ((), if line = [] then none else some line)

theorem twoReads_right :
    ∃ reader, Reader.run wholeLine [.read "job\n => ioctl\n".toList, .take, .read [],
        .read "wreg\n".toList] (Reader.init (List.replicate 4096 ' ') ()) = some reader ∧
      LinesRight (delivered [.read "job\n => ioctl\n".toList, .take, .read [],
        .read "wreg\n".toList]) reader := by
  have meets : runMeets wholeLine [] [.read "job\n => ioctl\n".toList, .take, .read [],
      .read "wreg\n".toList] (Reader.init (List.replicate 4096 ' ') ()) = true := by
    decide +kernel
  obtain ⟨reader, ran, right, -⟩ :=
    traceLines_right wholeLine () (List.replicate 4096 ' ') List.length_replicate _ meets
  exact ⟨reader, ran, right⟩

/-- The event is handed over before its stack frame is read, and the frame is lost. -/
example : (Reader.run wholeLine [.read "job\n".toList, .read " => ioctl\n".toList]
    (Reader.init (List.replicate 4096 '.') ())).map Reader.bytes = some "job\x00".toList := by
  decide +kernel

/-- The first half of the line is taken from the end of the buffer, where it is not. -/
theorem shortRead_garbled :
    (Reader.run wholeLine [.read "jo".toList, .read "b\n".toList]
        (Reader.init (List.replicate 4096 '.') ())).map
          (fun reader => reader.calls.map LineCall.line) =
      some ["..b".toList] := by
  decide +kernel

theorem shortRead_wrong : ¬ ∃ reader,
    Reader.run wholeLine [.read "jo".toList, .read "b\n".toList]
        (Reader.init (List.replicate 4096 '.') ()) = some reader ∧
      LinesRight (delivered [.read "jo".toList, .read "b\n".toList]) reader := by
  rintro ⟨reader, ran, right⟩
  have garbled := shortRead_garbled
  rw [ran] at garbled
  have lines : reader.calls.map LineCall.line = ["..b".toList] := Option.some.inj garbled
  have wanted : (completeLines (delivered [.read "jo".toList, .read "b\n".toList])).filter
      isHanded = ["job".toList] := by decide +kernel
  have handed := right.handed
  rw [lines, wanted] at handed
  revert handed
  decide

end Runs
end Umr.Gui.Trace
