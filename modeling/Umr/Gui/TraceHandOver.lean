import Umr.Gui.TraceEvents

/-!
# No trace event is lost, repeated or misnamed

Whatever order events, stack frames, publications and requests come in, the client reads the
events of the trace back in their order, as long as every name is sent: names are UTF-8.
-/

set_option autoImplicit false

namespace Umr.Gui.Trace

open Umr.Lib

/-! ## Names that are sent -/

def Utf8 (name : CString) : Prop := isValidUtf8 name.bytes name.bytes.length = true

instance (name : CString) : Decidable (Utf8 name) := inferInstanceAs (Decidable (_ = true))

theorem codePoint_append {string : List UInt8} {found : Nat × Nat}
    (reads : codePoint string = some found) (more : List UInt8) :
    codePoint (string ++ more) = some found ∧ found.2 ≤ string.length := by
  unfold codePoint at reads ⊢
  cases string with
  | nil => cases reads
  | cons c rest =>
      dsimp only [List.cons_append] at reads ⊢
      generalize numBytesInUtf8Sequence c = count at reads ⊢
      split at reads
      · cases reads
        simp
      · split at reads
        · rename_i c1 rest cont
          cases reads
          simp [cont]
        · cases reads
      · split at reads
        · rename_i c1 c2 rest cont
          cases reads
          simp [cont]
        · cases reads
      · split at reads
        · rename_i c1 c2 c3 rest cont
          cases reads
          simp [cont]
        · cases reads
      · cases reads

theorem verifyUtf8Sequence_append {string : List UInt8} {len : Nat}
    (verified : verifyUtf8Sequence string = some len) (more : List UInt8) :
    verifyUtf8Sequence (string ++ more) = some len ∧ len ≤ string.length := by
  unfold verifyUtf8Sequence at verified ⊢
  cases reads : codePoint string with
  | none => simp [reads] at verified
  | some found =>
      obtain ⟨same, within⟩ := codePoint_append reads more
      rw [reads] at verified
      rw [same]
      dsimp only at verified ⊢
      split at verified
      · cases verified
      · rename_i notOverlong
        split at verified
        · cases verified
        · rename_i unicode
          split at verified
          · cases verified
          · rename_i notSurrogate
            rw [if_neg notOverlong, if_neg unicode, if_neg notSurrogate, verified]
            exact ⟨rfl, Option.some.inj verified ▸ within⟩

/-- A name that is valid on its own is valid wherever it lies. -/
theorem validFrom_append {steps left : Nat} {string : List UInt8}
    (valid : validFrom steps string left = true) (within : left ≤ string.length)
    (more : List UInt8) : validFrom steps (string ++ more) left = true := by
  induction steps generalizing string left with
  | zero => exact valid
  | succ steps ih =>
      unfold validFrom at valid ⊢
      split at valid
      · rename_i done
        rw [if_pos done]
      · rename_i notDone
        rw [if_neg notDone]
        cases verified : verifyUtf8Sequence string with
        | none => simp [verified] at valid
        | some len =>
            obtain ⟨same, short⟩ := verifyUtf8Sequence_append verified more
            rw [verified] at valid
            rw [same]
            dsimp only at valid ⊢
            rw [List.drop_append_of_le_length short]
            refine ih valid ?_
            rw [List.length_drop]
            omega

theorem sentNames_of_utf8 (slack : List UInt8) {names : List CString}
    (utf8 : ∀ name ∈ names, Utf8 name) : sentNames slack names = names := by
  induction names with
  | nil => rfl
  | cons name names ih =>
      have sent := validFrom_append (utf8 name List.mem_cons_self) (Nat.le_refl _)
        ((names.flatMap CString.bytes) ++ slack)
      rw [sentNames, isValidUtf8, if_pos sent,
        ih fun other member => utf8 other (List.mem_cons_of_mem _ member)]

/-! ## The name list -/

/-- Ids fit the four bytes of an event. -/
def StringArray.Bounded (arr : StringArray) : Prop :=
  arr.names.length ≤ arr.lenOffCapacity ∧ 0 < arr.lenOffCapacity ∧ arr.lenOffCapacity < 2 ^ 30

structure Lookup (arr : StringArray) (name : CString) (id : Nat) (next : StringArray) : Prop where
  extends_ : arr.names <+: next.names
  found : next.names[id]? = some name
  only : ∀ other ∈ next.names, other ∈ arr.names ∨ other = name
  bounded : arr.Bounded → next.Bounded

theorem push_lookup {arr next : StringArray} {name : CString} {id : Nat}
    (pushed : arr.push name = some (id, next)) : Lookup arr name id next := by
  unfold StringArray.push at pushed
  simp only [Option.bind_eq_bind, Option.bind_eq_some_iff, Option.some.injEq, Prod.mk.injEq]
    at pushed
  obtain ⟨lenOffCapacity, grown, stringsCapacity, -, rfl, rfl⟩ := pushed
  refine ⟨List.prefix_append _ _, List.getElem?_concat_length, ?_, ?_⟩
  · intro other member
    rcases List.mem_append.mp member with old | new
    · exact .inl old
    · exact .inr (List.mem_singleton.mp new)
  · rintro ⟨used, positive, limit⟩
    unfold StringArray.Bounded
    simp only [List.length_append, List.length_cons, List.length_nil]
    unfold StringArray.growLenOff at grown
    split at grown
    · rename_i full
      split at grown
      · rename_i room
        rw [← Option.some.inj grown]
        omega
      · cases grown
    · rename_i notFull
      rw [← Option.some.inj grown]
      omega

theorem lookupOrPush_lookup {arr next : StringArray} {name : CString} {id : Nat}
    (looked : arr.lookupOrPush name = some (id, next)) : Lookup arr name id next := by
  unfold StringArray.lookupOrPush at looked
  split at looked
  · rename_i found
    cases looked
    obtain ⟨within, same, -⟩ := List.findIdx?_eq_some_iff_getElem.mp found
    refine ⟨List.prefix_rfl, ?_, fun other member => .inl member, fun bounded => bounded⟩
    rw [List.getElem?_eq_getElem within, of_decide_eq_true same]
  · exact push_lookup looked

/-! ## Records -/

def eventOf (line : TraceLine) : EventBase :=
  { task := line.task
    process := line.process
    pid := line.pid
    tgid := line.tgid
    timestamp := line.ts
    type := line.type.code }

/-- An event as it lies in a buffer: stack frames are part of its text. -/
structure Record where
  line : TraceLine
  taskNameId : Nat
  processNameId : Nat
  text : CString

def Record.bytes (record : Record) : List UInt8 :=
  eventBytes record.taskNameId record.processNameId record.line record.text.bytes

structure Record.Named (names : List CString) (record : Record) : Prop where
  task : names[record.taskNameId]? = some record.line.task
  process : names[record.processNameId]? = some record.line.process

theorem Record.Named.mono {names more : List CString} {record : Record}
    (named : record.Named names) (grows : names <+: more) : record.Named more := by
  obtain ⟨later, rfl⟩ := grows
  have within : ∀ {id : Nat} {name : CString}, names[id]? = some name →
      (names ++ later)[id]? = some name := by
    intro id name found
    obtain ⟨small, -⟩ := List.getElem?_eq_some_iff.mp found
    rw [List.getElem?_append_left small, found]
  exact ⟨within named.task, within named.process⟩

theorem Record.bytes_ne_nil (record : Record) : record.bytes ≠ [] := by
  intro empty
  have length := congrArg List.length empty
  simp [Record.bytes, eventBytes] at length

theorem drop_wordBytes {count : Nat} (whole : 4 ≤ count) (word : UInt32) :
    (wordBytes word).drop count = [] := List.drop_of_length_le (by simpa using whole)

theorem take_wordBytes (word : UInt32) : (wordBytes word).take 4 = wordBytes word :=
  List.take_of_length_le (by simp)

theorem readHeader_record (record : Record) (rest : List UInt8) :
    readHeader (record.bytes ++ rest) =
      some (⟨record.taskNameId.toUInt32, record.processNameId.toUInt32, record.line.pid,
        record.line.tgid, record.line.ts, record.line.type.code⟩,
          record.text.bytes ++ ([0] ++ rest)) := by
  have long : ¬ (record.bytes ++ rest).length < 28 := by
    simp [Record.bytes, eventBytes]
    omega
  rw [readHeader, if_neg long]
  simp only [Record.bytes, eventBytes, List.append_assoc]
  generalize record.text.bytes ++ ([0] ++ rest) = behind
  simp (disch := decide) only [readWordAt, List.drop_append, List.take_append, drop_wordBytes,
    take_wordBytes, wordBytes_length, List.nil_append, List.drop_zero, Nat.sub_self, Nat.reduceSub,
    List.take_zero, List.append_nil, bytesWord_wordBytes, joinWords_halves]

theorem skipText_text (text : CString) (rest : List UInt8) :
    skipText (text.bytes ++ ([0] ++ rest)) = some rest := by
  have nonzero : ∀ byte ∈ text.bytes, decide (byte ≠ 0) = true := by
    intro byte member
    exact decide_eq_true (text.terminated byte member)
  unfold skipText
  rw [List.dropWhile_append_of_pos nonzero]
  simp

theorem code_ne_unknown {type : EventType} (known : type ≠ .unknown) :
    type.code ≠ EventType.unknown.code := by
  cases type with
  | unknown => exact absurd rfl known
  | _ => decide

theorem nextRaw_record (record : Record) (rest : List UInt8) :
    nextRaw (record.bytes ++ rest) =
      some (⟨record.taskNameId.toUInt32, record.processNameId.toUInt32, record.line.pid,
        record.line.tgid, record.line.ts, record.line.type.code⟩, rest) := by
  simp only [nextRaw, readHeader_record, Option.bind_eq_bind, Option.bind_some, skipText_text]

section Names
variable {names : List CString} {record : Record}

theorem id_toNat {id : Nat} {name : CString} (small : names.length < 2 ^ 32)
    (found : names[id]? = some name) : id.toUInt32.toNat = id ∧ id < names.length := by
  obtain ⟨within, -⟩ := List.getElem?_eq_some_iff.mp found
  exact ⟨UInt32.toNat_ofNat_of_lt (Nat.lt_trans within small), within⟩

theorem nextEvent_record (small : names.length < 2 ^ 32) (named : record.Named names)
    (rest : List UInt8) :
    nextEvent names (record.bytes ++ rest) = some (eventOf record.line, rest) := by
  have task := (id_toNat small named.task).1
  have process := (id_toNat small named.process).1
  simp only [nextEvent, parseRawEventBuffer, readHeader_record, Option.bind_eq_bind,
    Option.bind_some, task, process, named.task, named.process,
    if_neg (code_ne_unknown record.line.known), skipText_text]
  rfl

theorem decodeEvents_records {records : List Record} (small : names.length < 2 ^ 32)
    (named : ∀ record ∈ records, record.Named names) :
    decodeEvents names (records.flatMap Record.bytes) =
      some (records.map fun record => eventOf record.line) :=
  readRecords_flatMap (fun record member => nextEvent_record small (named record member))
    fun record _ => record.bytes_ne_nil

theorem raw_records (records : List Record) :
    readRecords nextRaw (records.flatMap Record.bytes) =
      some (records.map fun record => ⟨record.taskNameId.toUInt32, record.processNameId.toUInt32,
        record.line.pid, record.line.tgid, record.line.ts, record.line.type.code⟩) :=
  readRecords_flatMap (fun record _ => nextRaw_record record) fun record _ => record.bytes_ne_nil

end Names

/-! ## The invariant of both threads -/

def linesOf (steps : List Step) : List TraceLine :=
  steps.filterMap fun step =>
    match step with
    | .event line => if line.line.bytes = [] then none else some line
    | .frame _ => none
    | .publish => none
    | .take _ => none

structure Answered (names : List CString) (records : List Record)
    (answer : List UInt8 × List CString) : Prop where
  bytes : answer.1 = records.flatMap Record.bytes
  within : answer.2 <+: names
  named : ∀ record ∈ records, record.Named answer.2

/-- Each buffer is a list of records; those of all buffers together are the lines so far. -/
structure Intact (capture : Capture) (lines : List TraceLine) (sent : List (List Record))
    (slot store : List Record) : Prop where
  answers : List.Forall₂ (Answered capture.tasks.names) sent capture.taken
  slotBytes : capture.eventBuffer.getD [] = slot.flatMap Record.bytes
  storeBytes : capture.store = store.flatMap Record.bytes
  named : ∀ record ∈ slot ++ store, record.Named capture.tasks.names
  order : (sent.flatten ++ (slot ++ store)).map Record.line = lines
  utf8 : ∀ name ∈ capture.tasks.names, Utf8 name
  bounded : capture.tasks.Bounded

theorem flatMap_bytes_eq_nil {records : List Record} (empty : records.flatMap Record.bytes = []) :
    records = [] := by
  cases records with
  | nil => rfl
  | cons record records =>
      rw [List.flatMap_cons, List.append_eq_nil_iff] at empty
      exact absurd empty.1 record.bytes_ne_nil

theorem init_intact : Intact Capture.init [] [] [] [] :=
  { answers := .nil
    slotBytes := rfl
    storeBytes := rfl
    named := nofun
    order := rfl
    utf8 := nofun
    bounded := ⟨Nat.zero_le 8, by decide, by decide⟩ }

section Steps
variable {capture next : Capture} {lines : List TraceLine} {sent : List (List Record)}
  {slot store : List Record}

def lineText (line : TraceLine) : CString where
  bytes := textOf line
  terminated := by
    intro byte member
    unfold textOf at member
    rcases List.mem_append.mp member with ofLine | extra
    · exact line.line.terminated byte ofLine
    · cases found : line.extraData with
      | none => simp [found] at extra
      | some name =>
          rw [found] at extra
          have plain : ∀ letter ∈ ([44, 100, 101, 118, 61] : List UInt8), letter ≠ 0 := by simp
          rcases List.mem_append.mp extra with label | ofName
          · exact plain byte label
          · exact name.terminated byte ofName

theorem intact_event {line : TraceLine} (text : line.line.bytes ≠ [])
    (names : Utf8 line.task ∧ Utf8 line.process) (intact : Intact capture lines sent slot store)
    (taken : parseOneEvent line capture = some next) :
    ∃ record, Intact next (lines ++ [line]) sent slot (store ++ [record]) := by
  unfold parseOneEvent at taken
  rw [if_neg text] at taken
  simp only [Option.bind_eq_bind, Option.bind_eq_some_iff, Option.some.injEq] at taken
  obtain ⟨⟨processNameId, tasks⟩, process, ⟨taskNameId, last⟩, task, storeCapacity, -, rfl⟩ := taken
  have first := lookupOrPush_lookup process
  have second := lookupOrPush_lookup task
  have grows := first.extends_.trans second.extends_
  refine ⟨⟨line, taskNameId, processNameId, lineText line⟩, ?_⟩
  have namedNow : Record.Named last.names ⟨line, taskNameId, processNameId, lineText line⟩ := by
    refine ⟨second.found, ?_⟩
    obtain ⟨later, same⟩ := second.extends_
    obtain ⟨within, -⟩ := List.getElem?_eq_some_iff.mp first.found
    dsimp only
    rw [← same, List.getElem?_append_left within]
    exact first.found
  exact {
    answers := intact.answers.imp fun records answer ok =>
      ⟨ok.bytes, ok.within.trans grows, ok.named⟩
    slotBytes := intact.slotBytes
    storeBytes := by
      rw [List.flatMap_append, ← intact.storeBytes]
      simp [Record.bytes, lineText]
    named := by
      intro record member
      rw [← List.append_assoc] at member
      rcases List.mem_append.mp member with old | new
      · exact (intact.named record old).mono grows
      · rw [List.mem_singleton.mp new]
        exact namedNow
    order := by
      rw [← intact.order]
      simp
    utf8 := by
      intro name member
      rcases second.only name member with old | rfl
      · rcases first.only name old with older | rfl
        · exact intact.utf8 name older
        · exact names.2
      · exact names.1
    bounded := second.bounded (first.bounded intact.bounded) }

def withFrame (text frame : CString) : CString where
  bytes := text.bytes ++ (124 :: frame.bytes)
  terminated := by
    intro byte member
    rcases List.mem_append.mp member with ofText | added
    · exact text.terminated byte ofText
    · rcases List.mem_cons.mp added with rfl | ofFrame
      · decide
      · exact frame.terminated byte ofFrame

theorem dropLast_record_bytes (before : List UInt8) (record : Record) (frame : CString) :
    (before ++ record.bytes).dropLast ++ (124 :: (frame.bytes ++ [0])) =
      before ++ Record.bytes { record with text := withFrame record.text frame } := by
  obtain ⟨front, split⟩ : ∃ front, ∀ text, eventBytes record.taskNameId record.processNameId
      record.line text = front ++ (text ++ [0]) :=
    ⟨(eventBytes record.taskNameId record.processNameId record.line []).dropLast, fun text => by
      simp only [eventBytes, ← List.append_assoc, List.dropLast_concat, List.append_nil]⟩
  simp only [Record.bytes, split, withFrame, ← List.append_assoc, List.dropLast_concat]
  simp

theorem intact_frame {frame : CString} (intact : Intact capture lines sent slot store)
    (taken : appendFrame frame capture = some next) :
    ∃ longer, Intact next lines sent slot longer := by
  unfold appendFrame at taken
  split at taken
  · cases taken
    exact ⟨store, intact⟩
  · rename_i added
    simp only [Option.bind_eq_bind, Option.bind_eq_some_iff, Option.some.injEq] at taken
    obtain ⟨storeCapacity, -, rfl⟩ := taken
    have some_ : store ≠ [] := by
      rintro rfl
      exact added (.inl intact.storeBytes)
    obtain ⟨before, last, rfl⟩ := (List.eq_nil_or_concat store).resolve_left some_
    rw [List.concat_eq_append] at intact
    refine ⟨before ++ [{ last with text := withFrame last.text frame }], ?_⟩
    exact {
      answers := intact.answers
      slotBytes := intact.slotBytes
      storeBytes := by
        dsimp only
        rw [intact.storeBytes, List.flatMap_append, List.flatMap_append, List.flatMap_singleton,
          List.flatMap_singleton, dropLast_record_bytes]
      named := by
        intro record member
        rw [← List.append_assoc] at member
        rcases List.mem_append.mp member with old | new
        · exact intact.named record (by simp at old ⊢; tauto)
        · have named := intact.named last (by simp)
          rw [List.mem_singleton.mp new]
          exact ⟨named.task, named.process⟩
      order := by
        rw [← intact.order]
        simp
      utf8 := intact.utf8
      bounded := intact.bounded }

theorem intact_publish (intact : Intact capture lines sent slot store)
    (taken : Capture.step .publish capture = some next) :
    ∃ slot store, Intact next lines sent slot store := by
  unfold Capture.step at taken
  dsimp only at taken
  split at taken
  · rename_i empty
    cases taken
    have noSlot : slot = [] := flatMap_bytes_eq_nil (by rw [← intact.slotBytes, empty]; rfl)
    subst noSlot
    exact ⟨store, [], {
      answers := intact.answers
      slotBytes := intact.storeBytes
      storeBytes := rfl
      named := by simpa using intact.named
      order := by simpa using intact.order
      utf8 := intact.utf8
      bounded := intact.bounded }⟩
  · cases taken
    exact ⟨slot, store, intact⟩

theorem intact_take {slack : List UInt8} (intact : Intact capture lines sent slot store)
    (taken : Capture.step (.take slack) capture = some next) :
    ∃ sent slot, Intact next lines sent slot store := by
  unfold Capture.step at taken
  dsimp only at taken
  split at taken
  · cases taken
    exact ⟨sent, slot, intact⟩
  · rename_i buffer full
    cases taken
    have bytes : buffer = slot.flatMap Record.bytes := by
      rw [← intact.slotBytes, full]
      rfl
    refine ⟨sent ++ [slot], [], ?_⟩
    exact {
      answers := by
        refine List.rel_append intact.answers (.cons ⟨bytes, ?_, ?_⟩ .nil)
        · rw [sentNames_of_utf8 slack intact.utf8]
        · rw [sentNames_of_utf8 slack intact.utf8]
          exact fun record member => intact.named record (List.mem_append_left _ member)
      slotBytes := rfl
      storeBytes := intact.storeBytes
      named := fun record member => intact.named record (List.mem_append_right _ member)
      order := by
        rw [← intact.order]
        simp
      utf8 := intact.utf8
      bounded := intact.bounded }

end Steps

/-- Steps whose events have names in UTF-8. -/
def NamesUtf8 (steps : List Step) : Prop :=
  ∀ line, .event line ∈ steps → Utf8 line.task ∧ Utf8 line.process

theorem intact_run {steps : List Step} {capture next : Capture} {lines : List TraceLine}
    {sent : List (List Record)} {slot store : List Record}
    (intact : Intact capture lines sent slot store) (names : NamesUtf8 steps)
    (ran : capture.run steps = some next) :
    ∃ sent slot store, Intact next (lines ++ linesOf steps) sent slot store := by
  induction steps generalizing capture lines sent slot store with
  | nil =>
      cases ran
      exact ⟨sent, slot, store, by simpa [linesOf] using intact⟩
  | cons step steps ih =>
      rw [Capture.run, Option.bind_eq_some_iff] at ran
      obtain ⟨mid, taken, rest⟩ := ran
      have later : NamesUtf8 steps := fun line member => names line (List.mem_cons_of_mem _ member)
      cases step with
      | event line =>
          by_cases text : line.line.bytes = []
          · have same : mid = capture := by
              simp only [Capture.step, parseOneEvent, if_pos text, Option.some.injEq] at taken
              exact taken.symm
            subst same
            simpa [linesOf, text] using ih intact later rest
          · obtain ⟨record, added⟩ := intact_event text (names line List.mem_cons_self) intact taken
            have all := ih added later rest
            simpa [linesOf, text] using all
      | frame frame =>
          obtain ⟨longer, added⟩ := intact_frame intact taken
          exact ih added later rest
      | publish =>
          obtain ⟨_, _, moved⟩ := intact_publish intact taken
          exact ih moved later rest
      | take slack =>
          obtain ⟨_, _, moved⟩ := intact_take intact taken
          exact ih moved later rest

/-! ## What the client reads -/

/-- The buffers taken so far, each with its names, and then the slot and the store with the names
an answer would get now. -/
def Capture.decoded (capture : Capture) (slack : List UInt8) : Option (List EventBase) := do
  let sent ← capture.taken.mapM fun answer => decodeEvents answer.2 answer.1
  let names := sentNames slack capture.tasks.names
  let slot ← decodeEvents names (capture.eventBuffer.getD [])
  let store ← decodeEvents names capture.store
  some (sent.flatten ++ (slot ++ store))

def IdsSent (answer : List UInt8 × List CString) : Prop :=
  ∃ raws, readRecords nextRaw answer.1 = some raws ∧
    ∀ raw ∈ raws, raw.taskNameId.toNat < answer.2.length ∧
      raw.processNameId.toNat < answer.2.length

theorem mapM_decodeEvents {sent : List (List Record)} {taken : List (List UInt8 × List CString)}
    {names : List CString} (small : names.length < 2 ^ 32)
    (answers : List.Forall₂ (Answered names) sent taken) :
    taken.mapM (fun answer => decodeEvents answer.2 answer.1) =
      some (sent.map fun records => records.map fun record => eventOf record.line) := by
  induction answers with
  | nil => rfl
  | cons ok rest ih =>
      have fits := Nat.lt_of_le_of_lt ok.within.length_le small
      rw [List.mapM_cons, ih, ok.bytes, decodeEvents_records fits ok.named]
      rfl

theorem Answered.idsSent {names : List CString} {records : List Record}
    {answer : List UInt8 × List CString} (answered : Answered names records answer)
    (small : names.length < 2 ^ 32) : IdsSent answer := by
  have fits := Nat.lt_of_le_of_lt answered.within.length_le small
  refine ⟨_, by rw [answered.bytes, raw_records], ?_⟩
  intro raw member
  obtain ⟨record, ofRecords, rfl⟩ := List.mem_map.mp member
  obtain ⟨task, taskSent⟩ := id_toNat fits (answered.named record ofRecords).task
  obtain ⟨process, processSent⟩ := id_toNat fits (answered.named record ofRecords).process
  dsimp only
  rw [task, process]
  exact ⟨taskSent, processSent⟩

theorem answered_of_mem {names : List CString} {sent : List (List Record)}
    {taken : List (List UInt8 × List CString)} {answer : List UInt8 × List CString}
    (answers : List.Forall₂ (Answered names) sent taken) (member : answer ∈ taken) :
    ∃ records, Answered names records answer := by
  induction answers with
  | nil => cases member
  | @cons records first _ _ ok rest ih =>
      rcases List.mem_cons.mp member with rfl | later
      · exact ⟨records, ok⟩
      · exact ih later

/-- The client reads each event of the trace once, in order and under its names, whatever the
order of the steps. -/
theorem events_handed_over {steps : List Step} {capture : Capture} (names : NamesUtf8 steps)
    (ran : Capture.init.run steps = some capture) :
    (∀ slack, capture.decoded slack = some ((linesOf steps).map eventOf)) ∧
      ∀ answer ∈ capture.taken, IdsSent answer := by
  obtain ⟨sent, slot, store, intact⟩ := intact_run init_intact names ran
  have small : capture.tasks.names.length < 2 ^ 32 := by
    have bounded := intact.bounded
    unfold StringArray.Bounded at bounded
    omega
  constructor
  · intro slack
    have slotNamed : ∀ record ∈ slot, record.Named capture.tasks.names :=
      fun record member => intact.named record (List.mem_append_left _ member)
    have storeNamed : ∀ record ∈ store, record.Named capture.tasks.names :=
      fun record member => intact.named record (List.mem_append_right _ member)
    have order := congrArg (List.map eventOf) intact.order
    rw [List.nil_append] at order
    rw [← order, Capture.decoded, mapM_decodeEvents small intact.answers,
      sentNames_of_utf8 slack intact.utf8, intact.slotBytes, intact.storeBytes]
    simp [decodeEvents_records small slotNamed, decodeEvents_records small storeNamed,
      List.map_flatten, Function.comp_def]
  · intro answer member
    obtain ⟨records, answered⟩ := answered_of_mem intact.answers member
    exact answered.idsSent small

/-! ## Two tasks of the kernel -/

def traceLine (task : List UInt8) : TraceLine where
  task := CString.ofBuffer task
  process := CString.ofBuffer [107, 101, 114, 110, 101, 108]
  pid := 7
  tgid := 7
  ts := 0x4059000000000000
  type := .drmRunJob
  known := nofun
  line := CString.ofBuffer [114, 105, 110, 103, 61, 48]
  extraData := none

def gfxLine : TraceLine := traceLine [103, 102, 120]

/-- A stack frame, a publication between two events, and a request. -/
def gfxSteps : List Step :=
  [.event gfxLine, .frame (CString.ofBuffer [105, 111, 99, 116, 108]), .publish, .event gfxLine,
    .take []]

theorem gfx_events_handed_over :
    ∃ capture, Capture.init.run gfxSteps = some capture ∧
      (∀ slack, capture.decoded slack = some [eventOf gfxLine, eventOf gfxLine]) ∧
      ∀ answer ∈ capture.taken, IdsSent answer := by
  have names : NamesUtf8 gfxSteps := by
    intro line member
    have same : line = gfxLine := by simpa [gfxSteps] using member
    rw [same]
    decide +kernel
  obtain ⟨capture, ran⟩ : ∃ capture, Capture.init.run gfxSteps = some capture :=
    Option.isSome_iff_exists.mp (by decide +kernel)
  exact ⟨capture, ran, events_handed_over names ran⟩

/-- The last byte of the name is an `é` of ISO 8859-1. -/
def latin1Line : TraceLine := traceLine [99, 97, 102, 233]

/-- The name is left out of the answer, so its event gets the name of a later one, which itself
has no name any more. -/
theorem latin1_event_misnamed :
    (Capture.init.run [.event latin1Line, .publish, .event gfxLine, .take []]).map
        (fun capture => (capture.taken.map fun answer => decodeEvents answer.2 answer.1,
          capture.decoded [])) =
      some ([some [{ eventOf latin1Line with task := gfxLine.task }]], none) ∧
      gfxLine.task ≠ latin1Line.task := by
  decide +kernel

end Umr.Gui.Trace
