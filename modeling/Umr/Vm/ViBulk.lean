import Umr.Vm.Bulk
import Umr.Vm.ViWalk

/-!
# Bulk accesses on SI to VI

`umr_access_vram_vi` of a range accesses the bytes of the range where the page tables put
them, in order, and has the effect of the word accesses of the range.
-/

set_option autoImplicit false

namespace Umr.Vm

open Umr.Lib
open Umr.Rumr (MemSpace)

/-! ## Bytes of a trace -/

/-- The physical bytes an access is about; entry reads of a walk are not data. -/
def Event.bytes : Event → List (MemSpace × Nat)
  | .entry _ => []
  | .data access => (List.range access.size).map fun i => (access.space, access.address + i)

def dataBytes (trace : List Event) : List (MemSpace × Nat) := trace.flatMap Event.bytes

@[simp] theorem dataBytes_append (first second : List Event) :
    dataBytes (first ++ second) = dataBytes first ++ dataBytes second := List.flatMap_append

theorem dataBytes_entries (reads : List WalkRead) : dataBytes (reads.map .entry) = [] := by
  induction reads with
  | nil => rfl
  | cons read reads ih => exact ih

section Bulk
variable {asic : Asic} {ctx : ViContext} {mem : Memory}

def viBytes (asic : Asic) (ctx : ViContext) (mem : Memory) (address length : Nat) :
    List (Option (MemSpace × Nat)) :=
  (List.range length).map fun i => viPhysical asic ctx mem (address + i)

theorem viBytes_add (address first rest : Nat) :
    viBytes asic ctx mem address (first + rest) =
      viBytes asic ctx mem address first ++ viBytes asic ctx mem (address + first) rest := by
  simp only [viBytes, List.range_add, List.map_append, List.map_map, Function.comp_def,
    Nat.add_assoc]

/-! ## Chunks and words -/

/-- The effect of the word access at `address`, with the tables as `mem` holds them. -/
def viWordMove (asic : Asic) (ctx : ViContext) (mem : Memory) (writeEn : Bool) (address dst : Nat)
    (contents : Contents) : Option Contents :=
  (viPhysical asic ctx mem address).bind fun place =>
    moveAccess asic ⟨place.1, place.2, 4⟩ dst writeEn contents

section Chunk
variable (offsetPages : ctx.vmFbOffset % 4096 = 0)
include offsetPages

theorem chunk_bytes {address chunk : Nat} {place : MemSpace × Nat}
    (mapped : viPhysical asic ctx mem address = some place)
    (inPage : address % 4096 + chunk ≤ 4096) :
    (dataBytes [.data ⟨place.1, place.2, chunk⟩]).map some = viBytes asic ctx mem address chunk := by
  have shape : dataBytes [.data ⟨place.1, place.2, chunk⟩] =
      (List.range chunk).map fun i => (place.1, place.2 + i) := List.append_nil _
  rw [shape, viBytes, List.map_map]
  refine List.map_congr_left ?_
  intro i member
  rw [List.mem_range] at member
  exact (viPhysical_add offsetPages mapped (by omega)).symm

/-- A chunk of a page is moved like its words. -/
theorem viChunk_moves (whole : WholePages asic) {address chunk : Nat} {place : MemSpace × Nat}
    (mapped : viPhysical asic ctx mem address = some place) (aligned : address % 4 = 0)
    (words : chunk % 4 = 0) (inPage : address % 4096 + chunk ≤ 4096) (dst : Nat) (writeEn : Bool)
    (contents : Contents) :
    moveAccess asic ⟨place.1, place.2, chunk⟩ dst writeEn contents =
      seqMoves (viWordMove asic ctx mem writeEn) (chunk / 4) address dst contents := by
  have offset := viPhysical_mod offsetPages mapped
  obtain ⟨store, target, isTarget, targets⟩ :=
    accessTarget_add whole place.1 (show place.2 % 4 = 0 by omega) words
  have block : moveAccess asic ⟨place.1, place.2, chunk⟩ dst writeEn contents =
      moveHeld asic writeEn store target dst (4 * (chunk / 4)) contents := by
    rw [moveAccess, isTarget, show 4 * (chunk / 4) = chunk by omega]
  rw [block]
  refine (seqMoves_block ?_ contents).symm
  intro i small later
  rw [viWordMove, viPhysical_add offsetPages mapped (by omega), Option.bind_some, moveAccess,
    targets (4 * i) (by omega) (by omega)]

end Chunk

theorem viChunkSize {startAddr address length : Nat} (place : startAddr % 4096 = address % 4096)
    (small : length < 2 ^ 32) :
    chunkSize startAddr 0xFFF length =
      if address % 4096 + length < 4096 then length else 4096 - address % 4096 := by
  rw [show (0xFFF : Nat) = lowMask 12 from rfl, chunkSize_eq (by norm_num) small,
    show (2 : Nat) ^ 12 = 4096 from rfl, place]

/-! ## Tables that stay as they are -/

def ViMapped (asic : Asic) (ctx : ViContext) (mem : Memory) (first size : Nat) : Prop :=
  ∀ address, first ≤ address → address < first + size →
    (viPhysical asic ctx mem address).isSome = true

/-- No data word of the range overlaps an entry that a walk of the range reads. -/
def ViApart (asic : Asic) (ctx : ViContext) (mem : Memory) (first size : Nat) : Prop :=
  ∀ address, first ≤ address → address < first + size →
    ∀ word, first ≤ word → word < first + size → word % 4 = 0 →
    ∀ read ∈ (walkVi asic ctx mem true address).1, ∀ place,
      viPhysical asic ctx mem word = some place →
    ∀ store entryAt dataAt, accessTarget asic read.access = some (store, entryAt) →
      accessTarget asic ⟨place.1, place.2, 4⟩ = some (store, dataAt) →
        entryAt + read.access.size ≤ dataAt ∨ dataAt + 4 ≤ entryAt

/-- The memories still hold every entry that a walk of the range reads. -/
def ViIntact (asic : Asic) (ctx : ViContext) (mem : Memory) (first size : Nat)
    (contents : Contents) : Prop :=
  ∀ address, first ≤ address → address < first + size →
    Agrees asic mem contents.1 (walkVi asic ctx mem true address).1

section Intact
variable {first size : Nat}

theorem viWordMove_intact {writeEn : Bool}
    (apart : writeEn = true → ViApart asic ctx mem first size) {word dst : Nat}
    {contents moved : Contents} (low : first ≤ word) (high : word < first + size)
    (aligned : word % 4 = 0) (intact : ViIntact asic ctx mem first size contents)
    (done : viWordMove asic ctx mem writeEn word dst contents = some moved) :
    ViIntact asic ctx mem first size moved := by
  rw [viWordMove, Option.bind_eq_some_iff] at done
  obtain ⟨place, isPlace, done⟩ := done
  rw [moveAccess] at done
  cases target : accessTarget asic ⟨place.1, place.2, 4⟩ with
  | none => simp [target] at done
  | some found =>
      obtain ⟨store, dataAt⟩ := found
      simp only [target, moveHeld, Option.ite_none_right_eq_some, Option.some.injEq] at done
      obtain ⟨-, rfl⟩ := done
      cases writeEn with
      | false => exact intact
      | true =>
          intro address lo hi read member
          refine (readEntry_update asic contents.1 read.access store contents.2 dataAt dst 4
            ?_).trans (intact address lo hi read member)
          intro entryAt entry
          exact apart rfl address lo hi word low high aligned read member place isPlace store
            entryAt dataAt entry target

theorem viWordMoves_intact {writeEn : Bool}
    (apart : writeEn = true → ViApart asic ctx mem first size) {count word dst : Nat}
    {contents moved : Contents} (low : first ≤ word) (high : word + 4 * count ≤ first + size)
    (aligned : word % 4 = 0) (intact : ViIntact asic ctx mem first size contents)
    (done : seqMoves (viWordMove asic ctx mem writeEn) count word dst contents = some moved) :
    ViIntact asic ctx mem first size moved := by
  induction count generalizing word dst contents with
  | zero =>
      simp only [seqMoves, Option.some.injEq] at done
      exact done ▸ intact
  | succ count ih =>
      rw [seqMoves, Option.bind_eq_some_iff] at done
      obtain ⟨next, here, rest⟩ := done
      exact ih (by omega) (by omega) (by omega)
        (viWordMove_intact apart low (by omega) aligned intact here) rest

end Intact

/-! ## The page loop -/

/-- A call with the expected effect: it succeeds exactly if there is one, and its data
accesses are about the expected bytes, as far as it comes. -/
structure ViDoes (before : State) (bytes : List (Option (MemSpace × Nat)))
    (expected : Option Contents) (result : Status × State) : Prop where
  ok_iff : result.1 = .ok ↔ expected.isSome = true
  contents : ∀ moved, expected = some moved → result.2.contents = moved
  trace : ∃ events, result.2.trace = before.trace ++ events ∧
    (dataBytes events).map some <+: bytes ∧
    (result.1 = .ok → (dataBytes events).map some = bytes)

structure ViPart (asic : Asic) (ctx : ViContext) : Prop where
  identity : ∀ bus, asic.gpuBusToCpuAddress bus = bus
  block : ctx.pageTableBlockSize ≤ 19
  offsetPages : ctx.vmFbOffset % 4096 = 0
  whole : WholePages asic

theorem ViDoes.append {before : State} {moved later : Status × State}
    {head tail : List (Option (MemSpace × Nat))} {events : List Event}
    {expected : Option Contents} {rest : Contents → Option Contents}
    (spec : match expected with
      | some contents => moved.1 = .ok ∧ moved.2.contents = contents
      | none => moved.1 = .failed)
    (trace : moved.2.trace = before.trace ++ events) (bytes : (dataBytes events).map some = head)
    (after : ∀ next, expected = some next → ViDoes moved.2 tail (rest next) later) :
    ViDoes before (head ++ tail) (expected.bind rest) (if moved.1 = .ok then later else moved) := by
  cases expected with
  | none =>
      dsimp only at spec
      rw [if_neg (by simp [spec])]
      exact ⟨by simp [spec], by simp, events, trace, by rw [bytes]; exact List.prefix_append _ _,
        by simp [spec]⟩
  | some next =>
      rw [if_pos spec.1]
      obtain ⟨okIff, contents, more, laterTrace, within, whole⟩ := after next rfl
      refine ⟨okIff, contents, events ++ more, ?_, ?_, ?_⟩
      · rw [laterTrace, trace, List.append_assoc]
      · rw [dataBytes_append, List.map_append, bytes]
        exact (List.prefix_append_right_inj head).mpr within
      · intro done
        rw [dataBytes_append, List.map_append, bytes, whole done]

/-- One turn of the loop takes a chunk that stays in its page, and moves it like its words. -/
theorem viPageLoop_step (part : ViPart asic ctx) {address length dst : Nat} {state : State}
    {place : MemSpace × Nat} (isPlace : viPhysical asic ctx mem address = some place)
    (agrees : Agrees asic mem state.mem (walkVi asic ctx mem true address).1) (writeEn : Bool)
    (positive : 0 < length) (small : length < 2 ^ 32) (words : length % 4 = 0)
    (aligned : address % 4 = 0) (dstAligned : dst % 4 = 0) (pages : Nat) :
    ∃ chunk moved events, (0 < chunk ∧ chunk ≤ length ∧ chunk % 4 = 0) ∧
      viPageLoop asic ctx writeEn (pages + 1) address length (some dst) state =
        (if moved.1 = .ok then
          if length - chunk = 0 then moved
          else viPageLoop asic ctx writeEn pages (add64 address chunk) (length - chunk)
            (some (dst + chunk)) moved.2
        else moved) ∧
      (match seqMoves (viWordMove asic ctx mem writeEn) (chunk / 4) address dst state.contents with
        | some contents => moved.1 = .ok ∧ moved.2.contents = contents
        | none => moved.1 = .failed) ∧
      moved.2.trace = state.trace ++ events ∧
      (dataBytes events).map some = viBytes asic ctx mem address chunk := by
  have walk : (walkVi asic ctx state.mem true address).2 =
      .page place.2 (decide (place.1 = .sram)) := by
    rw [walkVi_same agrees]
    exact walkVi_page part.identity part.block isPlace
  have space : (if decide (place.1 = .sram) = true then MemSpace.sram else .vram) = place.1 := by
    cases place.1 <;> rfl
  have chunkIs := viChunkSize (viPhysical_mod part.offsetPages isPlace) small
  obtain ⟨chunk, isChunk⟩ : ∃ chunk, chunk =
      if address % 4096 + length < 4096 then length else 4096 - address % 4096 := ⟨_, rfl⟩
  rw [← isChunk] at chunkIs
  have bounds : 0 < chunk ∧ chunk ≤ length ∧ chunk % 4 = 0 ∧ address % 4096 + chunk ≤ 4096 := by
    rw [isChunk]
    split <;> omega
  obtain ⟨chunkPos, chunkLe, chunkWords, inPage⟩ := bounds
  obtain ⟨walked, isWalked⟩ : ∃ walked : State, walked = { state with
    trace := state.trace ++ (walkVi asic ctx state.mem true address).1.map .entry } := ⟨_, rfl⟩
  refine ⟨chunk, accessPhysical asic ⟨place.1, place.2, chunk⟩ dst writeEn walked,
    (walkVi asic ctx state.mem true address).1.map .entry ++ [.data ⟨place.1, place.2, chunk⟩],
    ⟨chunkPos, chunkLe, chunkWords⟩, ?_, ?_, ?_, ?_⟩
  · rw [viPageLoop]
    simp only [Option.isSome_some, walk, chunkIs, space, ← isWalked, Option.map_some]
  · have spec := accessPhysical_spec asic ⟨place.1, place.2, chunk⟩ writeEn walked dstAligned
    rw [viChunk_moves part.offsetPages part.whole isPlace aligned chunkWords inPage, isWalked]
      at spec
    rw [isWalked]
    exact spec
  · rw [accessPhysical_trace, isWalked, List.append_assoc]
  · rw [dataBytes_append, dataBytes_entries, List.nil_append]
    exact chunk_bytes part.offsetPages isPlace inPage

theorem viPageLoop_does (part : ViPart asic ctx) {first size : Nat}
    (mapped : ViMapped asic ctx mem first size) {writeEn : Bool}
    (apart : writeEn = true → ViApart asic ctx mem first size) (word : first + size ≤ 2 ^ 64)
    (pages address length dst : Nat) (state : State) (enough : length < pages)
    (positive : 0 < length) (small : length < 2 ^ 32) (words : length % 4 = 0)
    (aligned : address % 4 = 0) (dstAligned : dst % 4 = 0) (low : first ≤ address)
    (high : address + length ≤ first + size)
    (intact : ViIntact asic ctx mem first size state.contents) :
    ViDoes state (viBytes asic ctx mem address length)
      (seqMoves (viWordMove asic ctx mem writeEn) (length / 4) address dst state.contents)
      (viPageLoop asic ctx writeEn pages address length (some dst) state) := by
  -- one more page than bytes is never used up: every chunk is positive
  induction pages generalizing address length dst state with
  | zero => omega
  | succ pages ih =>
      obtain ⟨place, isPlace⟩ := Option.isSome_iff_exists.mp (mapped address low (by omega))
      obtain ⟨chunk, moved, events, ⟨chunkPos, chunkLe, chunkWords⟩, turn, spec, trace, bytes⟩ :=
        viPageLoop_step part isPlace (intact address low (by omega)) writeEn positive small words
          aligned dstAligned pages
      have split : length / 4 = chunk / 4 + (length - chunk) / 4 := by omega
      have bytesSplit : viBytes asic ctx mem address length =
          viBytes asic ctx mem address chunk ++
            viBytes asic ctx mem (address + chunk) (length - chunk) := by
        rw [← viBytes_add, Nat.add_sub_cancel' chunkLe]
      rw [turn, bytesSplit, split, seqMoves_add, show 4 * (chunk / 4) = chunk by omega]
      refine ViDoes.append spec trace bytes ?_
      intro next done
      rw [done] at spec
      by_cases last : length - chunk = 0
      · rw [if_pos last, last]
        exact ⟨by simp [spec.1, seqMoves], by simp [spec.2, seqMoves], [], by simp [viBytes, dataBytes]⟩
      · rw [if_neg last, add64_eq (by omega)]
        have later : ViIntact asic ctx mem first size next :=
          viWordMoves_intact apart low (by omega) aligned intact done
        rw [← spec.2] at later ⊢
        exact ih (address + chunk) (length - chunk) (dst + chunk) moved.2 (by omega) (by omega)
          (by omega) (by omega) (by omega) (by omega) (by omega) (by omega) later

end Bulk

/-! ## Whole calls -/

def viWordAccesses (asic : Asic) (vmid : Nat) (writeEn : Bool) :
    Nat → Nat → Nat → State → List Status × State
  | 0, _, _, state => ([], state)
  | count + 1, address, dst, state =>
      let word := umrAccessVramVi asic vmid address 4 (some dst) writeEn state
      let rest := viWordAccesses asic vmid writeEn count (address + 4) (dst + 4) word.2
      (word.1 :: rest.1, rest.2)

section Call
variable {asic : Asic} {ctx : ViContext} {mem : Memory} {vmid : Nat}
  (context : readViContext asic vmid = ctx)
include context

theorem readViContext_pages : ctx.vmFbOffset % 4096 = 0 ∧ ctx.pageTableStartAddr % 4096 = 0 ∧
    ctx.pageTableStartAddr < 2 ^ 44 := by
  subst context
  have start := (asic.readViReg (.contextStart (if vmid ≠ 0 then 1 else 0))).toNat_lt
  simp only [readViContext, Nat.shiftLeft_eq]
  omega

theorem umrAccessVramVi_does (part : ViPart asic ctx) {first size : Nat}
    (mapped : ViMapped asic ctx mem first size) {writeEn : Bool}
    (apart : writeEn = true → ViApart asic ctx mem first size) (word : first + size ≤ 2 ^ 48)
    {address length dst : Nat} {state : State} (positive : 0 < length) (small : length < 2 ^ 32)
    (words : length % 4 = 0) (aligned : address % 4 = 0) (dstAligned : dst % 4 = 0)
    (low : first ≤ address) (high : address + length ≤ first + size)
    (intact : ViIntact asic ctx mem first size state.contents) :
    ViDoes state (viBytes asic ctx mem address length)
      (seqMoves (viWordMove asic ctx mem writeEn) (length / 4) address dst state.contents)
      (umrAccessVramVi asic vmid (ctx.pageTableStartAddr + address) length (some dst) writeEn
        state) := by
  obtain ⟨-, -, startLt⟩ := readViContext_pages context
  have relative : sub64 (ctx.pageTableStartAddr + address) ctx.pageTableStartAddr = address := by
    unfold sub64
    omega
  rw [umrAccessVramVi, context, relative]
  exact viPageLoop_does part mapped apart (by omega) (length + 1) address length dst state
    (by omega) positive small words aligned dstAligned low high intact

theorem viWordAccesses_spec (part : ViPart asic ctx) {first size : Nat}
    (mapped : ViMapped asic ctx mem first size) {writeEn : Bool}
    (apart : writeEn = true → ViApart asic ctx mem first size) (word : first + size ≤ 2 ^ 48)
    (count address dst : Nat) (state : State) (aligned : address % 4 = 0) (dstAligned : dst % 4 = 0)
    (low : first ≤ address) (high : address + 4 * count ≤ first + size)
    (intact : ViIntact asic ctx mem first size state.contents) :
    ((∀ status ∈ (viWordAccesses asic vmid writeEn count (ctx.pageTableStartAddr + address) dst
        state).1, status = .ok) ↔
      (seqMoves (viWordMove asic ctx mem writeEn) count address dst state.contents).isSome = true) ∧
    ∀ moved, seqMoves (viWordMove asic ctx mem writeEn) count address dst state.contents =
        some moved →
      (viWordAccesses asic vmid writeEn count (ctx.pageTableStartAddr + address) dst
        state).2.contents = moved := by
  induction count generalizing address dst state with
  | zero => simp [viWordAccesses, seqMoves]
  | succ count ih =>
      have one : ViDoes state (viBytes asic ctx mem address 4)
          (viWordMove asic ctx mem writeEn address dst state.contents)
          (umrAccessVramVi asic vmid (ctx.pageTableStartAddr + address) 4 (some dst) writeEn
            state) := by
        have does := umrAccessVramVi_does context part mapped apart word (by norm_num) (by norm_num)
          (by norm_num) aligned dstAligned low (show address + 4 ≤ first + size by omega) intact
        simpa [seqMoves] using does
      rw [viWordAccesses, seqMoves]
      generalize umrAccessVramVi asic vmid (ctx.pageTableStartAddr + address) 4 (some dst) writeEn
        state = result at one ⊢
      cases moves : viWordMove asic ctx mem writeEn address dst state.contents with
      | none =>
          rw [moves] at one
          have failed : result.1 ≠ .ok := by simp [one.ok_iff]
          simp [failed]
      | some next =>
          rw [moves] at one
          have ok : result.1 = .ok := by simp [one.ok_iff]
          have contents := one.contents next rfl
          have later : ViIntact asic ctx mem first size next :=
            viWordMove_intact apart low (by omega) aligned intact moves
          rw [← contents] at later
          have rest := ih (address + 4) (dst + 4) result.2 (by omega) (by omega) (by omega)
            (by omega) later
          rw [contents] at rest
          simp only [Option.bind_some, List.forall_mem_cons, ok, true_and, Nat.add_assoc]
          exact rest

end Call

/-- The data accesses of a call are about the bytes that the page tables name, in order, and
about all of them if the call succeeds; it succeeds exactly if the word accesses of the range do,
and then leaves the same memories and the same buffer. -/
theorem umrAccessVramVi_accesses (asic : Asic) (vmid va length dst : Nat) (writeEn : Bool)
    (state : State) (ctx : ViContext) (context : readViContext asic vmid = ctx)
    (identity : ∀ bus, asic.gpuBusToCpuAddress bus = bus) (block : ctx.pageTableBlockSize ≤ 19)
    (whole : WholePages asic) (vaAligned : va % 4 = 0) (positive : 0 < length)
    (words : length % 4 = 0) (small : length < 2 ^ 32) (dstAligned : dst % 4 = 0)
    (low : ctx.pageTableStartAddr ≤ va) (high : va - ctx.pageTableStartAddr < 2 ^ 40)
    (mapped : ViMapped asic ctx state.mem (va - ctx.pageTableStartAddr) length)
    (apart : writeEn = true → ViApart asic ctx state.mem (va - ctx.pageTableStartAddr) length) :
    let bulk := umrAccessVramVi asic vmid va length (some dst) writeEn state
    let each := viWordAccesses asic vmid writeEn (length / 4) va dst state
    let bytes := (List.range length).map fun i =>
      viPhysical asic ctx state.mem (va - ctx.pageTableStartAddr + i)
    (∃ events, bulk.2.trace = state.trace ++ events ∧ (dataBytes events).map some <+: bytes ∧
        (bulk.1 = .ok → (dataBytes events).map some = bytes)) ∧
      (bulk.1 = .ok ↔ ∀ status ∈ each.1, status = .ok) ∧
      (bulk.1 = .ok → bulk.2.mem = each.2.mem ∧ bulk.2.buf = each.2.buf) := by
  obtain ⟨offsetPages, startPages, -⟩ := readViContext_pages context
  have part : ViPart asic ctx := ⟨identity, block, offsetPages, whole⟩
  obtain ⟨offset, rfl⟩ := Nat.exists_eq_add_of_le low
  rw [Nat.add_sub_cancel_left] at high mapped apart
  rw [Nat.add_sub_cancel_left]
  have intact : ViIntact asic ctx state.mem offset length state.contents :=
    fun address lo hi read member => rfl
  have bulk := umrAccessVramVi_does context part mapped apart (by omega) positive small words
    (show offset % 4 = 0 by omega) dstAligned (le_refl offset) (le_refl _) intact
  obtain ⟨each, same⟩ := viWordAccesses_spec context part mapped apart (by omega) (length / 4)
    offset dst state (by omega) dstAligned (le_refl offset) (by omega) intact
  refine ⟨bulk.trace, bulk.ok_iff.trans each.symm, ?_⟩
  intro ok
  obtain ⟨moved, moves⟩ := Option.isSome_iff_exists.mp (bulk.ok_iff.mp ok)
  have equal := (bulk.contents moved moves).trans (same moved moves).symm
  exact ⟨congrArg Prod.fst equal, congrArg Prod.snd equal⟩

/-! Two pages next to each other in the table: the last word of a VRAM page and the first word
of a system page. -/

def viSampleAsic (depth fbOffset : UInt32) : Asic :=
  { sampleAsic 1 0 0 with
    family := .vi
    gfx := ⟨8, 0⟩
    readViReg := fun reg =>
      match reg with
      | .contextBase _ => 1
      | .fbOffset => fbOffset
      | _ => 0
    bitsliceVi := fun _ bits _ =>
      match bits with
      | .pageTableDepth => depth
      | _ => 0 }

def viPairState : State :=
  sampleState [(0x1000, 0x2001), (0x2000, 0x410001), (0x2008, 0x20003)]

def viPairContext : ViContext := readViContext (viSampleAsic 1 1) 1

section Pair
variable {address : Nat} (low : 0xFFC ≤ address) (high : address < 0xFFC + 8)
include low high

theorem viPair_mapped :
    (viPhysical (viSampleAsic 1 1) viPairContext viPairState.mem address).isSome = true ∧
    0x3000 ≤ (((viPhysical (viSampleAsic 1 1) viPairContext viPairState.mem address).bind
      fun place => accessTarget (viSampleAsic 1 1) ⟨place.1, place.2, 4⟩).map
        Prod.snd).getD 0x3000 := by
  interval_cases address <;> decide +kernel

theorem viPair_reads :
    ∀ read ∈ (walkVi (viSampleAsic 1 1) viPairContext viPairState.mem true address).1,
      ((accessTarget (viSampleAsic 1 1) read.access).map fun target =>
        target.2 + read.access.size).getD 0 ≤ 0x3000 := by
  interval_cases address <;> decide +kernel

end Pair

theorem viPair_apart : ViApart (viSampleAsic 1 1) viPairContext viPairState.mem 0xFFC 8 := by
  intro address low high word wordLow wordHigh aligned read member place isPlace store entryAt
    dataAt entry data
  have entries := viPair_reads low high read member
  have above := (viPair_mapped wordLow wordHigh).2
  rw [isPlace, Option.bind_some, data] at above
  rw [entry] at entries
  simp only [Option.map_some, Option.getD_some] at entries above
  omega

/-- The write goes to the end of one page and to the start of the other. -/
theorem viPair_accesses :
    let bulk := umrAccessVramVi (viSampleAsic 1 1) 1 0xFFC 8 (some 0) true viPairState
    let each := viWordAccesses (viSampleAsic 1 1) 1 true 2 0xFFC 0 viPairState
    bulk.1 = .ok ∧ bulk.2.mem = each.2.mem ∧ bulk.2.buf = each.2.buf ∧
      dataBytes bulk.2.trace = (List.range 4).map (fun i => (MemSpace.vram, 0x10FFC + i)) ++
        (List.range 4).map fun i => (MemSpace.sram, 0x20000 + i) :=
  have ok : (umrAccessVramVi (viSampleAsic 1 1) 1 0xFFC 8 (some 0) true viPairState).1 = .ok := by
    decide +kernel
  have same := (umrAccessVramVi_accesses (viSampleAsic 1 1) 1 0xFFC 8 0 true viPairState
    viPairContext rfl (fun _ => rfl) (by decide +kernel) (fun hive => by cases hive)
    (by decide +kernel) (by decide +kernel) (by decide +kernel) (by decide +kernel)
    (by decide +kernel) (by decide +kernel) (by decide +kernel)
    (fun _ low high => (viPair_mapped low high).1) fun _ => viPair_apart).2.2 ok
  ⟨ok, same.1, same.2, by decide +kernel⟩

/-! ## Where the walk and the arithmetic part -/

/-- A page of VRAM that a node of an XGMI hive has only in part. -/
def viHiveAsic : Asic :=
  { viSampleAsic 0 0 with
    gpu := 1
    present := fun store address => decide (store = .vram 0 → address < 0x11004)
    useXgmi := true
    xgmiNodes := [⟨0, 0x11004⟩] }

/-- Across `2 ^ 40` the walk goes on with the first directory entry, not with the one behind the
last; a write over its own page table entry makes the second word access fail; and so does the
bulk access to a page shared by two nodes. -/
theorem viAccess_differs :
    (dataBytes (umrAccessVramVi (viSampleAsic 1 0) 1 (2 ^ 40 - 4) 8 (some 0) false
        (sampleState [(0x400FF8, 0x2001), (0x2FF8, 0x10001), (0x1000, 0x3001), (0x3000, 0x20001),
          (0x401000, 0x4001), (0x4000, 0x30001)])).2.trace)[4]? = some (.vram, 0x20000) ∧
      (viPteUnder (viSampleAsic 1 0) (readViContext (viSampleAsic 1 0) 1)
        (sampleMemory [(0x400FF8, 0x2001), (0x2FF8, 0x10001), (0x1000, 0x3001), (0x3000, 0x20001),
          (0x401000, 0x4001), (0x4000, 0x30001)]) (2 ^ 40 / 2 ^ 21) (2 ^ 40 / 4096 % 2 ^ 9)).map
            (fun pte => viPlace (readViContext (viSampleAsic 1 0) 1) pte (2 ^ 40)) =
        some (.vram, 0x30000) ∧
      (umrAccessVramVi (viSampleAsic 0 0) 1 0 8 (some 0) true
        (sampleState [(0x1000, 0x1001)])).1 = .ok ∧
      (viWordAccesses (viSampleAsic 0 0) 1 true 2 0 0 (sampleState [(0x1000, 0x1001)])).1 =
        [.ok, .failed] ∧
      (umrAccessVramVi viHiveAsic 1 0 8 (some 0) false (sampleState [(0x1000, 0x11001)])).1 =
        .failed ∧
      (viWordAccesses viHiveAsic 1 false 2 0 0 (sampleState [(0x1000, 0x11001)])).1 =
        [.ok, .ok] := by
  decide +kernel

end Umr.Vm
