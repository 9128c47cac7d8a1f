import Umr.Lib.Placed
import Umr.Vm.Bulk

/-!
# GPU-mapped memory as one memory

To its callers GPU-mapped memory is one memory: over page tables that place no two bytes at one
address, a run of reads and writes does what it does on a flat array of bytes.
-/

set_option autoImplicit false

namespace Umr.Vm

open Umr.Lib

/-- Every word of the addresses `[first, first + size)` is on a valid page, in memory that is there,
and no two bytes are at one place. -/
structure Mapping (asic : Asic) (ctx : VmContext) (mem : Memory) (fuel first size : Nat) where
  place : Nat → Store × Nat
  placed : ∀ word, first ≤ word → word < first + size → word % 4 = 0 → ∃ page,
    (walkPage asic ctx mem fuel true {} word).2 = .page page ∧ page.pteFields.valid = true ∧
      accessTarget asic (route ctx page.pteFields.system page.startAddr 4) = some (place word)
  words : ∀ word, first ≤ word → word < first + size → word % 4 = 0 →
    BlockAt place word 4 (place word).1 (place word).2
  held : ∀ word, first ≤ word → word < first + size → word % 4 = 0 →
    holdsRange (asic.present (place word).1) (place word).2 4 = true
  apart : Set.InjOn place (Set.Ico first (first + size))

/-- A call for mapped memory; the address is counted from the start of the page table. -/
structure MemCall where
  writeEn : Bool
  address : Nat
  length : Nat
  dst : Nat
  deriving DecidableEq, Repr

/-- Whole words inside the addresses `[first, first + size)`. -/
structure MemCall.Fits (call : MemCall) (first size : Nat) : Prop where
  positive : 0 < call.length
  small : call.length < 2 ^ 32
  words : call.length % 4 = 0
  aligned : call.address % 4 = 0
  dstAligned : call.dst % 4 = 0
  low : first ≤ call.address
  high : call.address + call.length ≤ first + size

abbrev Flat : Type := (Nat → UInt8) × (Nat → UInt8)

def MemCall.onFlat (flat : Flat) (call : MemCall) : Flat :=
  if call.writeEn then (copyBlock flat.2 call.dst flat.1 call.address call.length, flat.2)
  else (flat.1, copyBlock flat.1 call.address flat.2 call.dst call.length)

def vramCalls (asic : Asic) (partition : Int) (vmid start fuel : Nat) :
    List MemCall → State → List Status × State
  | [], state => ([], state)
  | call :: calls, state =>
      let done := umrAccessVram asic partition vmid (start + call.address) call.length (some call.dst)
        call.writeEn fuel state
      let rest := vramCalls asic partition vmid start fuel calls done.2
      (done.1 :: rest.1, rest.2)

section Words
variable {asic : Asic} {ctx : VmContext} {mem : Memory} {fuel first size : Nat}
  (mapping : Mapping asic ctx mem fuel first size)

structure Shows (contents : Contents) (flat : Flat) : Prop where
  buf : contents.2 = flat.2
  bytes : ∀ address ∈ Set.Ico first (first + size),
    view mapping.place contents.1 address = flat.1 address

/-- Bytes at which nothing is placed are the same. -/
def Leaves (before after : Memory) : Prop :=
  ∀ store byte, (∀ address ∈ Set.Ico first (first + size), mapping.place address ≠ (store, byte)) →
    after store byte = before store byte

theorem onFlat_append (flat : Flat) (writeEn : Bool) (address dst head tail : Nat) :
    MemCall.onFlat flat ⟨writeEn, address, head + tail, dst⟩ =
      MemCall.onFlat (MemCall.onFlat flat ⟨writeEn, address, head, dst⟩)
        ⟨writeEn, address + head, tail, dst + head⟩ := by
  cases writeEn <;> simp [MemCall.onFlat, copyBlock_append]

variable {mapping}

theorem wordMove_flat {writeEn : Bool} {word dst : Nat} {contents : Contents} {flat : Flat}
    (shows : Shows mapping contents flat) (low : first ≤ word) (high : word + 4 ≤ first + size)
    (aligned : word % 4 = 0) :
    ∃ moved, wordMove asic ctx mem fuel writeEn word dst contents = some moved ∧
      Shows mapping moved (MemCall.onFlat flat ⟨writeEn, word, 4, dst⟩) ∧
      Leaves mapping contents.1 moved.1 := by
  obtain ⟨page, walk, valid, target⟩ := mapping.placed word low (by omega) aligned
  have block := mapping.words word low (by omega) aligned
  have held := mapping.held word low (by omega) aligned
  have inRegion : ∀ i, word ≤ i → i < word + 4 → i ∈ Set.Ico first (first + size) :=
    fun i above below => ⟨by omega, by omega⟩
  generalize mapping.place word = at_ at target block held
  obtain ⟨store, byte⟩ := at_
  refine ⟨moveBlock writeEn store byte dst 4 contents, ?_, ?_, ?_⟩
  · simp only [wordMove, walk, valid, if_true, moveAccess, target, moveHeld, route_size]
    rw [if_pos held]
  · cases writeEn with
    | true =>
        refine ⟨shows.buf, fun address member => ?_⟩
        have written := view_update mapping.apart block inRegion contents.1 contents.2 dst member
        refine written.trans ?_
        change copyBlock contents.2 dst (view mapping.place contents.1) word 4 address =
          copyBlock flat.2 dst flat.1 word 4 address
        rw [shows.buf, copyBlock, copyBlock, shows.bytes address member]
    | false =>
        refine ⟨?_, shows.bytes⟩
        change copyBlock (contents.1 store) byte contents.2 dst 4 = copyBlock flat.1 word flat.2 dst 4
        rw [copyBlock_view block, shows.buf]
        funext i
        unfold copyBlock
        split
        · next inside => exact shows.bytes _ (inRegion _ (by omega) (by omega))
        · rfl
  · intro other place unplaced
    cases writeEn with
    | true =>
        exact update_unplaced block contents.1 contents.2 dst
          fun i above below => unplaced i (inRegion i above below)
    | false => rfl

theorem wordMoves_flat {writeEn : Bool} (count : Nat) : ∀ {word dst : Nat} {contents : Contents}
    {flat : Flat}, Shows mapping contents flat → first ≤ word → word + 4 * count ≤ first + size →
      word % 4 = 0 →
    ∃ moved, wordMoves asic ctx mem fuel writeEn count word dst contents = some moved ∧
      Shows mapping moved (MemCall.onFlat flat ⟨writeEn, word, 4 * count, dst⟩) ∧
      Leaves mapping contents.1 moved.1 := by
  induction count with
  | zero =>
      intro word dst contents flat shows _ _ _
      refine ⟨contents, rfl, ?_, fun _ _ _ => rfl⟩
      cases writeEn <;> simpa [MemCall.onFlat] using shows
  | succ count ih =>
      intro word dst contents flat shows low high aligned
      obtain ⟨next, first_, showsNext, leaves⟩ := @wordMove_flat asic ctx mem fuel first size mapping
        writeEn word dst contents flat shows low (by omega) aligned
      obtain ⟨moved, rest, showsMoved, leavesNext⟩ := @ih (word + 4) (dst + 4) next _ showsNext
        (by omega) (by omega) (by omega)
      refine ⟨moved, ?_, ?_, fun store byte unplaced => ?_⟩
      · rw [wordMoves, first_]
        exact rest
      · rw [show 4 * (count + 1) = 4 + 4 * count by omega, onFlat_append]
        exact showsMoved
      · rw [leavesNext store byte unplaced, leaves store byte unplaced]

end Words

/-- Over page tables that place every byte of a range, no two of them at one address and none where
an entry of these tables is, every run of word-aligned reads and writes in the range succeeds and
does what it does on a flat memory: the buffer is the same, the range holds what the flat memory
holds, and no byte outside it is changed. -/
theorem vramCalls_flat {asic : Asic} {partition : Int} {vmid fuel first size : Nat} {ctx : VmContext}
    {state : State} (gfx9 : 9 ≤ asic.gfx.maj) (vm : vmid &&& 0xFF ≠ 0)
    (context : vmContextOf asic partition vmid state.vmdataBase = some ctx)
    (inSpan : ctx.pageTableStartAddr + (first + size) ≤ ctx.pageTableEndAddr + 0x1000)
    (canonical : ctx.pageTableStartAddr + (first + size) ≤ 2 ^ 48) (passes : 1 ≤ fuel)
    (sound : SoundTables asic ctx state.mem fuel first size)
    (mapping : Mapping asic ctx state.mem fuel first size) {calls : List MemCall}
    (fits : ∀ call ∈ calls, call.Fits first size) :
    let run := vramCalls asic partition vmid ctx.pageTableStartAddr fuel calls state
    let flat := calls.foldl MemCall.onFlat (view mapping.place state.mem, state.buf)
    (∀ status ∈ run.1, status = .ok) ∧ run.1.length = calls.length ∧ run.2.buf = flat.2 ∧
      (∀ address ∈ Set.Ico first (first + size),
        view mapping.place run.2.mem address = flat.1 address) ∧
      ∀ store byte, (∀ address ∈ Set.Ico first (first + size),
        mapping.place address ≠ (store, byte)) → run.2.mem store byte = state.mem store byte := by
  have whole : ∀ (calls : List MemCall) (later : State) (flat : Flat),
      (∀ call ∈ calls, call.Fits first size) →
      vmContextOf asic partition vmid later.vmdataBase = some ctx →
      Intact asic ctx state.mem fuel first size later.contents → Shows mapping later.contents flat →
      let run := vramCalls asic partition vmid ctx.pageTableStartAddr fuel calls later
      (∀ status ∈ run.1, status = .ok) ∧ run.1.length = calls.length ∧
        Shows mapping run.2.contents (calls.foldl MemCall.onFlat flat) ∧
        Leaves mapping later.mem run.2.mem := by
    intro calls
    induction calls with
    | nil =>
        intro later flat _ _ _ shows
        exact ⟨fun status member => absurd member List.not_mem_nil, rfl, shows, fun _ _ _ => rfl⟩
    | cons call calls ih =>
        intro later flat fits context intact shows
        obtain ⟨here, behind⟩ := List.forall_mem_cons.mp fits
        obtain ⟨moved, moves, showsMoved, leaves⟩ := @wordMoves_flat asic ctx state.mem fuel first size
          mapping call.writeEn (call.length / 4) call.address call.dst later.contents flat shows
          here.low (by have := here.high; omega) here.aligned
        have does := umrAccessVram_does sound passes call.writeEn gfx9 vm later context inSpan canonical
          here.positive here.small here.words here.aligned here.dstAligned here.low here.high intact
        have ok := does.ok_iff.mpr (by rw [moves]; rfl)
        have contents := does.contents moved moves
        have whole : 4 * (call.length / 4) = call.length := by
          have := here.words
          omega
        rw [whole] at showsMoved
        obtain ⟨allOk, count, showsRun, leavesRun⟩ := ih _ (MemCall.onFlat flat call) behind
          (by rw [does.vmdataBase, context]) (by
            rw [contents]
            exact wordMoves_intact sound here.low (by have := here.high; omega) here.aligned intact moves)
          (by rw [contents]; exact showsMoved)
        refine ⟨List.forall_mem_cons.mpr ⟨ok, allOk⟩, congrArg (· + 1) count, showsRun, ?_⟩
        intro store byte unplaced
        refine (leavesRun store byte unplaced).trans ?_
        have same := congrArg Prod.fst contents
        exact (congrFun (congrFun same store) byte).trans (leaves store byte unplaced)
  obtain ⟨ok, count, shows, leaves⟩ := whole calls state (view mapping.place state.mem, state.buf) fits
    context (fun _ _ _ _ _ => rfl) ⟨rfl, fun _ _ => rfl⟩
  exact ⟨ok, count, shows.buf, shows.bytes, leaves⟩

def pairPlace (address : Nat) : Store × Nat :=
  (.vram pairAsic.gpu, if address < 0x1000 then 0x10000 + address else 0x1F000 + address)

def pairMapping : Mapping pairAsic pairContext pairState.mem 1 0xFFC 8 where
  place := pairPlace
  placed := by
    intro word low high aligned
    have both : word = 0xFFC ∨ word = 0x1000 := by omega
    rcases both with rfl | rfl
    · exact ⟨_, rfl, by decide +kernel, by decide +kernel⟩
    · exact ⟨_, rfl, by decide +kernel, by decide +kernel⟩
  words := by
    intro word low high aligned k small
    have both : word = 0xFFC ∨ word = 0x1000 := by omega
    rcases both with rfl | rfl <;> interval_cases k <;> rfl
  held := by
    intro word low high aligned
    have both : word = 0xFFC ∨ word = 0x1000 := by omega
    rcases both with rfl | rfl <;> decide +kernel
  apart := by
    intro a aMember b bMember same
    have places : (if a < 0x1000 then 0x10000 + a else 0x1F000 + a) =
        if b < 0x1000 then 0x10000 + b else 0x1F000 + b := congrArg Prod.snd same
    obtain ⟨aLow, aHigh⟩ := aMember
    obtain ⟨bLow, bHigh⟩ := bMember
    split at places <;> split at places <;> omega

theorem pair_flat :
    let run := vramCalls pairAsic 0 1 pairContext.pageTableStartAddr 1
      [⟨true, 0xFFC, 8, 0⟩, ⟨false, 0xFFC, 8, 16⟩] { pairState with buf := fun i => UInt8.ofNat i }
    (∀ status ∈ run.1, status = .ok) ∧ run.2.buf 17 = 1 ∧ run.2.buf 23 = 7 := by
  obtain ⟨ok, -, buf, -⟩ := @vramCalls_flat pairAsic 0 1 1 0xFFC 8 pairContext
    { pairState with buf := fun i => UInt8.ofNat i } (by decide +kernel) (by decide +kernel)
    (by decide +kernel) (by decide +kernel) (by decide +kernel) (le_refl 1) pair_sound pairMapping
    [⟨true, 0xFFC, 8, 0⟩, ⟨false, 0xFFC, 8, 16⟩]
    (List.forall_mem_cons.mpr ⟨⟨by decide, by decide, by decide, by decide, by decide, by decide,
      by decide⟩, List.forall_mem_singleton.mpr ⟨by decide, by decide, by decide, by decide, by decide,
      by decide, by decide⟩⟩)
  refine ⟨ok, ?_, ?_⟩
  · rw [buf]
    rfl
  · rw [buf]
    rfl

end Umr.Vm
