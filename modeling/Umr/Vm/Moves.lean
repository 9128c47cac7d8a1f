import Umr.Vm.Leaf

/-!
# Blocks and words of mapped memory

The effect of a physical access on the memories and the caller's buffer, and the effect
of the word accesses of a range.  Inside one leaf page the words lie at consecutive
addresses of one memory, so a chunk of the page is moved like its words; and moving
words does not change the entries that the walks of the range read.
-/

set_option autoImplicit false

namespace Umr.Vm

open Umr.Lib

/-! ## Moving blocks -/

abbrev Contents : Type := Memory × (Nat → UInt8)

def State.contents (state : State) : Contents := (state.mem, state.buf)

def moveBlock (writeEn : Bool) (store : Store) (address dst size : Nat) (contents : Contents) :
    Contents :=
  if writeEn then
    (Function.update contents.1 store
      (copyBlock contents.2 dst (contents.1 store) address size), contents.2)
  else (contents.1, copyBlock (contents.1 store) address contents.2 dst size)

theorem transfer_contents (state : State) (store : Store) (address dst size : Nat)
    (writeEn : Bool) :
    (state.transfer store address dst size writeEn).contents =
      moveBlock writeEn store address dst size state.contents := by
  cases writeEn <;> rfl

@[simp] theorem moveBlock_zero (writeEn : Bool) (store : Store) (address dst : Nat)
    (contents : Contents) : moveBlock writeEn store address dst 0 contents = contents := by
  cases writeEn <;> simp [moveBlock]

theorem moveBlock_append (writeEn : Bool) (store : Store) (address dst first rest : Nat)
    (contents : Contents) :
    moveBlock writeEn store address dst (first + rest) contents =
      moveBlock writeEn store (address + first) (dst + first) rest
        (moveBlock writeEn store address dst first contents) := by
  cases writeEn <;> simp [moveBlock, copyBlock_append]

def moveHeld (asic : Asic) (writeEn : Bool) (store : Store) (address dst size : Nat)
    (contents : Contents) : Option Contents :=
  if holdsRange (asic.present store) address size then
    some (moveBlock writeEn store address dst size contents)
  else none

theorem moveHeld_append (asic : Asic) (writeEn : Bool) (store : Store)
    (address dst first rest : Nat) (contents : Contents) :
    moveHeld asic writeEn store address dst (first + rest) contents =
      (moveHeld asic writeEn store address dst first contents).bind
        (moveHeld asic writeEn store (address + first) (dst + first) rest) := by
  unfold moveHeld
  rw [holdsRange_append, moveBlock_append]
  cases holdsRange (asic.present store) address first <;> simp

def moveAccess (asic : Asic) (access : Access) (dst : Nat) (writeEn : Bool) (contents : Contents) :
    Option Contents :=
  match accessTarget asic access with
  | none => none
  | some (store, address) => moveHeld asic writeEn store address dst access.size contents

structure Keeps (before after : State) : Prop where
  vmdataBase : after.vmdataBase = before.vmdataBase
  chunks : after.chunks = before.chunks

theorem issue_vmdataBase (state : State) (access : Access) :
    (state.issue access).vmdataBase = state.vmdataBase := by
  unfold State.issue State.vmdataBase
  by_cases vram : access.space = .vram
  · simp only [vram, if_true, Option.map_map]
    rfl
  · simp [vram]

theorem accessPhysical_keeps (asic : Asic) (access : Access) (dst : Nat) (writeEn : Bool)
    (state : State) : Keeps state (accessPhysical asic access dst writeEn state).2 := by
  have issued : Keeps state (state.issue access) := ⟨issue_vmdataBase state access, rfl⟩
  unfold accessPhysical
  split
  · exact issued
  · split
    · exact issued
    · split
      · cases writeEn <;> exact ⟨issue_vmdataBase state access, rfl⟩
      · exact issued

theorem accessPhysical_spec (asic : Asic) (access : Access) {dst : Nat} (writeEn : Bool)
    (state : State) (aligned : dst % 4 = 0) :
    match moveAccess asic access dst writeEn state.contents with
    | some contents => (accessPhysical asic access dst writeEn state).1 = .ok ∧
        (accessPhysical asic access dst writeEn state).2.contents = contents
    | none => (accessPhysical asic access dst writeEn state).1 = .failed := by
  have offset : ¬ (access.space = .vram ∧ dst % 4 ≠ 0) := by omega
  rw [moveAccess, accessPhysical]
  simp only [if_neg offset]
  cases accessTarget asic access with
  | none => rfl
  | some target =>
      obtain ⟨store, address⟩ := target
      by_cases held : holdsRange (asic.present store) address access.size = true
      · simp only [moveHeld, held, if_true]
        exact ⟨trivial, transfer_contents _ store address dst access.size writeEn⟩
      · simp [moveHeld, held]

/-! ## Words in order -/

def seqMoves (move : Nat → Nat → Contents → Option Contents) :
    Nat → Nat → Nat → Contents → Option Contents
  | 0, _, _, contents => some contents
  | count + 1, address, dst, contents =>
      (move address dst contents).bind (seqMoves move count (address + 4) (dst + 4))

section Seq
variable {move : Nat → Nat → Contents → Option Contents}

theorem seqMoves_add (head tail address dst : Nat) (contents : Contents) :
    seqMoves move (head + tail) address dst contents =
      (seqMoves move head address dst contents).bind
        (seqMoves move tail (address + 4 * head) (dst + 4 * head)) := by
  induction head generalizing address dst contents with
  | zero => simp [seqMoves]
  | succ head ih =>
      rw [Nat.succ_add, seqMoves, seqMoves, Option.bind_assoc]
      congr 1
      funext moved
      rw [ih]
      congr 2 <;> ring

/-- Words at consecutive addresses of one store are moved like one block. -/
theorem seqMoves_block {asic : Asic} {writeEn : Bool} {store : Store}
    {count address dst base : Nat}
    (words : ∀ i < count, ∀ contents, move (address + 4 * i) (dst + 4 * i) contents =
      moveHeld asic writeEn store (base + 4 * i) (dst + 4 * i) 4 contents)
    (contents : Contents) :
    seqMoves move count address dst contents =
      moveHeld asic writeEn store base dst (4 * count) contents := by
  induction count generalizing address dst base contents with
  | zero => simp [seqMoves, moveHeld, holdsRange]
  | succ count ih =>
      have head := words 0 (by omega) contents
      have tail (moved : Contents) : seqMoves move count (address + 4) (dst + 4) moved =
          moveHeld asic writeEn store (base + 4) (dst + 4) (4 * count) moved := by
        apply ih
        intro i lt later
        have next := words (i + 1) (by omega) later
        rw [show 4 * (i + 1) = 4 + 4 * i by ring, ← Nat.add_assoc, ← Nat.add_assoc,
          ← Nat.add_assoc] at next
        exact next
      simp only [Nat.mul_zero, Nat.add_zero] at head
      rw [seqMoves, head, show 4 * (count + 1) = 4 + 4 * count by ring, moveHeld_append]
      congr 1
      funext moved
      exact tail moved

end Seq

/-! ## Tables over a range -/

section Range
variable (asic : Asic) (ctx : VmContext) (mem : Memory) (fuel first size : Nat)

/-- The words of a leaf page lie at consecutive addresses of one memory: no boundary
between XGMI nodes and no edge of the AGP window crosses it. -/
def Contiguous (page : LeafPage) : Prop :=
  ∃ store base, ∀ offset < 2 ^ page.pageShift, offset % 4 = 0 →
    accessTarget asic (route ctx page.fields.system
      (add64 (asic.gpuBusToCpuAddress page.fields.pageBaseAddr) offset) 4) =
        some (store, base + offset)

/-- The tables over the addresses `[first, first + size)`: every shift of the walk is
below 64, no page table entry acts as a directory entry, PDE0 fragments fit their
table, leaf pages are aligned and contiguous, and no data word overlaps an entry that
a walk of the range reads. -/
structure SoundTables : Prop where
  shifts : 9 * (ctx.pageTableDepth - 1) + 21 + ctx.pageTableBlockSize < 64
  noFurther : ∀ address, first ≤ address → address < first + size →
    1 ≤ ctx.pageTableDepth → ∀ level fragSize entry reads,
      TerminalEntry asic ctx mem address level fragSize entry reads →
        (decodePteEntry asic.gfx entry).isPde asic.gfx = false
  fits : ∀ address, first ≤ address → address < first + size → ∀ page reads,
    PageAt asic ctx mem address page reads → page.chunkShift ≤ 12 + (9 + ctx.pageTableBlockSize)
  aligned : ∀ address, first ≤ address → address < first + size → ∀ page reads,
    PageAt asic ctx mem address page reads →
      asic.gpuBusToCpuAddress page.fields.pageBaseAddr % 2 ^ page.pageShift = 0
  contiguous : ∀ address, first ≤ address → address < first + size → ∀ page reads,
    PageAt asic ctx mem address page reads → page.fields.valid = true → Contiguous asic ctx page
  disjoint : ∀ address, first ≤ address → address < first + size →
    ∀ word, first ≤ word → word < first + size → word % 4 = 0 →
    ∀ read ∈ (walkPage asic ctx mem fuel true {} address).1, ∀ page,
      (walkPage asic ctx mem fuel true {} word).2 = .page page → page.pteFields.valid = true →
    ∀ store entryAt dataAt, accessTarget asic read.access = some (store, entryAt) →
      accessTarget asic (route ctx page.pteFields.system page.startAddr 4) = some (store, dataAt) →
        entryAt + read.access.size ≤ dataAt ∨ dataAt + 4 ≤ entryAt

/-- The effect of the word access at `address`, with the tables as `mem` holds them. -/
def wordMove (writeEn : Bool) (address dst : Nat) (contents : Contents) : Option Contents :=
  match (walkPage asic ctx mem fuel true {} address).2 with
  | .page page =>
      if page.pteFields.valid then
        moveAccess asic (route ctx page.pteFields.system page.startAddr 4) dst writeEn contents
      else some contents
  | .failed => none
  | .running => none

def wordMoves (writeEn : Bool) : Nat → Nat → Nat → Contents → Option Contents
  | 0, _, _, contents => some contents
  | count + 1, address, dst, contents =>
      (wordMove asic ctx mem fuel writeEn address dst contents).bind
        (wordMoves writeEn count (address + 4) (dst + 4))

variable {asic ctx mem fuel}

theorem wordMoves_eq_seqMoves (writeEn : Bool) (count address dst : Nat) (contents : Contents) :
    wordMoves asic ctx mem fuel writeEn count address dst contents =
      seqMoves (wordMove asic ctx mem fuel writeEn) count address dst contents := by
  induction count generalizing address dst contents with
  | zero => rfl
  | succ count ih =>
      rw [wordMoves, seqMoves]
      congr 1
      funext moved
      exact ih (address + 4) (dst + 4) moved

theorem wordMoves_add (writeEn : Bool) (head tail address dst : Nat) (contents : Contents) :
    wordMoves asic ctx mem fuel writeEn (head + tail) address dst contents =
      (wordMoves asic ctx mem fuel writeEn head address dst contents).bind
        (wordMoves asic ctx mem fuel writeEn tail (address + 4 * head) (dst + 4 * head)) := by
  have same : ∀ count address dst, wordMoves asic ctx mem fuel writeEn count address dst =
      seqMoves (wordMove asic ctx mem fuel writeEn) count address dst :=
    fun count address dst => funext (wordMoves_eq_seqMoves writeEn count address dst)
  rw [same, same, same]
  exact seqMoves_add head tail address dst contents

theorem wordMoves_block {writeEn : Bool} {store : Store} {count address dst base : Nat}
    (words : ∀ i < count, ∀ contents,
      wordMove asic ctx mem fuel writeEn (address + 4 * i) (dst + 4 * i) contents =
        moveHeld asic writeEn store (base + 4 * i) (dst + 4 * i) 4 contents)
    (contents : Contents) :
    wordMoves asic ctx mem fuel writeEn count address dst contents =
      moveHeld asic writeEn store base dst (4 * count) contents := by
  rw [wordMoves_eq_seqMoves]
  exact seqMoves_block words contents

theorem wordMoves_skip {writeEn : Bool} {count address dst : Nat}
    (words : ∀ i < count, ∀ contents,
      wordMove asic ctx mem fuel writeEn (address + 4 * i) (dst + 4 * i) contents = some contents)
    (contents : Contents) :
    wordMoves asic ctx mem fuel writeEn count address dst contents = some contents := by
  induction count generalizing address dst with
  | zero => rfl
  | succ count ih =>
      have head := words 0 (by omega) contents
      simp only [Nat.mul_zero, Nat.add_zero] at head
      rw [wordMoves, head]
      apply ih
      intro i lt later
      have next := words (i + 1) (by omega) later
      rwa [show 4 * (i + 1) = 4 + 4 * i by ring, ← Nat.add_assoc, ← Nat.add_assoc] at next

end Range

/-! ## One leaf page -/

section Leaf
variable {asic : Asic} {ctx : VmContext} {mem : Memory} {fuel first size address : Nat}
  {page : LeafPage} {reads : List WalkRead}

theorem SoundTables.page_shifts (sound : SoundTables asic ctx mem fuel first size)
    (low : first ≤ address) (high : address < first + size)
    (here : PageAt asic ctx mem address page reads) :
    12 ≤ page.chunkShift ∧ page.chunkShift < 44 ∧ page.chunkShift ≤ page.pageShift ∧
      page.pageShift < 64 := by
  have fits := sound.fits address low high page reads here
  have bound : dirShift ctx (ctx.pageTableDepth - 1) < 64 := sound.shifts
  cases here with
  | @leveled level fragSize entry reads depth terminal last =>
      cases terminal with
      | pte path read =>
          have := path.fragSize_lt
          simp only [levelShift]
          omega
      | @pde deep pde above _ path read leaf =>
          have le := path.depth_le
          have small : dirShift ctx deep < 64 :=
            lt_of_le_of_lt (dirShift_mono ctx (by omega)) bound
          have bottom : dirShift ctx 0 ≤ dirShift ctx deep := dirShift_mono ctx (Nat.zero_le deep)
          have frag := decodePdeEntry_fragSize_lt asic.gfx entry
          dsimp only [levelShift] at fits ⊢
          unfold dirShift at bottom small ⊢
          split at fits <;> split <;> omega
  | flat depth valid read =>
      have := decodePdeEntry_fragSize_lt asic.gfx (rootEntry asic ctx)
      dsimp only
      omega

/-- Physical addresses of an aligned page agree with virtual ones modulo its chunks. -/
theorem startAddr_mod {chunk : Nat} (le : chunk ≤ page.pageShift) (word : page.pageShift < 64)
    (aligned : asic.gpuBusToCpuAddress page.fields.pageBaseAddr % 2 ^ page.pageShift = 0) :
    page.startAddr asic address % 2 ^ chunk = address % 2 ^ chunk := by
  have inPage : 2 ^ chunk ∣ 2 ^ page.pageShift := pow_dvd_pow 2 le
  have inWord : 2 ^ chunk ∣ 2 ^ 64 := pow_dvd_pow 2 (by omega)
  have base : asic.gpuBusToCpuAddress page.fields.pageBaseAddr % 2 ^ chunk = 0 :=
    Nat.mod_eq_zero_of_dvd (dvd_trans inPage (Nat.dvd_of_mod_eq_zero aligned))
  rw [LeafPage.startAddr, add64, Nat.mod_mod_of_dvd _ inWord, Nat.add_mod, base, Nat.zero_add,
    Nat.mod_mod, Nat.mod_mod_of_dvd _ inPage]

theorem chunkSize_eq {startAddr shift size : Nat} (small : shift < 44) (word : size < 2 ^ 32) :
    chunkSize startAddr (lowMask shift) size =
      if startAddr % 2 ^ shift + size < 2 ^ shift then size
      else 2 ^ shift - startAddr % 2 ^ shift := by
  have power : 2 ^ shift < 2 ^ 44 := Nat.pow_lt_pow_right (by norm_num) small
  have offset : startAddr % 2 ^ shift < 2 ^ shift := Nat.mod_lt _ (by positivity)
  have total : add64 (startAddr % 2 ^ shift) size = startAddr % 2 ^ shift + size :=
    add64_eq (by omega)
  have reach : startAddr % 2 ^ shift + size &&& not64 (lowMask shift) = 0 ↔
      startAddr % 2 ^ shift + size < 2 ^ shift :=
    and_not_lowMask_eq_zero (by omega) (by omega)
  rw [chunkSize, and_lowMask startAddr (by omega), total]
  by_cases inside : startAddr % 2 ^ shift + size < 2 ^ shift
  · rw [if_pos inside, if_neg (not_not.mpr (reach.mpr inside))]
  · rw [if_neg inside, if_pos (mt reach.mp inside), lowMask_eq (by omega)]
    omega

/-- The word moves of an accepted page: from consecutive addresses of one store if it is
mapped, nothing otherwise. -/
theorem wordMove_page (sound : SoundTables asic ctx mem fuel first size)
    (low : first ≤ address) (high : address < first + size)
    (here : PageAt asic ctx mem address page reads) (accepted : page.accepted = true)
    (passes : 1 ≤ fuel)
    (sized : 1 ≤ ctx.pageTableDepth →
      (log2VmSize ctx.pageTableStartAddr ctx.pageTableEndAddr).isSome = true)
    (writeEn : Bool) {word : Nat} (same : address / 2 ^ page.pageShift = word / 2 ^ page.pageShift)
    (dst : Nat) (contents : Contents) :
    wordMove asic ctx mem fuel writeEn word dst contents =
      if page.fields.valid then
        moveAccess asic (route ctx page.fields.system (page.startAddr asic word) 4) dst writeEn
          contents
      else some contents := by
  obtain ⟨-, -, -, bound⟩ := sound.page_shifts low high here
  have fits : page.chunkShift ≤ dirShift ctx 0 := by
    have := sound.fits address low high page reads here
    unfold dirShift
    omega
  obtain ⟨found, walk, start, -, fields⟩ :=
    (here.congr sound.shifts fits same).walkPage_eq bound accepted passes sized {}
  simp only [wordMove, walk, start, fields]

theorem Contiguous.moveAccess_eq {store : Store} {base : Nat}
    (target : ∀ offset < 2 ^ page.pageShift, offset % 4 = 0 →
      accessTarget asic (route ctx page.fields.system
        (add64 (asic.gpuBusToCpuAddress page.fields.pageBaseAddr) offset) 4) =
          some (store, base + offset))
    (paged : 12 ≤ page.pageShift) (aligned : address % 4 = 0) {block : Nat}
    (words : block % 4 = 0) (dst : Nat) (writeEn : Bool) (contents : Contents) :
    moveAccess asic (route ctx page.fields.system (page.startAddr asic address) block) dst writeEn
        contents =
      moveHeld asic writeEn store (base + address % 2 ^ page.pageShift) dst block contents := by
  have four : (4 : Nat) ∣ 2 ^ page.pageShift :=
    dvd_trans (by norm_num) (pow_dvd_pow 2 paged)
  have offset : address % 2 ^ page.pageShift % 4 = 0 := by
    rw [Nat.mod_mod_of_dvd _ four, aligned]
  have word := target (address % 2 ^ page.pageShift) (Nat.mod_lt _ (by positivity)) offset
  have sized : accessTarget asic
      (route ctx page.fields.system (page.startAddr asic address) block) =
        some (store, base + address % 2 ^ page.pageShift) := by
    rw [← word, LeafPage.startAddr]
    exact accessTarget_route asic ctx page.fields.system _ words (by norm_num)
  rw [moveAccess, sized]
  simp

/-- A chunk inside one page is moved like its words. -/
theorem chunk_moves (sound : SoundTables asic ctx mem fuel first size)
    (low : first ≤ address) (high : address < first + size)
    (here : PageAt asic ctx mem address page reads) (accepted : page.accepted = true)
    (passes : 1 ≤ fuel)
    (sized : 1 ≤ ctx.pageTableDepth →
      (log2VmSize ctx.pageTableStartAddr ctx.pageTableEndAddr).isSome = true)
    (writeEn : Bool) (aligned : address % 4 = 0) {block : Nat} (words : block % 4 = 0)
    (inside : address % 2 ^ page.pageShift + block ≤ 2 ^ page.pageShift) (dst : Nat)
    (contents : Contents) :
    wordMoves asic ctx mem fuel writeEn (block / 4) address dst contents =
      if page.fields.valid then
        moveAccess asic (route ctx page.fields.system (page.startAddr asic address) block) dst writeEn
          contents
      else some contents := by
  obtain ⟨twelve, -, le, -⟩ := sound.page_shifts low high here
  -- every word of the chunk lies in the page, at its own offset
  have samePage (i : Nat) (lt : i < block / 4) :
      address / 2 ^ page.pageShift = (address + 4 * i) / 2 ^ page.pageShift ∧
        (address + 4 * i) % 2 ^ page.pageShift = address % 2 ^ page.pageShift + 4 * i := by
    obtain ⟨unit, place⟩ := add_in_unit (show
      address % 2 ^ page.pageShift + 4 * i < 2 ^ page.pageShift by omega)
    exact ⟨unit.symm, place⟩
  cases valid : page.fields.valid with
  | false =>
      simp only [Bool.false_eq_true, if_false]
      apply wordMoves_skip
      intro i lt later
      rw [wordMove_page sound low high here accepted passes sized writeEn (samePage i lt).1, valid]
      rfl
  | true =>
      obtain ⟨store, base, target⟩ := sound.contiguous address low high page reads here valid
      simp only [if_true]
      rw [Contiguous.moveAccess_eq target (by omega) aligned words,
        show block = 4 * (block / 4) by omega, Nat.mul_div_cancel_left _ (by norm_num)]
      apply wordMoves_block
      intro i lt later
      rw [wordMove_page sound low high here accepted passes sized writeEn (samePage i lt).1, valid,
        if_pos rfl, Contiguous.moveAccess_eq target (by omega) (by omega) (by norm_num),
        (samePage i lt).2, Nat.add_assoc]

end Leaf

/-! ## Tables that stay as they are -/

section Intact
variable {asic : Asic} {ctx : VmContext} {mem : Memory} {fuel first size : Nat}

def Intact (asic : Asic) (ctx : VmContext) (mem : Memory) (fuel first size : Nat)
    (contents : Contents) : Prop :=
  ∀ address, first ≤ address → address < first + size →
    Agrees asic mem contents.1 (walkPage asic ctx mem fuel true {} address).1

theorem readEntry_update (asic : Asic) (mem : Memory) (access : Access) (store : Store)
    (buf : Nat → UInt8) (dataAt dst block : Nat)
    (apart : ∀ entryAt, accessTarget asic access = some (store, entryAt) →
      entryAt + access.size ≤ dataAt ∨ dataAt + block ≤ entryAt) :
    readEntry asic (Function.update mem store (copyBlock buf dst (mem store) dataAt block)) access =
      readEntry asic mem access := by
  unfold readEntry
  cases target : accessTarget asic access with
  | none => rfl
  | some place =>
      obtain ⟨other, entryAt⟩ := place
      have same : littleEndian (fun i => Function.update mem store
            (copyBlock buf dst (mem store) dataAt block) other (entryAt + i)) access.size =
          littleEndian (fun i => mem other (entryAt + i)) access.size := by
        apply littleEndian_congr
        intro i lt
        by_cases here : other = store
        · subst here
          have clear := apart entryAt target
          rw [Function.update_self]
          exact copyBlock_outside _ _ _ (by omega)
        · rw [Function.update_of_ne here]
      simp only [same]

theorem wordMove_intact (sound : SoundTables asic ctx mem fuel first size) {writeEn : Bool}
    {word dst : Nat} {contents moved : Contents} (low : first ≤ word) (high : word < first + size)
    (aligned : word % 4 = 0) (intact : Intact asic ctx mem fuel first size contents)
    (done : wordMove asic ctx mem fuel writeEn word dst contents = some moved) :
    Intact asic ctx mem fuel first size moved := by
  rw [wordMove] at done
  cases walk : (walkPage asic ctx mem fuel true {} word).2 with
  | running => simp [walk] at done
  | failed => simp [walk] at done
  | page page =>
      simp only [walk] at done
      cases valid : page.pteFields.valid with
      | false =>
          simp only [valid, Bool.false_eq_true, if_false, Option.some.injEq] at done
          exact done ▸ intact
      | true =>
          simp only [valid, if_true, moveAccess] at done
          cases target : accessTarget asic (route ctx page.pteFields.system page.startAddr 4) with
          | none => simp [target] at done
          | some place =>
              obtain ⟨store, dataAt⟩ := place
              simp only [target, moveHeld, Option.ite_none_right_eq_some, Option.some.injEq,
                route_size] at done
              obtain ⟨-, rfl⟩ := done
              cases writeEn with
              | false => exact intact
              | true =>
                  intro address lo hi read member
                  refine (readEntry_update asic contents.1 read.access store contents.2 dataAt dst 4
                    ?_).trans (intact address lo hi read member)
                  intro entryAt entry
                  exact sound.disjoint address lo hi word low high aligned read member page walk valid
                    store entryAt dataAt entry target

theorem wordMoves_intact (sound : SoundTables asic ctx mem fuel first size) {writeEn : Bool}
    {count word dst : Nat} {contents moved : Contents} (low : first ≤ word)
    (high : word + 4 * count ≤ first + size) (aligned : word % 4 = 0)
    (intact : Intact asic ctx mem fuel first size contents)
    (done : wordMoves asic ctx mem fuel writeEn count word dst contents = some moved) :
    Intact asic ctx mem fuel first size moved := by
  induction count generalizing word dst contents with
  | zero =>
      simp only [wordMoves, Option.some.injEq] at done
      exact done ▸ intact
  | succ count ih =>
      rw [wordMoves, Option.bind_eq_some_iff] at done
      obtain ⟨next, here, rest⟩ := done
      exact ih (by omega) (by omega) (by omega)
        (wordMove_intact sound low (by omega) aligned intact here) rest

/-- Every walk of the range is settled by the tables: it stops the same way whatever an
earlier page left behind, or it reaches an accepted leaf page. -/
theorem walk_settled (sound : SoundTables asic ctx mem fuel first size) (passes : 1 ≤ fuel)
    {address : Nat} (low : first ≤ address) (high : address < first + size) :
    (∃ reads stop, (∀ page, stop ≠ .page page) ∧
      ∀ carry, walkPage asic ctx mem fuel true carry address = (reads, stop)) ∨
    (∃ page reads, PageAt asic ctx mem address page reads ∧ page.accepted = true ∧
      (1 ≤ ctx.pageTableDepth →
        (log2VmSize ctx.pageTableStartAddr ctx.pageTableEndAddr).isSome = true)) := by
  by_cases sized : 1 ≤ ctx.pageTableDepth →
      (log2VmSize ctx.pageTableStartAddr ctx.pageTableEndAddr).isSome = true
  · rcases pageAt_or_failed passes sized (sound.noFurther address low high) with found | failed
    · obtain ⟨page, reads, here⟩ := found
      cases accepted : page.accepted with
      | true => exact .inr ⟨page, reads, here, accepted, sized⟩
      | false =>
          exact .inl ⟨reads, .failed, by simp, here.walkPage_failed accepted passes sized⟩
    · obtain ⟨reads, fails⟩ := failed
      exact .inl ⟨reads, .failed, by simp, fails⟩
  · simp only [Classical.not_imp, Bool.not_eq_true, Option.isSome_eq_false_iff,
      Option.isNone_iff_eq_none] at sized
    refine .inl ⟨[], .running, by simp, fun carry => ?_⟩
    rw [walkPage, if_pos sized.1, sized.2]

end Intact

end Umr.Vm
