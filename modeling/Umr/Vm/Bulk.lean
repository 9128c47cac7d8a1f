import Mathlib.Tactic.IntervalCases
import Umr.Vm.Moves

/-!
# Bulk accesses and word accesses

An access to a range of GPU-mapped memory moves the same bytes as the word accesses of
the range done in order.  The loop invariant is that every chunk lies in one leaf page:
chunk lengths come from physical addresses, and these agree with virtual ones modulo
the page size because leaf pages are aligned.
-/

set_option autoImplicit false

namespace Umr.Vm

open Umr.Lib

/-! ## The page loop -/

section Loop
variable {asic : Asic} {ctx : VmContext} {mem : Memory} {fuel first size : Nat}

def InOnePage (asic : Asic) (ctx : VmContext) (mem : Memory) (chunk : Nat × Nat) : Prop :=
  ∃ page reads, PageAt asic ctx mem chunk.1 page reads ∧
    chunk.1 % 2 ^ page.pageShift + chunk.2 ≤ 2 ^ page.pageShift

/-- A call with the expected effect: it succeeds exactly if there is one, and it takes the
range in positive chunks that stay in their pages. -/
structure Does (asic : Asic) (ctx : VmContext) (mem : Memory) (before : State) (length : Nat)
    (expected : Option Contents) (result : Status × State) : Prop where
  ok_iff : result.1 = .ok ↔ expected.isSome = true
  contents : ∀ moved, expected = some moved → result.2.contents = moved
  vmdataBase : result.2.vmdataBase = before.vmdataBase
  chunks : ∃ taken, result.2.chunks = before.chunks ++ taken ∧
    (∀ chunk ∈ taken, 0 < chunk.2 ∧ InOnePage asic ctx mem chunk) ∧
    (result.1 = .ok → (taken.map Prod.snd).sum = length)

theorem captureRead_base (walk : VmPagewalk) (read : WalkRead) :
    (captureRead asic ctx walk read).pageTableBaseAddr = walk.pageTableBaseAddr := by
  unfold captureRead
  repeat' split
  all_goals rfl

theorem captureWalk_base (reads : List WalkRead) (found : WalkEnd) (walk : VmPagewalk) :
    (captureWalk asic ctx reads found walk).pageTableBaseAddr = walk.pageTableBaseAddr := by
  have folded (start : VmPagewalk) :
      (reads.foldl (captureRead asic ctx) start).pageTableBaseAddr = start.pageTableBaseAddr := by
    induction reads generalizing start with
    | nil => rfl
    | cons read reads ih => rw [List.foldl_cons, ih, captureRead_base]
  unfold captureWalk
  repeat' split
  all_goals exact folded _

theorem walked_vmdataBase (state : State) (walk : List WalkRead × WalkEnd) :
    (state.walked asic ctx walk).vmdataBase = state.vmdataBase := by
  unfold State.walked State.vmdataBase
  cases state.vmdata with
  | none => rfl
  | some data => exact captureWalk_base _ _ _

theorem accessChunk_spec (asic : Asic) (ctx : VmContext) (writeEn : Bool) (page : Page)
    (chunk : Nat) {dst : Nat} (state : State) (aligned : dst % 4 = 0) :
    match (if page.pteFields.valid then
      moveAccess asic (route ctx page.pteFields.system page.startAddr chunk) dst writeEn
        state.contents
      else some state.contents) with
    | some contents => (accessChunk asic ctx writeEn page chunk (some dst) state).1 = .ok ∧
        (accessChunk asic ctx writeEn page chunk (some dst) state).2.contents = contents
    | none => (accessChunk asic ctx writeEn page chunk (some dst) state).1 = .failed := by
  rw [accessChunk]
  cases page.pteFields.valid with
  | false => exact ⟨rfl, rfl⟩
  | true => exact accessPhysical_spec asic _ writeEn state aligned

theorem accessChunk_keeps (asic : Asic) (ctx : VmContext) (writeEn : Bool) (page : Page)
    (chunk dst : Nat) (state : State) :
    Keeps state (accessChunk asic ctx writeEn page chunk (some dst) state).2 := by
  rw [accessChunk]
  cases page.pteFields.valid with
  | false => exact ⟨rfl, rfl⟩
  | true => exact accessPhysical_keeps asic _ dst writeEn state

def chunkLength (leaf : LeafPage) (address length : Nat) : Nat :=
  if address % 2 ^ leaf.chunkShift + length < 2 ^ leaf.chunkShift then length
  else 2 ^ leaf.chunkShift - address % 2 ^ leaf.chunkShift

/-- Chunks are positive, in whole words, and stay in their unit. -/
theorem chunkLength_spec {leaf : LeafPage} {address length : Nat} (twelve : 12 ≤ leaf.chunkShift)
    (aligned : address % 4 = 0) (positive : 0 < length) (words : length % 4 = 0) :
    0 < chunkLength leaf address length ∧ chunkLength leaf address length ≤ length ∧
      chunkLength leaf address length % 4 = 0 ∧
      address % 2 ^ leaf.chunkShift + chunkLength leaf address length ≤ 2 ^ leaf.chunkShift := by
  have offset : address % 2 ^ leaf.chunkShift < 2 ^ leaf.chunkShift :=
    Nat.mod_lt _ (by positivity)
  have four : (4 : Nat) ∣ 2 ^ leaf.chunkShift :=
    dvd_trans (by norm_num) (pow_dvd_pow 2 twelve)
  have offsetWords : address % 2 ^ leaf.chunkShift % 4 = 0 := by
    rw [Nat.mod_mod_of_dvd _ four, aligned]
  unfold chunkLength
  split <;> omega

theorem pageLoop_stops {writeEn : Bool} {pages length address dst : Nat} {carry : Carry}
    {state : State} {reads : List WalkRead} {stop : WalkEnd} (noPage : ∀ page, stop ≠ .page page)
    (positive : 0 < length / 4)
    (walk : walkPage asic ctx state.mem fuel true carry address = (reads, stop))
    (fresh : walkPage asic ctx mem fuel true {} address = (reads, stop)) :
    Does asic ctx mem state length
      (wordMoves asic ctx mem fuel writeEn (length / 4) address dst state.contents)
      (pageLoop asic ctx fuel writeEn (pages + 1) carry address length (some dst) state) := by
  obtain ⟨count, words⟩ := Nat.exists_eq_add_of_lt positive
  have nothing : wordMoves asic ctx mem fuel writeEn (length / 4) address dst state.contents =
      none := by
    rw [words, Nat.zero_add, wordMoves, wordMove, fresh]
    cases stop with
    | page page => exact absurd rfl (noPage page)
    | failed => rfl
    | running => rfl
  have base : (state.walked asic ctx (reads, stop)).vmdataBase = state.vmdataBase :=
    walked_vmdataBase state (reads, stop)
  rw [nothing, pageLoop]
  simp only [Option.isSome_some, walk]
  cases stop with
  | page page => exact absurd rfl (noPage page)
  | failed => exact ⟨by simp, by simp, base, [], by simp [State.walked]⟩
  | running => exact ⟨by simp, by simp, base, [], by simp [State.walked]⟩

theorem Does.append {before : State} {moved later : Status × State} {length address chunk : Nat}
    {expected : Option Contents} {rest : Contents → Option Contents}
    (spec : match expected with
      | some contents => moved.1 = .ok ∧ moved.2.contents = contents
      | none => moved.1 = .failed)
    (base : moved.2.vmdataBase = before.vmdataBase)
    (taken : moved.2.chunks = before.chunks ++ [(address, chunk)]) (le : chunk ≤ length)
    (one : 0 < chunk ∧ InOnePage asic ctx mem (address, chunk))
    (after : ∀ next, expected = some next →
      Does asic ctx mem moved.2 (length - chunk) (rest next) later) :
    Does asic ctx mem before length (expected.bind rest)
      (if moved.1 = .ok then later else moved) := by
  cases expected with
  | none =>
      dsimp only at spec
      rw [if_neg (by simp [spec])]
      refine ⟨by simp [spec], by simp, base, [(address, chunk)], taken, ?_, by simp [spec]⟩
      simpa using one
  | some next =>
      obtain ⟨ok, -⟩ := spec
      rw [if_pos ok]
      obtain ⟨okIff, contents, laterBase, more, chunks, inPages, sum⟩ := after next rfl
      refine ⟨okIff, contents, laterBase.trans base, (address, chunk) :: more, ?_, ?_, ?_⟩
      · rw [chunks, taken, List.append_assoc, List.singleton_append]
      · intro piece member
        rcases List.mem_cons.mp member with rfl | later
        · exact one
        · exact inPages piece later
      · intro done
        rw [List.map_cons, List.sum_cons, sum done]
        exact Nat.add_sub_cancel' le

/-- The chunk the loop takes from an accepted page: how long it is, and that its access has
the effect of its word moves. -/
theorem pageChunk_moves (sound : SoundTables asic ctx mem fuel first size) (passes : 1 ≤ fuel)
    (writeEn : Bool) (carry : Carry) {address length dst : Nat} {state : State} {leaf : LeafPage}
    {reads : List WalkRead} (low : first ≤ address) (inside : address < first + size)
    (here : PageAt asic ctx mem address leaf reads) (accepted : leaf.accepted = true)
    (sized : 1 ≤ ctx.pageTableDepth →
      (log2VmSize ctx.pageTableStartAddr ctx.pageTableEndAddr).isSome = true)
    (entries : Agrees asic mem state.mem (walkPage asic ctx mem fuel true {} address).1)
    (small : length < 2 ^ 32) (aligned : address % 4 = 0) (dstAligned : dst % 4 = 0)
    (words : chunkLength leaf address length % 4 = 0)
    (inPage : address % 2 ^ leaf.pageShift + chunkLength leaf address length ≤
      2 ^ leaf.pageShift) :
    ∃ page taking, walkPage asic ctx state.mem fuel true carry address = (reads, .page page) ∧
      taking = (state.walked asic ctx (reads, .page page)).taking address
        (chunkLength leaf address length) ∧
      chunkSize page.startAddr page.ptePageMask length = chunkLength leaf address length ∧
      match wordMoves asic ctx mem fuel writeEn (chunkLength leaf address length / 4) address dst
        state.contents with
      | some contents => (accessChunk asic ctx writeEn page (chunkLength leaf address length)
          (some dst) taking).1 = .ok ∧
          (accessChunk asic ctx writeEn page (chunkLength leaf address length)
            (some dst) taking).2.contents = contents
      | none => (accessChunk asic ctx writeEn page (chunkLength leaf address length)
          (some dst) taking).1 = .failed := by
  obtain ⟨_, small44, le, bound⟩ := sound.page_shifts low inside here
  obtain ⟨page, walk, start, mask, fields⟩ := here.walkPage_eq bound accepted passes sized carry
  obtain ⟨_, freshWalk, -⟩ := here.walkPage_eq bound accepted passes sized {}
  rw [freshWalk] at entries
  refine ⟨page, _, walkPage_same asic ctx walk entries, rfl, ?_, ?_⟩
  · rw [start, mask, chunkSize_eq small44 small, startAddr_mod le bound
      (sound.aligned address low inside leaf reads here), chunkLength]
  · rw [chunk_moves sound low inside here accepted passes sized writeEn aligned words inPage,
      ← fields, ← start]
    exact accessChunk_spec asic ctx writeEn page (chunkLength leaf address length)
      ((state.walked asic ctx (reads, .page page)).taking address _) dstAligned

/-- The page loop has the effect of the word moves of its range. -/
theorem pageLoop_does (sound : SoundTables asic ctx mem fuel first size) (passes : 1 ≤ fuel)
    (writeEn : Bool) (word : first + size ≤ 2 ^ 48) (pages : Nat) (carry : Carry)
    (address length dst : Nat) (state : State) (enough : length < pages) (positive : 0 < length)
    (small : length < 2 ^ 32) (words : length % 4 = 0) (aligned : address % 4 = 0)
    (dstAligned : dst % 4 = 0) (low : first ≤ address) (high : address + length ≤ first + size)
    (intact : Intact asic ctx mem fuel first size state.contents) :
    Does asic ctx mem state length
      (wordMoves asic ctx mem fuel writeEn (length / 4) address dst state.contents)
      (pageLoop asic ctx fuel writeEn pages carry address length (some dst) state) := by
  -- one more page than bytes is never used up: every chunk is positive
  induction pages generalizing carry address length dst state with
  | zero => omega
  | succ pages ih =>
      have inside : address < first + size := by omega
      have entries := intact address low inside
      rcases walk_settled sound passes low inside with stopped | found
      · obtain ⟨reads, stop, noPage, walks⟩ := stopped
        rw [walks {}] at entries
        have agree := walkPage_same asic ctx (walks carry) entries
        exact pageLoop_stops noPage (by omega) agree (walks {})
      · obtain ⟨leaf, reads, here, accepted, sized⟩ := found
        obtain ⟨twelve, _, le, _⟩ := sound.page_shifts low inside here
        obtain ⟨chunkPos, chunkLe, chunkWords, chunkInside⟩ :=
          chunkLength_spec twelve aligned positive words
        have inPage := mod_pow_add_le le chunkInside
        obtain ⟨page, taking, walk, takingIs, chunkIs, spec⟩ :=
          pageChunk_moves sound passes writeEn carry low inside here accepted sized entries small
            aligned dstAligned chunkWords inPage
        generalize chunkLength leaf address length = chunk at *
        have keeps := accessChunk_keeps asic ctx writeEn page chunk dst taking
        have base : taking.vmdataBase = state.vmdataBase := by
          rw [takingIs]
          exact walked_vmdataBase state (reads, .page page)
        have chunks : taking.chunks = state.chunks ++ [(address, chunk)] := by
          rw [takingIs]
          rfl
        have split : length / 4 = chunk / 4 + (length - chunk) / 4 := by omega
        have whole : 4 * (chunk / 4) = chunk := by omega
        rw [split, wordMoves_add, whole, pageLoop]
        simp only [Option.isSome_some, walk, chunkIs, ← takingIs]
        generalize accessChunk asic ctx writeEn page chunk (some dst) taking = moved at spec keeps ⊢
        refine Does.append spec (keeps.vmdataBase.trans base) (keeps.chunks.trans chunks) chunkLe
          ⟨chunkPos, leaf, reads, here, inPage⟩ ?_
        intro next done
        rw [done] at spec
        by_cases last : length - chunk = 0
        · rw [if_pos last, last]
          exact ⟨by simp [spec.1, wordMoves], by simp [spec.2, wordMoves], rfl, [], by simp⟩
        · rw [if_neg last, add64_eq (by omega)]
          have later : Intact asic ctx mem fuel first size next :=
            wordMoves_intact sound low (by omega) aligned intact done
          rw [← spec.2] at later ⊢
          exact ih page.carry (address + chunk) (length - chunk) (dst + chunk) moved.2 (by omega)
            (by omega) (by omega) (by omega) (by omega) (by omega) (by omega) (by omega) later

end Loop

/-! ## Whole calls -/

section Call
variable {asic : Asic} {ctx : VmContext} {mem : Memory} {fuel first size : Nat}

theorem contextAddr_words (lo hi : UInt32) : contextAddr lo hi % 4 = 0 := by
  have low : lo.toNat <<< 12 % 2 ^ 2 = 0 := by
    rw [Nat.shiftLeft_eq]
    omega
  have high : hi.toNat <<< 44 % 2 ^ 2 = 0 := by
    rw [Nat.shiftLeft_eq]
    omega
  rw [contextAddr, Nat.mod_mod_of_dvd _ (by norm_num), show (4 : Nat) = 2 ^ 2 by norm_num,
    Nat.or_mod_two_pow, low, high]
  rfl

theorem vmContextOf_start {partition : Int} {vmid base : Nat}
    (context : vmContextOf asic partition vmid base = some ctx) :
    ctx.pageTableStartAddr % 4 = 0 := by
  rw [vmContextOf, Option.map_eq_some_iff] at context
  obtain ⟨registers, -, rfl⟩ := context
  exact contextAddr_words _ _

theorem umrAccessVram_ai {partition : Int} {vmid address length dst base : Nat} {writeEn : Bool}
    {state : State} (gfx9 : 9 ≤ asic.gfx.maj)
    (context : vmContextOf asic partition vmid base = some ctx) (addressWords : address % 4 = 0)
    (words : length % 4 = 0) (dstAligned : dst % 4 = 0) (canonical : address < 2 ^ 48) :
    umrAccessVram asic partition vmid address length (some dst) writeEn fuel state =
      umrAccessVramAi asic partition vmid address length (some dst) writeEn fuel state.cleared := by
  have unmasked : maskAddress asic.family address = address := by
    unfold maskAddress
    split
    · exact (Nat.and_two_pow_sub_one_eq_mod address 48).trans (Nat.mod_eq_of_lt canonical)
    · rfl
  obtain ⟨notProcess, notLinear⟩ := vmContextOf_hub context
  have buffer : (some dst : Option Nat).getD 0 % 4 = 0 := dstAligned
  rw [umrAccessVram_pagewalk (by omega) notProcess notLinear (by omega), unmasked]

theorem cleared_vmdataBase (state : State) : state.cleared.vmdataBase = state.vmdataBase := by
  unfold State.cleared State.vmdataBase
  rw [Option.map_map]
  rfl

theorem umrAccessVram_does (sound : SoundTables asic ctx mem fuel first size) (passes : 1 ≤ fuel)
    {partition : Int} {vmid : Nat} (writeEn : Bool) (gfx9 : 9 ≤ asic.gfx.maj)
    (vm : vmid &&& 0xFF ≠ 0) (state : State)
    (context : vmContextOf asic partition vmid state.vmdataBase = some ctx)
    (inSpan : ctx.pageTableStartAddr + (first + size) ≤ ctx.pageTableEndAddr + 0x1000)
    (canonical : ctx.pageTableStartAddr + (first + size) ≤ 2 ^ 48) {address length dst : Nat}
    (positive : 0 < length) (small : length < 2 ^ 32) (words : length % 4 = 0)
    (aligned : address % 4 = 0) (dstAligned : dst % 4 = 0) (low : first ≤ address)
    (high : address + length ≤ first + size)
    (intact : Intact asic ctx mem fuel first size state.contents) :
    Does asic ctx mem state length
      (wordMoves asic ctx mem fuel writeEn (length / 4) address dst state.contents)
      (umrAccessVram asic partition vmid (ctx.pageTableStartAddr + address) length (some dst) writeEn
        fuel state) := by
  have start := vmContextOf_start context
  have cleared : vmContextOf asic partition vmid state.cleared.vmdataBase = some ctx := by
    rw [cleared_vmdataBase, context]
  have loop := pageLoop_does sound passes writeEn (by omega) (length + 1) {} address length dst
    (state.cleared.withInputs vmid (ctx.pageTableStartAddr + address)) (by omega) positive small
    words aligned dstAligned low high intact
  rw [umrAccessVram_ai gfx9 context (by omega) words dstAligned (by omega),
    umrAccessVramAi_walks asic partition vmid _ length writeEn fuel state.cleared cleared
      (fun zero => absurd zero vm) (by omega), Nat.add_sub_cancel_left]
  exact ⟨loop.ok_iff, loop.contents, loop.vmdataBase.trans ((withInputs_vmdataBase _ _ _).trans
    (cleared_vmdataBase state)), loop.chunks⟩

def wordAccesses (asic : Asic) (partition : Int) (vmid : Nat) (writeEn : Bool) (fuel : Nat) :
    Nat → Nat → Nat → State → List Status × State
  | 0, _, _, state => ([], state)
  | count + 1, address, dst, state =>
      let word := umrAccessVram asic partition vmid address 4 (some dst) writeEn fuel state
      let rest := wordAccesses asic partition vmid writeEn fuel count (address + 4) (dst + 4) word.2
      (word.1 :: rest.1, rest.2)

theorem wordAccesses_spec (sound : SoundTables asic ctx mem fuel first size) (passes : 1 ≤ fuel)
    {partition : Int} {vmid : Nat} (writeEn : Bool) (gfx9 : 9 ≤ asic.gfx.maj)
    (vm : vmid &&& 0xFF ≠ 0)
    (inSpan : ctx.pageTableStartAddr + (first + size) ≤ ctx.pageTableEndAddr + 0x1000)
    (canonical : ctx.pageTableStartAddr + (first + size) ≤ 2 ^ 48) (count : Nat)
    (address dst : Nat) (state : State)
    (context : vmContextOf asic partition vmid state.vmdataBase = some ctx)
    (aligned : address % 4 = 0) (dstAligned : dst % 4 = 0) (low : first ≤ address)
    (high : address + 4 * count ≤ first + size)
    (intact : Intact asic ctx mem fuel first size state.contents) :
    ((∀ status ∈ (wordAccesses asic partition vmid writeEn fuel count
        (ctx.pageTableStartAddr + address) dst state).1, status = .ok) ↔
      (wordMoves asic ctx mem fuel writeEn count address dst state.contents).isSome = true) ∧
    ∀ moved, wordMoves asic ctx mem fuel writeEn count address dst state.contents = some moved →
      (wordAccesses asic partition vmid writeEn fuel count
        (ctx.pageTableStartAddr + address) dst state).2.contents = moved := by
  induction count generalizing address dst state with
  | zero => simp [wordAccesses, wordMoves]
  | succ count ih =>
      have word : Does asic ctx mem state 4
          (wordMoves asic ctx mem fuel writeEn (4 / 4) address dst state.contents)
          (umrAccessVram asic partition vmid (ctx.pageTableStartAddr + address) 4 (some dst) writeEn
            fuel state) :=
        umrAccessVram_does sound passes writeEn gfx9 vm state context inSpan canonical (by norm_num)
          (by norm_num) (by norm_num) aligned dstAligned low (by omega) intact
      have one : wordMoves asic ctx mem fuel writeEn (4 / 4) address dst state.contents =
          wordMove asic ctx mem fuel writeEn address dst state.contents := by
        simp [wordMoves]
      rw [one] at word
      rw [wordAccesses, wordMoves]
      generalize umrAccessVram asic partition vmid (ctx.pageTableStartAddr + address) 4 (some dst)
        writeEn fuel state = result at word ⊢
      cases moves : wordMove asic ctx mem fuel writeEn address dst state.contents with
      | none =>
          rw [moves] at word
          have failed : result.1 ≠ .ok := by simp [word.ok_iff]
          simp [failed]
      | some next =>
          rw [moves] at word
          have ok : result.1 = .ok := by simp [word.ok_iff]
          have contents := word.contents next rfl
          have later : Intact asic ctx mem fuel first size next :=
            wordMove_intact sound low (by omega) aligned intact moves
          rw [← contents] at later
          have rest := ih (address + 4) (dst + 4) result.2 (by rw [word.vmdataBase, context])
            (by omega) (by omega) (by omega) (by omega) later
          rw [contents] at rest
          simp only [Option.bind_some, List.forall_mem_cons, ok, true_and, Nat.add_assoc]
          exact rest

/-! ## Buffer bytes a call leaves alone -/

theorem moveAccess_buf {access : Access} {dst i : Nat} {writeEn : Bool} {contents moved : Contents}
    (done : moveAccess asic access dst writeEn contents = some moved)
    (outside : ¬ (dst ≤ i ∧ i < dst + access.size)) : moved.2 i = contents.2 i := by
  rw [moveAccess] at done
  cases target : accessTarget asic access with
  | none => simp [target] at done
  | some place =>
      simp only [target, moveHeld, Option.ite_none_right_eq_some, Option.some.injEq] at done
      obtain ⟨-, rfl⟩ := done
      cases writeEn with
      | true => rfl
      | false => exact copyBlock_outside _ _ _ outside

theorem wordMove_buf {writeEn : Bool} {word dst i : Nat} {contents moved : Contents}
    (done : wordMove asic ctx mem fuel writeEn word dst contents = some moved)
    (outside : ¬ (dst ≤ i ∧ i < dst + 4)) : moved.2 i = contents.2 i := by
  rw [wordMove] at done
  cases walk : (walkPage asic ctx mem fuel true {} word).2 with
  | running => simp [walk] at done
  | failed => simp [walk] at done
  | page page =>
      simp only [walk] at done
      cases valid : page.pteFields.valid with
      | false =>
          simp only [valid, Bool.false_eq_true, if_false, Option.some.injEq] at done
          rw [done]
      | true =>
          simp only [valid, if_true] at done
          exact moveAccess_buf done (by simpa using outside)

theorem wordMoves_buf {writeEn : Bool} {count word dst i : Nat} {contents moved : Contents}
    (done : wordMoves asic ctx mem fuel writeEn count word dst contents = some moved)
    (outside : ¬ (dst ≤ i ∧ i < dst + 4 * count)) : moved.2 i = contents.2 i := by
  induction count generalizing word dst contents with
  | zero =>
      simp only [wordMoves, Option.some.injEq] at done
      rw [done]
  | succ count ih =>
      rw [wordMoves, Option.bind_eq_some_iff] at done
      obtain ⟨next, here, rest⟩ := done
      rw [ih rest (by omega), wordMove_buf here (by omega)]

theorem wordMoves_unmapped {writeEn : Bool} {count address dst i : Nat} {contents moved : Contents}
    {page : Page}
    (done : wordMoves asic ctx mem fuel writeEn count address dst contents = some moved)
    (lt : i < count) (walk : (walkPage asic ctx mem fuel true {} (address + 4 * i)).2 = .page page)
    (unmapped : page.pteFields.valid = false) :
    ∀ j < 4, moved.2 (dst + 4 * i + j) = contents.2 (dst + 4 * i + j) := by
  intro j small
  obtain ⟨rest, rfl⟩ := Nat.exists_eq_add_of_lt lt
  rw [show i + rest + 1 = i + (1 + rest) by omega, wordMoves_add, Option.bind_eq_some_iff] at done
  obtain ⟨before, earlier, done⟩ := done
  rw [wordMoves_add, Option.bind_eq_some_iff] at done
  obtain ⟨after, here, later⟩ := done
  have skipped : after = before := by
    simpa [wordMoves, wordMove, walk, unmapped] using here.symm
  rw [wordMoves_buf later (by omega), skipped, wordMoves_buf earlier (by omega)]

end Call

/-- Over sound tables a bulk access returns 0 exactly if all word accesses of its range, done
in order, return 0; it then leaves the same memories and the same buffer, with the bytes of
words on unmapped (PRT) pages untouched.  Its chunks are positive, lie in one leaf page each,
and add up to its length. -/
theorem umrAccessVram_bulk_eq_words (asic : Asic) (partition : Int) (vmid va length dst : Nat)
    (writeEn : Bool) (fuel : Nat) (state : State) (ctx : VmContext)
    (gfx9 : 9 ≤ asic.gfx.maj) (vm : vmid &&& 0xFF ≠ 0)
    (context : vmContextOf asic partition vmid state.vmdataBase = some ctx)
    (vaAligned : va % 4 = 0) (positive : 0 < length) (words : length % 4 = 0)
    (small : length < 2 ^ 32) (dstAligned : dst % 4 = 0) (low : ctx.pageTableStartAddr ≤ va)
    (inSpan : va + length ≤ ctx.pageTableEndAddr + 0x1000) (canonical : va + length ≤ 2 ^ 48)
    (passes : 1 ≤ fuel)
    (sound : SoundTables asic ctx state.mem fuel (va - ctx.pageTableStartAddr) length) :
    let bulk := umrAccessVram asic partition vmid va length (some dst) writeEn fuel state
    let each := wordAccesses asic partition vmid writeEn fuel (length / 4) va dst state
    (bulk.1 = .ok ↔ ∀ status ∈ each.1, status = .ok) ∧
      (bulk.1 = .ok → bulk.2.mem = each.2.mem ∧ bulk.2.buf = each.2.buf) ∧
      (bulk.1 = .ok → ∀ i < length / 4, ∀ page,
        (walkPage asic ctx state.mem fuel true {} (va - ctx.pageTableStartAddr + 4 * i)).2 =
          .page page → page.pteFields.valid = false →
        ∀ j < 4, bulk.2.buf (dst + 4 * i + j) = state.buf (dst + 4 * i + j)) ∧
      ∃ taken, bulk.2.chunks = state.chunks ++ taken ∧
        (∀ chunk ∈ taken, 0 < chunk.2 ∧ InOnePage asic ctx state.mem chunk) ∧
        (bulk.1 = .ok → (taken.map Prod.snd).sum = length) := by
  have start := vmContextOf_start context
  obtain ⟨offset, rfl⟩ := Nat.exists_eq_add_of_le low
  rw [Nat.add_sub_cancel_left] at sound
  rw [Nat.add_sub_cancel_left]
  have intact : Intact asic ctx state.mem fuel offset length state.contents :=
    fun address lo hi read member => rfl
  have bulk := umrAccessVram_does sound passes writeEn gfx9 vm state context (by omega) (by omega)
    positive small words (show offset % 4 = 0 by omega) dstAligned (le_refl offset) (le_refl _) intact
  obtain ⟨each, same⟩ := wordAccesses_spec sound passes writeEn gfx9 vm (by omega) (by omega)
    (length / 4) offset dst state context (by omega) dstAligned (le_refl offset) (by omega) intact
  refine ⟨bulk.ok_iff.trans each.symm, ?_, ?_, bulk.chunks⟩
  · intro ok
    obtain ⟨moved, moves⟩ := Option.isSome_iff_exists.mp (bulk.ok_iff.mp ok)
    have equal := (bulk.contents moved moves).trans (same moved moves).symm
    exact ⟨congrArg Prod.fst equal, congrArg Prod.snd equal⟩
  · intro ok i lt page walk unmapped j small
    obtain ⟨moved, moves⟩ := Option.isSome_iff_exists.mp (bulk.ok_iff.mp ok)
    have buf := congrArg Prod.snd (bulk.contents moved moves)
    rw [show (umrAccessVram asic partition vmid (ctx.pageTableStartAddr + offset) length (some dst)
      writeEn fuel state).2.buf = moved.2 from buf]
    exact wordMoves_unmapped moves lt walk unmapped j small

/-! ## Plain parts -/

/-- Outside XGMI hives and ZFB mode every aligned page is contiguous. -/
theorem contiguous_of_plain {asic : Asic} {ctx : VmContext} {page : LeafPage}
    (noXgmi : asic.useXgmi = false) (noZfb : ctx.zfb = false) (words : 2 ≤ page.pageShift)
    (word : page.pageShift < 64)
    (aligned : asic.gpuBusToCpuAddress page.fields.pageBaseAddr % 2 ^ page.pageShift = 0) :
    Contiguous asic ctx page := by
  have four : (4 : Nat) ∣ 2 ^ page.pageShift := pow_dvd_pow 2 words
  have base : asic.gpuBusToCpuAddress page.fields.pageBaseAddr % 2 ^ 64 % 4 = 0 := by
    rw [Nat.mod_mod_of_dvd _ (by norm_num)]
    exact Nat.mod_eq_zero_of_dvd (dvd_trans four (Nat.dvd_of_mod_eq_zero aligned))
  refine ⟨if page.fields.system then .sysram else .vram asic.gpu,
    asic.gpuBusToCpuAddress page.fields.pageBaseAddr % 2 ^ 64, ?_⟩
  intro offset inside offsetWords
  rw [add64_aligned (by omega) aligned inside, route]
  generalize asic.gpuBusToCpuAddress page.fields.pageBaseAddr % 2 ^ 64 = start at base ⊢
  have total : (start + offset) % 4 = 0 := by omega
  cases page.fields.system with
  | true => rfl
  | false => simp [noZfb, accessTarget, linearTarget, noXgmi, total]

/-- A directory loop that ends at a page table fixes the entry the walk ends at. -/
theorem PageAt.of_table {asic : Asic} {ctx : VmContext} {mem : Memory} {address totalVmBits : Nat}
    {above : List WalkRead} {bottom : WalkState} (leveled : 1 ≤ ctx.pageTableDepth)
    (loop : pdeLoop asic ctx mem totalVmBits address ctx.pageTableDepth (walkStart asic ctx {}) =
      (above, .table bottom)) {page : LeafPage} {reads : List WalkRead}
    (here : PageAt asic ctx mem address page reads) :
    ∃ entry, (ptbRead asic ctx mem address bottom.pdeFields).entry = some entry ∧
      page.fields = rebasePte ctx (decodePteEntry asic.gfx entry) ∧
      page.chunkShift = 12 + bottom.pdeFields.fragSize ∧
      page.pageShift = 12 + bottom.pdeFields.fragSize := by
  cases here with
  | flat depth valid read => omega
  | leveled depth terminal last =>
      cases terminal with
      | pte path read =>
          rw [pdeLoop_table asic ctx leveled path, Prod.mk.injEq, DirEnd.table.injEq] at loop
          obtain ⟨-, rfl⟩ := loop
          rw [stateAt_pdeFields]
          exact ⟨_, read, rfl, rfl, rfl⟩
      | pde path read leaf => simp [pdeLoop_leaf asic ctx leveled path read leaf] at loop

theorem TerminalEntry.of_table {asic : Asic} {ctx : VmContext} {mem : Memory}
    {address totalVmBits : Nat} {above : List WalkRead} {bottom : WalkState}
    (leveled : 1 ≤ ctx.pageTableDepth)
    (loop : pdeLoop asic ctx mem totalVmBits address ctx.pageTableDepth (walkStart asic ctx {}) =
      (above, .table bottom)) {level fragSize entry : Nat} {reads : List WalkRead}
    (terminal : TerminalEntry asic ctx mem address level fragSize entry reads) :
    (ptbRead asic ctx mem address bottom.pdeFields).entry = some entry := by
  cases terminal with
  | pte path read =>
      rw [pdeLoop_table asic ctx leveled path, Prod.mk.injEq, DirEnd.table.injEq] at loop
      obtain ⟨-, rfl⟩ := loop
      rwa [stateAt_pdeFields]
  | pde path read leaf => simp [pdeLoop_leaf asic ctx leveled path read leaf] at loop

/-! Two 4 KiB pages next to each other in the table but not in memory: the last word of the
one and the first word of the other. -/

def sampleState (entries : List (Nat × Nat)) : State :=
  ⟨sampleMemory entries, fun _ => 0, none, [], []⟩

def pairAsic : Asic := sampleAsic 1 0 0x3FFFF

def pairContext : VmContext := readVmContext pairAsic .gfx 0 .plain .plain 1 0

def pairState : State := sampleState [(0x1000, 0x2001), (0x2000, 0x10001), (0x2008, 0x20001)]

def pairTable : WalkState :=
  stateAt pairAsic pairContext {} 0 (decodePdeEntry pairAsic.gfx 0x2001)

section Pair
variable {address : Nat} (low : 0xFFC ≤ address) (high : address < 0xFFC + 8)
include low high

theorem pair_loop :
    (pdeLoop pairAsic pairContext pairState.mem 30 address pairContext.pageTableDepth
      (walkStart pairAsic pairContext {})).2 = .table pairTable := by
  interval_cases address <;> decide +kernel

theorem pair_entry :
    (ptbRead pairAsic pairContext pairState.mem address pairTable.pdeFields).entry =
      some (if address < 0x1000 then 0x10001 else 0x20001) := by
  interval_cases address <;> decide +kernel

theorem pair_reads :
    (∀ read ∈ (walkPage pairAsic pairContext pairState.mem 1 true {} address).1,
      ((accessTarget pairAsic read.access).map fun target => target.2 + read.access.size).getD 0 ≤
        0x3000) ∧
    0x3000 ≤
      match (walkPage pairAsic pairContext pairState.mem 1 true {} address).2 with
      | .page page => ((accessTarget pairAsic
          (route pairContext page.pteFields.system page.startAddr 4)).map Prod.snd).getD 0x3000
      | .failed => 0x3000
      | .running => 0x3000 := by
  interval_cases address <;> decide +kernel

end Pair

theorem pair_sound : SoundTables pairAsic pairContext pairState.mem 1 0xFFC 8 where
  shifts := by decide +kernel
  noFurther := by
    intro address low high leveled level fragSize entry reads terminal
    have found := terminal.of_table leveled (Prod.ext rfl (pair_loop low high))
    rw [pair_entry low high, Option.some.injEq] at found
    subst found
    split <;> decide +kernel
  fits := by
    intro address low high page reads here
    obtain ⟨entry, -, -, chunk, -⟩ :=
      here.of_table (by decide +kernel) (Prod.ext rfl (pair_loop low high))
    rw [chunk]
    decide +kernel
  aligned := by
    intro address low high page reads here
    obtain ⟨entry, found, fields, -, size⟩ :=
      here.of_table (by decide +kernel) (Prod.ext rfl (pair_loop low high))
    rw [pair_entry low high, Option.some.injEq] at found
    rw [fields, size, ← found]
    split <;> decide +kernel
  contiguous := by
    intro address low high page reads here valid
    obtain ⟨entry, found, fields, -, size⟩ :=
      here.of_table (by decide +kernel) (Prod.ext rfl (pair_loop low high))
    have twelve : page.pageShift = 12 := size.trans (by decide +kernel)
    apply contiguous_of_plain rfl (by decide +kernel) (by omega) (by omega)
    rw [pair_entry low high, Option.some.injEq] at found
    rw [fields, twelve, ← found]
    split <;> decide +kernel
  disjoint := by
    intro address low high word wordLow wordHigh aligned read member page walk valid store entryAt
      dataAt entry data
    have entries := (pair_reads low high).1 read member
    have above := (pair_reads wordLow wordHigh).2
    simp only [walk, data, Option.map_some, Option.getD_some] at above
    simp only [entry, Option.map_some, Option.getD_some] at entries
    omega

theorem pair_bulk_eq_words :
    let bulk := umrAccessVram pairAsic 0 1 0xFFC 8 (some 0) false 1 pairState
    let each := wordAccesses pairAsic 0 1 false 1 2 0xFFC 0 pairState
    bulk.1 = .ok ∧ each.1 = [.ok, .ok] ∧ bulk.2.mem = each.2.mem ∧ bulk.2.buf = each.2.buf :=
  ⟨by decide +kernel, by decide +kernel,
    (umrAccessVram_bulk_eq_words pairAsic 0 1 0xFFC 8 0 false 1 pairState pairContext
      (by decide +kernel) (by decide +kernel) (by decide +kernel) (by decide +kernel)
      (by decide +kernel) (by decide +kernel) (by decide +kernel) (by decide +kernel)
      (by decide +kernel) (by decide +kernel) (by decide +kernel) (le_refl 1) pair_sound).2.1
      (by decide +kernel)⟩

/-! ## Where bulk and word accesses part -/

def bulkAndWords (asic : Asic) (state : State) (va : Nat) : Status × List Status :=
  ((umrAccessVram asic 0 1 va 8 (some 0) false 1 state).1,
    (wordAccesses asic 0 1 false 1 2 va 0 state).1)

/-- A directory entry with the P bit for the page at `base`, with fragments of size `fs`. -/
def leafPde (base fs : Nat) : Nat := base + 1 + 2 ^ 54 + fs * 2 ^ 59

def hiveAsic : Asic :=
  { sampleAsic 1 4 0x3FFFF with
    present := fun _ address => decide (address < 3 * 2 ^ 24)
    useXgmi := true
    xgmiLfbSize := some 3
    xgmiNodes := [⟨0, 3 * 2 ^ 24⟩, ⟨1, 3 * 2 ^ 24⟩] }

/-- ZFB mode with an AGP window from 16 MiB on. -/
def windowAsic : Asic :=
  { sampleAsic 1 4 0x3FFFF with
    readReg := fun _ _ _ reg =>
      match reg with
      | .contextBaseLo32 _ => 0x1001
      | .contextEndLo32 _ => 0x3FFFF
      | .fbLocationBase => 2
      | .agpBot => 1
      | .agpTop => 1
      | _ => 0
    present := fun _ address => decide (address < 2 ^ 24) }

/-- A part whose bus addresses are moved by 4 KiB. -/
def iovaAsic : Asic :=
  { sampleAsic 1 0 0x3FFFF with
    gpuBusToCpuAddress := fun bus => bus + 0x1000
    present := fun _ address => decide (address < 0x401000 ∨ 0x800000 ≤ address) }

def wideAsic : Asic :=
  { sampleAsic 1 0 0x3FFFF with
    readReg := fun _ _ _ reg =>
      match reg with
      | .contextBaseLo32 _ => 0x1001
      | .contextStartLo32 _ => 1
      | .contextEndHi32 _ => 0x11
      | _ => 0 }

/-- Two words on one aligned 32 MiB page that two XGMI nodes share, or that an edge of the
AGP window divides; the last word of a 2 MiB page that starts at an odd bus page and the first
word of the next one; and the words around `2 ^ 48`. -/
theorem bulk_differs_from_words :
    bulkAndWords hiveAsic (sampleState [(0x1000, leafPde 0x2000000 13)]) 0xFFFFFC =
        (.failed, [.ok, .ok]) ∧
      bulkAndWords windowAsic (sampleState [(0x1000, leafPde 0 13)]) 0xFFFFFC =
        (.failed, [.ok, .ok]) ∧
      bulkAndWords iovaAsic
        (sampleState [(0x1000, leafPde 0x200000 9), (0x1008, leafPde 0x800000 9)]) 0x1FFFFC =
          (.failed, [.ok, .ok]) ∧
      bulkAndWords wideAsic
        (sampleState [(0x40000FF8, 0x2001), (0x2FF0, 0x10001), (0x2FF8, 0x20001)]) (2 ^ 48 - 4) =
          (.ok, [.ok, .failed]) := by
  decide +kernel

end Umr.Vm
