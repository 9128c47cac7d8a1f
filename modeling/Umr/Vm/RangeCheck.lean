import Umr.Vm.Leaf

/-!
# Which ranges a call may touch

`umr_access_vram_ai` applies the system access mode and the check against the span of the
root page table to the first address of a range only; the page loop then advances without
looking at either again.  A call is range safe if every byte of it goes where the mode sends
that byte's own address, and no walk leaves the span.
-/

set_option autoImplicit false

namespace Umr.Vm

open Umr.Lib

section Rules
variable (ctx : VmContext) (vmid address : Nat)

def systemRoute : Option Nat := if vmid &&& 0xFF = 0 then systemAccess ctx address else none

def OutOfSpan : Prop :=
  address < ctx.pageTableStartAddr ∨ ctx.pageTableEndAddr + 0xFFF < address

instance : Decidable (OutOfSpan ctx address) := inferInstanceAs (Decidable (_ ∨ _))

inductive RangeRoute where
  | linear (base : Nat)
  | walked
  | refused
  deriving DecidableEq, Repr

/-- What a call decides about its whole range from the first address. -/
def rangeRoute : RangeRoute :=
  match systemRoute ctx vmid address with
  | some base => .linear base
  | none => if OutOfSpan ctx address then .refused else .walked

/-- Byte `i` of the range goes where the mode sends its own address. -/
def ByteRouted (i : Nat) : Prop :=
  match rangeRoute ctx vmid address with
  | .linear base => systemRoute ctx vmid (address + i) = some (base + i)
  | .walked => systemRoute ctx vmid (address + i) = none
  | .refused => True

end Rules

theorem accessInContext_route (asic : Asic) (ctx : VmContext) (vmid address size : Nat)
    (dst : Option Nat) (writeEn : Bool) (fuel : Nat) (state : State) :
    accessInContext asic ctx vmid address size dst writeEn fuel state =
      match rangeRoute ctx vmid address with
      | .linear base => accessLinear asic base size dst writeEn state
      | .walked =>
          pageLoop asic ctx fuel writeEn (size + 1) {} (address - ctx.pageTableStartAddr) size dst
            state
      | .refused => (.failed, state) := by
  unfold accessInContext rangeRoute systemRoute
  cases (if vmid &&& 0xFF = 0 then systemAccess ctx address else none) with
  | some base => rfl
  | none =>
      by_cases out : OutOfSpan ctx address
      · simp only [if_pos out]
        exact if_pos out
      · simp only [if_neg out]
        exact if_neg out

/-- The calls for one VMID and range, on every memory and with or without a buffer: a byte
outside of the span that is not physical makes the call fail, and every byte goes where the mode
sends it. -/
structure RangeSafe (asic : Asic) (partition : Int) (vmid base address size : Nat)
    (ctx : VmContext) : Prop where
  fails : ∀ (present : Store → Nat → Bool) (dst : Option Nat) (writeEn : Bool) (fuel : Nat)
    (state : State), state.vmdataBase = base →
      (∃ i < size, OutOfSpan ctx (address + i) ∧ systemRoute ctx vmid (address + i) = none) →
        (umrAccessVramAi { asic with present := present } partition vmid address size dst writeEn
          fuel state).1 = .failed
  routed : ∀ i < size, ByteRouted ctx vmid address i

/-! ## Walks over blank memory -/

section Blank
variable (asic : Asic) (ctx : VmContext)

def blank : Memory := fun _ _ => 0

def everywhere (asic : Asic) : Asic := { asic with present := fun _ _ => true }

theorem littleEndian_zero (count : Nat) : littleEndian (fun _ => 0) count = 0 := by
  induction count with
  | zero => rfl
  | succ count ih => rw [littleEndian, ih]; rfl

theorem readEntry_blank {access : Access}
    (words : access.space = .vram → access.address % 4 = 0 ∧ access.size % 4 = 0) :
    readEntry (everywhere asic) blank access = some 0 := by
  have reached : ∃ place, accessTarget (everywhere asic) access = some place := by
    cases access with
    | mk space address size =>
        cases space with
        | sram => exact ⟨_, rfl⟩
        | vram =>
            obtain ⟨addressWords, sizeWords⟩ := words rfl
            refine ⟨_, if_neg ?_⟩
            rintro (odd | odd)
            · exact odd addressWords
            · exact odd sizeWords
  obtain ⟨⟨store, place⟩, target⟩ := reached
  have held : holdsRange ((everywhere asic).present store) place access.size = true :=
    (holdsRange_iff _ _ _).mpr fun _ _ => rfl
  simp only [readEntry, target, held, if_true]
  exact congrArg some (littleEndian_zero access.size)

theorem pteBaseAddr_words (gfx : GfxVersion) (entry : Nat) :
    (decodePdeEntry gfx entry).pteBaseAddr % 4 = 0 := by
  have masked : (entry &&& pdeBaseMask) % 2 ^ 2 = 0 := by
    rw [Nat.and_mod_two_pow, show pdeBaseMask % 2 ^ 2 = 0 by decide, Nat.and_zero]
  unfold decodePdeEntry
  split
  · exact masked
  · exact masked
  · exact masked
  · exact masked
  · rfl

theorem route_words {system : Bool} {address : Nat} (aligned : address % 4 = 0)
    (vram : (route ctx system address 8).space = .vram) :
    (route ctx system address 8).address % 4 = 0 ∧ (route ctx system address 8).size % 4 = 0 := by
  unfold route at *
  split at vram
  · cases vram
  · rename_i notSystem
    rw [if_neg notSystem]
    split at vram
    · cases vram
    · rename_i noWindow
      rw [if_neg noWindow]
      exact ⟨aligned, by norm_num⟩

theorem add64_words {a b : Nat} (left : a % 4 = 0) : add64 a (b * 8) % 4 = 0 := by
  unfold add64
  omega

theorem decodePdeEntry_zero (gfx : GfxVersion) :
    (decodePdeEntry gfx 0).pte = false ∧ (decodePdeEntry gfx 0).valid = false := by
  unfold decodePdeEntry
  split <;> simp

theorem decodePteEntry_zero (gfx : GfxVersion) : (decodePteEntry gfx 0).valid = false := by
  unfold decodePteEntry
  split <;> simp

/-- A walk over blank tables finds an unmapped page, while no buffer is given. -/
theorem walkPage_blank (fuel : Nat) (carry : Carry) (address : Nat)
    (table : ctx.pageTableDepth = 0 →
      (decodePdeEntry asic.gfx (rootEntry asic ctx)).valid = true) :
    (walkPage (everywhere asic) ctx blank fuel false carry address).2 = .running ∨
      ∃ page, (walkPage (everywhere asic) ctx blank fuel false carry address).2 = .page page ∧
        page.pteFields.valid = false := by
  unfold walkPage
  by_cases leveled : 1 ≤ ctx.pageTableDepth
  · rw [if_pos leveled]
    cases log2VmSize ctx.pageTableStartAddr ctx.pageTableEndAddr with
    | none => exact Or.inl rfl
    | some totalVmBits =>
        obtain ⟨depth, top⟩ := Nat.exists_eq_add_of_le' leveled
        have first : (readTable (everywhere asic) ctx blank
            (walkStart (everywhere asic) ctx carry).pdeFields (depth + 1)
            (pdeIdx ctx totalVmBits (depth + 1) address)).entry = some 0 :=
          readEntry_blank asic (route_words ctx (add64_words (pteBaseAddr_words _ _)))
        have zero := decodePdeEntry_zero asic.gfx
        have gfx : (everywhere asic).gfx = asic.gfx := rfl
        right
        rw [top]
        simp only [pdeLoop, first, gfx, zero.1, zero.2, Bool.false_eq_true, if_false, walkTables]
        exact ⟨_, rfl, rfl⟩
  · rw [if_neg leveled, walkFlat_eq]
    have valid := table (by omega)
    have entry : (flatRead (everywhere asic) ctx blank address).entry = some 0 := by
      refine readEntry_blank asic fun _ => ?_
      exact ⟨add64_words (pteBaseAddr_words _ _), by norm_num [flatRead]⟩
    have root : (decodePdeEntry (everywhere asic).gfx (rootEntry (everywhere asic) ctx)).valid =
        true := valid
    rw [if_neg (by simp [root])]
    simp only [entry, Bool.false_eq_true, false_and, if_false]
    exact Or.inr ⟨_, rfl, decodePteEntry_zero _⟩

theorem pageLoop_blank {fuel : Nat} {writeEn : Bool}
    (table : ctx.pageTableDepth = 0 →
      (decodePdeEntry asic.gfx (rootEntry asic ctx)).valid = true)
    (pages : Nat) (carry : Carry) (address size : Nat) (state : State) (mem : state.mem = blank) :
    (pageLoop (everywhere asic) ctx fuel writeEn pages carry address size none state).1 ≠
      .failed := by
  induction pages generalizing carry address size state with
  | zero => exact fun same => (by cases same)
  | succ pages ih =>
      unfold pageLoop
      have walk := walkPage_blank asic ctx fuel carry address table
      rw [← mem] at walk
      rcases walk with running | ⟨page, found, invalid⟩
      · simp only [Option.isSome_none, running]
        exact fun same => (by cases same)
      · simp only [Option.isSome_none, found, accessChunk, invalid, Bool.false_eq_true, if_false,
          if_true]
        split
        · exact fun same => (by cases same)
        · exact ih _ _ _ _ mem

end Blank

/-! ## Ranges that stay in one region -/

/-- Every walk of such a context fails: the base register names no table. -/
def NoTable (asic : Asic) (ctx : VmContext) : Prop :=
  ctx.pageTableDepth = 0 ∧ (decodePdeEntry asic.gfx (rootEntry asic ctx)).valid = false

/-- The mode treats the whole range as it treats the first address, and a walk that starts in
the span of the root page table also ends in it. -/
def StaysInRegion (asic : Asic) (ctx : VmContext) (vmid address size : Nat) : Prop :=
  match systemRoute ctx vmid address with
  | some base => ∀ i < size, systemRoute ctx vmid (address + i) = some (base + i)
  | none => OutOfSpan ctx address ∨
      (∀ i < size, systemRoute ctx vmid (address + i) = none) ∧
        (address + size ≤ ctx.pageTableEndAddr + 0x1000 ∨ NoTable asic ctx)

theorem pageLoop_noTable {asic : Asic} {ctx : VmContext} (noTable : NoTable asic ctx)
    (fuel : Nat) (writeEn : Bool) (pages : Nat) (carry : Carry) (address size : Nat)
    (dst : Option Nat) (state : State) :
    (pageLoop asic ctx fuel writeEn (pages + 1) carry address size dst state).1 = .failed := by
  have flat : ¬ 1 ≤ ctx.pageTableDepth := by
    rw [noTable.1]
    norm_num
  have walk : walkPage asic ctx state.mem fuel dst.isSome carry address = ([], .failed) := by
    rw [walkPage, if_neg flat, walkFlat_eq, if_pos (by simp [noTable.2])]
  simp only [pageLoop, walk]

section Call
variable {asic : Asic} {partition : Int} {vmid base address size : Nat} {ctx : VmContext}

theorem umrAccessVramAi_route (context : vmContextOf asic partition vmid base = some ctx)
    (present : Store → Nat → Bool) (dst : Option Nat) (writeEn : Bool) (fuel : Nat)
    {state : State} (same : state.vmdataBase = base) :
    umrAccessVramAi { asic with present := present } partition vmid address size dst writeEn fuel
        state =
      accessInContext { asic with present := present } ctx vmid address size dst writeEn fuel
        (state.withInputs vmid address) := by
  have here : vmContextOf { asic with present := present } partition vmid
      (state.withInputs vmid address).vmdataBase = some ctx := by
    rw [withInputs_vmdataBase, same]
    exact context
  simp only [umrAccessVramAi, here]

/-- A walk that starts in the span and runs past its end goes on, on blank memory. -/
theorem RangeSafe.ends_in_span (context : vmContextOf asic partition vmid base = some ctx)
    (safe : RangeSafe asic partition vmid base address size ctx)
    (inside : ¬ OutOfSpan ctx address)
    (walked : ∀ i < size, systemRoute ctx vmid (address + i) = none) :
    address + size ≤ ctx.pageTableEndAddr + 0x1000 ∨ NoTable asic ctx := by
  by_contra escapes
  rw [not_or] at escapes
  obtain ⟨beyond, table⟩ := escapes
  have nonempty : 0 < size := by
    unfold OutOfSpan at inside
    omega
  have lastByte : OutOfSpan ctx (address + (size - 1)) := Or.inr (by omega)
  let state : State :=
    ⟨blank, fun _ => 0, some { pageTableBaseAddr := base }, [], []⟩
  have same : state.vmdataBase = base := rfl
  have failed := safe.fails (fun _ _ => true) none false 0 state same
    ⟨size - 1, by omega, lastByte, walked _ (by omega)⟩
  have route : rangeRoute ctx vmid address = .walked := by
    have first : systemRoute ctx vmid address = none := walked 0 nonempty
    simp only [rangeRoute, first, if_neg inside]
  rw [umrAccessVramAi_route context _ _ _ _ same, accessInContext_route, route] at failed
  refine pageLoop_blank asic ctx ?_ _ _ _ _ _ rfl failed
  intro flat
  by_contra invalid
  exact table ⟨flat, by simpa using invalid⟩

/-- A call is range safe exactly if its range stays in one region. -/
theorem rangeSafe_iff (asic : Asic) (partition : Int) (vmid base address size : Nat)
    (ctx : VmContext) (context : vmContextOf asic partition vmid base = some ctx) :
    RangeSafe asic partition vmid base address size ctx ↔
      StaysInRegion asic ctx vmid address size := by
  unfold StaysInRegion
  cases first : systemRoute ctx vmid address with
  | some linear =>
      have route : rangeRoute ctx vmid address = .linear linear := by simp [rangeRoute, first]
      have bytes : ∀ i, ByteRouted ctx vmid address i ↔
          systemRoute ctx vmid (address + i) = some (linear + i) := by
        intro i
        simp only [ByteRouted, route]
      constructor
      · intro safe i lt
        exact (bytes i).mp (safe.routed i lt)
      · intro uniform
        refine ⟨?_, fun i lt => (bytes i).mpr (uniform i lt)⟩
        rintro present dst writeEn fuel state same ⟨i, lt, -, unrouted⟩
        rw [uniform i lt] at unrouted
        cases unrouted
  | none =>
      by_cases out : OutOfSpan ctx address
      · have route : rangeRoute ctx vmid address = .refused := by simp [rangeRoute, first, out]
        refine ⟨fun _ => Or.inl out, fun _ => ⟨?_, fun i lt => by simp [ByteRouted, route]⟩⟩
        intro present dst writeEn fuel state same _
        rw [umrAccessVramAi_route context _ _ _ _ same, accessInContext_route, route]
      · have route : rangeRoute ctx vmid address = .walked := by simp [rangeRoute, first, out]
        have bytes : ∀ i, ByteRouted ctx vmid address i ↔
            systemRoute ctx vmid (address + i) = none := by
          intro i
          simp only [ByteRouted, route]
        simp only [out, false_or]
        constructor
        · intro safe
          have walked : ∀ i < size, systemRoute ctx vmid (address + i) = none :=
            fun i lt => (bytes i).mp (safe.routed i lt)
          exact ⟨walked, safe.ends_in_span context out walked⟩
        · rintro ⟨walked, contained⟩
          refine ⟨?_, fun i lt => (bytes i).mpr (walked i lt)⟩
          rintro present dst writeEn fuel state same ⟨i, lt, outside, -⟩
          rcases contained with whole | noTable
          · unfold OutOfSpan at out outside
            omega
          · have still : NoTable { asic with present := present } ctx := noTable
            rw [umrAccessVramAi_route context _ _ _ _ same, accessInContext_route, route]
            exact pageLoop_noTable still _ _ _ _ _ _ _ _

end Call

/-! ## A range that runs past the last page -/

def spanAsic : Asic := sampleAsic 1 4 0x3FFFF

def spanContext : VmContext := readVmContext spanAsic .gfx 0 .plain .plain 1 0

theorem span_last_page_safe : RangeSafe spanAsic 0 1 0 (2 ^ 30 - 8) 8 spanContext := by
  refine (rangeSafe_iff spanAsic 0 1 0 (2 ^ 30 - 8) 8 spanContext rfl).mpr ?_
  have virtual : ∀ address, systemRoute spanContext 1 address = none := fun address => rfl
  rw [StaysInRegion, virtual]
  refine Or.inr ⟨fun i _ => virtual _, Or.inl (by decide)⟩

def spanState : State :=
  ⟨sampleMemory [(0x10F8, 1 + 2 ^ 54 + 13 * 2 ^ 59), (0x1100, 1 + 2 ^ 54 + 13 * 2 ^ 59)],
    fun _ => 0, none, [], []⟩

/-- The word behind the last page is translated by what follows the root directory in memory. -/
theorem span_end_crossed :
    (umrAccessVramAi spanAsic 0 1 (2 ^ 30 - 4) 8 (some 0) false 1 spanState).1 = .ok ∧
      ¬ RangeSafe spanAsic 0 1 0 (2 ^ 30 - 4) 8 spanContext := by
  have returned : (umrAccessVramAi spanAsic 0 1 (2 ^ 30 - 4) 8 (some 0) false 1 spanState).1 =
      .ok := by decide +kernel
  refine ⟨returned, ?_⟩
  intro safe
  have failed := safe.fails spanAsic.present (some 0) false 1 spanState rfl
    ⟨4, by norm_num, by decide, rfl⟩
  cases failed.symm.trans returned

end Umr.Vm
