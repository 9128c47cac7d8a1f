import Umr.Harness.Recorder
import Umr.Harness.Replay

/-!
# Recording and replaying

A log is played back through the callbacks of the harness that was parsed from
it.  Register reads get the values that were logged under their address, in
order; memory reads get the first block that covers them.
-/

set_option autoImplicit false

namespace Umr.Harness

open Umr.Lib Umr.Rumr

/-! ## Register reads draw from queues -/

inductive RegKey where
  | mmio (addr : UInt64)
  | sq
  deriving DecidableEq, Repr

section Draw
variable (find : FindReg)

/-- Where a register read gets its value from as long as no index register has
been written. -/
def regSource (addr : UInt64) (type : RegClass) : Source RegKey UInt32 :=
  if type ≠ .mmio then .fixed deadbeef
  else if isReg find addr .sqIndData then .queue .sq
  else if isReg find addr .sqIndIndex then .fixed 0
  else if isReg find addr .mmData ∨ isReg find addr .bifMmData then .fixed 0
  else if isReg find addr .mmIndex ∨ isReg find addr .bifMmIndex then .fixed 0
  else if isReg find addr .mmIndexHi ∨ isReg find addr .bifMmIndexHi then .fixed 0
  else .queue (.mmio addr)

/-- A harness as the parser leaves it, up to the slots already used. -/
structure Fresh (th : TestHarness) : Prop where
  mmIndex : th.vramMmIndex = 0
  sqIndex : th.sqIndIndex = 0
  mmioOk : ∀ block ∈ th.mmio .mmio, block.Ok
  sqOk : ∀ block ∈ th.sq, block.Ok

def regQueues (th : TestHarness) : RegKey → List UInt32
  | .mmio addr => queueOf (th.mmio .mmio) addr
  | .sq => queueOf th.sq 0

/-- A read with its outcome: the value drawn, and a harness that stands for the
queues that are left. -/
structure DrawsFrom (th : TestHarness) (source : Source RegKey UInt32) (value : UInt32)
    (after : TestHarness) : Prop where
  drawn : value = (draw deadbeef (regQueues th) source).1
  queues : regQueues after = (draw deadbeef (regQueues th) source).2
  fresh : Fresh after
  ram : after.ram = th.ram

end Draw

section Read
variable {th : TestHarness}

theorem drawsFrom_fixed (fresh : Fresh th) (value : UInt32) :
    DrawsFrom th (.fixed value) value th := ⟨rfl, rfl, fresh, rfl⟩

theorem drawsFrom_empty (fresh : Fresh th) {key : RegKey} (empty : regQueues th key = []) :
    DrawsFrom th (.queue key) deadbeef th := by
  refine ⟨?_, ?_, fresh, rfl⟩
  · rw [draw, empty]
    rfl
  · rw [draw, empty]
    exact (Function.update_eq_self_iff.mpr empty.symm).symm

theorem readSq_draws (fresh : Fresh th) :
    ∃ value after, (takeSq th.sqIndIndex th.sq >>= fun found => match found with
      | some (v, blocks) => pure (v, { th with sq := blocks })
      | none => pure (deadbeef, th)) = .ok (value, after) ∧
      DrawsFrom th (.queue .sq) value after := by
  have taken := takeSlot_spec tellsLeft_lt (0 : UInt32) th.sq fresh.sqOk
  have index : takeSq th.sqIndIndex th.sq = takeSq 0 th.sq := by rw [fresh.sqIndex]
  rw [index, takeSq]
  cases queue : queueOf th.sq 0 with
  | nil =>
      rw [queue] at taken
      exact ⟨deadbeef, th, by rw [taken]; rfl, drawsFrom_empty fresh queue⟩
  | cons v rest =>
      rw [queue] at taken
      obtain ⟨blocks, run, blocksOk, queues⟩ := taken
      refine ⟨v, { th with sq := blocks }, by rw [run]; rfl, ?_, ?_, ?_, rfl⟩
      · rw [draw]
        change v = ((queueOf th.sq 0).head?).getD deadbeef
        rw [queue]
        rfl
      · funext key
        cases key with
        | mmio addr =>
            have apart : RegKey.mmio addr ≠ .sq := nofun
            rw [draw]
            dsimp only
            rw [Function.update_of_ne apart]
            rfl
        | sq =>
            change queueOf blocks 0 = Function.update (regQueues th) .sq (queueOf th.sq 0).tail .sq
            rw [queues, Function.update_self, Function.update_self, queue]
            rfl
      · exact ⟨fresh.mmIndex, fresh.sqIndex, fresh.mmioOk, blocksOk⟩

theorem readMmio_draws (fresh : Fresh th) (addr : UInt64) :
    ∃ value after, (takeMmio addr (th.mmio .mmio) >>= fun found => match found with
      | some (v, blocks) => pure (v, { th with mmio := Function.update th.mmio .mmio blocks })
      | none => pure (deadbeef, th)) = .ok (value, after) ∧
      DrawsFrom th (.queue (.mmio addr)) value after := by
  have taken := takeSlot_spec tellsLeft_ne addr (th.mmio .mmio) fresh.mmioOk
  rw [takeMmio]
  cases queue : queueOf (th.mmio .mmio) addr with
  | nil =>
      rw [queue] at taken
      exact ⟨deadbeef, th, by rw [taken]; rfl, drawsFrom_empty fresh queue⟩
  | cons v rest =>
      rw [queue] at taken
      obtain ⟨blocks, run, blocksOk, queues⟩ := taken
      refine ⟨v, { th with mmio := Function.update th.mmio .mmio blocks }, by rw [run]; rfl,
        ?_, ?_, ?_, rfl⟩
      · rw [draw]
        change v = ((queueOf (th.mmio .mmio) addr).head?).getD deadbeef
        rw [queue]
        rfl
      · funext key
        cases key with
        | sq =>
            have apart : RegKey.sq ≠ .mmio addr := nofun
            rw [draw]
            dsimp only
            rw [Function.update_of_ne apart]
            rfl
        | mmio other =>
            change queueOf (Function.update th.mmio .mmio blocks .mmio) other =
              Function.update (regQueues th) (.mmio addr) (queueOf (th.mmio .mmio) addr).tail
                (.mmio other)
            rw [Function.update_self, queues, queue]
            by_cases same : other = addr
            · subst same
              rw [Function.update_self, Function.update_self]
              rfl
            · have apart : RegKey.mmio other ≠ .mmio addr := fun equal => same (RegKey.mmio.inj equal)
              rw [Function.update_of_ne same, Function.update_of_ne apart]
              rfl
      · refine ⟨fresh.mmIndex, fresh.sqIndex, ?_, fresh.sqOk⟩
        dsimp only
        rw [Function.update_self]
        exact blocksOk

theorem readReg_draws (find : FindReg) (fresh : Fresh th) (addr : UInt64) (type : RegClass) :
    ∃ value after, readReg find th addr type = .ok (value, after) ∧
      DrawsFrom th (regSource find addr type) value after := by
  unfold readReg regSource
  split
  · exact ⟨deadbeef, th, rfl, drawsFrom_fixed fresh _⟩
  · split
    · exact readSq_draws fresh
    · split
      · exact ⟨th.sqIndIndex, th, rfl, by rw [fresh.sqIndex]; exact drawsFrom_fixed fresh 0⟩
      · split
        · refine ⟨0, th, ?_, drawsFrom_fixed fresh 0⟩
          rw [readMmData, fresh.mmIndex]
          rfl
        · split
          · exact ⟨th.vramMmIndex.toUInt32, th, rfl, by rw [fresh.mmIndex]; exact drawsFrom_fixed fresh 0⟩
          · split
            · exact ⟨(th.vramMmIndex >>> 32).toUInt32, th, rfl,
                by rw [fresh.mmIndex]; exact drawsFrom_fixed fresh 0⟩
            · exact readMmio_draws fresh addr

end Read

/-! ## The harness of a log -/

section Parsed
variable {lines : List LogLine}

theorem toNat_ofNat_of_lt {n : Nat} (small : n < 2 ^ 32) : (UInt32.ofNat n).toNat = n := by
  rw [UInt32.toNat_ofNat', Nat.mod_eq_of_lt small]

theorem mmioBlock_ok {kind : WordKind} {line : LogLine} {block : MmioBlock}
    (short : line.count < 2 ^ 32) (found : mmioBlock kind line = some block) : block.Ok := by
  cases line with
  | bytes other address contents => cases found
  | sq index value name => cases found
  | words other address values name =>
      rw [mmioBlock] at found
      split at found
      · cases found
        exact ⟨toNat_ofNat_of_lt short, Nat.zero_le _⟩
      · cases found

theorem sqBlock_ok {line : LogLine} {block : SqBlock} (found : sqBlock line = some block) :
    block.Ok := by
  cases line with
  | bytes other address contents => cases found
  | words other address values name => cases found
  | sq index value name =>
      cases found
      exact ⟨rfl, Nat.zero_le _⟩

theorem fresh_harnessOf (short : ∀ line ∈ lines, line.count < 2 ^ 32) :
    Fresh (harnessOf lines) := by
  have indices := foldl_add_indices lines TestHarness.empty
  refine ⟨indices.1, indices.2, ?_, ?_⟩
  · rw [harnessOf_mmio]
    intro block member
    obtain ⟨line, inside, found⟩ := List.mem_filterMap.mp member
    exact mmioBlock_ok (short line inside) found
  · rw [harnessOf_sq]
    intro block member
    obtain ⟨line, _, found⟩ := List.mem_filterMap.mp member
    exact sqBlock_ok found

def LogLine.valuesUnder : RegKey → LogLine → List UInt32
  | .mmio addr, .words .mmio address values _ => if address = addr then values else []
  | .sq, .sq index value _ => if index.toUInt32 = 0 then [value] else []
  | _, _ => []

def loggedAt (lines : List LogLine) (key : RegKey) : List UInt32 :=
  lines.flatMap (LogLine.valuesUnder key)

theorem queueOf_mmioBlocks (lines : List LogLine) (addr : UInt64) :
    queueOf (lines.filterMap (mmioBlock .mmio)) addr = loggedAt lines (.mmio addr) := by
  induction lines with
  | nil => rfl
  | cons line lines ih =>
      rw [loggedAt, List.flatMap_cons, ← loggedAt, ← ih, List.filterMap_cons]
      cases line with
      | bytes other address contents => rfl
      | sq index value name => rfl
      | words other address values name =>
          cases other with
          | mmio => exact queueOf_cons ..
          | vgpr => rfl
          | sgpr => rfl
          | wavestatus => rfl
          | ringdata => rfl

theorem queueOf_sqBlocks (lines : List LogLine) :
    queueOf (lines.filterMap sqBlock) 0 = loggedAt lines .sq := by
  induction lines with
  | nil => rfl
  | cons line lines ih =>
      rw [loggedAt, List.flatMap_cons, ← loggedAt, ← ih, List.filterMap_cons]
      cases line with
      | bytes other address contents => rfl
      | words other address values name => rfl
      | sq index value name => exact queueOf_cons ..

theorem regQueues_harnessOf (lines : List LogLine) :
    regQueues (harnessOf lines) = loggedAt lines := by
  funext key
  cases key with
  | mmio addr =>
      rw [regQueues, harnessOf_mmio]
      exact queueOf_mmioBlocks lines addr
  | sq =>
      rw [regQueues, harnessOf_sq]
      exact queueOf_sqBlocks lines

end Parsed

/-! ## The lines of register reads -/

section RegLines
variable (asic : RegAsic)

structure RegLine (line : LogLine) : Prop where
  parsable : line.Parsable
  one : line.count = 1
  noBlock : ∀ kind, ramBlock kind line = none

theorem low32_lt (addr : UInt64) : (addr &&& (0xFFFFFFFF : UInt64)).toNat < 2 ^ 32 := by
  have masked : (addr &&& (0xFFFFFFFF : UInt64)).toNat ≤ 0xFFFFFFFF := by
    rw [UInt64.toNat_and]
    exact Nat.and_le_right
  omega

theorem one_room : 1 < wordsLimit := by decide

theorem regLine_regLine {mmioAddr : UInt64} (narrow : mmioAddr.toNat < 2 ^ 32) (addr : UInt64)
    (value : UInt32) : RegLine (regLine asic mmioAddr addr value) := by
  have oneLine := asic.oneLine (addr >>> 2)
  unfold regLine
  dsimp only
  split
  · refine ⟨⟨Nat.one_ne_zero, one_room, nofun, ?_, ?_⟩, rfl, fun _ => rfl⟩
    · intro _
      change asic.sqIndIndex.toUInt64.toNat < 2 ^ 32
      rw [UInt32.toNat_toUInt64]
      exact asic.sqIndIndex.toNat_lt
    · rintro name ⟨⟩
      exact oneLine
  · refine ⟨⟨Nat.one_ne_zero, one_room, nofun, ?_, ?_⟩, rfl, fun _ => rfl⟩
    · exact fun _ => narrow
    · rintro name ⟨⟩
      exact oneLine

theorem readMmioReg_lines (addr : UInt64) (hw : HwAnswer) :
    ∀ line ∈ (readMmioReg asic addr hw).2, RegLine line := by
  intro line member
  unfold readMmioReg at member
  split at member
  · cases member
  · rw [List.mem_singleton.mp member]
    exact regLine_regLine asic (low32_lt addr) _ _

theorem regRead_lines (read : RegRead) : ∀ line ∈ read.lines asic, RegLine line := by
  have own : ∀ value, RegLine
      (regLine asic (read.addr &&& (0xFFFFFFFF : UInt64)) (bankedAddr asic read.addr) value) :=
    fun value => regLine_regLine asic (low32_lt read.addr) _ value
  intro line member
  unfold RegRead.lines umrReadReg at member
  cases type : read.type with
  | mmio =>
      rw [type] at member
      exact readMmioReg_lines asic read.addr read.hw line member
  | didt =>
      rw [type] at member
      cases member
  | smc =>
      rw [type] at member
      rcases List.mem_append.mp member with through | last
      · unfold smcRead at through
        split at through
        · cases through
        · exact readMmioReg_lines asic _ read.hw line through
      · rw [List.mem_singleton.mp last]
        exact own _
  | pcie =>
      rw [type] at member
      rw [List.mem_singleton.mp member]
      exact own _
  | smn =>
      rw [type] at member
      rw [List.mem_singleton.mp member]
      exact own _

end RegLines

end Umr.Harness
