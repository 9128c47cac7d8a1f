import Umr.Lib.Markers
import Umr.Lib.Traverse
import Umr.Registers.Accel
import Umr.Registers.Bitslice
import Mathlib.Data.Finset.Max

/-!
# Registers of a trace log

`umr_scan_log` of `scan_log.c`: for an access to a register number that the model
does not have, the number is stepped down until a lookup finds a register.  The
number wraps below zero, and nothing stops the search there.
-/

set_option autoImplicit false

namespace Umr.Registers

open Umr.Lib Umr.Rumr

/-- What the scan reads of `umr_asic`; the table, if there is one, is that of the blocks. -/
structure ScanModel where
  did : UInt32
  blocks : List IpBlock
  mmioAccel : Option (List AccelData)
  bitfields : Bool
  emptyLog : Bool
  isTable : ∀ table ∈ mmioAccel, umrCreateMmioAccel blocks = some table

structure LoggedAccess where
  write : Bool
  did : UInt64
  regno : UInt64
  value : UInt64
  deriving DecidableEq, Repr

structure PrintedField where
  field : Bitfield
  value : Option UInt32
  deriving DecidableEq

/-- The arguments of one `printf`, and the bit-fields that are printed after it; a register is told
by the number of its block and its number in the block. -/
structure PrintedAccess where
  ip : Nat
  reg : Nat
  write : Bool
  delta : UInt64
  value : UInt64
  fields : List PrintedField
  deriving DecidableEq

structure ScanEnd where
  printed : List PrintedAccess
  log : List Char
  deriving DecidableEq

/-! ## The lines -/

def accessPrefix (useNew : Bool) : List Char :=
  if useNew then "amdgpu_device_".toList else "amdgpu_mm_".toList

def rreg (useNew : Bool) : List Char := accessPrefix useNew ++ "rreg: 0x".toList

def wreg (useNew : Bool) : List Char := accessPrefix useNew ++ "wreg: 0x".toList

/-- `sscanf` of the three numbers; fewer of them are as none. -/
def sscanfAccess (write : Bool) (format chr : List Char) : Option LoggedAccess := do
  let rest ← scanLiteral format chr
  let (did, rest) ← scanHex 8 rest
  let rest ← scanLiteral ", 0x".toList rest
  let (regno, rest) ← scanHex 8 rest
  let rest ← scanLiteral ", 0x".toList rest
  let (value, _) ← scanHex 8 rest
  pure ⟨write, did, regno, value⟩

def lineAccess (useNew : Bool) (line : List Char) : Option LoggedAccess := do
  let chr ← strstr (accessPrefix useNew) line
  (sscanfAccess false (rreg useNew) chr).or (sscanfAccess true (wreg useNew) chr)

/-! ## The search -/

/-- `umr_find_reg_by_addr`, as far as `fuel` turns of its loop go. -/
def findRegByAddr (asic : ScanModel) (addr : UInt64) (fuel : Nat) : Option (Option (Nat × Nat)) :=
  match asic.mmioAccel with
  | some table => umrFindRegByAddr table addr fuel
  | none => some (findRegByAddrScan asic.blocks addr)

/-- The register that ends the `do` loop, and `delta` there. -/
def searchDown (asic : ScanModel) (turns : Nat) :
    Nat → UInt64 → UInt64 → Option ((Nat × Nat) × UInt64)
  | 0, _, _ => none
  | fuel + 1, regno, delta =>
      match findRegByAddr asic regno turns with
      | none => none
      | some none => searchDown asic turns fuel (regno - 1) (delta + 1)
      | some (some place) => some (place, delta)

/-- The mask is of `unsigned long` and is cut to the `uint32_t` of the value. -/
def loggedField (value : UInt64) (field : Bitfield) : PrintedField where
  field := field
  value :=
    if field.start.toNat < 64 then
      (fieldMask field).map fun mask => mask.toUInt32 &&& (value >>> field.start.toUInt64).toUInt32
    else none

def regAt (blocks : List IpBlock) (place : Nat × Nat) : Option Reg :=
  blocks[place.1]?.bind fun block => block.regs[place.2]?

def printAccess (asic : ScanModel) (access : LoggedAccess) (found : (Nat × Nat) × UInt64) :
    PrintedAccess where
  ip := found.1.1
  reg := found.1.2
  write := access.write
  delta := found.2
  value := access.value
  fields :=
    if asic.bitfields then
      ((regAt asic.blocks found.1).map Reg.bits).getD [] |>.map (loggedField access.value)
    else []

/-- The lines of the log, as far as `fuel` turns of each loop go. -/
def scanLines (asic : ScanModel) (useNew : Bool) (fuel : Nat) :
    List (List Char) → Option (List PrintedAccess)
  | [] => some []
  | line :: lines =>
      match lineAccess useNew line with
      | none => scanLines asic useNew fuel lines
      | some access =>
          if access.did = asic.did.toUInt64 then do
            let found ← searchDown asic fuel fuel access.regno 0
            let printed ← scanLines asic useNew fuel lines
            pure (printAccess asic access found :: printed)
          else scanLines asic useNew fuel lines

/-- `line` has 256 characters. -/
def umrScanLog (asic : ScanModel) (useNew : Bool) (log : List Char) (fuel : Nat) :
    Option ScanEnd :=
  (scanLines asic useNew fuel (chunks 256 log)).map fun printed =>
    ⟨printed, if asic.emptyLog then [] else log⟩

/-! ## What is to be printed -/

def deviceAccesses (asic : ScanModel) (useNew : Bool) (lines : List (List Char)) :
    List LoggedAccess :=
  (lines.filterMap (lineAccess useNew)).filter fun access => access.did = asic.did.toUInt64

/-- The greatest address of an MMIO register that is not above the number. -/
structure IsFloor (blocks : List IpBlock) (regno addr : UInt64) : Prop where
  isReg : ∃ place, (addr, place) ∈ mmioRegs blocks
  le : addr ≤ regno
  greatest : ∀ entry ∈ mmioRegs blocks, entry.1 ≤ regno → entry.1 ≤ addr

structure PrintedUnder (asic : ScanModel) (access : LoggedAccess) (addr : UInt64)
    (printed : PrintedAccess) : Prop where
  isFloor : IsFloor asic.blocks access.regno addr
  isReg : (addr, printed.ip, printed.reg) ∈ mmioRegs asic.blocks
  delta : printed.delta = access.regno - addr
  write : printed.write = access.write
  value : printed.value = access.value

/-- Every access that lies above a register is printed once, in order, and no other one is. -/
inductive Resolved (asic : ScanModel) : List LoggedAccess → List PrintedAccess → Prop
  | nil : Resolved asic [] []
  | under {access : LoggedAccess} {accesses : List LoggedAccess} {entry : PrintedAccess}
      {printed : List PrintedAccess} {addr : UInt64} (right : PrintedUnder asic access addr entry)
      (rest : Resolved asic accesses printed) :
      Resolved asic (access :: accesses) (entry :: printed)
  | skipped {access : LoggedAccess} {accesses : List LoggedAccess} {printed : List PrintedAccess}
      (below : ∀ entry ∈ mmioRegs asic.blocks, ¬ entry.1 ≤ access.regno)
      (rest : Resolved asic accesses printed) : Resolved asic (access :: accesses) printed

def LogResolved (asic : ScanModel) (useNew : Bool) (log : List Char) : Prop :=
  ∃ fuel ended, umrScanLog asic useNew log fuel = some ended ∧
    Resolved asic (deviceAccesses asic useNew (chunks 256 log)) ended.printed

def LookupEnds (asic : ScanModel) (addr : UInt64) : Prop :=
  ∃ fuel result, findRegByAddr asic addr fuel = some result

/-- A register is not above the number, and the lookups on the way down to it end. -/
def Attributable (asic : ScanModel) (regno : UInt64) : Prop :=
  ∃ addr, IsFloor asic.blocks regno addr ∧
    ∀ other, addr ≤ other → other ≤ regno → LookupEnds asic other

/-! ## The lookups -/

section Scan
variable {asic : ScanModel}

theorem deviceAccesses_lines (useNew : Bool) {lines : List (List Char)}
    (plain : ∀ line ∈ lines, '\n' ∉ line ∧ line.length + 1 < 256) :
    deviceAccesses asic useNew (chunks 256 (lines.flatMap fun line => line ++ ['\n'])) =
      deviceAccesses asic useNew (lines.map fun line => cString (line ++ ['\n'])) := by
  rw [chunks_lines plain]

theorem findRegByAddr_sound {addr : UInt64} {fuel : Nat} {result : Option (Nat × Nat)}
    (found : findRegByAddr asic addr fuel = some result) :
    result = findRegByAddrScan asic.blocks addr := by
  unfold findRegByAddr at found
  split at found
  · rename_i table isTable
    exact umrFindRegByAddr_sound (asic.isTable table isTable) found
  · exact (Option.some.inj found).symm

theorem findRegByAddr_more {addr : UInt64} {fuel more : Nat} {result : Option (Nat × Nat)}
    (le : fuel ≤ more) (found : findRegByAddr asic addr fuel = some result) :
    findRegByAddr asic addr more = some result := by
  unfold findRegByAddr at found ⊢
  split at found
  · rename_i table isTable
    obtain ⟨place, ended, rfl⟩ := Option.map_eq_some_iff.mp found
    rw [umrFindRegByAddr, (loop_fuel le ended).1, Option.map_some]
  · exact found

/-- Without a table, or with one of up to `2^31` registers, every lookup ends. -/
theorem lookupEnds_of_few (few : asic.mmioAccel = none ∨ mmioCount asic.blocks ≤ 2 ^ 31)
    (addr : UInt64) : LookupEnds asic addr := by
  unfold LookupEnds findRegByAddr
  cases isTable : asic.mmioAccel with
  | none => exact ⟨0, _, rfl⟩
  | some table =>
      have count := few.resolve_left (by rw [isTable]; exact Option.some_ne_none table)
      obtain ⟨other, created, lookups⟩ := accelAgrees_of_count count
      rw [asic.isTable table isTable] at created
      cases created
      obtain ⟨fuel, found⟩ := lookups addr
      exact ⟨fuel, _, found⟩

theorem exists_isFloor {blocks : List IpBlock} {regno : UInt64} {entry : UInt64 × Nat × Nat}
    (member : entry ∈ mmioRegs blocks) (le : entry.1 ≤ regno) :
    ∃ addr, IsFloor blocks regno addr := by
  have below : ((mmioRegs blocks).filter fun entry => entry.1 ≤ regno).toFinset.Nonempty :=
    ⟨entry, List.mem_toFinset.mpr (List.mem_filter.mpr ⟨member, decide_eq_true le⟩)⟩
  obtain ⟨⟨addr, place⟩, isBelow, greatest⟩ :=
    Finset.exists_max_image _ (fun entry : UInt64 × Nat × Nat => entry.1.toNat) below
  rw [List.mem_toFinset, List.mem_filter] at isBelow
  refine ⟨addr, ⟨place, isBelow.1⟩, of_decide_eq_true isBelow.2, ?_⟩
  intro other isReg isLe
  rw [UInt64.le_iff_toNat_le]
  exact greatest other (List.mem_toFinset.mpr (List.mem_filter.mpr ⟨isReg, decide_eq_true isLe⟩))

theorem attributable_iff (few : asic.mmioAccel = none ∨ mmioCount asic.blocks ≤ 2 ^ 31)
    (regno : UInt64) :
    Attributable asic regno ↔ ∃ entry ∈ mmioRegs asic.blocks, entry.1 ≤ regno := by
  constructor
  · rintro ⟨addr, isFloor, -⟩
    obtain ⟨place, member⟩ := isFloor.isReg
    exact ⟨(addr, place), member, isFloor.le⟩
  · rintro ⟨entry, member, le⟩
    obtain ⟨addr, isFloor⟩ := exists_isFloor member le
    exact ⟨addr, isFloor, fun other _ _ => lookupEnds_of_few few other⟩

/-! ## The search -/

theorem ofNat_succ (k : Nat) : UInt64.ofNat (k + 1) = UInt64.ofNat k + 1 := UInt64.ofNat_add k 1

theorem sub_ofNat_zero (regno : UInt64) : regno - UInt64.ofNat 0 = regno := UInt64.sub_zero regno

theorem sub_ofNat_succ (regno : UInt64) (k : Nat) :
    regno - 1 - UInt64.ofNat k = regno - UInt64.ofNat (k + 1) := by
  rw [ofNat_succ]
  grind

theorem add_ofNat_succ (delta : UInt64) (k : Nat) :
    delta + 1 + UInt64.ofNat k = delta + UInt64.ofNat (k + 1) := by
  rw [ofNat_succ]
  grind

theorem toNat_sub_ofNat {regno : UInt64} {k : Nat} (le : k ≤ regno.toNat) :
    (regno - UInt64.ofNat k).toNat = regno.toNat - k := by
  have bound := regno.toNat_lt
  have small : (UInt64.ofNat k).toNat = k := by
    rw [UInt64.toNat_ofNat']
    omega
  rw [UInt64.toNat_sub_of_le _ _ (by rw [UInt64.le_iff_toNat_le, small]; exact le), small]

theorem sub_ofNat_of_le {regno addr : UInt64} (le : addr ≤ regno) :
    regno - UInt64.ofNat (regno.toNat - addr.toNat) = addr := by
  rw [UInt64.le_iff_toNat_le] at le
  rw [← UInt64.toNat_inj, toNat_sub_ofNat (Nat.sub_le _ _)]
  omega

theorem searchDown_finds {turns k fuel : Nat} {regno delta : UInt64} {place : Nat × Nat}
    (enough : k < fuel)
    (hit : findRegByAddr asic (regno - UInt64.ofNat k) turns = some (some place))
    (missed : ∀ i < k, findRegByAddr asic (regno - UInt64.ofNat i) turns = some none) :
    searchDown asic turns fuel regno delta = some (place, delta + UInt64.ofNat k) := by
  induction k generalizing fuel regno delta with
  | zero =>
      obtain ⟨fuel, rfl⟩ := Nat.exists_eq_add_one.mpr enough
      rw [sub_ofNat_zero] at hit
      rw [searchDown, hit]
      exact congrArg some (congrArg _ (UInt64.add_zero delta).symm)
  | succ k ih =>
      obtain ⟨fuel, rfl⟩ := Nat.exists_eq_add_one.mpr (Nat.lt_of_le_of_lt (Nat.zero_le _) enough)
      have first := missed 0 (Nat.zero_lt_succ k)
      rw [sub_ofNat_zero] at first
      rw [← sub_ofNat_succ] at hit
      have later : ∀ i < k, findRegByAddr asic (regno - 1 - UInt64.ofNat i) turns = some none := by
        intro i less
        rw [sub_ofNat_succ]
        exact missed (i + 1) (by omega)
      rw [searchDown, first, ← add_ofNat_succ]
      exact ih (by omega) hit later

/-- A search that ends has gone down to the first number at which the lookup finds a register. -/
theorem searchDown_result {turns fuel : Nat} {regno delta after : UInt64} {place : Nat × Nat}
    (found : searchDown asic turns fuel regno delta = some (place, after)) :
    ∃ k : Nat, after = delta + UInt64.ofNat k ∧
      findRegByAddr asic (regno - UInt64.ofNat k) turns = some (some place) ∧
      ∀ i < k, findRegByAddr asic (regno - UInt64.ofNat i) turns = some none := by
  induction fuel generalizing regno delta with
  | zero => cases found
  | succ fuel ih =>
      rw [searchDown] at found
      split at found
      · cases found
      · rename_i first
        obtain ⟨k, isAfter, hit, missed⟩ := ih found
        rw [sub_ofNat_succ] at hit
        refine ⟨k + 1, by rw [isAfter, add_ofNat_succ], hit, ?_⟩
        intro i less
        cases i with
        | zero =>
            rw [sub_ofNat_zero]
            exact first
        | succ i =>
            rw [← sub_ofNat_succ]
            exact missed i (by omega)
      · rename_i hit
        cases found
        refine ⟨0, (UInt64.add_zero _).symm, by rw [sub_ofNat_zero]; exact hit, ?_⟩
        exact fun i less => absurd less (Nat.not_lt_zero i)

theorem lookups_end {count : Nat} {addr : Nat → UInt64}
    (each : ∀ i < count, LookupEnds asic (addr i)) :
    ∃ turns, ∀ more, turns ≤ more → ∀ i < count,
      findRegByAddr asic (addr i) more = some (findRegByAddrScan asic.blocks (addr i)) := by
  induction count with
  | zero => exact ⟨0, fun _ _ i less => absurd less (Nat.not_lt_zero i)⟩
  | succ count ih =>
      obtain ⟨turns, earlier⟩ := ih fun i less => each i (Nat.lt_succ_of_lt less)
      obtain ⟨last, result, found⟩ := each count (Nat.lt_succ_self count)
      rw [findRegByAddr_sound found] at found
      refine ⟨max turns last, ?_⟩
      intro more enough i less
      rcases Nat.lt_succ_iff_lt_or_eq.mp less with before | rfl
      · exact earlier more (le_trans (le_max_left _ _) enough) i before
      · exact findRegByAddr_more (le_trans (le_max_right _ _) enough) found

/-- The search for an attributable number ends at the greatest register below it. -/
theorem searchDown_attributable {regno : UInt64} (attributable : Attributable asic regno) :
    ∃ enough addr place, IsFloor asic.blocks regno addr ∧ (addr, place) ∈ mmioRegs asic.blocks ∧
      ∀ fuel, enough ≤ fuel → searchDown asic fuel fuel regno 0 = some (place, regno - addr) := by
  obtain ⟨addr, isFloor, ends⟩ := attributable
  have le := UInt64.le_iff_toNat_le.mp isFloor.le
  have between : ∀ i < regno.toNat - addr.toNat + 1, LookupEnds asic (regno - UInt64.ofNat i) := by
    intro i less
    refine ends _ ?_ ?_
    · rw [UInt64.le_iff_toNat_le, toNat_sub_ofNat (by omega)]
      omega
    · rw [UInt64.le_iff_toNat_le, toNat_sub_ofNat (by omega)]
      omega
  obtain ⟨turns, found⟩ := lookups_end between
  obtain ⟨isPlace, member⟩ := isFloor.isReg
  cases scanned : findRegByAddrScan asic.blocks addr with
  | none => exact absurd rfl (findRegByAddrScan_eq_none_iff.mp scanned _ member)
  | some place =>
      refine ⟨max turns (regno.toNat - addr.toNat + 1), addr, place, isFloor,
        findRegByAddrScan_some scanned, ?_⟩
      intro fuel enough
      have down := found fuel (le_trans (le_max_left _ _) enough)
      have hit := down (regno.toNat - addr.toNat) (Nat.lt_succ_self _)
      rw [sub_ofNat_of_le isFloor.le, scanned] at hit
      have missed : ∀ i < regno.toNat - addr.toNat,
          findRegByAddr asic (regno - UInt64.ofNat i) fuel = some none := by
        intro i less
        have none_ : findRegByAddrScan asic.blocks (regno - UInt64.ofNat i) = none := by
          refine findRegByAddrScan_eq_none_iff.mpr ?_
          intro entry isReg same
          have atMost := isFloor.greatest entry isReg
          rw [same, UInt64.le_iff_toNat_le, UInt64.le_iff_toNat_le,
            toNat_sub_ofNat (by omega)] at atMost
          omega
        rw [down i (Nat.lt_succ_of_lt less), none_]
      have atAddr : regno - addr = 0 + UInt64.ofNat (regno.toNat - addr.toNat) := by
        rw [UInt64.zero_add, ← UInt64.toNat_inj, UInt64.toNat_sub_of_le _ _ isFloor.le,
          UInt64.toNat_ofNat']
        have bound := regno.toNat_lt
        omega
      rw [atAddr]
      refine searchDown_finds ?_ (by rw [sub_ofNat_of_le isFloor.le]; exact hit) missed
      exact Nat.lt_of_succ_le (le_trans (le_max_right _ _) enough)

/-- Where a search ends at the greatest register below the number, all lookups down to it end. -/
theorem attributable_of_searchDown {turns fuel : Nat} {regno addr delta : UInt64}
    {place : Nat × Nat} (found : searchDown asic turns fuel regno 0 = some (place, delta))
    (isFloor : IsFloor asic.blocks regno addr) (isDelta : delta = regno - addr) :
    Attributable asic regno := by
  obtain ⟨k, isAfter, hit, missed⟩ := searchDown_result found
  refine ⟨addr, isFloor, ?_⟩
  intro other above le
  have atLeast : regno.toNat - addr.toNat ≤ k := by
    have same := congrArg UInt64.toNat (isAfter.symm.trans isDelta)
    rw [UInt64.zero_add, UInt64.toNat_sub_of_le _ _ isFloor.le, UInt64.toNat_ofNat'] at same
    have small := Nat.mod_le k (2 ^ 64)
    omega
  have isStep := sub_ofNat_of_le le
  rw [UInt64.le_iff_toNat_le] at above
  rcases Nat.lt_or_eq_of_le (show regno.toNat - other.toNat ≤ k by omega) with before | last
  · have looked := missed _ before
    rw [isStep] at looked
    exact ⟨turns, none, looked⟩
  · rw [← last, isStep] at hit
    exact ⟨turns, some place, hit⟩

/-! ## The log -/

def searchAccess (asic : ScanModel) (fuel : Nat) (access : LoggedAccess) : Option PrintedAccess :=
  (searchDown asic fuel fuel access.regno 0).map (printAccess asic access)

theorem scanLines_eq (useNew : Bool) (fuel : Nat) (lines : List (List Char)) :
    scanLines asic useNew fuel lines =
      (deviceAccesses asic useNew lines).mapM (searchAccess asic fuel) := by
  induction lines with
  | nil => rfl
  | cons line lines ih =>
      unfold scanLines
      cases isAccess : lineAccess useNew line with
      | none =>
          dsimp only
          rw [ih, deviceAccesses, deviceAccesses, List.filterMap_cons_none isAccess]
      | some access =>
          dsimp only
          by_cases ours : access.did = asic.did.toUInt64
          · have listed : deviceAccesses asic useNew (line :: lines) =
                access :: deviceAccesses asic useNew lines := by
              rw [deviceAccesses, List.filterMap_cons_some isAccess, List.filter_cons,
                if_pos (decide_eq_true ours)]
              rfl
            rw [if_pos ours, listed, List.mapM_cons, ih]
            unfold searchAccess
            cases searchDown asic fuel fuel access.regno 0 <;> rfl
          · have listed : deviceAccesses asic useNew (line :: lines) =
                deviceAccesses asic useNew lines := by
              rw [deviceAccesses, List.filterMap_cons_some isAccess, List.filter_cons,
                if_neg (by simpa using ours)]
              rfl
            rw [if_neg ours, listed, ih]

theorem resolved_length {accesses : List LoggedAccess} {printed : List PrintedAccess}
    (resolved : Resolved asic accesses printed) : printed.length ≤ accesses.length := by
  induction resolved with
  | nil => exact Nat.le_refl _
  | under _ _ ih => exact Nat.succ_le_succ ih
  | skipped _ _ ih => exact Nat.le_succ_of_le ih

theorem attributable_of_resolved {fuel : Nat} {accesses : List LoggedAccess}
    {printed : List PrintedAccess} (ended : accesses.mapM (searchAccess asic fuel) = some printed)
    (resolved : Resolved asic accesses printed) :
    ∀ access ∈ accesses, Attributable asic access.regno := by
  induction accesses generalizing printed with
  | nil => exact fun _ member => absurd member List.not_mem_nil
  | cons access accesses ih =>
      obtain ⟨entry, rest, first, later, rfl⟩ := mapM_cons_some ended
      cases resolved with
      | under right below =>
          refine List.forall_mem_cons.mpr ⟨?_, ih later below⟩
          obtain ⟨found, search, rfl⟩ := Option.map_eq_some_iff.mp first
          exact attributable_of_searchDown search right.isFloor right.delta
      | skipped _ short =>
          -- Every access is printed, so none can have been passed over.
          have few := resolved_length short
          have all := mapM_length later
          rw [List.length_cons] at few
          omega

theorem resolved_of_attributable {accesses : List LoggedAccess}
    (attributable : ∀ access ∈ accesses, Attributable asic access.regno) :
    ∃ enough, ∀ fuel, enough ≤ fuel →
      ∃ printed, accesses.mapM (searchAccess asic fuel) = some printed ∧
        Resolved asic accesses printed := by
  induction accesses with
  | nil => exact ⟨0, fun _ _ => ⟨[], rfl, .nil⟩⟩
  | cons access accesses ih =>
      obtain ⟨first, later⟩ := List.forall_mem_cons.mp attributable
      obtain ⟨enough, addr, place, isFloor, isReg, search⟩ := searchDown_attributable first
      obtain ⟨enoughLater, scanned⟩ := ih later
      refine ⟨max enough enoughLater, ?_⟩
      intro fuel le
      obtain ⟨printed, mapped, resolved⟩ := scanned fuel (le_trans (le_max_right _ _) le)
      have found : searchAccess asic fuel access =
          some (printAccess asic access (place, access.regno - addr)) := by
        rw [searchAccess, search fuel (le_trans (le_max_left _ _) le), Option.map_some]
      refine ⟨printAccess asic access (place, access.regno - addr) :: printed, ?_,
        .under ⟨isFloor, isReg, rfl, rfl, rfl⟩ resolved⟩
      rw [List.mapM_cons, found, mapped]
      rfl

/-- The scan of a log ends and prints every access where it belongs, if and only if every access of
the device can be attributed. -/
theorem umrScanLog_resolves_iff (asic : ScanModel) (useNew : Bool) (log : List Char) :
    LogResolved asic useNew log ↔
      ∀ access ∈ deviceAccesses asic useNew (chunks 256 log),
        Attributable asic access.regno := by
  unfold LogResolved umrScanLog
  constructor
  · rintro ⟨fuel, ended, scanned, resolved⟩
    rw [scanLines_eq] at scanned
    obtain ⟨printed, mapped, rfl⟩ := Option.map_eq_some_iff.mp scanned
    exact attributable_of_resolved mapped resolved
  · intro attributable
    obtain ⟨enough, scanned⟩ := resolved_of_attributable attributable
    obtain ⟨printed, mapped, resolved⟩ := scanned enough (Nat.le_refl _)
    exact ⟨enough, _, by rw [scanLines_eq, mapped, Option.map_some], resolved⟩

end Scan

/-! ## A number below every register -/

def oneRegister : ScanModel where
  did := 0x67DF
  blocks := [plainBlock [plainReg 0x10 0]]
  mmioAccel := none
  bitfields := false
  emptyLog := false
  isTable := by simp

def lowAccess : List Char := "amdgpu_mm_rreg: 0x67df, 0x00000005, 0x00000000\n".toList

theorem lowAccess_unresolved : ¬ ∀ (asic : ScanModel) (useNew : Bool) (log : List Char),
    LogResolved asic useNew log := by
  intro resolves
  obtain ⟨fuel, ended, scanned, resolved⟩ := resolves oneRegister false lowAccess
  have accesses : deviceAccesses oneRegister false (chunks 256 lowAccess) =
      [⟨false, 0x67DF, 5, 0⟩] := by rfl
  rw [umrScanLog, scanLines_eq, accesses] at scanned
  rw [accesses] at resolved
  obtain ⟨printed, mapped, rfl⟩ := Option.map_eq_some_iff.mp scanned
  obtain ⟨addr, isFloor, -⟩ :=
    attributable_of_resolved mapped resolved ⟨false, 0x67DF, 5, 0⟩ List.mem_cons_self
  obtain ⟨place, isReg⟩ := isFloor.isReg
  have isAddr : addr = 0x10 := by
    have only : mmioRegs oneRegister.blocks = [(0x10, 0, 0)] := by rfl
    rw [only, List.mem_singleton] at isReg
    exact congrArg Prod.fst isReg
  have low := isFloor.le
  rw [isAddr] at low
  exact absurd low (by decide)

end Umr.Registers
