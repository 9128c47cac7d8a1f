import Umr.Lib.Scan
import Umr.Lib.Fault

/-!
# The IP discovery binary

`umr_discovery_verify_table` and `umr_discovery_dump_table` of `discovery_table.c`.
The binary is a buffer of 4096 bytes; sizes, offsets, counts and hardware ids in
it are taken as they are.  A read outside the buffer or outside the table of
names is a fault.
-/

set_option autoImplicit false

namespace Umr.Database

open Umr.Lib

def tableSize : Nat := 4 * 1024

abbrev DiscoveryBinary := Vector UInt8 tableSize

inductive DiscoveryFault where
  /-- a byte outside the binary -/
  | outside
  /-- a name outside the table -/
  | name
  deriving DecidableEq, Repr

/-- `width` bytes, little endian. -/
def field (table : DiscoveryBinary) (off width : Nat) : Nat :=
  ((List.range width).map fun k => (table[off + k]?.getD 0).toNat * 256 ^ k).sum

def readAt (table : DiscoveryBinary) (off width : Nat) : Except DiscoveryFault Nat :=
  if off + width ≤ tableSize then .ok (field table off width) else .error .outside

/-! ## Verification -/

def binarySignature : Nat := 0x28211407

structure Report where
  ret : Int
  errors : List (List Char)
  deriving DecidableEq, Repr

def hex8 (value : Nat) : List Char := "0x".toList ++ printPadded 8 value

def calculateChecksum (table : DiscoveryBinary) :
    Nat → Nat → Nat → Except DiscoveryFault Nat
  | 0, _, checksum => .ok checksum
  | size + 1, off, checksum => do
      let byte ← readAt table off 1
      calculateChecksum table size (off + 1) ((checksum + byte) % 2 ^ 16)

/-- `table_list[id]` stands behind the twelve bytes of the header. -/
def tableInfo (id : Nat) : Nat := 12 + 8 * id

def verifyById (table : DiscoveryBinary) (id : Nat) : Except DiscoveryFault Bool := do
  let checksum ← readAt table (tableInfo id + 2) 2
  let offset ← readAt table (tableInfo id) 2
  let size ← readAt table (tableInfo id + 4) 2
  let sum ← calculateChecksum table size offset 0
  pure (sum == checksum)

def invalidTable (name : String) : Report :=
  ⟨-1, [("[ERROR]: invalid discovery table: " ++ name ++ "\n").toList]⟩

def umrDiscoveryVerifyTable (table : DiscoveryBinary) : Except DiscoveryFault Report := do
  let signature ← readAt table 0 4
  if signature ≠ binarySignature then
    pure ⟨-1, ["[ERROR]: invalid discovery table signature: ".toList ++ hex8 signature ++ ['\n']]⟩
  else do
    let binarySize ← readAt table 10 2
    let checksum ← readAt table 8 2
    let sum ← calculateChecksum table ((binarySize + 2 ^ 16 - 10) % 2 ^ 16) 10 0
    if sum ≠ checksum then pure ⟨-1, ["[ERROR]: invalid discovery table checksum\n".toList]⟩
    else do
      let ipDiscovery ← verifyById table 0
      if ipDiscovery = false then pure (invalidTable "IP_DISCOVERY")
      else do
        let gc ← verifyById table 1
        if gc = false then pure (invalidTable "GC")
        else do
          let harvestInfo ← verifyById table 2
          if harvestInfo = false then pure (invalidTable "HARVEST_INFO") else pure ⟨0, []⟩

/-! ## The dump -/

abbrev Lines := List (Nat × List Char)

def dec (value : Nat) : List Char := printInt value

def decPadded (width value : Nat) : List Char :=
  List.replicate (width - (dec value).length) '0' ++ dec value

/-- `hwid_name`; ids between those listed are `NULL`. -/
def hwidNames : List (Nat × String) :=
  [(1, "MP1"), (2, "MP2"), (3, "THM"), (4, "SMUIO"), (5, "FUSE"), (6, "CLKA"), (10, "PWR"),
   (11, "GC"), (12, "UVD"), (13, "AUDIO_AZ"), (14, "ACP"), (15, "DCI"), (271, "DMU"),
   (16, "DCO"), (272, "DIO"), (17, "XDMA"), (18, "DCEAZ"), (274, "DAZ"), (19, "SDPMUX"),
   (20, "NTB"), (24, "IOHC"), (28, "L2IMU"), (32, "VCE"), (34, "MMHUB"), (35, "ATHUB"),
   (36, "DBGU_NBIO"), (37, "DFX"), (38, "DBGU0"), (39, "DBGU1"), (40, "OSSSYS"), (41, "HDP"),
   (42, "SDMA0"), (43, "SDMA1"), (44, "ISP"), (45, "DBGU_IO"), (46, "DF"), (47, "CLKB"),
   (48, "FCH"), (49, "DFX_DAP"), (50, "L1IMU_PCIE"), (51, "L1IMU_NBIF"), (52, "L1IMU_IOAGR"),
   (53, "L1IMU3"), (54, "L1IMU4"), (55, "L1IMU5"), (56, "L1IMU6"), (57, "L1IMU7"),
   (58, "L1IMU8"), (59, "L1IMU9"), (60, "L1IMU10"), (61, "L1IMU11"), (62, "L1IMU12"),
   (63, "L1IMU13"), (64, "L1IMU14"), (65, "L1IMU15"), (66, "WAFLC"), (67, "FCH_USB_PD"),
   (68, "SDMA2"), (69, "SDMA3"), (70, "PCIE"), (80, "PCS"), (89, "DDCL"), (90, "SST"),
   (100, "IOAGR"), (108, "NBIF"), (124, "IOAPIC"), (128, "SYSTEMHUB"), (144, "NTBCCP"),
   (150, "UMC"), (168, "SATA"), (170, "USB"), (176, "CCXSEC"), (200, "XGMI"), (216, "XGBE"),
   (255, "MP0")]

def hwidCount : Nat := 275

def hwid2name (id : Nat) : Except DiscoveryFault (List Char) :=
  if id < hwidCount then .ok ((hwidNames.lookup id).getD "(null)").toList else .error .name

def dumpBases (table : DiscoveryBinary) (level off : Nat) : Nat → Nat → Except DiscoveryFault Lines
  | 0, _ => .ok []
  | left + 1, q => do
      let base ← readAt table (off + 8 + 4 * q) 4
      let further ← dumpBases table level off left (q + 1)
      pure ((level, "base_address[".toList ++ dec q ++ "]: ".toList ++ hex8 base ++ ['\n']) :: further)

/-- The IPs of a die from the `j`th on, which stands at `off`. -/
def dumpIps (table : DiscoveryBinary) (level : Nat) :
    Nat → Nat → Nat → Except DiscoveryFault Lines
  | 0, _, _ => .ok []
  | left + 1, j, off => do
      let hwId ← readAt table off 2
      let name ← hwid2name hwId
      let numberInstance ← readAt table (off + 2) 1
      let major ← readAt table (off + 4) 1
      let minor ← readAt table (off + 5) 1
      let revision ← readAt table (off + 6) 1
      -- `__BIG_ENDIAN` is defined on every host, so `harvest` is the upper half of its byte
      let harvest ← readAt table (off + 7) 1
      let numBaseAddress ← readAt table (off + 3) 1
      let bases ← dumpBases table (level + 2) off numBaseAddress 0
      let further ← dumpIps table level left (j + 1) ((off + 8 + 4 * numBaseAddress) % 2 ^ 16)
      pure ([(level, ['['] ++ decPadded 2 j ++ "] hw_id:".toList ++ name ++ ['('] ++ dec hwId ++
            ")\n".toList),
          (level + 1, "num_instances: ".toList ++ dec numberInstance ++ ['\n']),
          (level + 1, "major.min.rev: ".toList ++ dec major ++ ['.'] ++ dec minor ++ ['.'] ++
            dec revision ++ ['\n']),
          (level + 1, "harvest: ".toList ++ dec (harvest / 16) ++ ['\n']),
          (level + 1, "num_base_address: ".toList ++ dec numBaseAddress ++ ['\n'])] ++
        bases ++ further)

/-- The dies from the `i`th on.  The level is raised for each of them and not lowered again. -/
def dumpDies (table : DiscoveryBinary) (base : Nat) :
    Nat → Nat → Nat → Except DiscoveryFault Lines
  | 0, _, _ => .ok []
  | left + 1, i, level => do
      let dieOffset ← readAt table (base + 14 + 4 * i + 2) 2
      let numIps ← readAt table (dieOffset + 2) 2
      let dieId ← readAt table dieOffset 2
      let ips ← dumpIps table (level + 1) numIps 0 ((dieOffset + 4) % 2 ^ 16)
      let further ← dumpDies table base left (i + 1) (level + 1)
      pure ([(level, "die_id: ".toList ++ dec dieId ++ ['\n']),
        (level, "num_ips: ".toList ++ dec numIps ++ ['\n'])] ++ ips ++ further)

structure Dump where
  lines : Lines
  report : Report
  deriving DecidableEq, Repr

def hex (value : Nat) : List Char := "0x".toList ++ printHex value

/-- `%d` of an unsigned value. -/
def signed32 (value : Nat) : Int := (value : Int).bmod (2 ^ 32)

def decHex (text : String) (value : Nat) : List Char :=
  text.toList ++ printInt (signed32 value) ++ " (".toList ++ hex value ++ ")\n".toList

def ipSignature : Nat := 0x53445049

def dumpIpDiscovery (table : DiscoveryBinary) (level : Nat) : Except DiscoveryFault Dump := do
  let base ← readAt table (tableInfo 0) 2
  let signature ← readAt table base 4
  if signature ≠ ipSignature then
    pure ⟨[], -1, ["invalid IP_DISCOVERY signature: ".toList ++ hex8 signature ++ ['\n']]⟩
  else do
    let version ← readAt table (base + 4) 2
    let size ← readAt table (base + 6) 2
    let id ← readAt table (base + 8) 4
    let numDies ← readAt table (base + 12) 2
    let dies ← dumpDies table base (min numDies 16) 0 (level + 1)
    pure ⟨[(level, "signature: ".toList ++ hex8 signature ++ ['\n']),
      (level, "version: ".toList ++ hex version ++ ['\n']),
      (level, decHex "size: " size),
      (level, "id: ".toList ++ hex8 id ++ ['\n']),
      (level, "num_dies: ".toList ++ hex numDies ++ ['\n'])] ++ dies, 0, []⟩

/-- The fields in the order in which they are printed, some of them more than once, with their
place in `struct gc_info_v1_0`. -/
def gcFields : List (String × Nat) :=
  [("gc_num_se", 0), ("gc_num_wgp0_per_sa", 1), ("gc_num_wgp0_per_sa", 1), ("gc_num_se", 0),
   ("gc_num_wgp0_per_sa", 1), ("gc_num_wgp1_per_sa", 2), ("gc_num_rb_per_se", 3),
   ("gc_num_gl2c", 4), ("gc_num_gprs", 5), ("gc_num_max_gs_thds", 6), ("gc_gs_table_depth", 7),
   ("gc_gsprim_buff_depth", 8), ("gc_parameter_cache_depth", 9),
   ("gc_double_offchip_lds_buffer", 10), ("gc_wave_size", 11), ("gc_max_waves_per_simd", 12),
   ("gc_max_scratch_slots_per_cu", 13), ("gc_lds_size", 14), ("gc_num_sc_per_se", 15),
   ("gc_num_sa_per_se", 16), ("gc_num_packer_per_sc", 17), ("gc_num_gl2a", 18)]

def padTo (width : Nat) (text : List Char) : List Char :=
  text ++ List.replicate (width - text.length) ' '

def dumpGcFields (table : DiscoveryBinary) (level base : Nat) :
    List (String × Nat) → Except DiscoveryFault Lines
  | [] => .ok []
  | (name, place) :: rest => do
      let value ← readAt table (base + 12 + 4 * place) 4
      let further ← dumpGcFields table level base rest
      pure ((level, padTo 30 name.toList ++ [':'] ++ padTo 8 (printInt (signed32 value)) ++
        " (".toList ++ hex8 value ++ ") \n".toList) :: further)

def gcSignature : Nat := 0x4347

def dumpGc (table : DiscoveryBinary) (level : Nat) : Except DiscoveryFault Dump := do
  let base ← readAt table (tableInfo 1) 2
  let tableId ← readAt table base 4
  if tableId ≠ gcSignature then
    pure ⟨[], -1, ["invalid gpu_info_header signature: ".toList ++ hex8 tableId ++ ['\n']]⟩
  else do
    let major ← readAt table (base + 4) 2
    let minor ← readAt table (base + 6) 2
    let size ← readAt table (base + 8) 4
    let version := dec major ++ ['.'] ++ dec minor ++ ['\n']
    let header : Lines := [(level, "table_id: ".toList ++ hex8 tableId ++ ['\n']),
      (level, "version: ".toList ++ version), (level, decHex "size: " size)]
    if major ≠ 1 then
      pure ⟨header ++ [(level, "Unsupported version: ".toList ++ version)], 0, []⟩
    else do
      let fields ← dumpGcFields table (level + 1) base gcFields
      pure ⟨header ++ fields, 0, []⟩

/-- The harvest list from the `i`th entry on, up to an entry without id. -/
def dumpHarvestList (table : DiscoveryBinary) (level base : Nat) :
    Nat → Nat → Except DiscoveryFault Lines
  | 0, _ => .ok []
  | left + 1, i => do
      let hwId ← readAt table (base + 8 + 4 * i) 2
      if hwId = 0 then .ok []
      else do
        let numberInstance ← readAt table (base + 8 + 4 * i + 2) 1
        let further ← dumpHarvestList table level base left (i + 1)
        let place := ['['] ++ decPadded 2 i ++ "]: ".toList
        pure ((level, place ++ "hw_id: 0x".toList ++ decPadded 4 hwId ++ ['\n']) ::
          (level, place ++ "num_instances: 0x".toList ++ decPadded 2 numberInstance ++ ['\n']) :: further)

def harvestSignature : Nat := 0x56524148

def dumpHarvestInfo (table : DiscoveryBinary) (level : Nat) : Except DiscoveryFault Dump := do
  let base ← readAt table (tableInfo 2) 2
  let version ← readAt table (base + 4) 4
  let signature ← readAt table base 4
  if signature ≠ harvestSignature then
    pure ⟨[], -1,
      ["[ERROR]: invalid harvest_table signature: ".toList ++ hex8 signature ++ ['\n']]⟩
  else do
    let list ← dumpHarvestList table level base 32 0
    let shown : Lines := if list = [] then [(level, "no harvest info\n".toList)] else list
    pure ⟨[(level, "harvest signature: ".toList ++ hex8 signature ++ ['\n']),
      (level, "harvest version: ".toList ++ hex8 version ++ ['\n'])] ++ shown, 0, []⟩

def tableLine (name : String) (id : Nat) : Nat × List Char :=
  (1, ("TABLE: " ++ name ++ " (").toList ++ decPadded 2 id ++ ")\n".toList)

/-- A table that is not what it should be ends the dump. -/
def umrDiscoveryDumpTable (asicname : List Char) (table : DiscoveryBinary) :
    Except DiscoveryFault Dump := do
  let signature ← readAt table 0 4
  if signature ≠ binarySignature then pure ⟨[], -1, []⟩
  else do
    let versionMajor ← readAt table 4 2
    let versionMinor ← readAt table 6 2
    let checksum ← readAt table 8 2
    let size ← readAt table 10 2
    let header : Lines := [(0, "AMDGPU DISCOVERY TABLE (".toList ++ asicname ++ ")\n".toList),
      (1, "binary_signature: ".toList ++ hex8 signature ++ ['\n']),
      (1, "version: ".toList ++ dec versionMajor ++ ['.'] ++ dec versionMinor ++ ['\n']),
      (1, "binary_checksum: ".toList ++ hex8 checksum ++ ['\n']),
      (1, "binary_size: ".toList ++ hex8 size ++ ['('] ++ dec size ++ ") bytes\n".toList)]
    let ipDiscovery ← dumpIpDiscovery table 2
    let lines := header ++ tableLine "IP_DISCOVERY" 0 :: ipDiscovery.lines
    if ipDiscovery.report.ret ≠ 0 then pure ⟨lines, ipDiscovery.report⟩
    else do
      let gc ← dumpGc table 2
      let lines := lines ++ tableLine "GC" 1 :: gc.lines
      if gc.report.ret ≠ 0 then pure ⟨lines, gc.report⟩
      else do
        let harvestInfo ← dumpHarvestInfo table 2
        pure ⟨lines ++ tableLine "HARVEST_INFO" 2 :: harvestInfo.lines, harvestInfo.report⟩

/-! ## Bounds of the verification -/

section Bounds
variable (table : DiscoveryBinary)

theorem ends_readAt {α : Type} {off width : Nat} {next : Nat → Except DiscoveryFault α} :
    Ends (readAt table off width >>= next) ↔
      off + width ≤ tableSize ∧ Ends (next (field table off width)) := by
  rw [ends_bind, readAt]
  by_cases inside : off + width ≤ tableSize
  · rw [if_pos inside]
    constructor
    · rintro ⟨value, same, ends⟩
      cases same
      exact ⟨inside, ends⟩
    · exact fun both => ⟨_, rfl, both.2⟩
  · rw [if_neg inside]
    refine iff_of_false ?_ fun both => inside both.1
    rintro ⟨value, same, -⟩
    cases same

theorem ends_readAt_header {α : Type} {off width : Nat} (header : off + width ≤ tableSize)
    {next : Nat → Except DiscoveryFault α} :
    Ends (readAt table off width >>= next) ↔ Ends (next (field table off width)) := by
  rw [ends_readAt]
  exact and_iff_right header

def RangeInside (off size : Nat) : Prop := size = 0 ∨ off + size ≤ tableSize

instance (off size : Nat) : Decidable (RangeInside off size) := inferInstanceAs (Decidable (_ ∨ _))

def byteSum (off size : Nat) : Nat := ((List.range size).map fun i => field table (off + i) 1).sum

theorem byteSum_succ (off size : Nat) :
    byteSum table off (size + 1) = field table off 1 + byteSum table (off + 1) size := by
  rw [byteSum, List.range_succ_eq_map, List.map_cons, List.sum_cons, List.map_map, byteSum]
  congr 2
  refine List.map_congr_left fun i _ => ?_
  rw [Function.comp_apply, Nat.add_right_comm, Nat.add_assoc]

theorem calculateChecksum_eq (size : Nat) : ∀ off checksum, checksum < 2 ^ 16 →
    calculateChecksum table size off checksum =
      if RangeInside off size then .ok ((checksum + byteSum table off size) % 2 ^ 16)
      else .error .outside := by
  induction size with
  | zero =>
      intro off checksum small
      have empty : RangeInside off 0 := Or.inl rfl
      rw [calculateChecksum, if_pos empty, byteSum]
      exact congrArg Except.ok (Nat.mod_eq_of_lt small).symm
  | succ size ih =>
      intro off checksum _
      have small : (checksum + field table off 1) % 2 ^ 16 < 2 ^ 16 := Nat.mod_lt _ (by decide)
      rw [calculateChecksum, readAt]
      by_cases here : off + 1 ≤ tableSize
      · have rest : RangeInside (off + 1) size ↔ RangeInside off (size + 1) := by
          unfold RangeInside
          omega
        have sum : ((checksum + field table off 1) % 2 ^ 16 + byteSum table (off + 1) size) % 2 ^ 16 =
            (checksum + byteSum table off (size + 1)) % 2 ^ 16 := by
          rw [Nat.mod_add_mod, byteSum_succ, Nat.add_assoc]
        rw [if_pos here]
        change calculateChecksum table size (off + 1) ((checksum + field table off 1) % 2 ^ 16) = _
        rw [ih _ _ small, sum]
        by_cases inside : RangeInside off (size + 1)
        · rw [if_pos inside, if_pos (rest.mpr inside)]
        · rw [if_neg inside, if_neg fun other => inside (rest.mp other)]
      · have outside : ¬ RangeInside off (size + 1) := by
          unfold RangeInside
          omega
        rw [if_neg here, if_neg outside]
        rfl

theorem ends_calculateChecksum {α : Type} {size off : Nat} {next : Nat → Except DiscoveryFault α} :
    Ends (calculateChecksum table size off 0 >>= next) ↔
      RangeInside off size ∧ Ends (next (byteSum table off size % 2 ^ 16)) := by
  rw [ends_bind, calculateChecksum_eq table size off 0 (by decide), Nat.zero_add]
  by_cases inside : RangeInside off size
  · rw [if_pos inside]
    constructor
    · rintro ⟨value, same, ends⟩
      cases same
      exact ⟨inside, ends⟩
    · exact fun both => ⟨_, rfl, both.2⟩
  · rw [if_neg inside]
    refine iff_of_false ?_ fun both => inside both.1
    rintro ⟨value, same, -⟩
    cases same

def tableOffset (id : Nat) : Nat := field table (tableInfo id) 2

def TableInside (id : Nat) : Prop :=
  RangeInside (tableOffset table id) (field table (tableInfo id + 4) 2)

def Summed (id : Nat) : Prop :=
  byteSum table (tableOffset table id) (field table (tableInfo id + 4) 2) % 2 ^ 16 =
    field table (tableInfo id + 2) 2

theorem ends_verifyById {α : Type} {id : Nat} (listed : id ≤ 5)
    {next : Bool → Except DiscoveryFault α} :
    Ends (verifyById table id >>= next) ↔
      TableInside table id ∧
        Ends (next (byteSum table (tableOffset table id) (field table (tableInfo id + 4) 2) % 2 ^ 16 ==
          field table (tableInfo id + 2) 2)) := by
  have header : tableInfo id + 8 ≤ tableSize := by
    unfold tableInfo tableSize
    omega
  unfold verifyById
  simp only [bind_assoc, pure_bind]
  rw [ends_readAt_header table (by omega), ends_readAt_header table (by omega),
    ends_readAt_header table (by omega), ends_calculateChecksum]
  exact Iff.rfl

def Signed : Prop := field table 0 4 = binarySignature

/-- The bytes summed over the whole binary: its size counts from the size field on. -/
def binaryRange : Nat := (field table 10 2 + 2 ^ 16 - 10) % 2 ^ 16

def VerifyInside : Prop :=
  Signed table → RangeInside 10 (binaryRange table) ∧
    (byteSum table 10 (binaryRange table) % 2 ^ 16 = field table 8 2 → TableInside table 0 ∧
      (Summed table 0 → TableInside table 1 ∧ (Summed table 1 → TableInside table 2)))

theorem ends_verifyTable : Ends (umrDiscoveryVerifyTable table) ↔ VerifyInside table := by
  have pure_ : ∀ report : Report, Ends (pure report : Except DiscoveryFault Report) ↔ True :=
    fun report => iff_of_true (ends_pure report) trivial
  unfold umrDiscoveryVerifyTable VerifyInside
  rw [ends_readAt_header table (by decide), ends_ite]
  simp only [pure_, implies_true, true_and, not_not]
  refine imp_congr_right fun _ => ?_
  rw [ends_readAt_header table (by decide), ends_readAt_header table (by decide),
    ends_calculateChecksum, ends_ite]
  simp only [pure_, implies_true, true_and, not_not]
  refine and_congr_right fun _ => imp_congr_right fun _ => ?_
  rw [ends_verifyById table (by decide), ends_ite]
  simp only [pure_, implies_true, true_and, beq_eq_false_iff_ne, not_not]
  refine and_congr_right fun _ => imp_congr_right fun _ => ?_
  rw [ends_verifyById table (by decide), ends_ite]
  simp only [pure_, implies_true, true_and, beq_eq_false_iff_ne, not_not]
  refine and_congr_right fun _ => imp_congr_right fun _ => ?_
  rw [ends_verifyById table (by decide), ends_ite]
  simp only [pure_, implies_true, and_true]

/-! ## Bounds of the dump -/

theorem ends_dumpBases {level off : Nat} (left q : Nat) :
    Ends (dumpBases table level off left q) ↔
      left = 0 ∨ off + 8 + 4 * (q + left) ≤ tableSize := by
  induction left generalizing q with
  | zero => exact iff_of_true (ends_ok _) (Or.inl rfl)
  | succ left ih =>
      rw [dumpBases, ends_readAt, ends_map, ih]
      omega

/-- The IPs of a die lie one behind the other inside the binary and have ids of the table. -/
def IpsInside : Nat → Nat → Prop
  | 0, _ => True
  | left + 1, off =>
      off + 8 + 4 * field table (off + 3) 1 ≤ tableSize ∧ field table off 2 < hwidCount ∧
      IpsInside left (off + 8 + 4 * field table (off + 3) 1)

theorem ends_dumpIps {level : Nat} (left j off : Nat) :
    Ends (dumpIps table level left j off) ↔ IpsInside table left off := by
  induction left generalizing j off with
  | zero => exact iff_of_true (ends_ok _) trivial
  | succ left ih =>
      have name : ∀ {α : Type} (next : List Char → Except DiscoveryFault α),
          Ends (hwid2name (field table off 2) >>= next) ↔ field table off 2 < hwidCount ∧
            Ends (next ((hwidNames.lookup (field table off 2)).getD "(null)").toList) := by
        intro α next
        rw [hwid2name]
        by_cases listed : field table off 2 < hwidCount
        · rw [if_pos listed]
          exact (and_iff_right listed).symm
        · rw [if_neg listed]
          exact iff_of_false (not_ends_error _) fun both => listed both.1
      unfold dumpIps IpsInside
      rw [ends_readAt, name, ends_readAt, ends_readAt, ends_readAt, ends_readAt, ends_readAt,
        ends_readAt, ends_bind_of fun _ => ends_map.trans (ih _ _), ends_dumpBases]
      constructor
      · rintro ⟨-, listed, -, -, -, -, last, -, bases, rest⟩
        have inside : off + 8 + 4 * field table (off + 3) 1 ≤ tableSize := by omega
        have small : off + 8 + 4 * field table (off + 3) 1 < 2 ^ 16 :=
          Nat.lt_of_le_of_lt inside (by decide)
        rw [Nat.mod_eq_of_lt small] at rest
        exact ⟨inside, listed, rest⟩
      · rintro ⟨inside, listed, rest⟩
        have small : off + 8 + 4 * field table (off + 3) 1 < 2 ^ 16 :=
          Nat.lt_of_le_of_lt inside (by decide)
        rw [Nat.mod_eq_of_lt small]
        refine ⟨by omega, listed, by omega, by omega, by omega, by omega, by omega, by omega, ?_, rest⟩
        omega

def DieInside (dieOffset : Nat) : Prop :=
  dieOffset + 4 ≤ tableSize ∧ IpsInside table (field table (dieOffset + 2) 2) (dieOffset + 4)

/-- The `i`th entry of the die list at `base`, and the die it points to. -/
def DieListed (base i : Nat) : Prop :=
  base + 14 + 4 * i + 4 ≤ tableSize ∧ DieInside table (field table (base + 14 + 4 * i + 2) 2)

theorem ends_dumpDies {base : Nat} (left i level : Nat) :
    Ends (dumpDies table base left i level) ↔
      ∀ k, i ≤ k → k < i + left → DieListed table base k := by
  induction left generalizing i level with
  | zero =>
      refine iff_of_true (ends_ok _) fun k low high => ?_
      omega
  | succ left ih =>
      have here : (base + 14 + 4 * i + 2 + 2 ≤ tableSize ∧
          field table (base + 14 + 4 * i + 2) 2 + 2 + 2 ≤ tableSize ∧
          field table (base + 14 + 4 * i + 2) 2 + 2 ≤ tableSize ∧
          IpsInside table (field table (field table (base + 14 + 4 * i + 2) 2 + 2) 2)
            ((field table (base + 14 + 4 * i + 2) 2 + 4) % 2 ^ 16)) ↔ DieListed table base i := by
        constructor
        · rintro ⟨list, num, -, ips⟩
          have small : field table (base + 14 + 4 * i + 2) 2 + 4 < 2 ^ 16 :=
            Nat.lt_of_le_of_lt num (by decide)
          rw [Nat.mod_eq_of_lt small] at ips
          exact ⟨list, num, ips⟩
        · rintro ⟨list, num, ips⟩
          have small : field table (base + 14 + 4 * i + 2) 2 + 4 < 2 ^ 16 :=
            Nat.lt_of_le_of_lt num (by decide)
          rw [Nat.mod_eq_of_lt small]
          exact ⟨list, num, by omega, ips⟩
      rw [dumpDies, ends_readAt, ends_readAt, ends_readAt,
        ends_bind_of fun _ => ends_map.trans (ih _ _), ends_dumpIps]
      constructor
      · rintro ⟨list, num, id, ips, rest⟩ k low high
        rcases Nat.eq_or_lt_of_le low with rfl | later
        · exact here.mp ⟨list, num, id, ips⟩
        · exact rest k later (by omega)
      · intro all
        obtain ⟨list, num, id, ips⟩ := here.mpr (all i (Nat.le_refl i) (by omega))
        exact ⟨list, num, id, ips, fun k low high => all k (by omega) (by omega)⟩

def IpSigned : Prop := field table (tableOffset table 0) 4 = ipSignature

def IpInside : Prop :=
  tableOffset table 0 + 4 ≤ tableSize ∧
  (IpSigned table → tableOffset table 0 + 14 ≤ tableSize ∧
    ∀ i < min (field table (tableOffset table 0 + 12) 2) 16, DieListed table (tableOffset table 0) i)

theorem ends_dumpIpDiscovery {level : Nat} :
    Ends (dumpIpDiscovery table level) ↔ IpInside table := by
  unfold dumpIpDiscovery IpInside
  rw [ends_readAt_header table (by decide), ← tableOffset, ends_readAt, ends_ite]
  refine and_congr_right fun _ => ?_
  rw [and_iff_right fun _ => ends_pure _, not_not]
  refine imp_congr_right fun _ => ?_
  rw [ends_readAt, ends_readAt, ends_readAt, ends_readAt, ends_map, ends_dumpDies]
  constructor
  · rintro ⟨-, -, -, header, dies⟩
    exact ⟨header, fun i inside => dies i (Nat.zero_le i) (by omega)⟩
  · rintro ⟨header, dies⟩
    refine ⟨by omega, by omega, by omega, header, fun i _ inside => dies i (by omega)⟩

theorem readAt_eq_ok {off width value : Nat} (read : readAt table off width = .ok value) :
    value = field table off width := by
  unfold readAt at read
  split at read
  · exact (Except.ok.inj read).symm
  · cases read

theorem dumpIpDiscovery_ret {level : Nat} {dump : Dump}
    (dumped : dumpIpDiscovery table level = .ok dump) : dump.report.ret = 0 ↔ IpSigned table := by
  obtain ⟨base, isBase, dumped⟩ := bind_ok dumped
  obtain ⟨signature, isSignature, dumped⟩ := bind_ok dumped
  cases readAt_eq_ok table isBase
  cases readAt_eq_ok table isSignature
  by_cases unsigned : field table (tableOffset table 0) 4 ≠ ipSignature
  · rw [tableOffset] at unsigned
    rw [if_pos unsigned] at dumped
    cases dumped
    exact iff_of_false (by decide : (-1 : Int) ≠ 0) unsigned
  · rw [tableOffset] at unsigned
    rw [if_neg unsigned] at dumped
    obtain ⟨_, _, dumped⟩ := bind_ok dumped
    obtain ⟨_, _, dumped⟩ := bind_ok dumped
    obtain ⟨_, _, dumped⟩ := bind_ok dumped
    obtain ⟨_, _, dumped⟩ := bind_ok dumped
    obtain ⟨_, _, dumped⟩ := bind_ok dumped
    cases dumped
    exact iff_of_true rfl (not_not.mp unsigned)

def GcSigned : Prop := field table (tableOffset table 1) 4 = gcSignature

def GcInside : Prop :=
  tableOffset table 1 + 4 ≤ tableSize ∧
  (GcSigned table → tableOffset table 1 + 12 ≤ tableSize ∧
    (field table (tableOffset table 1 + 4) 2 = 1 → tableOffset table 1 + 88 ≤ tableSize))

theorem ends_dumpGcFields {level base : Nat} (fields : List (String × Nat)) :
    Ends (dumpGcFields table level base fields) ↔
      ∀ entry ∈ fields, base + 12 + 4 * entry.2 + 4 ≤ tableSize := by
  induction fields with
  | nil => exact iff_of_true (ends_ok _) fun _ member => absurd member List.not_mem_nil
  | cons entry fields ih =>
      rw [dumpGcFields, ends_readAt, ends_map, ih, List.forall_mem_cons]

theorem ends_dumpGc {level : Nat} : Ends (dumpGc table level) ↔ GcInside table := by
  have last : (∀ entry ∈ gcFields, tableOffset table 1 + 12 + 4 * entry.2 + 4 ≤ tableSize) ↔
      tableOffset table 1 + 88 ≤ tableSize := by
    have places : ∀ entry ∈ gcFields, entry.2 ≤ 18 := by decide
    constructor
    · intro all
      exact all ("gc_num_gl2a", 18) (by decide)
    · intro room entry member
      have place := places entry member
      omega
  unfold dumpGc GcInside
  rw [ends_readAt_header table (by decide), ← tableOffset, ends_readAt, ends_ite]
  refine and_congr_right fun _ => ?_
  rw [and_iff_right fun _ => ends_pure _, not_not]
  refine imp_congr_right fun _ => ?_
  rw [ends_readAt, ends_readAt, ends_readAt]
  dsimp only
  rw [ends_ite, and_iff_right fun _ => ends_pure _, not_not, ends_map, ends_dumpGcFields, last]
  constructor
  · rintro ⟨-, -, header, fields⟩
    exact ⟨header, fields⟩
  · rintro ⟨header, fields⟩
    exact ⟨by omega, by omega, header, fields⟩

theorem dumpGc_ret {level : Nat} {dump : Dump} (dumped : dumpGc table level = .ok dump) :
    dump.report.ret = 0 ↔ GcSigned table := by
  obtain ⟨base, isBase, dumped⟩ := bind_ok dumped
  obtain ⟨tableId, isTableId, dumped⟩ := bind_ok dumped
  cases readAt_eq_ok table isBase
  cases readAt_eq_ok table isTableId
  by_cases unsigned : field table (tableOffset table 1) 4 ≠ gcSignature
  · rw [tableOffset] at unsigned
    rw [if_pos unsigned] at dumped
    cases dumped
    exact iff_of_false (by decide : (-1 : Int) ≠ 0) unsigned
  · rw [tableOffset] at unsigned
    rw [if_neg unsigned] at dumped
    obtain ⟨major, _, dumped⟩ := bind_ok dumped
    obtain ⟨_, _, dumped⟩ := bind_ok dumped
    obtain ⟨_, _, dumped⟩ := bind_ok dumped
    refine iff_of_true ?_ (not_not.mp unsigned)
    by_cases supported : major ≠ 1
    · dsimp only at dumped
      rw [if_pos supported] at dumped
      cases dumped
      rfl
    · dsimp only at dumped
      rw [if_neg supported] at dumped
      obtain ⟨_, _, dumped⟩ := bind_ok dumped
      cases dumped
      rfl

def HarvestSigned : Prop := field table (tableOffset table 2) 4 = harvestSignature

def HarvestListInside (base : Nat) : Nat → Nat → Prop
  | 0, _ => True
  | left + 1, i =>
      base + 8 + 4 * i + 2 ≤ tableSize ∧
      (field table (base + 8 + 4 * i) 2 ≠ 0 →
        base + 8 + 4 * i + 3 ≤ tableSize ∧ HarvestListInside base left (i + 1))

def HarvestInside : Prop :=
  tableOffset table 2 + 8 ≤ tableSize ∧
  (HarvestSigned table → HarvestListInside table (tableOffset table 2) 32 0)

theorem ends_dumpHarvestList {level base : Nat} (left i : Nat) :
    Ends (dumpHarvestList table level base left i) ↔ HarvestListInside table base left i := by
  induction left generalizing i with
  | zero => exact iff_of_true (ends_ok _) trivial
  | succ left ih =>
      rw [dumpHarvestList, ends_readAt, ends_ite, and_iff_right fun _ => ends_ok _, ends_readAt,
        ends_map, ih]
      exact Iff.rfl

theorem ends_dumpHarvestInfo {level : Nat} :
    Ends (dumpHarvestInfo table level) ↔ HarvestInside table := by
  unfold dumpHarvestInfo HarvestInside
  rw [ends_readAt_header table (by decide), ← tableOffset, ends_readAt, ends_readAt, ends_ite,
    and_iff_right fun _ => ends_pure _, not_not, ends_map, ends_dumpHarvestList]
  constructor
  · rintro ⟨header, -, list⟩
    exact ⟨header, list⟩
  · rintro ⟨header, list⟩
    exact ⟨header, by omega, list⟩

def DumpInside : Prop :=
  Signed table → IpInside table ∧
    (IpSigned table → GcInside table ∧ (GcSigned table → HarvestInside table))

theorem ends_bind_signed {α : Type} {prog : Except DiscoveryFault Dump}
    {next : Dump → Except DiscoveryFault α} {signed rest : Prop}
    (ret : ∀ dump, prog = .ok dump → (dump.report.ret = 0 ↔ signed))
    (further : ∀ dump, Ends (next dump) ↔ (dump.report.ret = 0 → rest)) :
    Ends (prog >>= next) ↔ Ends prog ∧ (signed → rest) := by
  rw [ends_bind]
  constructor
  · rintro ⟨dump, dumped, ends⟩
    exact ⟨⟨dump, dumped⟩, fun holds => (further dump).mp ends ((ret dump dumped).mpr holds)⟩
  · rintro ⟨⟨dump, dumped⟩, holds⟩
    refine ⟨dump, dumped, (further dump).mpr fun zero => ?_⟩
    exact holds ((ret dump dumped).mp zero)

theorem ends_dumpTable (asicname : List Char) :
    Ends (umrDiscoveryDumpTable asicname table) ↔ DumpInside table := by
  unfold umrDiscoveryDumpTable DumpInside
  rw [ends_readAt_header table (by decide), ends_ite, and_iff_right fun _ => ends_pure _, not_not]
  refine imp_congr_right fun _ => ?_
  rw [ends_readAt_header table (by decide), ends_readAt_header table (by decide),
    ends_readAt_header table (by decide), ends_readAt_header table (by decide)]
  dsimp only
  rw [ends_bind_signed (fun dump dumped => dumpIpDiscovery_ret table dumped) fun dump => ?_,
    ends_dumpIpDiscovery]
  rw [ends_ite, and_iff_right fun _ => ends_pure _, not_not]
  refine imp_congr_right fun _ => ?_
  rw [ends_bind_signed (fun dump dumped => dumpGc_ret table dumped) fun dump => ?_, ends_dumpGc]
  rw [ends_ite, and_iff_right fun _ => ends_pure _, not_not, ends_map, ends_dumpHarvestInfo]

def ReadsInside (asicname : List Char) : Prop :=
  Ends (umrDiscoveryVerifyTable table) ∧ Ends (umrDiscoveryDumpTable asicname table)

theorem readsInside_iff (asicname : List Char) :
    ReadsInside table asicname ↔ VerifyInside table ∧ DumpInside table :=
  and_congr (ends_verifyTable table) (ends_dumpTable table asicname)

end Bounds

/-- A binary of nothing but its signature: the size minus the header wraps around. -/
def signatureOnly : DiscoveryBinary :=
  Vector.ofFn fun i => [0x07, 0x14, 0x21, 0x28].getD i.val 0

theorem signatureOnly_byte (i : Nat) :
    signatureOnly[i]?.getD 0 = [(0x07 : UInt8), 0x14, 0x21, 0x28].getD i 0 := by
  by_cases inside : i < tableSize
  · rw [Vector.getElem?_eq_getElem inside, signatureOnly, Vector.getElem_ofFn]
    rfl
  · have past : ([(0x07 : UInt8), 0x14, 0x21, 0x28].length ≤ i) :=
      Nat.le_trans (by decide : 4 ≤ tableSize) (Nat.le_of_not_lt inside)
    rw [Vector.getElem?_eq_none (Nat.le_of_not_lt inside), List.getD_eq_default _ _ past]
    rfl

theorem signatureOnly_field (off width : Nat) :
    field signatureOnly off width = ((List.range width).map fun k =>
      ([(0x07 : UInt8), 0x14, 0x21, 0x28].getD (off + k) 0).toNat * 256 ^ k).sum := by
  unfold field
  simp only [signatureOnly_byte]

theorem readsInside_not_signatureOnly : ¬ ReadsInside signatureOnly "polaris".toList := by
  intro inside
  have signed : Signed signatureOnly := by
    rw [Signed, signatureOnly_field]
    decide
  have range := ((ends_verifyTable signatureOnly).mp inside.1 signed).1
  have size : binaryRange signatureOnly = 65526 := by
    rw [binaryRange, signatureOnly_field]
    decide
  rw [size] at range
  exact absurd range (by decide)

end Umr.Database
