import Umr.Harness.Discovery
import Umr.Lib.Ranks

/-!
# The instances of an IP

`set_ip_logical_inst` of `build_discovery_entry_table.c`, which `add_ip_instances` calls for the
entries of an IP: the instances that are not harvested are numbered by the bits of a mask.
-/

set_option autoImplicit false

namespace Umr.Database

open Umr.Lib Umr.Harness

/-! ## The logical instances -/

def addInst (mask : UInt32) (det : DiscoveryEntry) : UInt32 :=
  if det.harvest = 0 then mask ||| (1 <<< UInt32.ofInt det.inst) else mask

def instMask (entries : List DiscoveryEntry) : UInt32 := entries.foldl addInst 0

/-- The bits of the mask below the instance; a word has no more than 32. -/
def logicalInst (mask : UInt32) (det : DiscoveryEntry) : Int :=
  if det.harvest = 0 then
    (setBits 32 (((1 <<< UInt32.ofInt det.inst) - 1) &&& mask).toNat : Int)
  else -1

def setIpLogicalInst (mask : UInt32) (entries : List DiscoveryEntry) : List DiscoveryEntry :=
  entries.map fun det => { det with logicalInst := logicalInst mask det }

/-! ## The mask -/

section Mask
variable {entries : List DiscoveryEntry}

def present (entries : List DiscoveryEntry) : List Nat :=
  (entries.filter fun det => det.harvest = 0).map fun det => det.inst.toNat

theorem present_cons (det : DiscoveryEntry) (entries : List DiscoveryEntry) :
    present (det :: entries) =
      if det.harvest = 0 then det.inst.toNat :: present entries else present entries := by
  unfold present
  by_cases kept : det.harvest = 0
  · rw [if_pos kept, List.filter_cons, if_pos (decide_eq_true kept), List.map_cons]
  · rw [if_neg kept, List.filter_cons, if_neg (by simpa using kept)]

/-- Instances of an IP, each once and with a bit of its own. -/
structure Distinct (entries : List DiscoveryEntry) : Prop where
  nodup : (entries.map DiscoveryEntry.inst).Nodup
  small : ∀ det ∈ entries, 0 ≤ det.inst ∧ det.inst < 32

theorem toNat_instBit {inst : Int} (small : 0 ≤ inst ∧ inst < 32) :
    ((1 : UInt32) <<< UInt32.ofInt inst).toNat = 2 ^ inst.toNat := by
  obtain ⟨n, rfl⟩ := Int.eq_ofNat_of_zero_le small.1
  have less : n < 32 := by exact_mod_cast small.2
  have shift : (UInt32.ofInt (n : Int)).toNat = n := by
    rw [UInt32.ofInt, UInt32.toNat_ofNat']
    omega
  have fits : 2 ^ n < 2 ^ 32 := Nat.pow_lt_pow_right (by decide) less
  rw [UInt32.toNat_shiftLeft, shift, Nat.mod_eq_of_lt less, Int.toNat_natCast]
  change 1 <<< n % 2 ^ 32 = 2 ^ n
  rw [Nat.one_shiftLeft, Nat.mod_eq_of_lt fits]

theorem testBit_instMask (small : ∀ det ∈ entries, 0 ≤ det.inst ∧ det.inst < 32) (i : Nat) :
    (instMask entries).toNat.testBit i = decide (i ∈ present entries) := by
  suffices gathered : ∀ (entries : List DiscoveryEntry) (mask : UInt32),
      (∀ det ∈ entries, 0 ≤ det.inst ∧ det.inst < 32) →
      (entries.foldl addInst mask).toNat.testBit i = (mask.toNat.testBit i || decide (i ∈ present entries)) by
    have all := gathered entries 0 small
    rw [UInt32.toNat_zero, Nat.zero_testBit, Bool.false_or] at all
    exact all
  intro entries
  induction entries with
  | nil =>
      intro mask _
      exact (Bool.or_false _).symm
  | cons det entries ih =>
      intro mask small
      obtain ⟨first, later⟩ := List.forall_mem_cons.mp small
      rw [List.foldl_cons, ih _ later, present_cons]
      unfold addInst
      by_cases kept : det.harvest = 0
      · rw [if_pos kept, if_pos kept, UInt32.toNat_or, toNat_instBit first, Nat.testBit_or,
          Nat.testBit_two_pow, Bool.or_assoc]
        simp only [List.mem_cons, Bool.decide_or, eq_comm]
      · rw [if_neg kept, if_neg kept]

/-! ## The numbers -/

theorem present_nodup (distinct : Distinct entries) : (present entries).Nodup := by
  have some_ : (entries.filter fun det => det.harvest = 0).map DiscoveryEntry.inst |>.Nodup :=
    distinct.nodup.sublist (List.filter_sublist.map _)
  have shape : present entries =
      ((entries.filter fun det => det.harvest = 0).map DiscoveryEntry.inst).map Int.toNat := by
    rw [List.map_map]
    rfl
  rw [shape]
  refine List.Nodup.map_on ?_ some_
  intro x xMember y yMember same
  obtain ⟨det, isDet, rfl⟩ := List.mem_map.mp xMember
  obtain ⟨other, isOther, rfl⟩ := List.mem_map.mp yMember
  have first := (distinct.small det (List.mem_filter.mp isDet).1).1
  have second := (distinct.small other (List.mem_filter.mp isOther).1).1
  omega

theorem present_small (distinct : Distinct entries) : ∀ m ∈ present entries, m < 32 := by
  intro m member
  obtain ⟨det, isDet, rfl⟩ := List.mem_map.mp member
  have small := distinct.small det (List.mem_filter.mp isDet).1
  omega

def instRank (entries : List DiscoveryEntry) (det : DiscoveryEntry) : Nat :=
  entries.countP fun other => other.harvest = 0 ∧ other.inst < det.inst

theorem instRank_eq (distinct : Distinct entries) {det : DiscoveryEntry} (member : det ∈ entries) :
    instRank entries det = rankIn (present entries) det.inst.toNat := by
  unfold instRank rankIn present
  rw [List.countP_map, List.countP_filter]
  refine List.countP_congr fun other isOther => ?_
  have first := (distinct.small det member).1
  have second := (distinct.small other isOther).1
  simp only [Function.comp, Bool.and_eq_true, decide_eq_true_eq, and_comm]
  refine and_congr_left fun _ => ?_
  omega

theorem logicalInst_present (distinct : Distinct entries) {det : DiscoveryEntry}
    (member : det ∈ entries) (kept : det.harvest = 0) :
    logicalInst (instMask entries) det = instRank entries det := by
  have small := distinct.small det member
  have one : (1 : UInt32) ≤ 1 <<< UInt32.ofInt det.inst := by
    rw [UInt32.le_iff_toNat_le, toNat_instBit small]
    exact Nat.one_le_two_pow
  have below : ∀ i, (((1 : UInt32) <<< UInt32.ofInt det.inst) - 1 &&& instMask entries).toNat.testBit i =
      decide (i ∈ present entries ∧ i < det.inst.toNat) := by
    intro i
    rw [UInt32.toNat_and, UInt32.toNat_sub_of_le _ _ one, toNat_instBit small, Nat.testBit_and,
      testBit_instMask distinct.small]
    change ((2 ^ det.inst.toNat - 1).testBit i && _) = _
    rw [Nat.testBit_two_pow_sub_one, Bool.decide_and, Bool.and_comm]
  rw [logicalInst, if_pos kept, instRank_eq distinct member,
    setBits_eq_rank (present_nodup distinct) (present_small distinct) below]

theorem setIpLogicalInst_eq (distinct : Distinct entries) :
    setIpLogicalInst (instMask entries) entries = entries.map fun det =>
      { det with logicalInst := if det.harvest = 0 then instRank entries det else -1 } := by
  refine List.map_congr_left fun det member => ?_
  by_cases kept : det.harvest = 0
  · rw [logicalInst_present distinct member kept, if_pos kept]
  · rw [logicalInst, if_neg kept, if_neg kept]

/-- The numbers that are given out are those from 0 on, once each. -/
theorem logicalInst_perm (distinct : Distinct entries) :
    (((setIpLogicalInst (instMask entries) entries).filter fun det => det.harvest = 0).map
      DiscoveryEntry.logicalInst).Perm
        ((List.range (present entries).length).map Int.ofNat) := by
  have ranks := (ranks_perm_range (present_nodup distinct)).map Int.ofNat
  refine List.Perm.trans (List.Perm.of_eq ?_) ranks
  unfold setIpLogicalInst present
  rw [List.filter_map, List.map_map, List.map_map, List.map_map]
  refine List.map_congr_left fun det member => ?_
  obtain ⟨isEntry, kept⟩ := List.mem_filter.mp member
  exact (logicalInst_present distinct isEntry (of_decide_eq_true kept)).trans
    (congrArg Int.ofNat (instRank_eq distinct isEntry))

/-- In any order, each instance that is not harvested gets its rank, the others -1. -/
theorem setIpLogicalInst_ranks (distinct : Distinct entries) :
    (setIpLogicalInst (instMask entries) entries = entries.map fun det =>
      { det with logicalInst := if det.harvest = 0 then instRank entries det else -1 }) ∧
    (((setIpLogicalInst (instMask entries) entries).filter fun det => det.harvest = 0).map
      DiscoveryEntry.logicalInst).Perm
        ((List.range (present entries).length).map Int.ofNat) :=
  ⟨setIpLogicalInst_eq distinct, logicalInst_perm distinct⟩

def threeInstances : List DiscoveryEntry :=
  [{ DiscoveryEntry.blank with inst := 2 }, { DiscoveryEntry.blank with inst := 0, harvest := 1 },
    { DiscoveryEntry.blank with inst := 1 }]

theorem threeInstances_ranks :
    (setIpLogicalInst (instMask threeInstances) threeInstances).map DiscoveryEntry.logicalInst =
      [1, -1, 0] := by
  have distinct : Distinct threeInstances := by
    refine ⟨by decide, ?_⟩
    intro det member
    have known : det.inst = 2 ∨ det.inst = 0 ∨ det.inst = 1 := by
      rcases List.mem_cons.mp member with rfl | member
      · exact .inl rfl
      · rcases List.mem_cons.mp member with rfl | member
        · exact .inr (.inl rfl)
        · exact .inr (.inr (congrArg DiscoveryEntry.inst (List.mem_singleton.mp member)))
    omega
  rw [(setIpLogicalInst_ranks distinct).1]
  decide

end Mask

end Umr.Database
