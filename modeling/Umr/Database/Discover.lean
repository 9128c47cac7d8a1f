import Umr.Database.Scan
import Umr.Harness.Discovery

/-!
# Blocks of a discovered ASIC

The loop of `umr_discover_asic_by_discovery_table` in `discover_by_ip_table.c`.
The table ends with an entry that was never filled, and the scan list with an
item that was never filled: the one always matches the other, takes a slot of its
own, and `no_blocks` leaves it out again.
-/

set_option autoImplicit false

namespace Umr.Database

open Umr.Lib Umr.Lib.Linked Umr.Harness

inductive TableSource where
  /-- `umr_parse_ip_discovery` -/
  | sysfs
  /-- `import_det_from_log`, of a table that was dumped -/
  | log
  deriving DecidableEq, Repr

/-- The number of blocks that is reported with a table of the entries and the unfilled one. -/
def numblocks (source : TableSource) (entries : List DiscoveryEntry) : Nat :=
  match source with
  | .sysfs => entries.length
  | .log => entries.length + 1

def findIp (db : List ScanItem) (desired : Option (List Char)) (cmnname : List UInt8)
    (maj min rev : Int) : Option ScanItem :=
  umrDatabaseFindIp (cmnname.map fun b => Char.ofNat b.toNat) maj min rev db desired

def matched (db : List ScanItem) (desired : Option (List Char)) (det : DiscoveryEntry) :
    Option ScanItem :=
  findIp db desired (commonName (CString.ofBuffer det.ipname.toList).bytes) det.maj det.min det.rev

section Discover
variable {Block : Type} (db : List ScanItem) (desired : Option (List Char))
variable (readIpBlock : DiscoveryEntry → ScanItem → Block)

/-- The writes `asic->blocks[used_blocks++] = ..` over a table. -/
def fillBlocks : Nat → List DiscoveryEntry → List (Nat × Block)
  | _, [] => []
  | used, det :: table =>
      match matched db desired det with
      | none => fillBlocks used table
      | some nit =>
          if det.harvest = 0 then (used, readIpBlock det nit) :: fillBlocks (used + 1) table
          else fillBlocks used table

/-- The slots allocated, what is written into them, and `no_blocks`. -/
structure AsicBlocks (Block : Type) where
  slots : Nat
  writes : List (Nat × Block)
  noBlocks : Int

def AsicBlocks.block {Block : Type} (asic : AsicBlocks Block) (x : Nat) : Option Block :=
  asic.writes.reverse.lookup x

def umrDiscoverAsicByDiscoveryTable (table : List DiscoveryEntry) (slots : Nat) :
    AsicBlocks Block where
  slots := slots
  writes := fillBlocks db desired readIpBlock 0 table
  noBlocks := (fillBlocks db desired readIpBlock 0 table).length - 1

/-- The blocks are those of the entries that are matched and not harvested, and every write stays
inside the slots. -/
def BuildsBlocks (source : TableSource) (entries : List DiscoveryEntry) : Prop :=
  let asic := umrDiscoverAsicByDiscoveryTable db desired readIpBlock (discoveryTable entries)
    (numblocks source entries)
  0 ≤ asic.noBlocks ∧
    (List.range asic.noBlocks.toNat).map asic.block =
      (ipBlocks (findIp db desired) readIpBlock entries).map some ∧
    ∀ write ∈ asic.writes, write.1 < asic.slots

def blockOf (det : DiscoveryEntry) : Option Block :=
  if det.harvest = 0 then (matched db desired det).map (readIpBlock det) else none

theorem ipBlocks_eq (table : List DiscoveryEntry) :
    ipBlocks (findIp db desired) readIpBlock table =
      table.filterMap (blockOf db desired readIpBlock) := by
  refine List.filterMap_congr fun det _ => ?_
  unfold blockOf matched
  dsimp only
  cases findIp db desired (commonName (CString.ofBuffer det.ipname.toList).bytes) det.maj det.min
    det.rev with
  | none => exact (ite_self _).symm
  | some nit => rfl

theorem fillBlocks_eq (used : Nat) (table : List DiscoveryEntry) :
    fillBlocks db desired readIpBlock used table =
      ((table.filterMap (blockOf db desired readIpBlock)).zipIdx used).map Prod.swap := by
  induction table generalizing used with
  | nil => rfl
  | cons det table ih =>
      rw [fillBlocks]
      cases isMatched : matched db desired det with
      | none =>
          have none_ : blockOf db desired readIpBlock det = none := by
            rw [blockOf, isMatched]
            exact ite_self _
          rw [List.filterMap_cons_none none_]
          exact ih used
      | some nit =>
          by_cases kept : det.harvest = 0
          · have block : blockOf db desired readIpBlock det = some (readIpBlock det nit) := by
              rw [blockOf, if_pos kept, isMatched]
              rfl
            rw [List.filterMap_cons_some block, List.zipIdx_cons, List.map_cons, ← ih]
            exact if_pos kept
          · have none_ : blockOf db desired readIpBlock det = none := if_neg kept
            rw [List.filterMap_cons_none none_, ← ih]
            exact if_neg kept

end Discover

section Writes
variable {Block : Type} (blocks : List Block)

theorem writes_index (bound : Nat) :
    (∀ write ∈ (blocks.zipIdx 0).map Prod.swap, write.1 < bound) ↔ blocks.length ≤ bound := by
  have member : ∀ write, write ∈ (blocks.zipIdx 0).map Prod.swap ↔
      blocks[write.1]? = some write.2 := by
    intro write
    rw [List.mem_map_swap, List.mem_zipIdx_iff_getElem?]
  constructor
  · intro inside
    by_contra longer
    have short : bound < blocks.length := Nat.lt_of_not_le longer
    have index := inside (bound, blocks[bound])
      ((member _).mpr (List.getElem?_eq_getElem short))
    exact Nat.lt_irrefl _ index
  · intro enough write isWrite
    obtain ⟨index, -⟩ := List.getElem?_eq_some_iff.mp ((member write).mp isWrite)
    exact Nat.lt_of_lt_of_le index enough

theorem lookup_writes (x : Nat) :
    ((blocks.zipIdx 0).map Prod.swap).reverse.lookup x = blocks[x]? := by
  induction blocks using List.reverseRecOn with
  | nil => rfl
  | append_singleton blocks block ih =>
      rw [List.zipIdx_append, List.map_append, List.reverse_append, Nat.zero_add]
      change List.lookup x
        ((blocks.length, block) :: ((blocks.zipIdx 0).map Prod.swap).reverse) = _
      rw [List.lookup_cons]
      by_cases last : x = blocks.length
      · rw [last, List.getElem?_concat_length, beq_self_eq_true]
      · rw [beq_false_of_ne last, ih]
        dsimp only
        by_cases inside : x < blocks.length
        · rw [List.getElem?_append_left inside]
        · rw [List.getElem?_eq_none (by omega), List.getElem?_eq_none]
          rw [List.length_append, List.length_singleton]
          omega

end Writes

/-! ## The entry and the item that were never filled -/

theorem commonName_blank :
    commonName (CString.ofBuffer DiscoveryEntry.blank.ipname.toList).bytes = [] := by
  decide

theorem matched_blank (found : List ScanItem) (desired : Option (List Char)) :
    ∃ nit, matched (found ++ [emptyItem]) desired .blank = some nit := by
  have empty : emptyItem ∈ (found ++ [emptyItem]).filter (candidate [] 0 none) :=
    List.mem_filter.mpr ⟨List.mem_append_right _ List.mem_cons_self, rfl⟩
  have some_ : candidates [] 0 (found ++ [emptyItem]) desired ≠ [] := by
    unfold candidates
    split
    · exact List.ne_nil_of_mem empty
    · assumption
  refine Option.ne_none_iff_exists'.mp ?_
  rw [matched, commonName_blank, findIp]
  change umrDatabaseFindIp [] 0 0 0 _ desired ≠ none
  rw [umrDatabaseFindIp_eq_argmax]
  exact fun none_ => some_ (List.argmax_eq_none.mp none_)

/-! ## The table as a whole -/

theorem filterMap_length_lt {α β : Type} (f : α → Option β) (list : List α) :
    (list.filterMap f).length < list.length ↔ ∃ a ∈ list, f a = none := by
  have same := @List.filterMap_length_eq_length α β f list
  have less := List.length_filterMap_le f list
  constructor
  · intro shorter
    by_contra all
    have whole : (list.filterMap f).length = list.length := by
      refine same.mpr fun a member => ?_
      cases value : f a with
      | none => exact absurd ⟨a, member, value⟩ all
      | some b => rfl
    omega
  · rintro ⟨a, member, none_⟩
    refine Nat.lt_of_le_of_ne less fun whole => ?_
    have some_ := same.mp whole a member
    rw [none_] at some_
    cases some_

section Table
variable {Block : Type} {db : List ScanItem} (desired : Option (List Char))
variable (readIpBlock : DiscoveryEntry → ScanItem → Block)

theorem buildsBlocks_of_ends {found : List ScanItem} (isDb : db = found ++ [emptyItem])
    (source : TableSource) (entries : List DiscoveryEntry) :
    BuildsBlocks db desired readIpBlock source entries ↔
      source = .log ∨ ∃ det ∈ entries, det.harvest ≠ 0 ∨ matched db desired det = none := by
  obtain ⟨nit, isMatched⟩ := matched_blank found desired
  rw [← isDb] at isMatched
  have blank : blockOf db desired readIpBlock .blank = some (readIpBlock .blank nit) := by
    have kept : DiscoveryEntry.blank.harvest = 0 := rfl
    rw [blockOf, if_pos kept, isMatched]
    rfl
  have writes : fillBlocks db desired readIpBlock 0 (discoveryTable entries) =
      ((entries.filterMap (blockOf db desired readIpBlock) ++
        [readIpBlock .blank nit]).zipIdx 0).map Prod.swap := by
    rw [fillBlocks_eq, discoveryTable, List.filterMap_append,
      List.filterMap_cons_some blank, List.filterMap_nil]
  obtain ⟨blocks, isBlocks⟩ : ∃ blocks, blocks =
      entries.filterMap (blockOf db desired readIpBlock) := ⟨_, rfl⟩
  have fewer : blocks.length < entries.length ↔
      ∃ det ∈ entries, det.harvest ≠ 0 ∨ matched db desired det = none := by
    rw [isBlocks, filterMap_length_lt]
    refine exists_congr fun det => and_congr_right fun _ => ?_
    unfold blockOf
    by_cases kept : det.harvest = 0
    · rw [if_pos kept, Option.map_eq_none_iff]
      exact ⟨Or.inr, fun either => either.resolve_left (absurd kept)⟩
    · rw [if_neg kept]
      exact iff_of_true rfl (Or.inl kept)
  have room : (∀ write ∈ fillBlocks db desired readIpBlock 0 (discoveryTable entries),
      write.1 < numblocks source entries) ↔ blocks.length + 1 ≤ numblocks source entries := by
    rw [writes, ← isBlocks, writes_index, List.length_append, List.length_singleton]
  have count : (((fillBlocks db desired readIpBlock 0 (discoveryTable entries)).length : Int) - 1) =
      blocks.length := by
    rw [writes, ← isBlocks, List.length_map, List.length_zipIdx, List.length_append,
      List.length_singleton]
    omega
  have inOrder : (List.range blocks.length).map (AsicBlocks.block
      ⟨numblocks source entries, fillBlocks db desired readIpBlock 0 (discoveryTable entries),
        blocks.length⟩) = blocks.map some := by
    refine List.ext_getElem (by simp) fun x inRange inBlocks => ?_
    rw [List.length_map] at inBlocks
    rw [List.getElem_map, List.getElem_range, List.getElem_map, AsicBlocks.block]
    dsimp only
    rw [writes, ← isBlocks, lookup_writes, List.getElem?_append_left inBlocks,
      List.getElem?_eq_getElem inBlocks]
  unfold BuildsBlocks umrDiscoverAsicByDiscoveryTable
  dsimp only
  rw [room, count, ipBlocks_eq, ← isBlocks, Int.toNat_natCast, inOrder]
  have most : blocks.length ≤ entries.length := by
    rw [isBlocks]
    exact List.length_filterMap_le _ _
  cases source with
  | sysfs =>
      rw [← fewer]
      constructor
      · exact fun builds => Or.inr builds.2.2
      · exact fun either => ⟨Int.natCast_nonneg _, rfl, either.resolve_left (by decide)⟩
  | log => exact iff_of_true ⟨Int.natCast_nonneg _, rfl, Nat.succ_le_succ most⟩ (Or.inl rfl)

/-- The blocks come out right exactly when some entry gets none: the entry at the end needs its
slot. -/
theorem buildsBlocks_iff {roots : List (List Char × Listing)} {heap : Heap}
    (scanned : umrDatabaseScan roots = some heap) (source : TableSource)
    (entries : List DiscoveryEntry) :
    BuildsBlocks (items heap (listed heap heap.length 0)) desired readIpBlock source entries ↔
      source = .log ∨ ∃ det ∈ entries, det.harvest ≠ 0 ∨
        matched (items heap (listed heap heap.length 0)) desired det = none := by
  obtain ⟨heap', ran, -, isItems⟩ := umrDatabaseScan_listed (umrDatabaseScan_fits scanned)
  cases scanned.symm.trans ran
  exact buildsBlocks_of_ends desired readIpBlock isItems source entries

end Table

def gcDatabase : List (List Char × Listing) :=
  [("/db".toList, .file "gc_11_0_0.reg".toList .done)]

def gcHeap : Heap := [⟨fill "/db".toList "gc_11_0_0.reg".toList emptyItem, some 1⟩, ⟨emptyItem, none⟩]

theorem gcDatabase_scanned : umrDatabaseScan gcDatabase = some gcHeap := by decide

theorem buildsBlocks_harvested :
    umrDatabaseScan gcDatabase = some gcHeap ∧
      BuildsBlocks (items gcHeap (listed gcHeap gcHeap.length 0)) none (fun det nit => (det, nit))
        .sysfs [gcEntry, harvestedGc] := by
  refine ⟨gcDatabase_scanned, (buildsBlocks_iff none _ gcDatabase_scanned _ _).mpr ?_⟩
  refine Or.inr ⟨harvestedGc, by simp, Or.inl ?_⟩
  decide

/-- Every entry gets a block, and the one at the end is written behind them. -/
theorem buildsBlocks_not_all_matched :
    umrDatabaseScan gcDatabase = some gcHeap ∧
      ¬ BuildsBlocks (items gcHeap (listed gcHeap gcHeap.length 0)) none (fun _ _ => ()) .sysfs
        [gcEntry] := by
  refine ⟨gcDatabase_scanned, fun builds => ?_⟩
  have last : (1, ()) ∈ (umrDiscoverAsicByDiscoveryTable
      (items gcHeap (listed gcHeap gcHeap.length 0)) none (fun _ _ => ())
      (discoveryTable [gcEntry]) (numblocks .sysfs [gcEntry])).writes := by
    decide
  exact absurd (builds.2.2 _ last) (by decide)

end Umr.Database
