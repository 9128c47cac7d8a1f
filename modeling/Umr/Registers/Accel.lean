import Umr.Lib.LowerBound
import Umr.Rumr.SerialAsic

/-!
# Registers by address

`umr_create_mmio_accel` of `create_mmio_accel.c` and `umr_find_reg_by_addr` of
`find_reg.c`.  A register is told by the number of its block and its number in
the block.
-/

set_option autoImplicit false

namespace Umr.Registers

open Umr.Lib Umr.Rumr

def regMmio : UInt32 := 0

structure AccelData where
  mmioAddr : UInt64
  ord : Nat
  ip : Nat
  reg : Nat
  deriving DecidableEq, Repr

def sortAddr (a b : AccelData) : Int :=
  if a.mmioAddr > b.mmioAddr then 1
  else if a.mmioAddr < b.mmioAddr then -1
  else if a.ord > b.ord then 1
  else if a.ord < b.ord then -1
  else 0

def mmioRegs (blocks : List IpBlock) : List (UInt64 × Nat × Nat) :=
  blocks.zipIdx.flatMap fun block =>
    (block.1.regs.zipIdx.filter fun reg => reg.1.type = regMmio).map fun reg =>
      (reg.1.addr, block.2, reg.2)

def accelData (blocks : List IpBlock) : List AccelData :=
  (mmioRegs blocks).zipIdx.map fun entry => ⟨entry.1.1, entry.2, entry.1.2.1, entry.1.2.2⟩

/-- The registers are counted and numbered in 32 bits: with more of them the table is written
beyond its end. -/
def umrCreateMmioAccel (blocks : List IpBlock) : Option (List AccelData) :=
  if (accelData blocks).length < 2 ^ 32 then
    some ((accelData blocks).mergeSort fun a b => sortAddr a b ≤ 0)
  else none

def midpoint (bot top : Nat) : Option Nat := some ((bot + top) % 2 ^ 32 / 2)

def addrBelow (table : List AccelData) (addr : UInt64) (mid : Nat) : Bool :=
  table[mid]?.any fun entry => entry.mmioAddr < addr

/-- The lookup through the table, as far as `fuel` turns of its loop go. -/
def umrFindRegByAddr (table : List AccelData) (addr : UInt64) (fuel : Nat) :
    Option (Option (Nat × Nat)) :=
  (loop (searchTurn midpoint (addrBelow table addr)) fuel (0, table.length)).map fun found =>
    found.bind fun bot => table[bot]?.bind fun entry =>
      if entry.mmioAddr = addr then some (entry.ip, entry.reg) else none

def findRegByAddrScan (blocks : List IpBlock) (addr : UInt64) : Option (Nat × Nat) :=
  blocks.zipIdx.findSome? fun block => block.1.regs.zipIdx.findSome? fun reg =>
    if reg.1.type = regMmio ∧ reg.1.addr = addr then some (block.2, reg.2) else none

/-! ## The order of the table -/

theorem sortAddr_le_iff {a b : AccelData} : sortAddr a b ≤ 0 ↔
    a.mmioAddr < b.mmioAddr ∨ a.mmioAddr = b.mmioAddr ∧ a.ord ≤ b.ord := by
  simp only [sortAddr, UInt64.lt_iff_toNat_lt, ← UInt64.toNat_inj, gt_iff_lt]
  split_ifs <;> omega

theorem table_sorted (blocks : List IpBlock) :
    ((accelData blocks).mergeSort fun a b => sortAddr a b ≤ 0).Pairwise
      fun a b => sortAddr a b ≤ 0 := by
  have sorted : ((accelData blocks).mergeSort fun a b => decide (sortAddr a b ≤ 0)).Pairwise
      fun a b => decide (sortAddr a b ≤ 0) = true := by
    refine List.pairwise_mergeSort ?_ ?_ _
    · intro a b c first second
      simp only [decide_eq_true_eq, sortAddr_le_iff, UInt64.lt_iff_toNat_lt,
        ← UInt64.toNat_inj] at first second ⊢
      omega
    · intro a b
      simp only [Bool.or_eq_true, decide_eq_true_eq, sortAddr_le_iff, UInt64.lt_iff_toNat_lt,
        ← UInt64.toNat_inj]
      omega
  refine sorted.imp ?_
  intro a b ordered
  exact of_decide_eq_true ordered

theorem accelData_ord {blocks : List IpBlock} {k : Nat} {entry : AccelData}
    (isEntry : (accelData blocks)[k]? = some entry) : entry.ord = k := by
  rw [accelData, List.getElem?_map, List.getElem?_zipIdx, Option.map_map] at isEntry
  obtain ⟨raw, -, rfl⟩ := Option.map_eq_some_iff.mp isEntry
  simp

theorem accelData_unnumbered (blocks : List IpBlock) :
    (accelData blocks).map (fun entry => (entry.mmioAddr, entry.ip, entry.reg)) =
      mmioRegs blocks := by
  rw [accelData, List.map_map]
  exact List.zipIdx_map_fst 0 _

theorem findRegByAddrScan_find (blocks : List IpBlock) (addr : UInt64) :
    findRegByAddrScan blocks addr =
      ((mmioRegs blocks).find? fun entry => entry.1 = addr).map Prod.snd := by
  rw [mmioRegs, List.find?_flatMap, List.map_findSome?, findRegByAddrScan]
  congr 1
  funext block
  rw [Function.comp_apply, List.find?_map, List.find?_filter, Option.map_map,
    List.find?_eq_findSome?_guard, List.map_findSome?]
  congr 1
  funext reg
  simp only [Function.comp_apply, Option.guard, decide_eq_true_eq]
  split_ifs <;> rfl

theorem findRegByAddrScan_eq (blocks : List IpBlock) (addr : UInt64) :
    findRegByAddrScan blocks addr =
      ((accelData blocks).find? fun entry => entry.mmioAddr = addr).map
        fun entry => (entry.ip, entry.reg) := by
  rw [findRegByAddrScan_find, ← accelData_unnumbered, List.find?_map, Option.map_map]
  rfl

/-- The scan finds an MMIO register of the address, if there is one. -/
theorem findRegByAddrScan_some {blocks : List IpBlock} {addr : UInt64} {place : Nat × Nat}
    (found : findRegByAddrScan blocks addr = some place) : (addr, place) ∈ mmioRegs blocks := by
  rw [findRegByAddrScan_find] at found
  obtain ⟨⟨other, regPlace⟩, isFirst, rfl⟩ := Option.map_eq_some_iff.mp found
  have passes := List.find?_some isFirst
  have hasAddr : other = addr := of_decide_eq_true passes
  rw [← hasAddr]
  exact List.mem_of_find?_eq_some isFirst

theorem findRegByAddrScan_eq_none_iff {blocks : List IpBlock} {addr : UInt64} :
    findRegByAddrScan blocks addr = none ↔ ∀ entry ∈ mmioRegs blocks, entry.1 ≠ addr := by
  rw [findRegByAddrScan_find, Option.map_eq_none_iff, List.find?_eq_none]
  simp only [decide_eq_true_eq, ne_eq]

/-! ## The search -/

theorem addrBelow_eq {table : List AccelData} {addr : UInt64} {i : Nat}
    (inside : i < table.length) : addrBelow table addr i = decide (table[i].mmioAddr < addr) := by
  rw [addrBelow, List.getElem?_eq_getElem inside, Option.any_some]

theorem addrBelow_sorted {table : List AccelData}
    (sorted : table.Pairwise fun a b => sortAddr a b ≤ 0) (addr : UInt64) {i j : Nat}
    (order : i ≤ j) (inside : j < table.length) (isBelow : addrBelow table addr j = true) :
    addrBelow table addr i = true := by
  rcases Nat.eq_or_lt_of_le order with rfl | less
  · exact isBelow
  · have ordered := List.pairwise_iff_getElem.mp sorted i j (by omega) inside less
    rw [addrBelow_eq inside, decide_eq_true_eq] at isBelow
    rw [addrBelow_eq (by omega), decide_eq_true_eq]
    simp only [sortAddr_le_iff, UInt64.lt_iff_toNat_lt, ← UInt64.toNat_inj] at ordered isBelow ⊢
    omega

/-- At the lower bound stands the first register of the database that has the address. -/
theorem lowerBound_entry {blocks : List IpBlock} {table : List AccelData} {addr : UInt64}
    {place : Nat} (perm : table.Perm (accelData blocks))
    (sorted : table.Pairwise fun a b => sortAddr a b ≤ 0)
    (bound : IsLowerBound (addrBelow table addr) table.length place) :
    (table[place]?.bind fun entry =>
      if entry.mmioAddr = addr then some (entry.ip, entry.reg) else none) =
      ((accelData blocks).find? fun entry => entry.mmioAddr = addr).map
        fun entry => (entry.ip, entry.reg) := by
  cases found : (accelData blocks).find? fun entry => entry.mmioAddr = addr with
  | none =>
      have absent : ∀ entry ∈ table, entry.mmioAddr ≠ addr := by
        intro entry member same
        have no := List.find?_eq_none.mp found entry (perm.mem_iff.mp member)
        exact no (decide_eq_true same)
      cases atPlace : table[place]? with
      | none => rfl
      | some entry =>
          rw [Option.bind_some, if_neg (absent entry (List.mem_of_getElem? atPlace))]
          rfl
  | some first =>
      obtain ⟨hasAddr, k, kInside, isFirst, earlier⟩ := List.find?_eq_some_iff_getElem.mp found
      rw [decide_eq_true_eq] at hasAddr
      -- The first register is in the table, at or behind the lower bound.
      obtain ⟨at_, atInside, atFirst⟩ := List.getElem_of_mem
        (perm.mem_iff.mpr (List.mem_of_find?_eq_some found))
      have notBelow : addrBelow table addr at_ = false := by
        rw [addrBelow_eq atInside, atFirst, hasAddr, decide_eq_false_iff_not]
        exact UInt64.lt_irrefl addr
      have behind : place ≤ at_ := by
        by_contra before
        have yes := bound.before at_ (by omega)
        rw [notBelow] at yes
        cases yes
      have placeInside : place < table.length := by omega
      have placeOrder : sortAddr table[place] first ≤ 0 := by
        rcases Nat.eq_or_lt_of_le behind with same | less
        · subst same
          rw [atFirst, sortAddr_le_iff]
          exact Or.inr ⟨rfl, Nat.le_refl _⟩
        · rw [← atFirst]
          exact List.pairwise_iff_getElem.mp sorted place at_ placeInside atInside less
      have placeAbove := bound.after place placeInside (Nat.le_refl _)
      rw [addrBelow_eq placeInside, decide_eq_false_iff_not] at placeAbove
      rw [sortAddr_le_iff, hasAddr] at placeOrder
      obtain ⟨sameAddr, ordLe⟩ := placeOrder.resolve_left placeAbove
      -- It is no later in the database than the first one, so it is the first one.
      obtain ⟨k', kInside', isPlace⟩ := List.getElem_of_mem
        (perm.mem_iff.mp (List.getElem_mem placeInside))
      have ordFirst : first.ord = k := accelData_ord (by rw [List.getElem?_eq_getElem kInside, isFirst])
      have ordPlace : table[place].ord = k' :=
        accelData_ord (by rw [List.getElem?_eq_getElem kInside', isPlace])
      have notEarlier : ¬ k' < k := by
        intro less
        have no := earlier k' less
        rw [isPlace, sameAddr] at no
        simp at no
      have sameNumber : k' = k := by omega
      subst sameNumber
      have same : table[place] = first := isPlace.symm.trans isFirst
      rw [List.getElem?_eq_getElem placeInside, same, Option.bind_some, if_pos hasAddr]
      rfl

/-! ## The lookup against the scan -/

def mmioCount (blocks : List IpBlock) : Nat := (mmioRegs blocks).length

/-- For every address the lookup through the table ends, with the result of the scan. -/
def AccelAgrees (blocks : List IpBlock) : Prop :=
  ∃ table, umrCreateMmioAccel blocks = some table ∧
    ∀ addr, ∃ fuel, umrFindRegByAddr table addr fuel = some (findRegByAddrScan blocks addr)

theorem length_accelData (blocks : List IpBlock) :
    (accelData blocks).length = mmioCount blocks := by
  rw [accelData, List.length_map, List.length_zipIdx, mmioCount]

theorem table_eq {blocks : List IpBlock} {table : List AccelData}
    (created : umrCreateMmioAccel blocks = some table) :
    table = (accelData blocks).mergeSort fun a b => decide (sortAddr a b ≤ 0) := by
  unfold umrCreateMmioAccel at created
  split_ifs at created
  exact (Option.some.inj created).symm

theorem created_sorted {blocks : List IpBlock} {table : List AccelData}
    (created : umrCreateMmioAccel blocks = some table) :
    table.Pairwise fun a b => sortAddr a b ≤ 0 := by
  rw [table_eq created]
  exact table_sorted blocks

theorem table_perm {blocks : List IpBlock} {table : List AccelData}
    (created : umrCreateMmioAccel blocks = some table) : table.Perm (accelData blocks) := by
  rw [table_eq created]
  exact List.mergeSort_perm _ _

theorem search_some {table : List AccelData} {addr : UInt64} {fuel : Nat} {ended : Option Nat}
    (search : loop (searchTurn midpoint (addrBelow table addr)) fuel (0, table.length) =
      some ended) : ∃ place, ended = some place := by
  cases ended with
  | some place => exact ⟨place, rfl⟩
  | none =>
      obtain ⟨visit, -, last⟩ := loop_result search
      unfold searchTurn at last
      split_ifs at last
      · dsimp only [midpoint] at last
        split_ifs at last
      · cases last

/-- A lookup through the table that ends has the result of the scan. -/
theorem umrFindRegByAddr_sound {blocks : List IpBlock} {table : List AccelData} {addr : UInt64}
    {fuel : Nat} {result : Option (Nat × Nat)} (created : umrCreateMmioAccel blocks = some table)
    (found : umrFindRegByAddr table addr fuel = some result) :
    result = findRegByAddrScan blocks addr := by
  have sorted := created_sorted created
  have probes : ∀ bot top probe, bot < top → top ≤ table.length → midpoint bot top = some probe →
      probe < top := by
    intro bot top probe less inside isProbe
    cases isProbe
    omega
  rw [umrFindRegByAddr] at found
  obtain ⟨ended, search, rfl⟩ := Option.map_eq_some_iff.mp found
  obtain ⟨place, rfl⟩ := search_some search
  have bound := search_lowerBound probes
    (fun i j order inside => addrBelow_sorted sorted addr order inside) (Nat.zero_le _)
    (Nat.le_refl _) (fun i less => absurd less (Nat.not_lt_zero i))
    (fun i inside behind => absurd inside (Nat.not_lt.mpr behind)) search
  rw [Option.bind_some, lowerBound_entry (table_perm created) sorted bound, findRegByAddrScan_eq]

/-! ### Where the sum of the bounds wraps -/

/-- The lower bounds of a search in a table of `count` registers that only goes up: each is one more
than the midpoint of the one before, which may have wrapped. -/
def rise32 (count : Nat) : Nat → Nat := climb fun bot => (bot + count) % 2 ^ 32 / 2

def regsBelow (blocks : List IpBlock) (addr : UInt64) : Nat :=
  (mmioRegs blocks).countP fun entry => entry.1 < addr

/-- Going up gets past `key` of `count` registers, or to the end of them. -/
def GetsPast (count key : Nat) : Prop := ∃ k, min (key + 1) count ≤ rise32 count k

theorem rise32_succ (count k : Nat) :
    rise32 count (k + 1) = (rise32 count k + count) % 2 ^ 32 / 2 + 1 := climb_succ _ k

section Table
variable {blocks : List IpBlock} {table : List AccelData}
  (created : umrCreateMmioAccel blocks = some table)
include created

theorem length_table : table.length = mmioCount blocks := by
  rw [(table_perm created).length_eq, length_accelData]

theorem addrBelow_counts (addr : UInt64) {i : Nat} (inside : i < table.length) :
    addrBelow table addr i = true ↔ i < regsBelow blocks addr := by
  have sorted := created_sorted created
  have counted : regsBelow blocks addr =
      table.countP fun entry => decide (entry.mmioAddr < addr) := by
    rw [regsBelow, ← accelData_unnumbered, List.countP_map, (table_perm created).countP_eq]
    rfl
  rw [addrBelow_eq inside, counted]
  refine @getElem_iff_lt_countP _ (fun entry : AccelData => decide (entry.mmioAddr < addr)) table
    (sorted.imp ?_) i inside
  intro a b ordered isBelow
  rw [decide_eq_true_eq] at isBelow ⊢
  simp only [sortAddr_le_iff, UInt64.lt_iff_toNat_lt, ← UInt64.toNat_inj] at ordered isBelow ⊢
  omega

/-- A search ends exactly if going up gets past the registers below its address: the first probe
that is not below is smaller than `2^31`, and no sum wraps from there on. -/
theorem search_ends_iff (few : mmioCount blocks < 2 ^ 32) (addr : UInt64) :
    (∃ fuel place, loop (searchTurn midpoint (addrBelow table addr)) fuel (0, table.length) =
        some (some place)) ↔
      GetsPast (mmioCount blocks) (regsBelow blocks addr) := by
  have counts : ∀ i < table.length, addrBelow table addr i = true ↔ i < regsBelow blocks addr :=
    fun i inside => addrBelow_counts created addr inside
  have inside : regsBelow blocks addr ≤ table.length := by
    rw [length_table created]
    exact List.countP_le_length
  rw [← length_table created] at few ⊢
  generalize regsBelow blocks addr = key at counts inside
  have climbs := fun (k : Nat) (up : ∀ j ≤ k, rise32 table.length j < min (key + 1) table.length) =>
    @search_climb midpoint (addrBelow table addr) (fun bot => (bot + table.length) % 2 ^ 32 / 2)
      table.length key counts inside k (fun _ _ => rfl)
      (fun j less => lt_of_lt_of_le (up j (Nat.le_of_lt less)) (Nat.min_le_right _ _))
      (fun j less => Nat.le_of_lt_succ (lt_of_lt_of_le (up (j + 1) less) (Nat.min_le_left _ _)))
  constructor
  · rintro ⟨fuel, place, ended⟩
    by_contra never
    have up : ∀ k, rise32 table.length k < min (key + 1) table.length := by
      intro k
      by_contra past
      exact never ⟨k, Nat.le_of_not_lt past⟩
    have longer := (loop_fuel (Nat.le_add_left fuel 0) ended).1
    have still := climbs fuel (fun j _ => up j) 0
    rw [loop] at still
    rw [still] at longer
    cases longer
  · intro past
    have isPast := Nat.find_spec past
    have least : ∀ j, j < Nat.find past → rise32 table.length j < min (key + 1) table.length :=
      fun j less => Nat.lt_of_not_le (Nat.find_min past less)
    generalize Nat.find past = k at isPast least
    cases k with
    | zero =>
        have empty : table.length = 0 := by
          change min (key + 1) table.length ≤ 0 at isPast
          omega
        refine ⟨1, 0, ?_⟩
        rw [empty]
        rfl
    | succ k =>
        have here := least k (Nat.lt_succ_self k)
        have reached := climbs k (fun j le => least j (Nat.lt_succ_of_le le))
        rw [rise32_succ] at isPast
        change ∀ fuel, loop _ (fuel + k) _ = loop _ fuel (rise32 table.length k, table.length)
          at reached
        generalize rise32 table.length k = bot at here isPast reached
        have open_ : bot < table.length := lt_of_lt_of_le here (Nat.min_le_right _ _)
        have turn := @searchTurn_probe midpoint (addrBelow table addr) bot table.length _ open_ rfl
        by_cases goesUp : (bot + table.length) % 2 ^ 32 / 2 < key
        · -- The last register is passed, and the bounds are together.
          rw [(counts _ (by omega)).mpr goesUp, if_pos rfl] at turn
          have closed : searchTurn midpoint (addrBelow table addr)
              ((bot + table.length) % 2 ^ 32 / 2 + 1, table.length) =
                .done (some ((bot + table.length) % 2 ^ 32 / 2 + 1)) := by
            rw [searchTurn, if_neg (by dsimp only; omega)]
          exact ⟨1 + 1 + k, _, (reached _).trans ((loop_again turn _).trans (loop_done closed _))⟩
        · -- A sum that wraps gives a probe below `bot`, so this one did not.
          have isAbove : addrBelow table addr ((bot + table.length) % 2 ^ 32 / 2) = false := by
            rw [← Bool.not_eq_true, counts _ (by omega)]
            exact goesUp
          rw [isAbove, if_neg Bool.false_ne_true] at turn
          have between : Between midpoint ((bot + table.length) % 2 ^ 32 / 2) := by
            intro low high probe less atMost isProbe
            cases isProbe
            omega
          obtain ⟨place, ended⟩ := @search_ends midpoint (addrBelow table addr) _ between
            (fun _ _ _ _ => ⟨_, rfl⟩) ((bot + table.length) % 2 ^ 32 / 2 + 1) bot
            ((bot + table.length) % 2 ^ 32 / 2) (by omega) (Nat.le_refl _) (by omega)
          exact ⟨_ + 1 + k, place, (reached _).trans ((loop_again turn _).trans ended)⟩

end Table

theorem past_of_accelAgrees {blocks : List IpBlock} (agrees : AccelAgrees blocks) :
    mmioCount blocks < 2 ^ 32 ∧ ∀ addr, GetsPast (mmioCount blocks) (regsBelow blocks addr) := by
  obtain ⟨table, created, lookups⟩ := agrees
  have few : mmioCount blocks < 2 ^ 32 := by
    rw [← length_accelData]
    unfold umrCreateMmioAccel at created
    split_ifs at created with few
    exact few
  refine ⟨few, fun addr => (search_ends_iff created few addr).mp ?_⟩
  obtain ⟨fuel, found⟩ := lookups addr
  obtain ⟨ended, search, -⟩ := Option.map_eq_some_iff.mp found
  obtain ⟨place, rfl⟩ := search_some search
  exact ⟨fuel, place, search⟩

theorem accelAgrees_of_past {blocks : List IpBlock} (few : mmioCount blocks < 2 ^ 32)
    (past : ∀ addr, GetsPast (mmioCount blocks) (regsBelow blocks addr)) : AccelAgrees blocks := by
  obtain ⟨table, created⟩ : ∃ table, umrCreateMmioAccel blocks = some table :=
    ⟨_, if_pos (by rw [length_accelData]; exact few)⟩
  refine ⟨table, created, fun addr => ?_⟩
  obtain ⟨fuel, place, ended⟩ := (search_ends_iff created few addr).mpr (past addr)
  obtain ⟨result, found⟩ : ∃ result, umrFindRegByAddr table addr fuel = some result :=
    ⟨_, congrArg (Option.map _) ended⟩
  exact ⟨fuel, by rw [found, umrFindRegByAddr_sound created found]⟩

/-- The table gives what the scan gives exactly if there is one, and for every address the search
goes up past the registers below it. -/
theorem umrFindRegByAddr_agrees_iff (blocks : List IpBlock) :
    AccelAgrees blocks ↔ mmioCount blocks < 2 ^ 32 ∧
      ∀ addr, GetsPast (mmioCount blocks) (regsBelow blocks addr) := by
  constructor
  · exact past_of_accelAgrees
  · rintro ⟨few, past⟩
    exact accelAgrees_of_past few past

/-- Up to `2^31` registers no sum wraps. -/
theorem getsPast_of_few {count : Nat} (few : count ≤ 2 ^ 31) (key : Nat) : GetsPast count key := by
  by_contra never
  have below : ∀ k, rise32 count k < count := by
    intro k
    by_contra past
    exact never ⟨k, Nat.le_trans (Nat.min_le_right _ _) (Nat.le_of_not_lt past)⟩
  have rises : ∀ k, k ≤ rise32 count k := by
    intro k
    induction k with
    | zero => exact Nat.zero_le _
    | succ k ih =>
        have inside := below k
        rw [rise32_succ]
        omega
  exact absurd (below count) (Nat.not_lt.mpr (rises count))

theorem accelAgrees_of_count {blocks : List IpBlock} (few : mmioCount blocks ≤ 2 ^ 31) :
    AccelAgrees blocks :=
  accelAgrees_of_past (by omega) fun _ => getsPast_of_few few _

/-- No probe reaches the place `2^31`. -/
theorem below_of_getsPast {count key : Nat} (past : GetsPast count key) :
    min (key + 1) count ≤ 2 ^ 31 := by
  obtain ⟨k, past⟩ := past
  refine past.trans ?_
  cases k with
  | zero => exact Nat.zero_le _
  | succ k =>
      rw [rise32_succ]
      omega

/-! ## A model of two registers at one address, and one of too many -/

def plainReg (addr : UInt64) (type : UInt32) : Reg := ⟨⟨[82], by simp⟩, type, addr, 0, []⟩

def plainBlock (regs : List Reg) : IpBlock := ⟨⟨[71], by simp⟩, ⟨0, 0, 0, 0, 0, 0⟩, regs⟩

def sharedAddress : List IpBlock :=
  [plainBlock [plainReg 0x20 0, plainReg 0x10 2, plainReg 0x10 0],
    plainBlock [plainReg 0x10 0, plainReg 0 0]]

theorem sharedAddress_agrees :
    AccelAgrees sharedAddress ∧ findRegByAddrScan sharedAddress 0x10 = some (0, 2) :=
  ⟨(umrFindRegByAddr_agrees_iff sharedAddress).mpr
    ⟨by decide, fun _ => getsPast_of_few (by decide) _⟩, by decide⟩

theorem mmioCount_eq (blocks : List IpBlock) :
    mmioCount blocks = (blocks.map fun block =>
      block.regs.countP fun reg => reg.type = regMmio).sum := by
  have each : ∀ block : IpBlock × Nat,
      ((block.1.regs.zipIdx.filter fun reg => reg.1.type = regMmio).map fun reg =>
        (reg.1.addr, block.2, reg.2)).length =
      block.1.regs.countP fun reg => reg.type = regMmio := by
    intro block
    rw [List.length_map, ← List.countP_eq_length_filter]
    conv_rhs => rw [← List.zipIdx_map_fst 0 block.1.regs, List.countP_map]
    rfl
  rw [mmioCount, mmioRegs, List.length_flatMap, List.map_congr_left fun block _ => each block]
  conv_rhs => rw [← List.zipIdx_map_fst 0 blocks, List.map_map]
  rfl

theorem mem_mmioRegs {blocks : List IpBlock} {entry : UInt64 × Nat × Nat}
    (member : entry ∈ mmioRegs blocks) :
    ∃ block ∈ blocks, ∃ reg ∈ block.regs, reg.addr = entry.1 := by
  obtain ⟨block, blockMember, listed⟩ := List.mem_flatMap.mp member
  obtain ⟨reg, regMember, rfl⟩ := List.mem_map.mp listed
  exact ⟨block.1, List.fst_mem_of_mem_zipIdx blockMember, reg.1,
    List.fst_mem_of_mem_zipIdx (List.mem_filter.mp regMember).1, rfl⟩

def crowdedBlock : IpBlock := plainBlock (List.replicate (2 ^ 30 + 1) (plainReg 0 0))

theorem crowdedBlock_count :
    (crowdedBlock.regs.countP fun reg => reg.type = regMmio) = 2 ^ 30 + 1 := by
  rw [crowdedBlock, plainBlock, List.countP_replicate, if_pos (by decide)]

/-- Two blocks of `2^30 + 1` registers at address zero: the search for address one does not end. -/
theorem crowdedBlocks_disagree : ¬ AccelAgrees [crowdedBlock, crowdedBlock] := by
  intro agrees
  have count : mmioCount [crowdedBlock, crowdedBlock] = 2 ^ 31 + 2 := by
    rw [mmioCount_eq]
    simp only [List.map_cons, List.map_nil, List.sum_cons, List.sum_nil, crowdedBlock_count]
    omega
  have allBelow : regsBelow [crowdedBlock, crowdedBlock] 1 = 2 ^ 31 + 2 := by
    refine (List.countP_eq_length.mpr ?_).trans count
    intro entry member
    obtain ⟨block, blockMember, reg, regMember, isAddr⟩ := mem_mmioRegs member
    have isBlock : block = crowdedBlock := by simpa using blockMember
    rw [isBlock, crowdedBlock, plainBlock] at regMember
    rw [← isAddr, List.eq_of_mem_replicate regMember]
    decide
  have few := below_of_getsPast ((past_of_accelAgrees agrees).2 1)
  rw [count, allBelow] at few
  omega

end Umr.Registers
