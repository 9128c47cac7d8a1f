import Umr.Vm.Tables

/-!
# Linear addresses of an XGMI hive

The segments of the nodes are laid end to end; a linear address belongs to the node
whose VRAM it falls into.  The search of `umr_access_vram` is followed with its 64-bit
subtraction, with the rounding loop that may not end, and with the dereference of the
chosen node's own table in the check for blocks that span nodes.  An address that no node
claims goes to the opened part, where its bytes may be missing.
-/

set_option autoImplicit false

namespace Umr.Vm

open Umr.Lib

/-- A part that is opened with its hive.  `ownNodes` is `config.xgmi.nodes` of each GPU, up
to the first NULL; only the opened part is scanned for the nodes of its hive. -/
structure Hive where
  asic : Asic
  ownNodes : Nat → List XgmiNode
  opened : ownNodes asic.gpu = asic.xgmiNodes
  xgmi : asic.useXgmi = true

/-- How a call of `umr_access_vram` on a linear address ends: with an access to the `n`-th
node, with an access to the part and address it was called with, or without any. -/
inductive LinearCall where
  | refused
  | node (n rel : Nat)
  | caller
  | nullNode (n : Nat)
  | spinning
  deriving DecidableEq, Repr

/-- `round_up_next_gib` on 64-bit values: above the last whole GiB the loop never ends. -/
def roundUpGib (x : Nat) : Option Nat :=
  let rec go : Nat → Nat → Option Nat
    | 0, _ => none
    | steps + 1, y => if y < x then go steps ((y + 2 ^ 30) % 2 ^ 64) else some y
  go (2 ^ 34 + 1) (2 ^ 30)

/-- What the remaining address is compared with. -/
def searchedSize (segmentSize : Nat) (node : XgmiNode) : Nat :=
  if segmentSize ≠ 0 then segmentSize else node.vramSize

/-- What is subtracted from it on the way to the next node. -/
def skippedSize (segmentSize : Nat) (node : XgmiNode) : Option Nat :=
  if segmentSize ≠ 0 then some segmentSize else roundUpGib node.vramSize

def hiveLoop (ownNodes : Nat → List XgmiNode) (segmentSize : Nat) :
    Nat → List XgmiNode → Nat → LinearCall
  | _, [], _ => .caller
  | n, node :: nodes, addr =>
      if addr < searchedSize segmentSize node then
        -- `asic` is the chosen node by now, so this is the node's own table
        match (ownNodes node.gpu)[n]? with
        | none => .nullNode n
        | some _ => .node n addr
      else
        match skippedSize segmentSize node with
        | none => .spinning
        | some size => hiveLoop ownNodes segmentSize (n + 1) nodes (sub64 addr size)

def linearCall (hive : Hive) (address size dst : Nat) : LinearCall :=
  if address % 4 ≠ 0 ∨ size % 4 ≠ 0 then .refused
  else if dst % 4 ≠ 0 then .refused
  else hiveLoop hive.ownNodes (xgmiSegmentSize hive.asic) 0 hive.asic.xgmiNodes address

/-! ## The layout of the hive -/

def nodeSegment (segmentSize : Nat) (node : XgmiNode) : Nat :=
  if segmentSize ≠ 0 then segmentSize else roundUpNextGib node.vramSize

def segmentsBefore (segmentSize : Nat) (nodes : List XgmiNode) (n : Nat) : Nat :=
  ((nodes.take n).map (nodeSegment segmentSize)).sum

/-- The address is byte `rel` of the VRAM of the `n`-th node. -/
def LocatedAt (hive : Hive) (n rel address : Nat) : Prop :=
  ∃ node, hive.asic.xgmiNodes[n]? = some node ∧
    address = segmentsBefore (xgmiSegmentSize hive.asic) hive.asic.xgmiNodes n + rel ∧
    rel < node.vramSize

/-- Neither ends in a crash nor runs on. -/
def LinearCall.returns : LinearCall → Bool
  | .refused => true
  | .node _ _ => true
  | .caller => true
  | .nullNode _ => false
  | .spinning => false

section Access
variable (hive : Hive) (partition : Int) (vmid address size dst : Nat) (writeEn : Bool) (fuel : Nat)
  (state : State)

def linearStatus : Status :=
  (umrAccessVram hive.asic partition vmid address size (some dst) writeEn fuel state).1

/-- An address in a node's VRAM is accessed there; the access to any other address fails. -/
def RoutedInHive : Prop :=
  (∃ n rel, linearCall hive address size dst = .node n rel ∧ LocatedAt hive n rel address) ∨
    (∀ n rel, ¬ LocatedAt hive n rel address) ∧
      (linearCall hive address size dst).returns = true ∧
      linearStatus hive partition vmid address size dst writeEn fuel state = .failed

end Access

@[simp] theorem segmentsBefore_zero (segmentSize : Nat) (nodes : List XgmiNode) :
    segmentsBefore segmentSize nodes 0 = 0 := rfl

@[simp] theorem segmentsBefore_succ (segmentSize : Nat) (node : XgmiNode) (nodes : List XgmiNode)
    (n : Nat) :
    segmentsBefore segmentSize (node :: nodes) (n + 1) =
      nodeSegment segmentSize node + segmentsBefore segmentSize nodes n := by
  simp [segmentsBefore]

theorem roundUpNextGib_go_le {x : Nat} (steps y : Nat) (reaches : x ≤ y + steps * 2 ^ 30) :
    x ≤ roundUpNextGib.go x steps y := by
  induction steps generalizing y with
  | zero => simpa [roundUpNextGib.go] using reaches
  | succ steps ih =>
      unfold roundUpNextGib.go
      by_cases below : y < x
      · simp only [below, if_true]
        exact ih (y + 2 ^ 30) (by omega)
      · simp only [below, if_false]
        omega

theorem le_roundUpNextGib (x : Nat) : x ≤ roundUpNextGib x := by
  apply roundUpNextGib_go_le
  have := Nat.div_add_mod x (2 ^ 30)
  have := Nat.mod_lt x (show 0 < 2 ^ 30 by norm_num)
  omega

theorem roundUpNextGib_go_start (x steps y : Nat) : y ≤ roundUpNextGib.go x steps y := by
  induction steps generalizing y with
  | zero => exact le_refl y
  | succ steps ih =>
      unfold roundUpNextGib.go
      split
      · exact le_trans (Nat.le_add_right y (2 ^ 30)) (ih (y + 2 ^ 30))
      · exact le_refl y

/-- As long as the rounded value is a word, the 64-bit loop computes it. -/
theorem roundUpGib_go_eq {x : Nat} (extra steps y : Nat) (reaches : x ≤ y + steps * 2 ^ 30)
    (fits : roundUpNextGib.go x steps y < 2 ^ 64) :
    roundUpGib.go x (steps + 1 + extra) y = some (roundUpNextGib.go x steps y) := by
  induction steps generalizing y with
  | zero =>
      have done : ¬ y < x := by omega
      rw [show 0 + 1 + extra = extra + 1 by omega]
      simp [roundUpGib.go, roundUpNextGib.go, done]
  | succ steps ih =>
      rw [show steps + 1 + 1 + extra = steps + 1 + extra + 1 by omega]
      unfold roundUpGib.go roundUpNextGib.go
      unfold roundUpNextGib.go at fits
      by_cases below : y < x
      · simp only [below, if_true] at fits ⊢
        have grown := roundUpNextGib_go_start x steps (y + 2 ^ 30)
        rw [Nat.mod_eq_of_lt (by omega)]
        exact ih (y + 2 ^ 30) (by omega) fits
      · simp [below]

/-- Beyond the last whole GiB the loop runs through all multiples of 1 GiB again and again. -/
theorem roundUpGib_go_none {x : Nat} (large : 2 ^ 64 - 2 ^ 30 < x) (steps gib : Nat)
    (word : gib < 2 ^ 34) : roundUpGib.go x steps (gib * 2 ^ 30) = none := by
  induction steps generalizing gib with
  | zero => rfl
  | succ steps ih =>
      have below : gib * 2 ^ 30 < x := by omega
      have next : (gib * 2 ^ 30 + 2 ^ 30) % 2 ^ 64 = (gib + 1) % 2 ^ 34 * 2 ^ 30 := by omega
      unfold roundUpGib.go
      rw [if_pos below, next]
      exact ih _ (Nat.mod_lt _ (by norm_num))

theorem roundUpNextGib_go_lt {x : Nat} (small : x ≤ 2 ^ 64 - 2 ^ 30) (steps y : Nat)
    (word : y < 2 ^ 64) : roundUpNextGib.go x steps y < 2 ^ 64 := by
  induction steps generalizing y with
  | zero => exact word
  | succ steps ih =>
      unfold roundUpNextGib.go
      split
      · exact ih (y + 2 ^ 30) (by omega)
      · exact word

theorem roundUpNextGib_lt {x : Nat} (small : x ≤ 2 ^ 64 - 2 ^ 30) : roundUpNextGib x < 2 ^ 64 :=
  roundUpNextGib_go_lt small _ _ (by norm_num)

theorem roundUpGib_of_lt {x : Nat} (fits : roundUpNextGib x < 2 ^ 64) :
    roundUpGib x = some (roundUpNextGib x) := by
  have small : x ≤ roundUpNextGib x := le_roundUpNextGib x
  have steps : 2 ^ 34 + 1 = x / 2 ^ 30 + 1 + 1 + (2 ^ 34 - 1 - x / 2 ^ 30) := by omega
  unfold roundUpGib
  rw [steps]
  refine roundUpGib_go_eq _ _ _ ?_ fits
  omega

theorem roundUpGib_eq {x y : Nat} (rounded : roundUpGib x = some y) : y = roundUpNextGib x := by
  by_cases large : 2 ^ 64 - 2 ^ 30 < x
  · have never : roundUpGib x = none := roundUpGib_go_none large _ 1 (by norm_num)
    rw [never] at rounded
    cases rounded
  · rw [roundUpGib_of_lt (roundUpNextGib_lt (by omega))] at rounded
    exact (Option.some.inj rounded).symm

/-! ## The search -/

theorem searchedSize_le (segmentSize : Nat) (node : XgmiNode) :
    searchedSize segmentSize node ≤ nodeSegment segmentSize node := by
  unfold searchedSize nodeSegment
  split
  · exact le_refl segmentSize
  · exact le_roundUpNextGib node.vramSize

theorem skippedSize_of_lt {segmentSize : Nat} {node : XgmiNode}
    (fits : nodeSegment segmentSize node < 2 ^ 64) :
    skippedSize segmentSize node = some (nodeSegment segmentSize node) := by
  unfold skippedSize nodeSegment at *
  split
  · rfl
  · rename_i absent
    rw [if_neg absent] at fits
    exact roundUpGib_of_lt fits

theorem skippedSize_eq {segmentSize size : Nat} {node : XgmiNode}
    (skipped : skippedSize segmentSize node = some size) : size = nodeSegment segmentSize node := by
  unfold skippedSize at skipped
  unfold nodeSegment
  split at skipped
  · rename_i present
    rw [if_pos present]
    exact (Option.some.inj skipped).symm
  · rename_i absent
    rw [if_neg absent]
    exact roundUpGib_eq skipped

theorem segmentsBefore_add_le {segmentSize k n : Nat} {nodes : List XgmiNode} {node : XgmiNode}
    (held : nodes[k]? = some node) (before : k < n) :
    segmentsBefore segmentSize nodes k + nodeSegment segmentSize node ≤
      segmentsBefore segmentSize nodes n := by
  induction nodes generalizing k n with
  | nil => simp at held
  | cons first nodes ih =>
      obtain ⟨n, rfl⟩ := Nat.exists_eq_succ_of_ne_zero (Nat.ne_of_gt (Nat.zero_lt_of_lt before))
      rw [Nat.succ_eq_add_one, segmentsBefore_succ]
      cases k with
      | zero =>
          cases held
          rw [segmentsBefore_zero]
          omega
      | succ k =>
          rw [segmentsBefore_succ]
          have rest := ih (by simpa using held) (Nat.lt_of_succ_lt_succ before)
          omega

/-- What is left of an address behind the first `k` segments, as the 64-bit subtraction has it. -/
def remaining (segmentSize : Nat) (nodes : List XgmiNode) (addr k : Nat) : Nat :=
  sub64 addr (segmentsBefore segmentSize nodes k)

theorem sub64_add (a b c : Nat) : sub64 a (b + c) = sub64 (sub64 a b) c := by
  unfold sub64
  omega

theorem remaining_succ (segmentSize : Nat) (node : XgmiNode) (nodes : List XgmiNode)
    (addr k : Nat) :
    remaining segmentSize (node :: nodes) addr (k + 1) =
      remaining segmentSize nodes (sub64 addr (nodeSegment segmentSize node)) k := by
  rw [remaining, remaining, segmentsBefore_succ, sub64_add]

theorem remaining_zero (segmentSize : Nat) (nodes : List XgmiNode) {addr : Nat}
    (word : addr < 2 ^ 64) : remaining segmentSize nodes addr 0 = addr := by
  rw [remaining, segmentsBefore_zero]
  unfold sub64
  omega

def PassedOver (segmentSize : Nat) (nodes : List XgmiNode) (addr k : Nat) : Prop :=
  ∀ node, nodes[k]? = some node →
    searchedSize segmentSize node ≤ remaining segmentSize nodes addr k ∧
      (skippedSize segmentSize node).isSome = true

theorem search_behind (ownNodes : Nat → List XgmiNode) {segmentSize k addr : Nat}
    {nodes : List XgmiNode} (word : addr < 2 ^ 64) (inside : k ≤ nodes.length)
    (passed : ∀ j < k, PassedOver segmentSize nodes addr j) (n : Nat) :
    hiveLoop ownNodes segmentSize n nodes addr =
        hiveLoop ownNodes segmentSize (n + k) (nodes.drop k) (remaining segmentSize nodes addr k) ∧
      xgmiNodeOf segmentSize nodes addr =
        xgmiNodeOf segmentSize (nodes.drop k) (remaining segmentSize nodes addr k) := by
  induction k generalizing nodes addr n with
  | zero => exact ⟨by simp [remaining_zero _ _ word], by simp [remaining_zero _ _ word]⟩
  | succ k ih =>
      cases nodes with
      | nil => simp at inside
      | cons node nodes =>
          obtain ⟨beyond, skips⟩ := passed 0 (Nat.succ_pos k) node rfl
          rw [remaining_zero _ _ word] at beyond
          obtain ⟨size, skipped⟩ := Option.isSome_iff_exists.mp skips
          obtain rfl := skippedSize_eq skipped
          have rest := @ih (sub64 addr (nodeSegment segmentSize node)) nodes
            (Nat.mod_lt _ (by norm_num)) (Nat.le_of_succ_le_succ inside) (by
              intro j before other held
              have passedOver := passed (j + 1) (Nat.succ_lt_succ before) other held
              rwa [remaining_succ] at passedOver) (n + 1)
          rw [remaining_succ, List.drop_succ_cons, show n + (k + 1) = n + 1 + k by omega]
          constructor
          · rw [hiveLoop, if_neg (Nat.not_lt.mpr beyond), skipped]
            exact rest.1
          · rw [xgmiNodeOf]
            exact (if_neg (Nat.not_lt.mpr beyond)).trans rest.2

/-! ## Where the search ends -/

section Ends
variable (hive : Hive) (address : Nat)

def StopsAt (n : Nat) (node : XgmiNode) : Prop :=
  hive.asic.xgmiNodes[n]? = some node ∧
    remaining (xgmiSegmentSize hive.asic) hive.asic.xgmiNodes address n <
      searchedSize (xgmiSegmentSize hive.asic) node ∧
    ∀ k < n, PassedOver (xgmiSegmentSize hive.asic) hive.asic.xgmiNodes address k

def StopsNowhere : Prop :=
  ∀ k, PassedOver (xgmiSegmentSize hive.asic) hive.asic.xgmiNodes address k

/-- Rounding the VRAM size of a node up does not come to an end. -/
def Spins : Prop :=
  ∃ n node, hive.asic.xgmiNodes[n]? = some node ∧
    searchedSize (xgmiSegmentSize hive.asic) node ≤
      remaining (xgmiSegmentSize hive.asic) hive.asic.xgmiNodes address n ∧
    skippedSize (xgmiSegmentSize hive.asic) node = none ∧
    ∀ k < n, PassedOver (xgmiSegmentSize hive.asic) hive.asic.xgmiNodes address k

/-- The first node that is not passed over decides. -/
theorem search_cases :
    (∃ n node, StopsAt hive address n node) ∨ Spins hive address ∨ StopsNowhere hive address := by
  classical
  by_cases all : StopsNowhere hive address
  · exact Or.inr (Or.inr all)
  · have some_ := not_forall.mp all
    obtain ⟨n, isFirst⟩ : ∃ n, n = Nat.find some_ := ⟨_, rfl⟩
    have stops := Nat.find_spec some_
    have before : ∀ k < n, PassedOver (xgmiSegmentSize hive.asic) hive.asic.xgmiNodes address k :=
      fun k less => not_not.mp (Nat.find_min some_ (isFirst ▸ less))
    rw [← isFirst, PassedOver] at stops
    push Not at stops
    obtain ⟨node, held, beyond⟩ := stops
    by_cases inside : remaining (xgmiSegmentSize hive.asic) hive.asic.xgmiNodes address n <
        searchedSize (xgmiSegmentSize hive.asic) node
    · exact Or.inl ⟨n, node, held, inside, before⟩
    · have passed := Nat.not_lt.mp inside
      exact Or.inr (Or.inl ⟨n, node, held, passed,
        Option.not_isSome_iff_eq_none.mp (beyond passed), before⟩)

variable {hive address} {size dst n : Nat} {node : XgmiNode} (word : address < 2 ^ 64)
include word

section Aligned
variable (aligned : address % 4 = 0 ∧ size % 4 = 0 ∧ dst % 4 = 0)
include aligned

theorem linearCall_stops (stops : StopsAt hive address n node) :
    linearCall hive address size dst =
      match (hive.ownNodes node.gpu)[n]? with
      | none => .nullNode n
      | some _ => .node n (remaining (xgmiSegmentSize hive.asic) hive.asic.xgmiNodes address n) := by
  obtain ⟨held, inside, before⟩ := stops
  obtain ⟨short, isNode⟩ := List.getElem?_eq_some_iff.mp held
  have search := (search_behind hive.ownNodes word (Nat.le_of_lt short) before 0).1
  rw [List.drop_eq_getElem_cons short, isNode, Nat.zero_add, hiveLoop, if_pos inside] at search
  simpa [linearCall, aligned] using search

theorem linearCall_nowhere (nowhere : StopsNowhere hive address) :
    linearCall hive address size dst = .caller := by
  have search := (search_behind hive.ownNodes word (Nat.le_refl _) (fun j _ => nowhere j) 0).1
  rw [List.drop_length, hiveLoop] at search
  simpa [linearCall, aligned] using search

theorem linearCall_spins (spins : Spins hive address) :
    linearCall hive address size dst = .spinning := by
  obtain ⟨n, node, held, beyond, endless, before⟩ := spins
  obtain ⟨short, isNode⟩ := List.getElem?_eq_some_iff.mp held
  have search := (search_behind hive.ownNodes word (Nat.le_of_lt short) before 0).1
  rw [List.drop_eq_getElem_cons short, isNode, hiveLoop, if_neg (Nat.not_lt.mpr beyond),
    endless] at search
  simpa [linearCall, aligned] using search

end Aligned

/-! ## The access -/

theorem linearTarget_stops (stops : StopsAt hive address n node) :
    linearTarget hive.asic address =
      (.vram node.gpu, remaining (xgmiSegmentSize hive.asic) hive.asic.xgmiNodes address n) := by
  obtain ⟨held, inside, before⟩ := stops
  obtain ⟨short, isNode⟩ := List.getElem?_eq_some_iff.mp held
  have search := (search_behind hive.ownNodes word (Nat.le_of_lt short) before 0).2
  rw [List.drop_eq_getElem_cons short, isNode, xgmiNodeOf] at search
  rw [linearTarget, hive.xgmi, if_pos rfl, search.trans (if_pos inside)]

theorem linearTarget_nowhere (nowhere : StopsNowhere hive address) :
    linearTarget hive.asic address = (.vram hive.asic.gpu, address) := by
  have search := (search_behind hive.ownNodes word (Nat.le_refl _) (fun j _ => nowhere j) 0).2
  rw [List.drop_length, xgmiNodeOf] at search
  rw [linearTarget, hive.xgmi, if_pos rfl, search]

end Ends

section Status
variable {hive : Hive} {partition : Int} {vmid address size dst : Nat} {writeEn : Bool} {fuel : Nat}
  {state : State}

theorem linearStatus_refused (misaligned : ¬ (address % 4 = 0 ∧ size % 4 = 0 ∧ dst % 4 = 0)) :
    linearStatus hive partition vmid address size dst writeEn fuel state = .failed := by
  unfold linearStatus umrAccessVram
  dsimp only
  split
  · rfl
  · split
    · rfl
    · rw [Option.getD_some] at *
      omega

variable (linear : Hub.ofVmid vmid = .linear)
include linear

theorem linearStatus_failed_iff (aligned : address % 4 = 0 ∧ size % 4 = 0 ∧ dst % 4 = 0)
    {store : Store} {addr : Nat} (target : linearTarget hive.asic address = (store, addr)) :
    linearStatus hive partition vmid address size dst writeEn fuel state = .failed ↔
      holdsRange (hive.asic.present store) addr size = false := by
  have physical : accessTarget hive.asic ⟨.vram, address, size⟩ = some (store, addr) := by
    simp [accessTarget, aligned, target]
  simp only [linearStatus, umrAccessVram, linear, Option.getD_some, accessPhysical, physical]
  rw [if_neg (by omega), if_neg (by omega), if_neg (by omega)]
  cases holdsRange (hive.asic.present store) addr size with
  | true => simp
  | false => simp

end Status

/-- The address lies in the segment of the `n`-th node, below the end of the node's VRAM, and
the node itself lists at least `n + 1` nodes. -/
def InNodeVram (hive : Hive) (address n : Nat) : Prop :=
  ∃ node, hive.asic.xgmiNodes[n]? = some node ∧
    segmentsBefore (xgmiSegmentSize hive.asic) hive.asic.xgmiNodes n ≤ address ∧
    address < segmentsBefore (xgmiSegmentSize hive.asic) hive.asic.xgmiNodes n +
      min node.vramSize (nodeSegment (xgmiSegmentSize hive.asic) node) ∧
    n < (hive.ownNodes node.gpu).length

/-- Where the search leaves off, a byte is missing: at a node whose own table is long enough, or
on the opened part. -/
def BytesMissing (hive : Hive) (address size : Nat) : Prop :=
  (∃ n node, StopsAt hive address n node ∧ n < (hive.ownNodes node.gpu).length ∧
    holdsRange (hive.asic.present (.vram node.gpu))
      (remaining (xgmiSegmentSize hive.asic) hive.asic.xgmiNodes address n) size = false) ∨
  StopsNowhere hive address ∧
    holdsRange (hive.asic.present (.vram hive.asic.gpu)) address size = false

/-- The search for an address in a node's VRAM ends there. -/
theorem stopsAt_of_inside {hive : Hive} {n rel : Nat} {node : XgmiNode}
    (held : hive.asic.xgmiNodes[n]? = some node)
    (word : segmentsBefore (xgmiSegmentSize hive.asic) hive.asic.xgmiNodes n + rel < 2 ^ 64)
    (inVram : rel < node.vramSize) (inSegment : rel < nodeSegment (xgmiSegmentSize hive.asic) node) :
    StopsAt hive (segmentsBefore (xgmiSegmentSize hive.asic) hive.asic.xgmiNodes n + rel) n node ∧
      remaining (xgmiSegmentSize hive.asic) hive.asic.xgmiNodes
        (segmentsBefore (xgmiSegmentSize hive.asic) hive.asic.xgmiNodes n + rel) n = rel := by
  have left : remaining (xgmiSegmentSize hive.asic) hive.asic.xgmiNodes
      (segmentsBefore (xgmiSegmentSize hive.asic) hive.asic.xgmiNodes n + rel) n = rel := by
    unfold remaining sub64
    omega
  refine ⟨⟨held, ?_, fun k before other isOther => ?_⟩, left⟩
  · rw [left, searchedSize]
    unfold nodeSegment at inSegment
    split
    · rename_i present
      rwa [if_pos present] at inSegment
    · exact inVram
  · have behind := @segmentsBefore_add_le (xgmiSegmentSize hive.asic) k n _ other isOther before
    have searched := searchedSize_le (xgmiSegmentSize hive.asic) other
    constructor
    · unfold remaining sub64
      omega
    · rw [skippedSize_of_lt (by omega)]
      rfl

theorem linearCall_misaligned (hive : Hive) {address size dst : Nat}
    (misaligned : ¬ (address % 4 = 0 ∧ size % 4 = 0 ∧ dst % 4 = 0)) :
    linearCall hive address size dst = .refused := by
  unfold linearCall
  split
  · rfl
  · split
    · rfl
    · omega

/-- A linear access reaches the node its address belongs to exactly if the address is in
the VRAM of a node whose own table is long enough; where it is in no node's VRAM, the access fails
exactly if it is misaligned or a byte is missing where the search leaves off. -/
theorem linearCall_routed_iff (hive : Hive) (partition : Int) (vmid address size dst : Nat)
    (writeEn : Bool) (fuel : Nat) (state : State) (linear : Hub.ofVmid vmid = .linear)
    (word : address < 2 ^ 64) :
    RoutedInHive hive partition vmid address size dst writeEn fuel state ↔
      if address % 4 = 0 ∧ size % 4 = 0 ∧ dst % 4 = 0 then
        (∃ n, InNodeVram hive address n) ∨
          (∀ n rel, ¬ LocatedAt hive n rel address) ∧ BytesMissing hive address size
      else ∀ n rel, ¬ LocatedAt hive n rel address := by
  by_cases aligned : address % 4 = 0 ∧ size % 4 = 0 ∧ dst % 4 = 0
  · rw [if_pos aligned]
    constructor
    · rintro (⟨n, rel, call, located⟩ | ⟨unclaimed, returns, failed⟩)
      · -- an address that is found lies in the segment of the node too
        rcases search_cases hive address with ⟨k, node, stops⟩ | spins | nowhere
        · have found := linearCall_stops word aligned stops
          rw [call] at found
          split at found
          · cases found
          · rename_i own present
            injection found with sameNode sameRel
            subst sameNode
            obtain ⟨other, held, sum, inVram⟩ := located
            have same : other = node := Option.some.inj (held.symm.trans stops.1)
            subst same
            have inSegment : rel < nodeSegment (xgmiSegmentSize hive.asic) other := by
              rw [sameRel]
              exact Nat.lt_of_lt_of_le stops.2.1 (searchedSize_le _ _)
            have inBoth := lt_min inVram inSegment
            refine Or.inl ⟨n, other, held, by omega, by omega, ?_⟩
            exact (List.getElem?_eq_some_iff.mp present).1
        · cases call.symm.trans (linearCall_spins word aligned spins)
        · cases call.symm.trans (linearCall_nowhere word aligned nowhere)
      · refine Or.inr ⟨unclaimed, ?_⟩
        rcases search_cases hive address with ⟨k, node, stops⟩ | spins | nowhere
        · have call := linearCall_stops word aligned stops
          split at call
          · rw [call] at returns
            cases returns
          · rename_i own present
            refine Or.inl ⟨k, node, stops, (List.getElem?_eq_some_iff.mp present).1, ?_⟩
            exact (linearStatus_failed_iff linear aligned (linearTarget_stops word stops)).mp failed
        · rw [linearCall_spins word aligned spins] at returns
          cases returns
        · refine Or.inr ⟨nowhere, ?_⟩
          exact (linearStatus_failed_iff linear aligned (linearTarget_nowhere word nowhere)).mp failed
    · rintro (⟨n, node, held, le, inside, own⟩ | ⟨unclaimed, missing⟩)
      · obtain ⟨rel, rfl⟩ := Nat.exists_eq_add_of_le le
        have inBoth := lt_min_iff.mp (Nat.lt_of_add_lt_add_left inside)
        obtain ⟨stops, left⟩ := stopsAt_of_inside held word inBoth.1 inBoth.2
        refine Or.inl ⟨n, rel, ?_, node, held, rfl, inBoth.1⟩
        rw [linearCall_stops word aligned stops, List.getElem?_eq_getElem own, left]
      · refine Or.inr ⟨unclaimed, ?_⟩
        rcases missing with ⟨n, node, stops, own, short⟩ | ⟨nowhere, short⟩
        · refine ⟨?_, (linearStatus_failed_iff linear aligned
            (linearTarget_stops word stops)).mpr short⟩
          rw [linearCall_stops word aligned stops, List.getElem?_eq_getElem own]
          rfl
        · refine ⟨?_, (linearStatus_failed_iff linear aligned
            (linearTarget_nowhere word nowhere)).mpr short⟩
          rw [linearCall_nowhere word aligned nowhere]
          rfl
  · rw [if_neg aligned]
    have refused := linearCall_misaligned hive aligned
    constructor
    · rintro (⟨n, rel, call, -⟩ | ⟨unclaimed, -, -⟩)
      · cases call.symm.trans refused
      · exact unclaimed
    · exact fun unclaimed => Or.inr ⟨unclaimed, by rw [refused]; rfl,
        linearStatus_refused aligned⟩

/-! ## Two nodes of different size -/

def unevenAsic : Asic :=
  { sampleAsic 1 0 0x3FFFF with
    gpu := 1
    useXgmi := true
    present := fun store address =>
      match store with
      | .vram 0 => decide (address < 3 * 2 ^ 29)
      | .vram 1 => decide (address < 2 ^ 33)
      | _ => false
    xgmiNodes := [⟨0, 3 * 2 ^ 29⟩, ⟨1, 2 ^ 33⟩] }

def unevenHive : Hive where
  asic := unevenAsic
  ownNodes gpu := if gpu = 1 then unevenAsic.xgmiNodes else []
  opened := rfl
  xgmi := rfl

def unevenState : State := ⟨fun _ _ => 0, fun _ => 0, none, [], []⟩

theorem uneven_second_routed :
    RoutedInHive unevenHive 0 0xFF00 (2 ^ 31) 4 0 false 1 unevenState := by
  refine (linearCall_routed_iff unevenHive 0 0xFF00 (2 ^ 31) 4 0 false 1 unevenState rfl
    (by norm_num)).mpr ?_
  rw [if_pos (by decide)]
  exact Or.inl ⟨1, ⟨1, 2 ^ 33⟩, rfl, by decide +kernel, by decide +kernel, by decide +kernel⟩

/-- 1.75 GiB is in no node's VRAM, but is read from the second node. -/
theorem uneven_hole_accessed :
    (∀ n rel, ¬ LocatedAt unevenHive n rel (7 * 2 ^ 28)) ∧
      ¬ RoutedInHive unevenHive 0 0xFF00 (7 * 2 ^ 28) 4 0 false 1 unevenState ∧
      (umrAccessVram unevenAsic 0 0xFF00 (7 * 2 ^ 28) 4 (some 0) false 1 unevenState).1 = .ok := by
  have call : linearCall unevenHive (7 * 2 ^ 28) 4 0 = .caller := by decide +kernel
  have segment : segmentsBefore (xgmiSegmentSize unevenAsic) unevenAsic.xgmiNodes 1 = 2 ^ 31 := by
    decide +kernel
  have ok : linearStatus unevenHive 0 0xFF00 (7 * 2 ^ 28) 4 0 false 1 unevenState = .ok := by
    decide +kernel
  refine ⟨?_, ?_, ok⟩
  · rintro n rel ⟨node, held, sum, inVram⟩
    match n with
    | 0 =>
        have size : node.vramSize = 3 * 2 ^ 29 := by rw [← Option.some.inj held]
        have start : 7 * 2 ^ 28 = 0 + rel := sum
        omega
    | 1 =>
        have start : 7 * 2 ^ 28 = 2 ^ 31 + rel := segment ▸ sum
        omega
    | n + 2 => cases held
  · rintro (⟨n, rel, other, -⟩ | ⟨-, -, failed⟩)
    · cases call.symm.trans other
    · cases ok.symm.trans failed

end Umr.Vm
