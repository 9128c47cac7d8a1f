import Umr.Packet.Parsed
import Umr.Lib.Fault
import Mathlib.Data.Nat.Bitwise

/-!
# IBs that are submitted by register writes

The UVD tracker of `umr_pm4_decode_stream` and of `umr_vcn_dec_decode_stream`: what it
has collected is said by the writes it has taken since the last IB.  It collects the two
halves of the address with `|=`, and takes of each packet the first word only.
-/

set_option autoImplicit false

namespace Umr.Packet

open Umr.Lib Umr.Rumr

inductive UvdReg where
  | vmid | low | high | size
  deriving DecidableEq, Repr

abbrev UvdWrite := UvdReg × UInt32

section Writes
variable (env : Pm4Env)

/-- The register at an offset, told by its name as the code does. -/
def uvdReg (off : UInt32) : Option UvdReg :=
  let name := env.regName off.toUInt64
  if strstr name "mmUVD_LMI_RBC_IB_VMID" then some .vmid
  else if strstr name "mmUVD_LMI_RBC_IB_64BIT_BAR_LOW" then some .low
  else if strstr name "mmUVD_LMI_RBC_IB_64BIT_BAR_HIGH" then some .high
  else if strstr name "mmUVD_RBC_IB_SIZE" then some .size
  else none

/-- What the tracker takes a packet for. -/
def takenWrites (ps : Pm4Packet) : List UvdWrite :=
  ((uvdReg env ps.pkt0off).map fun reg => (reg, (fetchWord 0 ps).1)).toList

/-- What a packet writes: its words go to consecutive registers. -/
def regWrites (ps : Pm4Packet) : List UvdWrite :=
  ps.words.zipIdx.filterMap fun word =>
    (uvdReg env (ps.pkt0off + UInt32.ofNat word.2)).map fun reg => (reg, word.1)

def uvdHub : UInt32 :=
  if env.family.code ≤ ChipFamily.vi.code then 0 else (1 : UInt32) <<< 8

end Writes

def valuesOf (reg : UvdReg) (writes : List UvdWrite) : List UInt32 :=
  writes.filterMap fun write => if write.1 = reg then some write.2 else none

def lastOf (reg : UvdReg) (writes : List UvdWrite) : Option UInt32 :=
  (valuesOf reg writes).getLast?

def vmidOf (hub : UInt32) (writes : List UvdWrite) : UInt32 :=
  match lastOf .vmid writes with
  | none => 0
  | some vmid => vmid ||| hub

/-! ## What the tracker has collected -/

def seen (reg : UvdReg) (taken : List UvdWrite) : Bool := taken.any fun write => write.1 = reg

def complete (taken : List UvdWrite) : Bool := seen .low taken && seen .high taken && seen .size taken

def orAll (values : List UInt32) : UInt32 := values.foldl (· ||| ·) 0

def collect (addr : UInt64) (write : UvdWrite) : UInt64 :=
  match write.1 with
  | .low => addr ||| write.2.toUInt64
  | .high => addr ||| (write.2.toUInt64 <<< 32)
  | _ => addr

def addrOf (taken : List UvdWrite) : UInt64 := taken.foldl collect 0

def bitsOf (vmid low high size : Bool) : UInt32 :=
  (if vmid then 1 else 0) ||| (if low then 2 else 0) ||| (if high then 4 else 0) |||
    if size then 8 else 0

def uvdOf (hub : UInt32) (taken : List UvdWrite) : UvdIb where
  n := bitsOf (seen .vmid taken) (seen .low taken) (seen .high taken) (seen .size taken)
  size := (lastOf .size taken).getD 0 * 4
  vmid := vmidOf hub taken
  addr := addrOf taken

def ibOf (hub : UInt32) (taken : List UvdWrite) : IbRequest :=
  ⟨vmidOf hub taken, addrOf taken, (lastOf .size taken).getD 0 * 4⟩

def trackWrite (hub : UInt32) (uvd : UvdIb) (write : UvdWrite) : UvdIb :=
  match write.1 with
  | .vmid => { uvd with vmid := write.2 ||| hub, n := uvd.n ||| 1 }
  | .low => { uvd with addr := uvd.addr ||| write.2.toUInt64, n := uvd.n ||| 2 }
  | .high => { uvd with addr := uvd.addr ||| (write.2.toUInt64 <<< 32), n := uvd.n ||| 4 }
  | .size => { uvd with size := write.2 * 4, n := uvd.n ||| 8 }

section Collected
variable {hub : UInt32} {taken : List UvdWrite}

theorem valuesOf_snoc (reg : UvdReg) (write : UvdWrite) :
    valuesOf reg (taken ++ [write]) =
      if write.1 = reg then valuesOf reg taken ++ [write.2] else valuesOf reg taken := by
  rw [valuesOf, List.filterMap_append, ← valuesOf]
  by_cases same : write.1 = reg
  · rw [if_pos same, List.filterMap_cons, if_pos same]
    rfl
  · rw [if_neg same, List.filterMap_cons, if_neg same]
    exact List.append_nil _

theorem lastOf_snoc (reg : UvdReg) (write : UvdWrite) :
    lastOf reg (taken ++ [write]) = if write.1 = reg then some write.2 else lastOf reg taken := by
  rw [lastOf, valuesOf_snoc]
  split
  · exact List.getLast?_concat
  · rfl

theorem seen_snoc (reg : UvdReg) (write : UvdWrite) :
    seen reg (taken ++ [write]) = (seen reg taken || decide (write.1 = reg)) := by
  simp [seen]

theorem bitsOf_or (vmid low high size : Bool) :
    bitsOf vmid low high size ||| 1 = bitsOf true low high size ∧
    bitsOf vmid low high size ||| 2 = bitsOf vmid true high size ∧
    bitsOf vmid low high size ||| 4 = bitsOf vmid low true size ∧
    bitsOf vmid low high size ||| 8 = bitsOf vmid low high true := by
  cases vmid <;> cases low <;> cases high <;> cases size <;> decide

theorem trackWrite_uvdOf (write : UvdWrite) :
    trackWrite hub (uvdOf hub taken) write = uvdOf hub (taken ++ [write]) := by
  obtain ⟨reg, word⟩ := write
  have bits := bitsOf_or (seen .vmid taken) (seen .low taken) (seen .high taken) (seen .size taken)
  unfold uvdOf vmidOf addrOf
  simp only [seen_snoc, lastOf_snoc, List.foldl_append, List.foldl_cons, List.foldl_nil]
  cases reg with
  | vmid => simp [trackWrite, collect, bits.1]
  | low => simp [trackWrite, collect, bits.2.1]
  | high => simp [trackWrite, collect, bits.2.2.1]
  | size => simp [trackWrite, collect, bits.2.2.2]

theorem uvdOf_nil : uvdOf hub [] = .zero := by
  simp [uvdOf, UvdIb.zero, bitsOf, seen, lastOf, valuesOf, vmidOf, addrOf]

theorem uvdOf_n (open_ : complete taken = false) :
    (uvdOf hub taken).n ≠ 2 ||| 4 ||| 8 ∧ (uvdOf hub taken).n ≠ 15 := by
  unfold complete at open_
  change bitsOf _ _ _ _ ≠ _ ∧ bitsOf _ _ _ _ ≠ _
  revert open_
  cases seen .vmid taken <;> cases seen .low taken <;> cases seen .high taken <;>
    cases seen .size taken <;> decide

theorem uvdOf_n_complete (all : complete taken = true) :
    (uvdOf hub taken).n = if seen .vmid taken then 15 else 2 ||| 4 ||| 8 := by
  unfold complete at all
  change bitsOf _ _ _ _ = _
  revert all
  cases seen .vmid taken <;> cases seen .low taken <;> cases seen .high taken <;>
    cases seen .size taken <;> decide

theorem lastOf_of_not_seen {reg : UvdReg} (unseen : seen reg taken = false) :
    lastOf reg taken = none := by
  have none_ : valuesOf reg taken = [] := by
    rw [valuesOf, List.filterMap_eq_nil_iff]
    intro write member
    have other : ¬ write.1 = reg := fun same => by
      have found : seen reg taken = true := List.any_eq_true.mpr ⟨write, member, by simp [same]⟩
      rw [unseen] at found
      cases found
    exact if_neg other
  rw [lastOf, none_]
  rfl

/-- Everything but the VMID is there: VMID 0. -/
def assumeVmid (uvd : UvdIb) : UvdIb :=
  if uvd.n = (2 ||| 4 ||| 8) then { uvd with vmid := 0, n := 15 } else uvd

theorem assumeVmid_complete (all : complete taken = true) :
    assumeVmid (uvdOf hub taken) = { uvdOf hub taken with n := 15 } := by
  have bits := @uvdOf_n_complete hub _ all
  cases vmid : seen .vmid taken with
  | true =>
      rw [vmid, if_pos rfl] at bits
      rw [assumeVmid, if_neg (by rw [bits]; decide), ← bits]
  | false =>
      rw [vmid, if_neg (by decide)] at bits
      rw [assumeVmid, if_pos bits, uvdOf, vmidOf, lastOf_of_not_seen vmid]

theorem lastOf_of_seen {reg : UvdReg} (found : seen reg taken = true) :
    ∃ value, lastOf reg taken = some value := by
  obtain ⟨write, member, same⟩ := List.any_eq_true.mp found
  have value : write.2 ∈ valuesOf reg taken :=
    List.mem_filterMap.mpr ⟨write, member, if_pos (by simpa using same)⟩
  have some_ : valuesOf reg taken ≠ [] := List.ne_nil_of_mem value
  exact ⟨_, List.getLast?_eq_some_getLast some_⟩

end Collected

/-! ## One packet -/

section Packet
variable {env : Pm4Env}

theorem trackUvdIb_fst (uvd : UvdIb) (ps : Pm4Packet) :
    (trackUvdIb env uvd ps).1 = (takenWrites env ps).foldl (trackWrite (uvdHub env)) uvd := by
  unfold trackUvdIb takenWrites uvdReg
  change ((if _ then _ else _ : StateM Pm4Packet UvdIb) ps).1 = _
  dsimp only
  generalize env.regName ps.pkt0off.toUInt64 = name
  by_cases isVmid : strstr name "mmUVD_LMI_RBC_IB_VMID" = true
  · rw [if_pos isVmid, if_pos isVmid]
    rfl
  · rw [if_neg isVmid, if_neg isVmid]
    by_cases isLow : strstr name "mmUVD_LMI_RBC_IB_64BIT_BAR_LOW" = true
    · rw [if_pos isLow, if_pos isLow]
      rfl
    · rw [if_neg isLow, if_neg isLow]
      by_cases isHigh : strstr name "mmUVD_LMI_RBC_IB_64BIT_BAR_HIGH" = true
      · rw [if_pos isHigh, if_pos isHigh]
        rfl
      · rw [if_neg isHigh, if_neg isHigh]
        by_cases isSize : strstr name "mmUVD_RBC_IB_SIZE" = true
        · rw [if_pos isSize, if_pos isSize]
          rfl
        · rw [if_neg isSize, if_neg isSize]
          rfl

theorem parsePkt0_fst (on : env.noFollowIb = false) {taken : List UvdWrite} (ps : Pm4Packet) :
    (parsePkt0 env (uvdOf (uvdHub env) taken) ps).1 =
      if complete (taken ++ takenWrites env ps) then
        (some (ibOf (uvdHub env) (taken ++ takenWrites env ps)), .zero)
      else (none, uvdOf (uvdHub env) (taken ++ takenWrites env ps)) := by
  have tracked : (trackUvdIb env (uvdOf (uvdHub env) taken) ps).1 =
      uvdOf (uvdHub env) (taken ++ takenWrites env ps) := by
    rw [trackUvdIb_fst]
    unfold takenWrites
    cases uvdReg env ps.pkt0off with
    | none => rw [Option.map_none, Option.toList_none, List.append_nil]; rfl
    | some reg => exact trackWrite_uvdOf _
  generalize taken ++ takenWrites env ps = all at tracked
  have run : trackUvdIb env (uvdOf (uvdHub env) taken) ps =
      (uvdOf (uvdHub env) all, (trackUvdIb env (uvdOf (uvdHub env) taken) ps).2) :=
    Prod.ext tracked rfl
  have step : (parsePkt0 env (uvdOf (uvdHub env) taken) ps).1 =
      if (!env.noFollowIb && (assumeVmid (uvdOf (uvdHub env) all)).n = 15) = true then
        (some ⟨(assumeVmid (uvdOf (uvdHub env) all)).vmid,
          (assumeVmid (uvdOf (uvdHub env) all)).addr,
          (assumeVmid (uvdOf (uvdHub env) all)).size⟩, .zero)
      else (none, assumeVmid (uvdOf (uvdHub env) all)) := by
    rw [parsePkt0, stateM_bind run]
    change ((if (!env.noFollowIb && (assumeVmid (uvdOf (uvdHub env) all)).n = 15) = true then
      _ else _ : StateM Pm4Packet (Option IbRequest × UvdIb)) _).1 = _
    split <;> rfl
  rw [step, on]
  by_cases whole : complete all = true
  · rw [if_pos whole, assumeVmid_complete whole]
    rfl
  · have open' : complete all = false := by simpa using whole
    obtain ⟨notAll, notDone⟩ := @uvdOf_n (uvdHub env) _ open'
    rw [if_neg whole, assumeVmid, if_neg notAll, if_neg (by simpa using notDone)]

theorem parsePkt0_off (off : env.noFollowIb = true) (uvd : UvdIb) (ps : Pm4Packet) :
    (parsePkt0 env uvd ps).1.1 = none := by
  have run : trackUvdIb env uvd ps = ((trackUvdIb env uvd ps).1, (trackUvdIb env uvd ps).2) := rfl
  rw [parsePkt0, stateM_bind run]
  change ((if (!env.noFollowIb && (assumeVmid (trackUvdIb env uvd ps).1).n = 15) = true then
    _ else _ : StateM Pm4Packet (Option IbRequest × UvdIb)) _).1.1 = _
  rw [off]
  rfl

end Packet

/-! ## Whole streams -/

section Stream
variable (env : Pm4Env) (isWrite : Pm4Packet → Bool)

/-- The IBs that register writes submit, each with the packets since the one before. -/
def followedUvd : List Pm4Packet → List (Pm4Packet × Option IbRequest) →
    List (List Pm4Packet × IbRequest)
  | _, [] => []
  | window, (ps, request) :: packets =>
      if isWrite ps then
        match request with
        | some ib => (window ++ [ps], ib) :: followedUvd [] packets
        | none => followedUvd (window ++ [ps]) packets
      else followedUvd window packets

/-- The packets up to each one with which both halves of an address and a size are there. -/
def uvdWindows : List Pm4Packet → List Pm4Packet → List (List Pm4Packet)
  | _, [] => []
  | window, ps :: packets =>
      if isWrite ps then
        if complete ((window ++ [ps]).flatMap (takenWrites env)) then
          (window ++ [ps]) :: uvdWindows [] packets
        else uvdWindows (window ++ [ps]) packets
      else uvdWindows window packets

variable {env isWrite} {parse : UvdIb → Pm4Packet → (Option IbRequest × UvdIb) × Pm4Packet}

theorem followedUvd_cons (window : List Pm4Packet) (ps : Pm4Packet) (request : Option IbRequest)
    (packets : List (Pm4Packet × Option IbRequest)) :
    followedUvd isWrite window ((ps, request) :: packets) =
      if isWrite ps then
        match request with
        | some ib => (window ++ [ps], ib) :: followedUvd isWrite [] packets
        | none => followedUvd isWrite (window ++ [ps]) packets
      else followedUvd isWrite window packets := by
  rw [followedUvd.eq_def]

theorem followedUvd_eq (on : env.noFollowIb = false)
    (write : ∀ uvd ps, isWrite ps = true → parse uvd ps = parsePkt0 env uvd ps)
    (other : ∀ uvd ps, isWrite ps = false → (parse uvd ps).1.2 = uvd) (packets : List Pm4Packet) :
    ∀ window, followedUvd isWrite window (packets.zip ((parsePackets parse
        (uvdOf (uvdHub env) (window.flatMap (takenWrites env))) packets).map Prod.snd)) =
      (uvdWindows env isWrite window packets).map fun window =>
        (window, ibOf (uvdHub env) (window.flatMap (takenWrites env))) := by
  induction packets with
  | nil => exact fun _ => rfl
  | cons ps packets ih =>
      intro window
      have taken : (window ++ [ps]).flatMap (takenWrites env) =
          window.flatMap (takenWrites env) ++ takenWrites env ps := by
        rw [List.flatMap_append, List.flatMap_singleton]
      rw [parsePackets, List.map_cons, List.zip_cons_cons, followedUvd_cons, uvdWindows]
      cases isWrite_ : isWrite ps with
      | false =>
          rw [if_neg (by decide), if_neg (by decide), other _ _ isWrite_]
          exact ih window
      | true =>
          have step := @parsePkt0_fst env on (window.flatMap (takenWrites env)) ps
          rw [if_pos rfl, if_pos rfl, write _ _ isWrite_]
          dsimp only
          rw [step, ← taken]
          by_cases whole : complete ((window ++ [ps]).flatMap (takenWrites env)) = true
          · rw [if_pos whole, if_pos whole, List.map_cons]
            have next := ih []
            rw [List.flatMap_nil, uvdOf_nil] at next
            exact congrArg ((window ++ [ps],
              ibOf (uvdHub env) ((window ++ [ps]).flatMap (takenWrites env))) :: ·) next
          · rw [if_neg whole, if_neg whole]
            exact ih (window ++ [ps])

theorem followedUvd_off (off : env.noFollowIb = true)
    (write : ∀ uvd ps, isWrite ps = true → parse uvd ps = parsePkt0 env uvd ps)
    (packets : List Pm4Packet) :
    ∀ window uvd, followedUvd isWrite window
      (packets.zip ((parsePackets parse uvd packets).map Prod.snd)) = [] := by
  induction packets with
  | nil => exact fun _ _ => rfl
  | cons ps packets ih =>
      intro window uvd
      rw [parsePackets, List.map_cons, List.zip_cons_cons, followedUvd_cons]
      cases isWrite_ : isWrite ps with
      | false =>
          rw [if_neg (by decide)]
          exact ih _ _
      | true =>
          rw [if_pos rfl, write _ _ isWrite_, parsePkt0_off off]
          exact ih _ _

end Stream

/-! ## The last values written -/

/-- The IB has the base address, size and VMID that were written last. -/
structure GivenByWrites (hub : UInt32) (written : List UvdWrite) (ib : IbRequest) : Prop where
  base : ∃ low high, lastOf .low written = some low ∧ lastOf .high written = some high ∧
    ib.addr.toNat = high.toNat * 2 ^ 32 + low.toNat
  size : ∃ size, lastOf .size written = some size ∧ ib.size.toNat = 4 * size.toNat
  vmid : ib.vmid = vmidOf hub written

/-- What was taken comes, with `|=` for the address and 32 bits for the size in bytes,
to what was written last. -/
structure TakenAsWritten (hub : UInt32) (taken written : List UvdWrite) : Prop where
  low : lastOf .low written = some (orAll (valuesOf .low taken))
  high : lastOf .high written = some (orAll (valuesOf .high taken))
  size : ∃ last size, lastOf .size taken = some last ∧ lastOf .size written = some size ∧
    size.toNat = last.toNat % 2 ^ 30
  vmid : vmidOf hub taken = vmidOf hub written

theorem shifted_toNat (word : UInt32) : (word.toUInt64 <<< 32).toNat = word.toNat <<< 32 := by
  have bound := word.toNat_lt
  have count : (32 : UInt64).toNat % 64 = 32 := rfl
  rw [UInt64.toNat_shiftLeft, UInt32.toNat_toUInt64, count]
  refine Nat.mod_eq_of_lt ?_
  rw [Nat.shiftLeft_eq]
  omega

theorem collect_toNat {addr : UInt64} {low high : UInt32} (taken : List UvdWrite)
    (halves : addr.toNat = high.toNat <<< 32 ||| low.toNat) :
    (taken.foldl collect addr).toNat =
      ((valuesOf .high taken).foldl (· ||| ·) high).toNat <<< 32 |||
        ((valuesOf .low taken).foldl (· ||| ·) low).toNat := by
  induction taken generalizing addr low high with
  | nil => exact halves
  | cons write taken ih =>
      obtain ⟨reg, word⟩ := write
      cases reg with
      | vmid => exact ih halves
      | size => exact ih halves
      | low =>
          refine @ih (addr ||| word.toUInt64) (low ||| word) high ?_
          rw [UInt64.toNat_or, halves, UInt32.toNat_toUInt64, UInt32.toNat_or, Nat.or_assoc]
      | high =>
          refine @ih (addr ||| (word.toUInt64 <<< 32)) low (high ||| word) ?_
          rw [UInt64.toNat_or, halves, shifted_toNat, UInt32.toNat_or, Nat.shiftLeft_or_distrib,
            Nat.or_assoc, Nat.or_assoc, Nat.or_comm low.toNat]

theorem addrOf_toNat (taken : List UvdWrite) :
    (addrOf taken).toNat =
      (orAll (valuesOf .high taken)).toNat * 2 ^ 32 + (orAll (valuesOf .low taken)).toNat := by
  have halves := @collect_toNat 0 0 0 taken rfl
  rw [addrOf, halves, ← Nat.shiftLeft_eq,
    Nat.shiftLeft_add_eq_or_of_lt (orAll (valuesOf .low taken)).toNat_lt]
  rfl

theorem given_iff_taken {hub : UInt32} {taken written : List UvdWrite}
    (whole : complete taken = true) :
    GivenByWrites hub written (ibOf hub taken) ↔ TakenAsWritten hub taken written := by
  have sized : seen .size taken = true := by
    unfold complete at whole
    exact (Bool.and_eq_true_iff.mp whole).2
  obtain ⟨last, isLast⟩ := lastOf_of_seen sized
  have bytes : (ibOf hub taken).size.toNat = 4 * (last.toNat % 2 ^ 30) := by
    have four : (4 : UInt32).toNat = 4 := rfl
    rw [ibOf, isLast]
    change (last * 4).toNat = _
    rw [UInt32.toNat_mul, four]
    omega
  have lowBound := (orAll (valuesOf .low taken)).toNat_lt
  have address := addrOf_toNat taken
  constructor
  · rintro ⟨⟨low, high, isLow, isHigh, base⟩, ⟨size, isSize, size_⟩, vmid⟩
    have bound := low.toNat_lt
    change (addrOf taken).toNat = _ at base
    refine ⟨?_, ?_, ⟨last, size, isLast, isSize, by omega⟩, vmid⟩
    · rw [isLow]
      exact congrArg some (UInt32.toNat_inj.mp (by omega))
    · rw [isHigh]
      exact congrArg some (UInt32.toNat_inj.mp (by omega))
  · rintro ⟨isLow, isHigh, ⟨other, size, isOther, isSize, size_⟩, vmid⟩
    rw [isLast] at isOther
    cases isOther
    exact ⟨⟨_, _, isLow, isHigh, address⟩, ⟨size, isSize, by rw [bytes, size_]⟩, vmid⟩

/-! ## The two decoders -/

def pm4Packets (stream : List UInt32) : List Pm4Packet :=
  framePackets (pm4Header (· = 3)) stream.length stream

def vcnDecPackets (ip : Nat × Nat) (stream : List UInt32) : List Pm4Packet :=
  framePackets (vcnDecHeader ip) stream.length stream

/-- A register write of a PM4 stream is a packet of type 0. -/
def isPkt0 (ps : Pm4Packet) : Bool := ps.pkttype = 0

/-- In a VCN stream each packet with a payload is one. -/
def hasPayload (ps : Pm4Packet) : Bool := ps.nWords ≠ 0

def pm4FollowedUvd (env : Pm4Env) (vmid : UInt32) (stream : List UInt32) :
    List (List Pm4Packet × IbRequest) :=
  followedUvd isPkt0 [] ((pm4Packets stream).zip ((pm4Parsed env vmid stream).map Prod.snd))

def vcnDecFollowedUvd (env : Pm4Env) (ip : Nat × Nat) (stream : List UInt32) :
    List (List Pm4Packet × IbRequest) :=
  followedUvd hasPayload []
    ((vcnDecPackets ip stream).zip ((vcnDecParsed env ip stream).map Prod.snd))

/-- Each IB is given by the last values written since the IB before it. -/
def FollowedAsWritten (env : Pm4Env) (followed : List (List Pm4Packet × IbRequest)) : Prop :=
  ∀ ib ∈ followed, GivenByWrites (uvdHub env) (ib.1.flatMap (regWrites env)) ib.2

/-- What is taken of each window comes to what was written in it. -/
def WindowsTakenAsWritten (env : Pm4Env) (windows : List (List Pm4Packet)) : Prop :=
  ∀ window ∈ windows, TakenAsWritten (uvdHub env) (window.flatMap (takenWrites env))
    (window.flatMap (regWrites env))

section Law
variable {env : Pm4Env} {isWrite : Pm4Packet → Bool}
  {parse : UvdIb → Pm4Packet → (Option IbRequest × UvdIb) × Pm4Packet}

theorem uvdWindows_complete (packets : List Pm4Packet) :
    ∀ window, ∀ ready ∈ uvdWindows env isWrite window packets,
      complete (ready.flatMap (takenWrites env)) = true := by
  induction packets with
  | nil => exact fun _ _ none_ => absurd none_ List.not_mem_nil
  | cons ps packets ih =>
      intro window ready member
      rw [uvdWindows] at member
      split at member
      · split at member
        · rename_i whole
          rcases List.mem_cons.mp member with rfl | later
          · exact whole
          · exact ih [] ready later
        · exact ih _ ready member
      · exact ih _ ready member

theorem followedAsWritten_iff
    (write : ∀ uvd ps, isWrite ps = true → parse uvd ps = parsePkt0 env uvd ps)
    (other : ∀ uvd ps, isWrite ps = false → (parse uvd ps).1.2 = uvd) (packets : List Pm4Packet) :
    FollowedAsWritten env (followedUvd isWrite []
        (packets.zip ((parsePackets parse .zero packets).map Prod.snd))) ↔
      (env.noFollowIb = false → WindowsTakenAsWritten env (uvdWindows env isWrite [] packets)) := by
  cases follows : env.noFollowIb with
  | true =>
      rw [followedUvd_off follows write]
      refine iff_of_true ?_ ?_
      · exact fun _ none_ => absurd none_ List.not_mem_nil
      · exact fun never => absurd never (by decide)
  | false =>
      have same := followedUvd_eq follows write other packets []
      rw [List.flatMap_nil, uvdOf_nil] at same
      rw [same, FollowedAsWritten, List.forall_mem_map]
      refine Iff.trans ?_ (imp_iff_right rfl).symm
      refine forall_congr' fun window => forall_congr' fun member => ?_
      exact given_iff_taken (uvdWindows_complete packets [] window member)

end Law

/-- In every PM4 and every VCN stream, each IB submitted by register writes is followed
at the base, with the size and the VMID written last since the one before it, exactly
where what the tracker takes comes to that. -/
theorem uvdFollowed_asWritten_iff (stream : List UInt32) :
    (∀ env vmid, FollowedAsWritten env (pm4FollowedUvd env vmid stream) ↔
      (env.noFollowIb = false →
        WindowsTakenAsWritten env (uvdWindows env isPkt0 [] (pm4Packets stream)))) ∧
    (∀ env ip, FollowedAsWritten (vcnDecEnv env ip) (vcnDecFollowedUvd env ip stream) ↔
      ((vcnDecEnv env ip).noFollowIb = false → WindowsTakenAsWritten (vcnDecEnv env ip)
        (uvdWindows (vcnDecEnv env ip) hasPayload [] (vcnDecPackets ip stream)))) := by
  refine ⟨fun env vmid => ?_, fun env ip => ?_⟩
  · refine @followedAsWritten_iff env isPkt0 (parsePacket env vmid) ?_ ?_ (pm4Packets stream)
    · intro uvd ps isWrite
      have type : ps.pkttype = 0 := by simpa [isPkt0] using isWrite
      rw [parsePacket, if_neg (by rw [type]; decide), if_pos type]
    · intro uvd ps isOther
      have type : ps.pkttype ≠ 0 := by simpa [isPkt0] using isOther
      rw [parsePacket, if_neg type]
      split <;> rfl
  · refine @followedAsWritten_iff (vcnDecEnv env ip) hasPayload (parseVcnDec (vcnDecEnv env ip)) ?_ ?_
      (vcnDecPackets ip stream)
    · intro uvd ps isWrite
      have some_ : ps.nWords ≠ 0 := by simpa [hasPayload] using isWrite
      rw [parseVcnDec, if_neg some_]
    · intro uvd ps isOther
      have none_ : ps.nWords = 0 := by simpa [hasPayload] using isOther
      rw [parseVcnDec, if_pos none_]

def uvdEnv : Pm4Env where
  family := .vi
  noFollowIb := false
  noFollowShader := true
  shaderEnable := ⟨true, true, true, true, true, true, true, true⟩
  regName := fun offset => vcnRegName (3, 0) offset.toNat
  readVram := fun _ _ _ => none
  computeShaderSize := fun _ _ => 0

/-- The low half of the address is written twice, as 1 and then as 2. -/
def rewrittenLow : List UInt32 := [0x3B4, 1, 0x3B4, 2, 0x3B5, 0, 0x25C, 4]

theorem uvdFollowed_not_rewritten :
    ¬ FollowedAsWritten uvdEnv (pm4FollowedUvd uvdEnv 0 rewrittenLow) := by
  intro law
  have followed : pm4FollowedUvd uvdEnv 0 rewrittenLow =
      [(pm4Packets rewrittenLow, ⟨0, 3, 16⟩)] := by decide
  obtain ⟨low, high, isLow, isHigh, base⟩ :=
    (law _ (followed ▸ List.mem_singleton.mpr rfl)).base
  have two : lastOf .low ((pm4Packets rewrittenLow).flatMap (regWrites uvdEnv)) = some 2 := by decide
  have zero : lastOf .high ((pm4Packets rewrittenLow).flatMap (regWrites uvdEnv)) = some 0 := by
    decide
  rw [two] at isLow
  rw [zero] at isHigh
  cases isLow
  cases isHigh
  exact absurd base (by decide)

end Umr.Packet
