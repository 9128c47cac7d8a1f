import Umr.Packet.SdmaFraming
import Umr.Packet.SdmaOpcodes
import Umr.Packet.Stored

/-!
# Which SDMA fields lie in the payload

The stream decoder gives a packet a length from its table, and the opcode decoder takes
words of the payload for the fields.  The two agree but for copies whose length depends on
the chip family, where the decoder depends on the version, and for the dummy trap, whose
length is the user interface's.
-/

set_option autoImplicit false

namespace Umr.Packet.Sdma

open Umr.Lib Umr.Rumr Umr.Packet

section Inside
variable (env : SdmaEnv) (ps : SdmaPacket)

def tiledWords (ai other : Nat) : Nat :=
  if ChipFamily.ai.code ≤ env.family.code then ai else other

/-- The words the length table gives a packet at least. -/
def leastWords : Nat :=
  let tiled : Bool := ps.headerDw &&& ((3 : UInt32) <<< 26) ≠ 0
  let bySub (table : List (UInt32 × Nat)) : Nat := (table.lookup ps.subOpcode).getD 0
  let sized (table : List (Nat × UInt32)) : Nat :=
    ((table.lookup ps.subOpcode.toNat).map UInt32.toNat).getD 0
  match ps.opcode.toNat with
  | 1 => bySub [(0, 6),
      (1, if tiled then tiledWords env 15 14 else tiledWords env 12 11), (3, 7), (4, 12),
      (5, if ChipFamily.nv.code ≤ env.family.code then 16 else 13),
      (6, if ChipFamily.nv.code ≤ env.family.code then 17 else 14), (7, 6), (8, 6), (16, 6),
      (17, if tiled then 15 else 12), (20, 12), (21, 13), (22, 14), (36, 19)]
  | 2 => bySub [(0, 4), (1, 9), (2, 9), (17, 9)]
  | 4 => 5
  | 5 => 3
  | 6 => 1
  | 7 => 2
  | 8 => sized [(0, 5), (1, 3), (2, 4), (3, 12), (4, 3)]
  | 9 => 4
  | 10 => 7
  | 11 => sized [(0, 4), (1, 5)]
  | 12 => sized [(0, 9), (1, 7), (2, 7)]
  | 13 => sized [(0, 2), (1, 2), (2, 2)]
  | 14 => sized [(0, 2), (1, 3)]
  | 15 => 1
  | 16 => 3
  | 17 => 4
  | _ => 0

def Inside (heads : List Head) : Prop := heads.any (Head.invalid ps) = false

end Inside

section Fields
variable {env : SdmaEnv} {ps : SdmaPacket}

@[simp] theorem inside_nil : Inside ps [] := rfl

@[simp] theorem inside_start_iff {name : String} {takes : Nat} :
    Inside ps [.start name takes] ↔ takes ≤ ps.nwords.toNat := by
  simp [Inside, Head.invalid]

@[simp] theorem inside_subop_cons {heads : List Head} :
    Inside ps (.subop :: heads) ↔ Inside ps heads := by
  simp [Inside, Head.invalid]

@[simp] theorem inside_unhandled : Inside ps [.unhandled] := rfl

theorem bySub_inside {fits : Prop} {cases : List (UInt32 × List Head)} {default : List Head}
    (entries : ∀ entry ∈ cases, ps.subOpcode = entry.1 → (Inside ps entry.2 ↔ fits))
    (otherwise : ps.subOpcode ∉ cases.map Prod.fst → (Inside ps default ↔ fits)) :
    Inside ps (bySub ps cases default) ↔ fits := by
  rw [bySub]
  cases found : cases.lookup ps.subOpcode with
  | some heads =>
      obtain ⟨front, behind, split, _⟩ := List.lookup_eq_some_iff.mp found
      refine entries (ps.subOpcode, heads) ?_ rfl
      rw [split]
      exact List.mem_append_cons_self
  | none =>
      refine otherwise fun member => ?_
      obtain ⟨entry, isEntry, key⟩ := List.mem_map.mp member
      exact absurd key.symm (bne_iff_ne.mp (List.lookup_eq_none_iff.mp found _ isEntry))

/-- The two bits as the length table and as the opcode decoder test them. -/
theorem tiled_iff (header : UInt32) :
    header &&& ((3 : UInt32) <<< 26) = 0 ↔ (header >>> 26) &&& 3 = 0 := by
  have shifted : header.toNat &&& 3 * 2 ^ 26 = (header.toNat / 2 ^ 26 &&& 3) * 2 ^ 26 := by
    rw [← Nat.shiftLeft_eq, ← Nat.shiftLeft_eq, ← Nat.shiftRight_eq_div_pow]
    apply Nat.eq_of_testBit_eq
    intro i
    simp only [Nat.testBit_and, Nat.testBit_shiftLeft, Nat.testBit_shiftRight]
    by_cases below : 26 ≤ i
    · simp [below]
    · simp [below]
  rw [← UInt32.toNat_inj, ← UInt32.toNat_inj, UInt32.toNat_and, UInt32.toNat_and]
  have table : ((3 : UInt32) <<< 26).toNat = 3 * 2 ^ 26 := rfl
  have right : (header >>> 26).toNat = header.toNat / 2 ^ 26 := by
    rw [UInt32.toNat_shiftRight, Nat.shiftRight_eq_div_pow]
    rfl
  rw [table, right, shifted]
  change _ = 0 ↔ _ = 0
  rw [Nat.mul_eq_zero, or_iff_left (by decide)]
  rfl

theorem copyTiled_inside {suffix : String} {broadcast plain : Nat} :
    Inside ps (copyTiled ps suffix broadcast plain) ↔
      (if ps.headerDw &&& ((3 : UInt32) <<< 26) = 0 then plain else broadcast) ≤
        ps.nwords.toNat := by
  rw [copyTiled, ite_not]
  by_cases tiled : ps.headerDw &&& ((3 : UInt32) <<< 26) = 0
  · rw [if_pos tiled, if_pos ((tiled_iff _).mp tiled), inside_start_iff]
  · rw [if_neg tiled, if_neg (mt (tiled_iff _).mpr tiled)]
    split <;> rw [inside_start_iff]

theorem copyLinear_inside {plain broadcast : Nat} {older : List Head}
    (enough : plain ≤ ps.nwords.toNat) (fits : Inside ps older) :
    Inside ps (copyLinear ps plain broadcast older) := by
  rw [copyLinear_eq]
  split
  · exact inside_start_iff.mpr enough
  · exact fits

theorem decodeUptoVi_inside (least : leastWords env ps ≤ ps.nwords.toNat) :
    Inside ps (decodeUptoVi ps) ↔ (ps.opcode.toNat = 32 → ps.nwords ≠ 0) := by
  rw [decodeUptoVi]
  split
  case h_2 opcode =>
    simp only [leastWords, opcode] at least
    refine bySub_inside ?_ (by simp [opcode])
    simp only [List.forall_mem_cons, List.not_mem_nil, IsEmpty.forall_iff, implies_true, and_true]
    refine ⟨fun sub => ?_, fun sub => ?_, ?_⟩
    · simp [sub] at least
      simp [opcode, copyLinear_inside least]
    · simp [sub, List.lookup_cons, tiledWords] at least
      simp [opcode, copyTiled_inside]
      grind
    · repeat' apply And.intro
      all_goals
        intro sub
        simp [sub, List.lookup_cons] at least
        simp [opcode, copyTiled_inside]
        grind
  case h_3 opcode | h_7 opcode | h_8 opcode | h_11 opcode | h_12 opcode | h_13 opcode |
      h_14 opcode =>
    simp only [leastWords, opcode] at least
    refine bySub_inside ?_ (by simp [opcode])
    simp only [List.forall_mem_cons, List.not_mem_nil, IsEmpty.forall_iff, implies_true, and_true]
    repeat' apply And.intro
    all_goals
      intro sub
      simp [sub, opcode, List.lookup_cons] at least ⊢
      omega
  case h_18 opcode =>
    rw [inside_start_iff, Nat.succ_le_iff, Nat.pos_iff_ne_zero, ne_eq, ne_eq, ← UInt32.toNat_inj]
    exact ⟨fun some_ _ => some_, fun some_ => some_ opcode⟩
  case h_19 =>
    simp_all
  all_goals
    next opcode =>
      simp only [leastWords, opcode] at least
      simp [opcode] <;> omega

theorem decodeUptoAi_inside (least : leastWords env ps ≤ ps.nwords.toNat)
    (exact_ : ps.opcode.toNat = 1 → ps.subOpcode = 1 → ps.nwords.toNat = leastWords env ps) :
    Inside ps (decodeUptoAi ps) ↔ (ps.opcode.toNat = 32 → ps.nwords ≠ 0) ∧
      (ps.opcode.toNat = 1 ∧ ps.subOpcode = 1 → ChipFamily.ai.code ≤ env.family.code) := by
  have older := decodeUptoVi_inside least
  rw [decodeUptoAi]
  split
  case h_1 opcode =>
    have older : Inside ps (decodeUptoVi ps) := older.mpr (by simp [opcode])
    simp only [leastWords, opcode] at least exact_
    refine bySub_inside ?_ (by simp +contextual [opcode, older])
    simp only [List.forall_mem_cons, List.not_mem_nil, IsEmpty.forall_iff, implies_true, and_true]
    refine ⟨fun sub => ?_, fun sub => ?_, ?_⟩
    · simp [sub] at least
      simp [opcode, sub, copyLinear_inside least older]
    · simp [sub, List.lookup_cons, tiledWords] at exact_
      simp [opcode, sub, copyTiled_inside, exact_]
      grind
    · repeat' apply And.intro
      all_goals
        intro sub
        simp [sub, opcode, older, List.lookup_cons] at least ⊢ <;> grind
  case h_2 opcode | h_4 opcode | h_5 opcode | h_8 opcode | h_9 opcode | h_10 opcode | h_11 opcode =>
    have older : Inside ps (decodeUptoVi ps) := older.mpr (by simp [opcode])
    simp only [leastWords, opcode] at least
    refine bySub_inside ?_ (by simp [opcode, older])
    simp only [List.forall_mem_cons, List.not_mem_nil, IsEmpty.forall_iff, implies_true, and_true]
    repeat' apply And.intro
    all_goals
      intro sub
      simp [sub, opcode, older, List.lookup_cons] at least ⊢ <;> omega
  case h_12 =>
    rw [older]
    simp_all
  all_goals
    next opcode =>
      simp only [leastWords, opcode] at least
      simp [opcode, least]

theorem decodeUptoNv_inside (least : leastWords env ps ≤ ps.nwords.toNat)
    (exact_ : ps.opcode.toNat = 1 → ps.subOpcode = 1 ∨ ps.subOpcode = 5 ∨ ps.subOpcode = 6 →
      ps.nwords.toNat = leastWords env ps) :
    Inside ps (decodeUptoNv ps) ↔ (ps.opcode.toNat = 32 → ps.nwords ≠ 0) ∧
      (ps.opcode.toNat = 1 ∧ ps.subOpcode = 1 → ChipFamily.ai.code ≤ env.family.code) ∧
      (ps.opcode.toNat = 1 ∧ (ps.subOpcode = 5 ∨ ps.subOpcode = 6) →
        ChipFamily.nv.code ≤ env.family.code) := by
  have older := decodeUptoAi_inside least fun opcode tiled => exact_ opcode (Or.inl tiled)
  rw [decodeUptoNv]
  split
  case h_1 opcode =>
    simp only [opcode, true_and, forall_const] at older exact_
    simp only [leastWords, opcode] at least exact_
    refine bySub_inside ?_ (by simp +contextual [opcode])
    simp only [List.forall_mem_cons, List.not_mem_nil, IsEmpty.forall_iff, implies_true, and_true]
    refine ⟨fun sub => ?_, fun sub => ?_, ?_⟩
    · simp [sub, opcode, older]
    · simp [sub, List.lookup_cons, tiledWords] at exact_
      simp [opcode, sub, copyTiled_inside, exact_]
      grind
    · repeat' apply And.intro
      all_goals
        intro sub
        simp [sub, opcode, older, List.lookup_cons] at least exact_ ⊢ <;> grind
  case h_2 opcode | h_4 opcode | h_5 opcode | h_6 opcode | h_7 opcode | h_8 opcode | h_9 opcode =>
    have older : Inside ps (decodeUptoAi ps) := older.mpr (by simp [opcode])
    simp only [leastWords, opcode] at least
    refine bySub_inside ?_ (by simp [opcode])
    simp only [List.forall_mem_cons, List.not_mem_nil, IsEmpty.forall_iff, implies_true, and_true]
    repeat' apply And.intro
    all_goals
      intro sub
      simp [sub, opcode, older, List.lookup_cons] at least ⊢ <;> omega
  case h_3 opcode =>
    simp only [leastWords, opcode] at least
    simp [opcode, least]
  case h_10 =>
    rw [older]
    simp_all

structure Sized (env : SdmaEnv) (ps : SdmaPacket) : Prop where
  version : ps.opcode.toNat = 0 ∨ ∃ verMaj, env.ossmaj = some verMaj ∧ 1 ≤ verMaj ∧ verMaj ≤ 6
  least : leastWords env ps ≤ ps.nwords.toNat
  /-- tiled copies, and those of tiled windows -/
  windows : ps.opcode.toNat = 1 → ps.subOpcode = 1 ∨ ps.subOpcode = 5 ∨ ps.subOpcode = 6 →
    ps.nwords.toNat = leastWords env ps
  copies : ps.opcode.toNat = 1 → ps.subOpcode ∈ copySubs

theorem eq_ofNat_of_toNat {word : UInt32} {k : Nat} (same : word.toNat = k) :
    word = UInt32.ofNat k := by
  rw [← same, UInt32.ofNat_toNat]

theorem sizedCopy_words {behind : WordAccess} (opcode : ps.opcode.toNat = 1)
    (sub : ps.subOpcode = sdmaSubOpcode ps.headerDw)
    (sized : sizedCopy env ps.headerDw behind = .ok ps.nwords) (isSized : ps.nwords ≠ unsized) :
    leastWords env ps ≤ ps.nwords.toNat ∧
      (ps.subOpcode = 1 ∨ ps.subOpcode = 5 ∨ ps.subOpcode = 6 →
        ps.nwords.toNat = leastWords env ps) ∧ ps.subOpcode ∈ copySubs := by
  unfold sizedCopy at sized
  rw [← sub] at sized
  simp only [leastWords, opcode]
  split at sized
  case h_8 at_ =>
    have sub := eq_ofNat_of_toNat at_
    cases read : behind 0 with
    | none =>
        rw [read] at sized
        cases sized
    | some count =>
        rw [read] at sized
        have words : (6 : UInt32) + 4 * (count >>> (24 : UInt32)) = ps.nwords := Except.ok.inj sized
        have shifted : (count >>> (24 : UInt32)).toNat = count.toNat / 2 ^ 24 := by
          rw [UInt32.toNat_shiftRight, Nat.shiftRight_eq_div_pow]
          rfl
        have bound := count.toNat_lt
        have six : (6 : UInt32).toNat = 6 := rfl
        have four : (4 : UInt32).toNat = 4 := rfl
        rw [← words]
        simp only [sub, List.lookup_cons, copySubs]
        rw [UInt32.toNat_add, UInt32.toNat_mul, shifted, six, four]
        simp
        omega
  case h_15 => exact absurd (Except.ok.inj sized).symm isSized
  all_goals
    next at_ =>
      have sub := eq_ofNat_of_toNat at_
      have words := Except.ok.inj sized
      rw [← words]
      simp [sub, List.lookup_cons, copySubs, tiledWords, apply_ite UInt32.toNat] <;> grind

theorem masked_words (base count : UInt32) (small : base.toNat ≤ 9) :
    base.toNat ≤ (base + (count &&& 0xFFFFF)).toNat := by
  have masked : (count &&& 0xFFFFF).toNat ≤ 0xFFFFF := by
    rw [UInt32.toNat_and]
    exact Nat.and_le_right
  rw [UInt32.toNat_add]
  omega

theorem orStop_bind_ok {α β : Type} {found : Option α} {next : α → Except StreamStop β} {value : β}
    (ran : (orStop found >>= next) = .ok value) : ∃ word, next word = .ok value := by
  cases found with
  | none => cases ran
  | some word => exact ⟨word, ran⟩

theorem sizedWrite_words {behind : WordAccess} (opcode : ps.opcode.toNat = 2)
    (sub : ps.subOpcode = sdmaSubOpcode ps.headerDw)
    (sized : sizedWrite ps.headerDw behind = .ok ps.nwords) (isSized : ps.nwords ≠ unsized) :
    leastWords env ps ≤ ps.nwords.toNat := by
  unfold sizedWrite at sized
  rw [← sub] at sized
  simp only [leastWords, opcode]
  split at sized
  case h_4 => exact absurd (Except.ok.inj sized).symm isSized
  all_goals
    next at_ =>
      have sub := eq_ofNat_of_toNat at_
      obtain ⟨count, ran⟩ := orStop_bind_ok sized
      rw [← Except.ok.inj ran]
      refine le_trans ?_ (masked_words _ count ?_)
      · rw [sub]
        decide
      · decide

theorem sizedOss15_words {behind : WordAccess} (isOpcode : ps.opcode = sdmaOpcode ps.headerDw)
    (sub : ps.subOpcode = sdmaSubOpcode ps.headerDw)
    (sized : sizedOss15 env ps.headerDw behind = .ok ps.nwords) (isSized : ps.nwords ≠ unsized) :
    leastWords env ps ≤ ps.nwords.toNat := by
  unfold sizedOss15 at sized
  rw [← isOpcode] at sized
  split at sized
  case h_2 opcode => exact (sizedCopy_words opcode sub sized isSized).1
  case h_3 opcode => exact sizedWrite_words opcode sub sized isSized
  case h_4 opcode =>
    rw [sizedIb_sized sized]
    simp only [leastWords, opcode]
    decide
  case h_18 => simp_all [leastWords]
  case h_8 opcode | h_11 opcode | h_12 opcode | h_13 opcode | h_14 opcode =>
    have words := Except.ok.inj sized
    rw [sizedBySub, ← sub] at words
    simp only [leastWords, opcode]
    cases found : List.lookup ps.subOpcode.toNat _ with
    | none =>
        rw [found] at words
        exact absurd words.symm isSized
    | some size =>
        rw [found] at words
        exact Nat.le_of_eq (congrArg UInt32.toNat words)
  all_goals
    next opcode =>
      rw [← Except.ok.inj sized]
      simp [leastWords, opcode]

theorem sizedOss15_copy {header : UInt32} {behind : WordAccess}
    (copy : (sdmaOpcode header).toNat = 1) :
    sizedOss15 env header behind = sizedCopy env header behind := by
  simp only [sizedOss15, copy]

theorem withIb_opcode {ossmaj : Nat} {fromVmid : UInt32} {behind : WordAccess} :
    (withIb env ossmaj fromVmid behind ps).opcode = ps.opcode ∧
      (withIb env ossmaj fromVmid behind ps).subOpcode = ps.subOpcode := by
  unfold withIb
  split <;> exact ⟨rfl, rfl⟩

theorem Sized.congr {other : SdmaPacket} (sized : Sized env ps) (opcode : other.opcode = ps.opcode)
    (subOpcode : other.subOpcode = ps.subOpcode) (header : other.headerDw = ps.headerDw)
    (nwords : other.nwords = ps.nwords) : Sized env other := by
  have least : leastWords env other = leastWords env ps := by
    rw [leastWords, leastWords, opcode, subOpcode, header]
  constructor
  · rw [opcode]
    exact sized.version
  · rw [least, nwords]
    exact sized.least
  · rw [opcode, subOpcode, nwords, least]
    exact sized.windows
  · rw [opcode, subOpcode]
    exact sized.copies

theorem Sized.ofRead : HoldsOfRead env (Sized env) where
  empty := by
    refine ⟨Or.inl rfl, ?_, fun copy => ?_, fun copy => ?_⟩
    · exact Nat.zero_le _
    · cases copy
    · cases copy
  read := by
    intro verMaj header size behind fromVmid payload version sized isSized _
    let made : SdmaPacket := { sdmaHeader header with nwords := size }
    have same := @withIb_opcode env made verMaj fromVmid behind
    refine @Sized.congr env made _ ?_ same.1 same.2 (withIb_header _ _ _) withIb_nwords
    rw [sdmaSize] at sized
    split at sized
    · next tabled =>
        have copied (opcode : made.opcode.toNat = 1) :=
          sizedCopy_words opcode rfl (sizedOss15_copy opcode ▸ sized) isSized
        refine ⟨Or.inr ⟨verMaj, version, tabled⟩, ?_, fun opcode => ?_, fun opcode => ?_⟩
        · exact @sizedOss15_words env made behind rfl rfl sized isSized
        · exact (copied opcode).2.1
        · exact (copied opcode).2.2
    · exact absurd (Except.ok.inj sized).symm isSized
  fromAny _ _ sized := sized.congr rfl rfl rfl rfl

end Fields

end Umr.Packet.Sdma
