import Umr.Packet.Sdma

/-!
# Which SDMA packets the stream decoder can size

A concatenation of complete packets comes back packet by packet, up to the first
one the length table has no entry for: then the whole stream is given up.
-/

set_option autoImplicit false

namespace Umr.Packet

open Umr.Lib Umr.Rumr

/-- The words of one packet as a `stream` pointer behind its header. -/
def bodyAccess (body : List UInt32) : WordAccess := fun k => body[k]?

/-- A packet of a header and its payload that the opcode decoder of the version
knows, complete as far as the length table gives it a length. -/
structure CompleteSdma (env : SdmaEnv) (ossmaj : Nat) (packet : UInt32 × List UInt32) : Prop where
  known : sdmaKnown ossmaj (sdmaOpcode packet.1) (sdmaSubOpcode packet.1) = true
  length : ∃ size, sdmaSize env packet.1 ossmaj (bodyAccess packet.2) = .ok size ∧
    (size = unsized ∨ packet.2.length = size.toNat)

/-- The decoder returns packets, and they are the words of the input. -/
def SdmaReassembles (env : SdmaEnv) (depth : Nat) (fromAddr : UInt64) (fromVmid : UInt32)
    (words : List UInt32) : Prop :=
  ∃ stream, umrSdmaDecodeStream env depth fromAddr fromVmid words = .ok stream ∧
    stream ≠ .null ∧ stream.packets.flatMap (fun ps => ps.headerDw :: ps.words) = words

/-- The packets the table misses: a tiled write of sub-opcode 17, and a dummy
trap, unless the UI has a length for it. -/
def SdmaSizable (env : SdmaEnv) (header : UInt32) : Prop :=
  ¬ (sdmaOpcode header = 2 ∧ sdmaSubOpcode header = 17) ∧
    (sdmaOpcode header = 32 → ∃ size, env.unhandledSize header = some size ∧ size ≠ unsized)

/-! ## Sizes -/

section Sizes
variable {env : SdmaEnv} {header : UInt32} {short long : WordAccess}

/-- A pointer that sees at least the words of another one. -/
def Extends (short long : WordAccess) : Prop := ∀ k word, short k = some word → long k = some word

theorem orStop_extends {α : Type} (extends_ : Extends short long) (k : Nat) {value : α}
    {next other : UInt32 → Except StreamStop α}
    (behind : ∀ word, next word = .ok value → other word = .ok value)
    (run : (orStop (short k) >>= next) = .ok value) :
    (orStop (long k) >>= other) = .ok value := by
  cases read : short k with
  | none =>
      rw [read] at run
      cases run
  | some word =>
      rw [extends_ k word read]
      rw [read] at run
      exact behind word run

theorem sizedCopy_extends (extends_ : Extends short long) {size : UInt32}
    (run : sizedCopy env header short = .ok size) : sizedCopy env header long = .ok size := by
  unfold sizedCopy at run ⊢
  generalize (sdmaSubOpcode header).toNat = sub at run ⊢
  split at run
  case h_8 => exact orStop_extends extends_ 0 (fun _ same => same) run
  all_goals exact run

theorem sizedWrite_extends (extends_ : Extends short long) {size : UInt32}
    (run : sizedWrite header short = .ok size) : sizedWrite header long = .ok size := by
  unfold sizedWrite at run ⊢
  generalize (sdmaSubOpcode header).toNat = sub at run ⊢
  split at run
  · exact orStop_extends extends_ 2 (fun _ same => same) run
  · exact orStop_extends extends_ 7 (fun _ same => same) run
  · exact orStop_extends extends_ 7 (fun _ same => same) run
  · exact run

/-- What is found in the words of a packet is found in the whole stream. -/
theorem sizedOss15_extends (extends_ : Extends short long) {size : UInt32}
    (run : sizedOss15 env header short = .ok size) : sizedOss15 env header long = .ok size := by
  unfold sizedOss15 at run ⊢
  generalize (sdmaOpcode header).toNat = opcode at run ⊢
  split at run
  case h_2 => exact sizedCopy_extends extends_ run
  case h_3 => exact sizedWrite_extends extends_ run
  case h_4 =>
    refine orStop_extends extends_ 1 (fun _ first => ?_) run
    refine orStop_extends extends_ 0 (fun _ second => ?_) first
    exact orStop_extends extends_ 2 (fun _ third => third) second
  all_goals exact run

theorem sdmaSize_extends (extends_ : Extends short long) {ossmaj : Nat} {size : UInt32}
    (run : sdmaSize env header ossmaj short = .ok size) :
    sdmaSize env header ossmaj long = .ok size := by
  unfold sdmaSize at run ⊢
  split
  · rename_i tabled
    rw [if_pos tabled] at run
    exact sizedOss15_extends extends_ run
  · rename_i untabled
    rw [if_neg untabled] at run
    exact run

/-! ## Which known packets have a size -/

theorem ne_unsized_of_lt {size : UInt32} (small : size.toNat < 2 ^ 32 - 1) : size ≠ unsized := by
  rintro rfl
  exact absurd small (by decide)

def copySubs : List UInt32 := [0, 1, 3, 4, 5, 6, 7, 8, 16, 17, 20, 21, 22, 36]

theorem sizedCopy_sized (known : sdmaSubOpcode header ∈ copySubs) {size : UInt32}
    (run : sizedCopy env header short = .ok size) : size ≠ unsized := by
  have subs : (sdmaSubOpcode header).toNat ∈ copySubs.map UInt32.toNat :=
    List.mem_map_of_mem known
  unfold sizedCopy at run
  generalize (sdmaSubOpcode header).toNat = sub at run subs
  split at run
  case h_8 =>
    cases read : short 0 with
    | none =>
        rw [read] at run
        cases run
    | some count =>
        rw [read] at run
        cases run
        apply ne_unsized_of_lt
        have shifted : (count >>> (24 : UInt32)).toNat = count.toNat / 2 ^ 24 := by
          rw [UInt32.toNat_shiftRight, Nat.shiftRight_eq_div_pow]
          rfl
        have bound := count.toNat_lt
        have six : (6 : UInt32).toNat = 6 := rfl
        have four : (4 : UInt32).toNat = 4 := rfl
        rw [UInt32.toNat_add, UInt32.toNat_mul, shifted, six, four]
        omega
  case h_15 => simp_all [copySubs]
  all_goals
    cases run
    repeat' split
    all_goals decide

theorem masked_ne_unsized (base count : UInt32) (small : base.toNat ≤ 9) :
    base + (count &&& 0xFFFFF) ≠ unsized := by
  apply ne_unsized_of_lt
  have masked : (count &&& 0xFFFFF).toNat ≤ 0xFFFFF := by
    rw [UInt32.toNat_and]
    exact Nat.and_le_right
  rw [UInt32.toNat_add]
  omega

theorem sizedWrite_sized (known : sdmaSubOpcode header = 0 ∨ sdmaSubOpcode header = 1)
    {size : UInt32} (run : sizedWrite header short = .ok size) : size ≠ unsized := by
  unfold sizedWrite at run
  rcases known with zero | one
  · rw [zero] at run
    change (orStop (short 2) >>= fun count => pure (4 + (count &&& 0xFFFFF))) = .ok size at run
    cases read : short 2 with
    | none =>
        rw [read] at run
        cases run
    | some count =>
        rw [read] at run
        cases run
        exact masked_ne_unsized 4 count (by decide)
  · rw [one] at run
    change (orStop (short 7) >>= fun count => pure (9 + (count &&& 0xFFFFF))) = .ok size at run
    cases read : short 7 with
    | none =>
        rw [read] at run
        cases run
    | some count =>
        rw [read] at run
        cases run
        exact masked_ne_unsized 9 count (by decide)

def KnownUpto6 (opcode sub : UInt32) : Prop :=
  match opcode.toNat with
  | 0 | 4 | 5 | 6 | 9 | 10 | 15 | 16 | 17 | 32 => True
  | 1 => sub ∈ copySubs
  | 2 => sub ∈ ([0, 1, 17] : List UInt32)
  | 7 => True
  | 8 => sub ∈ ([0, 1, 2, 3, 4] : List UInt32)
  | 11 => sub ∈ ([0, 1] : List UInt32)
  | 12 => sub ∈ ([0, 1, 2] : List UInt32)
  | 13 => sub ∈ ([0, 1, 2] : List UInt32)
  | 14 => sub ∈ ([0, 1] : List UInt32)
  | _ => False

section Known
variable {opcode sub : UInt32}

theorem knownUptoVi_knownUpto6 (known : knownUptoVi opcode sub = true) :
    KnownUpto6 opcode sub := by
  unfold knownUptoVi knownBy casesUptoVi at known
  unfold KnownUpto6
  generalize opcode.toNat = op at known ⊢
  split
  all_goals try trivial
  all_goals simp_all [copySubs]
  all_goals grind

theorem knownUptoAi_knownUpto6 (known : knownUptoAi opcode sub = true) :
    KnownUpto6 opcode sub := by
  have older : knownUptoVi opcode sub = true → KnownUpto6 opcode sub := knownUptoVi_knownUpto6
  unfold knownUptoAi knownBy casesUptoAi at known
  unfold KnownUpto6 at older ⊢
  generalize opcode.toNat = op at known older ⊢
  split
  all_goals try trivial
  all_goals simp_all [copySubs]
  all_goals grind

theorem knownUptoNv_knownUpto6 (known : knownUptoNv opcode sub = true) :
    KnownUpto6 opcode sub := by
  have older : knownUptoAi opcode sub = true → KnownUpto6 opcode sub := knownUptoAi_knownUpto6
  unfold knownUptoNv knownBy casesUptoNv at known
  unfold KnownUpto6 at older ⊢
  generalize opcode.toNat = op at known older ⊢
  split
  all_goals try trivial
  all_goals simp_all [copySubs]
  all_goals grind

theorem sdmaKnown_knownUpto6 {verMaj : Nat} (tabled : 1 ≤ verMaj ∧ verMaj ≤ 6)
    (known : sdmaKnown verMaj opcode sub = true) : KnownUpto6 opcode sub := by
  unfold sdmaKnown at known
  split at known
  · exact knownUptoVi_knownUpto6 known
  · exact knownUptoVi_knownUpto6 known
  · exact knownUptoVi_knownUpto6 known
  · exact knownUptoAi_knownUpto6 known
  · exact knownUptoNv_knownUpto6 known
  · exact knownUptoNv_knownUpto6 known
  · omega
  · cases known

end Known

theorem sizedIb_sized {size : UInt32} (run : (do
      let _ ← orStop (short 1)
      let _ ← orStop (short 0)
      let _ ← orStop (short 2)
      pure 5 : Except StreamStop UInt32) = .ok size) : size = 5 := by
  cases first : short 1 with
  | none =>
      rw [first] at run
      cases run
  | some _ =>
      cases second : short 0 with
      | none =>
          rw [first, second] at run
          cases run
      | some _ =>
          cases third : short 2 with
          | none =>
              rw [first, second, third] at run
              cases run
          | some _ =>
              rw [first, second, third] at run
              cases run
              rfl

theorem sizedOss15_sized_iff
    (known : KnownUpto6 (sdmaOpcode header) (sdmaSubOpcode header)) {size : UInt32}
    (run : sizedOss15 env header short = .ok size) : size ≠ unsized ↔ SdmaSizable env header := by
  have isWrite : sdmaOpcode header = 2 ↔ (sdmaOpcode header).toNat = 2 := UInt32.toNat_inj.symm
  have isTrap : sdmaOpcode header = 32 ↔ (sdmaOpcode header).toNat = 32 := UInt32.toNat_inj.symm
  unfold sizedOss15 at run
  unfold KnownUpto6 at known
  unfold SdmaSizable
  rw [isWrite, isTrap]
  generalize (sdmaOpcode header).toNat = opcode at run known ⊢
  have sized : ∀ {size : UInt32}, size ≠ unsized → opcode ≠ 2 → opcode ≠ 32 →
      (size ≠ unsized ↔ ¬ (opcode = 2 ∧ sdmaSubOpcode header = 17) ∧
        (opcode = 32 → ∃ size, env.unhandledSize header = some size ∧ size ≠ unsized)) := by
    intro size ne notWrite notTrap
    exact ⟨fun _ => ⟨fun write => notWrite write.1, fun trap => absurd trap notTrap⟩, fun _ => ne⟩
  split at run
  case h_1 =>
    cases run
    have masked : ((header >>> (16 : UInt32)) &&& 0x3FFF).toNat ≤ 0x3FFF := by
      rw [UInt32.toNat_and]
      exact Nat.and_le_right
    exact sized (ne_unsized_of_lt (by omega)) (by decide) (by decide)
  case h_2 => exact sized (sizedCopy_sized known run) (by decide) (by decide)
  case h_3 =>
    simp only [List.mem_cons, List.not_mem_nil, or_false] at known
    rcases known with zero | one | tiledBc
    · have ne := sizedWrite_sized (Or.inl zero) run
      simp [ne, zero]
    · have ne := sizedWrite_sized (Or.inr one) run
      simp [ne, one]
    · rw [sizedWrite, tiledBc] at run
      cases run
      simp [tiledBc]
  case h_4 =>
    rw [sizedIb_sized run]
    exact sized (by decide) (by decide) (by decide)
  case h_8 =>
    cases run
    simp only [List.mem_cons, List.not_mem_nil, or_false] at known
    refine sized ?_ (by decide) (by decide)
    rcases known with same | same | same | same | same <;> rw [sizedBySub, same] <;> decide
  case h_11 | h_14 =>
    cases run
    simp only [List.mem_cons, List.not_mem_nil, or_false] at known
    refine sized ?_ (by decide) (by decide)
    rcases known with same | same <;> rw [sizedBySub, same] <;> decide
  case h_12 | h_13 =>
    cases run
    simp only [List.mem_cons, List.not_mem_nil, or_false] at known
    refine sized ?_ (by decide) (by decide)
    rcases known with same | same | same <;> rw [sizedBySub, same] <;> decide
  case h_18 =>
    have trap : opcode = 32 := by
      by_contra other
      simp_all
    subst trap
    cases run
    cases given : env.unhandledSize header with
    | none => simp
    | some size => simp
  all_goals
    cases run
    exact sized (by decide) (by decide) (by decide)

end Sizes

/-! ## The loop on a concatenation -/

def SdmaStream.frames (stream : SdmaStream) : List (UInt32 × List UInt32) :=
  stream.packets.map fun ps => (ps.headerDw, ps.words)

/-- The outcome of the loop on `packets`: all of them, or nothing because one of
them has no size. -/
inductive SdmaOutcome (env : SdmaEnv) (ossmaj : Nat) (packets : List (UInt32 × List UInt32)) :
    Except StreamStop (Option SdmaStream) → Prop where
  | decoded (stream : SdmaStream) (same : stream.frames = packets)
      (sized : ∀ packet ∈ packets, ∀ size,
        sdmaSize env packet.1 ossmaj (bodyAccess packet.2) = .ok size → size ≠ unsized) :
      SdmaOutcome env ossmaj packets (.ok (some stream))
  | givenUp (packet : UInt32 × List UInt32) (member : packet ∈ packets)
      (unknown : sdmaSize env packet.1 ossmaj (bodyAccess packet.2) = .ok unsized) :
      SdmaOutcome env ossmaj packets (.ok none)

section Loop
variable {env : SdmaEnv} {ossmaj : Nat}

theorem withIb_header (fromVmid : UInt32) (behind : WordAccess) (ps : SdmaPacket) :
    (withIb env ossmaj fromVmid behind ps).headerDw = ps.headerDw := by
  unfold withIb
  split <;> rfl

theorem followSdmaIb_off (noFollow : env.noFollowIb = true)
    (follow : UInt64 → UInt32 → List UInt32 → Except StreamStop SdmaStream) (here : UInt64)
    (fromVmid : UInt32) (ps : SdmaPacket) :
    followSdmaIb env follow ossmaj here fromVmid ps = .ok .null := by
  refine if_neg ?_
  rintro ⟨_, _, on⟩
  rw [noFollow] at on
  cases on

theorem bodyAccess_extends {stream body tail : List UInt32} {offset : Nat} {header : UInt32}
    (left : stream.drop offset = header :: (body ++ tail)) :
    Extends (bodyAccess body) fun k => readWord stream (offset + 1 + k) := by
  intro k word found
  have inside : k < body.length := by
    by_contra outside
    rw [bodyAccess, List.getElem?_eq_none (by omega)] at found
    cases found
  have shifted : (stream.drop offset)[1 + k]? = stream[offset + (1 + k)]? := List.getElem?_drop
  rw [left, Nat.add_comm 1 k, List.getElem?_cons_succ, List.getElem?_append_left inside] at shifted
  change stream[offset + 1 + k]? = some word
  rw [Nat.add_assoc, Nat.add_comm 1 k, ← shifted]
  exact found

variable (noFollow : env.noFollowIb = true)
  (follow : UInt64 → UInt32 → List UInt32 → Except StreamStop SdmaStream)
  (fromAddr : UInt64) (fromVmid : UInt32) (stream : List UInt32)

include noFollow in
theorem sdmaLoop_outcome (packets : List (UInt32 × List UInt32)) : ∀ (offset turns : Nat),
    stream.drop offset = reassemble packets →
    (∀ packet ∈ packets, CompleteSdma env ossmaj packet) →
    (reassemble packets).length ≤ turns →
    SdmaOutcome env ossmaj packets (sdmaLoop env follow ossmaj fromAddr fromVmid stream turns offset
      (reassemble packets).length) := by
  induction packets with
  | nil =>
      intro offset turns _ _ _
      have done : sdmaLoop env follow ossmaj fromAddr fromVmid stream turns offset 0 =
          .ok (some .null) := by
        cases turns <;> rfl
      have none_left : (reassemble ([] : List (UInt32 × List UInt32))).length = 0 := rfl
      rw [none_left, done]
      exact .decoded .null rfl fun _ member => nomatch member
  | cons packet packets ih =>
      intro offset turns left complete enough
      obtain ⟨header, body⟩ := packet
      have here := complete (header, body) (List.mem_cons_self ..)
      have later : ∀ packet ∈ packets, CompleteSdma env ossmaj packet :=
        fun packet member => complete packet (List.mem_cons_of_mem _ member)
      obtain ⟨size, sizeRun, length⟩ := here.length
      have cut : reassemble ((header, body) :: packets) = header :: (body ++ reassemble packets) :=
        rfl
      rw [cut] at left enough ⊢
      have sizeLong := sdmaSize_extends (bodyAccess_extends left) sizeRun
      cases turns with
      | zero =>
          rw [List.length_cons] at enough
          omega
      | succ turns =>
          rw [sdmaLoop, if_neg (by simp), readWord_of_drop left]
          change SdmaOutcome _ _ _ (sdmaSize env header ossmaj _ >>= _)
          rw [sizeLong]
          change SdmaOutcome _ _ _ (followSdmaIb env follow ossmaj _ fromVmid _ >>= _)
          rw [followSdmaIb_off noFollow]
          change SdmaOutcome _ _ _ (if size = unsized then _ else _)
          by_cases unknown : size = unsized
          · rw [if_pos unknown]
            rw [unknown] at sizeRun
            exact .givenUp (header, body) (List.mem_cons_self ..) sizeRun
          · have count : body.length = size.toNat := length.resolve_left unknown
            have whole : ¬ (header :: (body ++ reassemble packets)).length < 1 + size.toNat := by
              rw [List.length_cons, List.length_append]
              omega
            have inside : size.toNat ≤ (body ++ reassemble packets).length := by
              rw [List.length_append]
              omega
            obtain ⟨found, tail, split, foundLength, payload, next⟩ := readWords_of_drop left inside
            obtain ⟨rfl, rfl⟩ := List.append_inj split (count.trans foundLength.symm)
            have rest : (header :: (body ++ reassemble packets)).length - (1 + size.toNat) =
                (reassemble packets).length := by
              rw [List.length_cons, List.length_append]
              omega
            have further := ih (offset + (1 + size.toNat)) turns next later (by
              rw [List.length_cons, List.length_append] at enough
              omega)
            rw [if_neg unknown, if_neg whole, payload, rest]
            change SdmaOutcome _ _ _ (sdmaLoop env follow ossmaj fromAddr fromVmid stream turns
              (offset + (1 + size.toNat)) (reassemble packets).length >>= _)
            generalize sdmaLoop env follow ossmaj fromAddr fromVmid stream turns
              (offset + (1 + size.toNat)) (reassemble packets).length = outcome at further
            cases further with
            | decoded nextStream same sized =>
                refine .decoded (.node _ .null nextStream) ?_ ?_
                · change (_, _) :: nextStream.frames = _
                  rw [same, withIb_header]
                  rfl
                · intro packet member
                  rcases List.mem_cons.mp member with rfl | behind
                  · intro other otherRun
                    rw [sizeRun] at otherRun
                    cases otherRun
                    exact unknown
                  · exact sized packet behind
            | givenUp packet member unsizedRun =>
                exact .givenUp packet (List.mem_cons_of_mem _ member) unsizedRun

end Loop

/-! ## The decoder -/

theorem sdma_complete_size {env : SdmaEnv} {ossmaj : Nat} {packet : UInt32 × List UInt32}
    (tabled : 1 ≤ ossmaj ∧ ossmaj ≤ 6) (complete : CompleteSdma env ossmaj packet) :
    (∀ size, sdmaSize env packet.1 ossmaj (bodyAccess packet.2) = .ok size → size ≠ unsized) ↔
      SdmaSizable env packet.1 := by
  obtain ⟨size, sizeRun, _⟩ := complete.length
  have known := sdmaKnown_knownUpto6 tabled complete.known
  have sized := sizeRun
  rw [sdmaSize, if_pos tabled] at sized
  rw [← sizedOss15_sized_iff known sized]
  constructor
  · exact fun each => each size sizeRun
  · intro ne other otherRun
    rw [sizeRun] at otherRun
    cases otherRun
    exact ne

theorem sdma_unsized_past_table {env : SdmaEnv} {ossmaj : Nat} (past : ¬ (1 ≤ ossmaj ∧ ossmaj ≤ 6))
    (header : UInt32) (behind : WordAccess) : sdmaSize env header ossmaj behind = .ok unsized :=
  if_neg past

theorem reassemble_frames (stream : SdmaStream) :
    stream.packets.flatMap (fun ps => ps.headerDw :: ps.words) = reassemble stream.frames := by
  rw [reassemble, SdmaStream.frames, List.flatMap_map]

theorem reassemble_pos {packets : List (UInt32 × List UInt32)} (some_packet : packets ≠ []) :
    (reassemble packets).length ≠ 0 := by
  cases packets with
  | nil => exact absurd rfl some_packet
  | cons packet packets =>
      change (packet.1 :: (packet.2 ++ reassemble packets)).length ≠ 0
      rw [List.length_cons]
      omega

/-- An empty array still yields the one packet that was allocated for it. -/
theorem not_sdmaReassembles_nil {env : SdmaEnv} {ossmaj : Nat} (found : env.ossmaj = some ossmaj)
    (depth : Nat) (fromAddr : UInt64) (fromVmid : UInt32) :
    ¬ SdmaReassembles env (depth + 1) fromAddr fromVmid [] := by
  rintro ⟨stream, run, _, same⟩
  rw [umrSdmaDecodeStream, found] at run
  cases run
  cases same

section Decoder
variable {env : SdmaEnv} {ossmaj : Nat} {packets : List (UInt32 × List UInt32)}

theorem umrSdmaDecodeStream_outcome (noFollow : env.noFollowIb = true)
    (found : env.ossmaj = some ossmaj) (depth : Nat) (fromAddr : UInt64) (fromVmid : UInt32)
    (some_packet : packets ≠ [])
    (complete : ∀ packet ∈ packets, CompleteSdma env ossmaj packet) :
    ∃ outcome, SdmaOutcome env ossmaj packets outcome ∧
      umrSdmaDecodeStream env (depth + 1) fromAddr fromVmid (reassemble packets) =
        outcome.map fun decoded => decoded.getD .null := by
  refine ⟨_, sdmaLoop_outcome noFollow (umrSdmaDecodeStream env depth) fromAddr fromVmid
    (reassemble packets) packets 0 (reassemble packets).length rfl complete (Nat.le_refl _), ?_⟩
  rw [umrSdmaDecodeStream, found]
  change (if _ then _ else _) = _
  rw [if_neg (reassemble_pos some_packet)]
  cases sdmaLoop env (umrSdmaDecodeStream env depth) ossmaj fromAddr fromVmid (reassemble packets)
    (reassemble packets).length 0 (reassemble packets).length <;> rfl

end Decoder

/-! ## Two rings -/

/-- A machine of version `ossmaj` with a UI that has no lengths of its own. -/
def plainSdma (ossmaj : Nat) : SdmaEnv where
  family := .nv
  ossmaj := some ossmaj
  noFollowIb := true
  unhandledSize := fun _ => none
  readVram := fun _ _ _ => none

def nopAndFence : List (UInt32 × List UInt32) := [(0x00010000, [0xAB]), (0x5, [0x10, 0, 7])]

theorem nopAndFence_complete : ∀ packet ∈ nopAndFence, CompleteSdma (plainSdma 5) 5 packet := by
  intro packet member
  simp only [nopAndFence, List.mem_cons, List.not_mem_nil, or_false] at member
  rcases member with rfl | rfl
  · exact ⟨by decide, 1, rfl, Or.inr rfl⟩
  · exact ⟨by decide, 3, rfl, Or.inr rfl⟩

theorem nopAndFence_sizable : ∀ packet ∈ nopAndFence, SdmaSizable (plainSdma 5) packet.1 := by
  intro packet member
  simp only [nopAndFence, List.mem_cons, List.not_mem_nil, or_false] at member
  rcases member with rfl | rfl
  · exact ⟨by decide, fun trap => absurd trap (by decide)⟩
  · exact ⟨by decide, fun trap => absurd trap (by decide)⟩

end Umr.Packet
