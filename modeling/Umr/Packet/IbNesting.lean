import Umr.Packet.Parsed
import Umr.Packet.VpeOpcodes

/-!
# IBs that point to IBs

The PM4, SDMA and VPE decoders follow an IB packet by decoding the words it points
to, with no limit and no memory of the IBs they are in.  A run of each of them is a
call that makes calls: its inner calls are the IBs of the array, and the SDMA and VPE
decoders fault where a packet's length is read from words that are not there.
-/

set_option autoImplicit false

namespace Umr.Packet

open Umr.Lib Umr.Rumr

def haltOf {γ : Type} : Except StreamStop γ → Halt
  | .ok _ => .done
  | .error .outOfBounds => .fault
  | .error .depth => .deep

theorem haltOf_bind {γ δ : Type} {prog : Except StreamStop γ} {next : γ → Except StreamStop δ}
    {rest : Halt} (same : ∀ value, haltOf (next value) = rest) :
    haltOf (prog >>= next) = (haltOf prog).andThen rest := by
  cases prog with
  | error stop => cases stop <;> rfl
  | ok value => exact same value

theorem haltOf_map {γ δ : Type} {prog : Except StreamStop γ} {shown : γ → δ} :
    haltOf (prog >>= fun value => pure (shown value)) = haltOf prog := by
  cases prog with
  | error stop => cases stop <;> rfl
  | ok value => rfl

theorem haltOf_done {γ : Type} {prog : Except StreamStop γ} :
    haltOf prog = .done ↔ ∃ value, prog = .ok value := by
  cases prog with
  | error stop => cases stop <;> simp [haltOf]
  | ok value => simp [haltOf]

theorem haltOf_fault {γ : Type} {prog : Except StreamStop γ} :
    haltOf prog = .fault ↔ prog = .error .outOfBounds := by
  cases prog with
  | error stop => cases stop <;> simp [haltOf]
  | ok value => simp [haltOf]

abbrev IbCall := UInt32 × List UInt32

/-! ## PM4 -/

section Pm4
variable (env : Pm4Env)

def ibCall (request : Option IbRequest) : Option IbCall :=
  request.bind fun ib => (env.readVram ib.vmid ib.addr ib.size).map fun buf =>
    (ib.vmid, (List.range (ib.size.toNat / 4)).map buf)

def pm4Ibs (call : IbCall) : List IbCall :=
  (pm4Parsed env call.1 call.2).flatMap fun parsed => (ibCall env parsed.2).toList

variable {env}

theorem followIb_halt {follow : UInt32 → List UInt32 → Except StreamStop Pm4Stream}
    (request : Option IbRequest) (ps : Pm4Packet) :
    haltOf (followIb env follow request ps) =
      inTurn (fun call : IbCall => haltOf (follow call.1 call.2)) (ibCall env request).toList := by
  cases request with
  | none => rfl
  | some ib =>
      rw [followIb, ibCall, Option.bind_some]
      cases env.readVram ib.vmid ib.addr ib.size with
      | none => rfl
      | some buf =>
          dsimp only
          rw [haltOf_map, Option.map_some, Option.toList_some, inTurn, inTurn, Halt.andThen_done]

theorem followPackets_halt {follow : UInt32 → List UInt32 → Except StreamStop Pm4Stream}
    (parsed : List (Pm4Packet × Option IbRequest)) :
    haltOf (followPackets env follow parsed) =
      inTurn (fun call : IbCall => haltOf (follow call.1 call.2))
        (parsed.flatMap fun packet => (ibCall env packet.2).toList) := by
  induction parsed with
  | nil => rfl
  | cons packet parsed ih =>
      rw [followPackets, List.flatMap_cons, inTurn_append, ← ih, ← followIb_halt packet.2 packet.1]
      exact haltOf_bind fun followed => haltOf_map

/-- The PM4 decoder reads no word outside its arrays. -/
theorem umrPm4DecodeStream_halt {depth : Nat} : ∀ {vmid : UInt32} {stream : List UInt32},
    haltOf (umrPm4DecodeStream env depth vmid stream) =
      halt (pm4Ibs env) (fun _ => True) depth (vmid, stream) := by
  induction depth with
  | zero => exact rfl
  | succ depth ih =>
      intro vmid stream
      have calls : (fun call : IbCall => haltOf (umrPm4DecodeStream env depth call.1 call.2)) =
          halt (pm4Ibs env) (fun _ => True) depth := funext fun call => ih
      rw [umrPm4DecodeStream_parsed, halt, if_pos trivial, ← calls]
      have halted : haltOf (followPackets env (umrPm4DecodeStream env depth)
          (pm4Parsed env vmid stream)) = _ := followPackets_halt (pm4Parsed env vmid stream)
      rw [decodeWith, Halt.andThen_done]
      split
      · rename_i empty
        rw [List.eq_nil_of_length_eq_zero empty]
        rfl
      · exact halted

end Pm4

/-! ## SDMA -/

/-- A length that is read from the first `reads` words behind a header. -/
structure Sizes {γ : Type} (reads : Nat) (behind : List UInt32) (sized : Except StreamStop γ) :
    Prop where
  outside : behind.length < reads → sized = .error .outOfBounds
  inside : reads ≤ behind.length → ∃ size, sized = .ok size

theorem Sizes.fixed {γ : Type} {behind : List UInt32} {size : γ} :
    Sizes 0 behind (.ok size : Except StreamStop γ) :=
  ⟨fun short => absurd short (Nat.not_lt_zero _), fun _ => ⟨size, rfl⟩⟩

theorem Sizes.word {γ : Type} {behind : List UInt32} {k : Nat} {size : UInt32 → γ} :
    Sizes (k + 1) behind
      (orStop (bodyAccess behind k) >>= fun word => (pure (size word) : Except StreamStop γ)) := by
  refine ⟨fun short => ?_, fun enough => ⟨size (behind.getD k 0), ?_⟩⟩
  · rw [bodyAccess, List.getElem?_eq_none (Nat.le_of_lt_succ short)]
    rfl
  · rw [bodyAccess, List.getElem?_eq_getElem enough, List.getD_eq_getElem _ _ enough]
    rfl

theorem Sizes.three {γ : Type} {behind : List UInt32} {size : γ} :
    Sizes 3 behind (do
      let _ ← orStop (bodyAccess behind 1)
      let _ ← orStop (bodyAccess behind 0)
      let _ ← orStop (bodyAccess behind 2)
      pure size : Except StreamStop γ) :=
  match behind with
  | [] => ⟨fun _ => rfl, fun enough => absurd enough (by decide)⟩
  | [_] => ⟨fun _ => rfl, fun enough => absurd enough (by simp)⟩
  | [_, _] => ⟨fun _ => rfl, fun enough => absurd enough (by simp)⟩
  | _ :: _ :: _ :: behind => ⟨fun short => absurd short (by simp), fun _ => ⟨size, rfl⟩⟩

theorem access_of_drop {stream : List UInt32} {offset : Nat} {header : UInt32}
    {behind : List UInt32} (left : stream.drop offset = header :: behind) :
    (fun k => readWord stream (offset + 1 + k)) = bodyAccess behind := by
  have following : stream.drop (offset + 1) = behind := by
    rw [← List.drop_drop, left]
    rfl
  funext k
  rw [bodyAccess, ← following, List.getElem?_drop]
  rfl

section Sdma
variable (env : SdmaEnv) (ossmaj : Nat)

/-- How many words behind its header the length of a packet is read from. -/
def sdmaReads (header : UInt32) : Nat :=
  if 1 ≤ ossmaj ∧ ossmaj ≤ 6 then
    match (sdmaOpcode header).toNat with
    | 1 => if sdmaSubOpcode header = 8 then 1 else 0
    | 2 =>
        match (sdmaSubOpcode header).toNat with
        | 0 => 3
        | 1 | 2 => 8
        | _ => 0
    | 4 => 3
    | _ => 0
  else 0

def sdmaLength (header : UInt32) (behind : List UInt32) : Option Nat :=
  match sdmaSize env header ossmaj (bodyAccess behind) with
  | .ok size => if size = unsized then none else some size.toNat
  | .error _ => none

/-- The IB of a packet, if it is an IB packet that is followed and can be read. -/
def sdmaIb (fromVmid : UInt32) (header : UInt32) (behind : List UInt32) : Option IbCall :=
  if (1 ≤ ossmaj ∧ ossmaj ≤ 6) ∧ sdmaOpcode header = 4 ∧ env.noFollowIb = false ∧
      3 ≤ behind.length then
    let ps := withIb env ossmaj fromVmid (bodyAccess behind) (sdmaHeader header)
    (env.readVram ps.ibVmid ps.ibAddr (ps.ibSize * 4)).map fun buf =>
      (ps.ibVmid, (List.range ps.ibSize.toNat).map buf)
  else none

def sdmaIbs (call : IbCall) : List IbCall :=
  env.ossmaj.toList.flatMap fun ossmaj =>
    scanCalls (sdmaLength env ossmaj) (sdmaIb env ossmaj call.1) call.2.length call.2

def SdmaFits (call : IbCall) : Prop :=
  ∀ ossmaj ∈ env.ossmaj,
    ReadsInside (sdmaLength env ossmaj) (sdmaReads ossmaj) call.2.length call.2

instance : DecidablePred (SdmaFits env) := fun call =>
  inferInstanceAs (Decidable (∀ ossmaj ∈ env.ossmaj,
    ReadsInside (sdmaLength env ossmaj) (sdmaReads ossmaj) call.2.length call.2))

variable {env ossmaj}

theorem sizedCopy_reads {header : UInt32} {behind : List UInt32} :
    Sizes (if sdmaSubOpcode header = 8 then 1 else 0) behind
      (sizedCopy env header (bodyAccess behind)) := by
  by_cases isPhy : sdmaSubOpcode header = 8
  · rw [if_pos isPhy, sizedCopy, isPhy]
    exact Sizes.word
  · rw [if_neg isPhy, sizedCopy]
    have other : (sdmaSubOpcode header).toNat ≠ 8 := fun same => isPhy (UInt32.toNat_inj.mp same)
    generalize (sdmaSubOpcode header).toNat = sub at other
    split
    case h_8 => exact absurd rfl other
    all_goals exact Sizes.fixed

theorem sizedWrite_reads {header : UInt32} {behind : List UInt32} :
    Sizes (match (sdmaSubOpcode header).toNat with
      | 0 => 3
      | 1 | 2 => 8
      | _ => 0) behind (sizedWrite header (bodyAccess behind)) := by
  rw [sizedWrite]
  generalize (sdmaSubOpcode header).toNat = sub
  rcases sub with _ | _ | _ | _
  · exact Sizes.word
  · exact Sizes.word
  · exact Sizes.word
  · exact Sizes.fixed

theorem sdmaSize_reads {header : UInt32} {behind : List UInt32} :
    Sizes (sdmaReads ossmaj header) behind (sdmaSize env header ossmaj (bodyAccess behind)) := by
  rw [sdmaReads, sdmaSize]
  by_cases tabled : 1 ≤ ossmaj ∧ ossmaj ≤ 6
  · rw [if_pos tabled, if_pos tabled, sizedOss15]
    generalize (sdmaOpcode header).toNat = opcode
    split
    · exact sizedCopy_reads
    · exact sizedWrite_reads
    · exact Sizes.three
    · split <;> first | contradiction | exact Sizes.fixed
  · rw [if_neg tabled, if_neg tabled]
    exact Sizes.fixed

theorem sdmaReads_ib {header : UInt32} (tabled : 1 ≤ ossmaj ∧ ossmaj ≤ 6)
    (isIb : sdmaOpcode header = 4) : sdmaReads ossmaj header = 3 := by
  rw [sdmaReads, if_pos tabled, isIb]
  rfl

theorem sdmaReads_cut (fromVmid header : UInt32) (behind : List UInt32)
    (short : behind.length < sdmaReads ossmaj header) :
    sdmaLength env ossmaj header behind = none ∧
      sdmaIb env ossmaj fromVmid header behind = none := by
  refine ⟨?_, if_neg ?_⟩
  · rw [sdmaLength, sdmaSize_reads.outside short]
  · rintro ⟨tabled, isIb, _, enough⟩
    rw [sdmaReads_ib tabled isIb] at short
    omega

variable {follow : UInt64 → UInt32 → List UInt32 → Except StreamStop SdmaStream}
  {run : IbCall → Halt}

theorem followSdmaIb_halt
    (runs : ∀ here vmid words, haltOf (follow here vmid words) = run (vmid, words))
    {header size fromVmid : UInt32} {behind : List UInt32} {here : UInt64}
    (enough : sdmaReads ossmaj header ≤ behind.length) :
    haltOf (followSdmaIb env follow ossmaj here fromVmid
        (withIb env ossmaj fromVmid (bodyAccess behind) { sdmaHeader header with nwords := size })) =
      inTurn run (sdmaIb env ossmaj fromVmid header behind).toList := by
  have opcode : (withIb env ossmaj fromVmid (bodyAccess behind) (sdmaHeader header)).opcode =
      sdmaOpcode header := by
    unfold withIb
    split <;> rfl
  have sized : withIb env ossmaj fromVmid (bodyAccess behind)
      { sdmaHeader header with nwords := size } =
        { withIb env ossmaj fromVmid (bodyAccess behind) (sdmaHeader header) with
          nwords := size } := by
    unfold withIb
    split <;> rfl
  rw [sized, sdmaIb]
  generalize withIb env ossmaj fromVmid (bodyAccess behind) (sdmaHeader header) = ps at opcode
  rw [followSdmaIb, opcode]
  by_cases follows : (1 ≤ ossmaj ∧ ossmaj ≤ 6) ∧ sdmaOpcode header = 4 ∧ env.noFollowIb = false
  · rw [sdmaReads_ib follows.1 follows.2.1] at enough
    rw [if_pos follows, if_pos ⟨follows.1, follows.2.1, follows.2.2, enough⟩]
    dsimp only
    cases env.readVram ps.ibVmid ps.ibAddr (ps.ibSize * 4) with
    | none => rfl
    | some buf =>
        dsimp only
        rw [haltOf_map, runs, Option.map_some, Option.toList_some, inTurn, inTurn,
          Halt.andThen_done]
  · rw [if_neg follows, if_neg fun all => follows ⟨all.1, all.2.1, all.2.2.1⟩]
    rfl

theorem sdmaLoop_halt
    (runs : ∀ here vmid words, haltOf (follow here vmid words) = run (vmid, words))
    {fromAddr : UInt64} {fromVmid : UInt32} {stream : List UInt32} {turns : Nat} :
    ∀ {offset nwords : Nat}, offset + nwords = stream.length →
      haltOf (sdmaLoop env follow ossmaj fromAddr fromVmid stream turns offset nwords) =
        scanHalt (sdmaLength env ossmaj) (sdmaReads ossmaj) (sdmaIb env ossmaj fromVmid) run turns
          (stream.drop offset) := by
  induction turns with
  | zero => exact fun _ => rfl
  | succ turns ih =>
      intro offset nwords whole
      have length : (stream.drop offset).length = nwords := by
        rw [List.length_drop]
        omega
      rw [sdmaLoop]
      cases left : stream.drop offset with
      | nil =>
          rw [left, List.length_nil] at length
          rw [if_pos length.symm]
          rfl
      | cons header behind =>
          rw [left, List.length_cons] at length
          have some_ : nwords ≠ 0 := by omega
          rw [if_neg some_, readWord_of_drop left, access_of_drop left, scanHalt]
          by_cases short : behind.length < sdmaReads ossmaj header
          · rw [if_pos short]
            change haltOf (sdmaSize env header ossmaj (bodyAccess behind) >>= _) = _
            rw [sdmaSize_reads.outside short]
            rfl
          · obtain ⟨size, sized⟩ := sdmaSize_reads.inside (Nat.le_of_not_lt short)
            have follows := @followSdmaIb_halt env ossmaj follow run runs header size fromVmid behind
              (fromAddr + (UInt64.ofNat (offset + 1) <<< 2)) (Nat.le_of_not_lt short)
            rw [if_neg short, ← follows]
            change haltOf (sdmaSize env header ossmaj (bodyAccess behind) >>= _) = _
            rw [sized]
            change haltOf (followSdmaIb env follow ossmaj _ fromVmid _ >>= _) = _
            refine haltOf_bind fun ib => ?_
            rw [Lib.packetRest, sdmaLength, sized]
            dsimp only
            by_cases unknown : size = unsized
            · rw [if_pos unknown, if_pos unknown, scanHalt_nil]
              rfl
            · rw [if_neg unknown, if_neg unknown]
              dsimp only
              by_cases cut : behind.length < size.toNat
              · rw [if_pos (by omega), if_pos cut, scanHalt_nil]
                rfl
              · obtain ⟨body, tail, split_, isSize, read, further⟩ :=
                  readWords_of_drop left (Nat.le_of_not_lt cut)
                have next := @ih (offset + (1 + size.toNat)) (nwords - (1 + size.toNat)) (by omega)
                have isTail : behind.drop size.toNat = tail := by
                  rw [split_, ← isSize, List.drop_left]
                rw [if_neg (by omega), if_neg cut, read, isTail, ← further, ← next]
                exact haltOf_map

theorem umrSdmaDecodeStream_halt {depth : Nat} :
    ∀ {fromAddr : UInt64} {fromVmid : UInt32} {stream : List UInt32},
      haltOf (umrSdmaDecodeStream env depth fromAddr fromVmid stream) =
        halt (sdmaIbs env) (SdmaFits env) depth (fromVmid, stream) := by
  induction depth with
  | zero => exact rfl
  | succ depth ih =>
      intro fromAddr fromVmid stream
      rw [umrSdmaDecodeStream, halt, sdmaIbs]
      cases version : env.ossmaj with
      | none =>
          have fits : SdmaFits env (fromVmid, stream) := by
            intro ossmaj known
            rw [version] at known
            cases known
          rw [if_pos fits]
          rfl
      | some ossmaj =>
          have fits : SdmaFits env (fromVmid, stream) ↔
              ReadsInside (sdmaLength env ossmaj) (sdmaReads ossmaj) stream.length stream := by
            rw [SdmaFits, version]
            exact ⟨fun all => all ossmaj rfl, fun inside _ same => by cases same; exact inside⟩
          have scan := @scanHalt_eq _ _ _ _ _ (halt (sdmaIbs env) (SdmaFits env) depth)
            (@sdmaReads_cut env ossmaj fromVmid) stream.length stream
          simp only [fits]
          rw [Option.toList_some, List.flatMap_singleton, ← scan]
          by_cases empty : stream.length = 0
          · rw [List.eq_nil_of_length_eq_zero empty]
            rfl
          · rw [if_neg empty]
            exact haltOf_map.trans (@sdmaLoop_halt env ossmaj _ _ (fun _ _ _ => ih) fromAddr fromVmid
              stream stream.length 0 stream.length (Nat.zero_add _))

end Sdma

/-! ## VPE -/

section Vpe
variable (env : VpeEnv)

/-- How many words behind its header the length of a packet is read from. -/
def vpeReads (header : UInt32) : Nat :=
  match (vpeOpcode header).toNat with
  | 1 | 4 => 3
  | _ => 0

def vpeLength (header : UInt32) (behind : List UInt32) : Option Nat :=
  match vpeSize header (bodyAccess behind) with
  | .ok (some size) => some size.toNat
  | _ => none

def vpeIb (header : UInt32) (behind : List UInt32) : Option IbCall :=
  if vpeOpcode header = 4 ∧ env.noFollowIb = false ∧ 3 ≤ behind.length then
    let ps := withVpeIb env (bodyAccess behind) (vpeHeader header)
    (env.readVram ps.ibVmid ps.ibAddr (ps.ibSize * 4)).map fun buf =>
      (ps.ibVmid, (List.range ps.ibSize.toNat).map buf)
  else none

def vpeIbs (call : IbCall) : List IbCall :=
  scanCalls vpeLength (vpeIb env) call.2.length call.2

def VpeFits (call : IbCall) : Prop := ReadsInside vpeLength vpeReads call.2.length call.2

instance : DecidablePred VpeFits := fun call =>
  inferInstanceAs (Decidable (ReadsInside vpeLength vpeReads call.2.length call.2))

variable {env}

theorem vpeSize_reads {header : UInt32} {behind : List UInt32} :
    Sizes (vpeReads header) behind (vpeSize header (bodyAccess behind)) := by
  rw [vpeReads, vpeSize]
  generalize (vpeOpcode header).toNat = opcode
  split
  · exact Sizes.word
  · exact Sizes.three
  · split <;> first | contradiction | exact Sizes.fixed

theorem vpeReads_cut (header : UInt32) (behind : List UInt32)
    (short : behind.length < vpeReads header) :
    vpeLength header behind = none ∧ vpeIb env header behind = none := by
  refine ⟨?_, if_neg ?_⟩
  · rw [vpeLength, vpeSize_reads.outside short]
  · rintro ⟨isIb, _, enough⟩
    have reads : vpeReads header = 3 := by
      rw [vpeReads, isIb]
      rfl
    omega

variable {follow : UInt64 → UInt32 → List UInt32 → Except StreamStop VpeStream}
  {run : IbCall → Halt}

theorem followVpeIb_halt
    (runs : ∀ here vmid words, haltOf (follow here vmid words) = run (vmid, words))
    {header size fromVmid : UInt32} {behind : List UInt32} {here : UInt64}
    (enough : vpeReads header ≤ behind.length) :
    haltOf (followVpeIb env follow here fromVmid
        (withVpeIb env (bodyAccess behind) { vpeHeader header with nwords := size })) =
      inTurn run (vpeIb env header behind).toList := by
  have opcode : (withVpeIb env (bodyAccess behind) (vpeHeader header)).opcode =
      vpeOpcode header := by
    unfold withVpeIb
    split <;> rfl
  have sized : withVpeIb env (bodyAccess behind) { vpeHeader header with nwords := size } =
      { withVpeIb env (bodyAccess behind) (vpeHeader header) with nwords := size } := by
    unfold withVpeIb
    split <;> rfl
  rw [sized, vpeIb]
  generalize withVpeIb env (bodyAccess behind) (vpeHeader header) = ps at opcode
  rw [followVpeIb, opcode]
  by_cases follows : vpeOpcode header = 4 ∧ env.noFollowIb = false
  · have reads : vpeReads header = 3 := by
      rw [vpeReads, follows.1]
      rfl
    rw [if_pos follows, if_pos ⟨follows.1, follows.2, by omega⟩]
    dsimp only
    cases env.readVram ps.ibVmid ps.ibAddr (ps.ibSize * 4) with
    | none => rfl
    | some buf =>
        dsimp only
        rw [haltOf_map, runs, Option.map_some, Option.toList_some, inTurn, inTurn,
          Halt.andThen_done]
  · rw [if_neg follows, if_neg fun all => follows ⟨all.1, all.2.1⟩]
    rfl

theorem vpeLoop_halt
    (runs : ∀ here vmid words, haltOf (follow here vmid words) = run (vmid, words))
    {fromAddr : UInt64} {fromVmid : UInt32} {stream : List UInt32} {turns : Nat} :
    ∀ {offset nwords : Nat}, offset + nwords = stream.length →
      haltOf (vpeLoop env follow fromAddr fromVmid stream turns offset nwords) =
        scanHalt vpeLength vpeReads (vpeIb env) run turns (stream.drop offset) := by
  induction turns with
  | zero => exact fun _ => rfl
  | succ turns ih =>
      intro offset nwords whole
      have length : (stream.drop offset).length = nwords := by
        rw [List.length_drop]
        omega
      rw [vpeLoop]
      cases left : stream.drop offset with
      | nil =>
          rw [left, List.length_nil] at length
          rw [if_pos length.symm]
          rfl
      | cons header behind =>
          rw [left, List.length_cons] at length
          have some_ : nwords ≠ 0 := by omega
          rw [if_neg some_, readWord_of_drop left, access_of_drop left, scanHalt]
          by_cases short : behind.length < vpeReads header
          · rw [if_pos short]
            change haltOf (vpeSize header (bodyAccess behind) >>= _) = _
            rw [vpeSize_reads.outside short]
            rfl
          · obtain ⟨size, sized⟩ := vpeSize_reads.inside (Nat.le_of_not_lt short)
            rw [if_neg short]
            change haltOf (vpeSize header (bodyAccess behind) >>= _) = _
            rw [sized]
            cases size with
            | none =>
                have silent : vpeIb env header behind = none := by
                  refine if_neg ?_
                  rintro ⟨isIb, _, enough⟩
                  rw [vpeSize, isIb] at sized
                  obtain ⟨_, _, sized⟩ := bind_ok sized
                  obtain ⟨_, _, sized⟩ := bind_ok sized
                  obtain ⟨_, _, sized⟩ := bind_ok sized
                  cases sized
                rw [Lib.packetRest, vpeLength, sized, silent, scanHalt_nil]
                rfl
            | some size =>
                have follows := @followVpeIb_halt env follow run runs header size fromVmid behind
                  (fromAddr + (UInt64.ofNat (offset + 1) <<< 2)) (Nat.le_of_not_lt short)
                rw [← follows]
                change haltOf (followVpeIb env follow _ fromVmid _ >>= _) = _
                refine haltOf_bind fun ib => ?_
                rw [Lib.packetRest, vpeLength, sized]
                dsimp only
                by_cases cut : behind.length < size.toNat
                · rw [if_pos (by omega), if_pos cut, scanHalt_nil]
                  rfl
                · obtain ⟨body, tail, split_, isSize, read, further⟩ :=
                    readWords_of_drop left (Nat.le_of_not_lt cut)
                  have next := @ih (offset + (1 + size.toNat)) (nwords - (1 + size.toNat)) (by omega)
                  have isTail : behind.drop size.toNat = tail := by
                    rw [split_, ← isSize, List.drop_left]
                  rw [if_neg (by omega), if_neg cut, read, isTail, ← further, ← next]
                  exact haltOf_map

theorem umrVpeDecodeStream_halt {depth : Nat} :
    ∀ {fromAddr : UInt64} {fromVmid : UInt32} {stream : List UInt32},
      haltOf (umrVpeDecodeStream env depth fromAddr fromVmid stream) =
        halt (vpeIbs env) VpeFits depth (fromVmid, stream) := by
  induction depth with
  | zero => exact rfl
  | succ depth ih =>
      intro fromAddr fromVmid stream
      have scan := @scanHalt_eq _ _ _ _ _ (halt (vpeIbs env) VpeFits depth) (@vpeReads_cut env)
        stream.length stream
      rw [umrVpeDecodeStream, halt]
      change _ = (inTurn _ (scanCalls vpeLength (vpeIb env) stream.length stream)).andThen
        (if ReadsInside vpeLength vpeReads stream.length stream then _ else _)
      rw [← scan]
      by_cases empty : stream.length = 0
      · rw [List.eq_nil_of_length_eq_zero empty]
        rfl
      · rw [if_neg empty]
        exact haltOf_map.trans (@vpeLoop_halt env _ _ (fun _ _ _ => ih) fromAddr fromVmid stream
          stream.length 0 stream.length (Nat.zero_add _))

end Vpe

/-! ## Runs that return -/

/-- Some depth of IBs is enough for the decoder to return. -/
def Pm4Returns (env : Pm4Env) (vmid : UInt32) (stream : List UInt32) : Prop :=
  ∃ depth decoded, umrPm4DecodeStream env depth vmid stream = .ok decoded

def SdmaReturns (env : SdmaEnv) (fromAddr : UInt64) (fromVmid : UInt32) (stream : List UInt32) :
    Prop :=
  ∃ depth decoded, umrSdmaDecodeStream env depth fromAddr fromVmid stream = .ok decoded

def VpeReturns (env : VpeEnv) (fromAddr : UInt64) (fromVmid : UInt32) (stream : List UInt32) :
    Prop :=
  ∃ depth decoded, umrVpeDecodeStream env depth fromAddr fromVmid stream = .ok decoded

theorem pm4Returns_iff {env : Pm4Env} {vmid : UInt32} {stream : List UInt32} :
    Pm4Returns env vmid stream ↔ Acc (Inner (pm4Ibs env)) (vmid, stream) := by
  have returns : Pm4Returns env vmid stream ↔
      ∃ depth, halt (pm4Ibs env) (fun _ => True) depth (vmid, stream) = .done :=
    exists_congr fun depth => by rw [← umrPm4DecodeStream_halt, haltOf_done]
  rw [returns, done_iff_settles]
  exact ⟨fun settles => settles.ends, fun ends => ⟨ends, fun _ _ => trivial⟩⟩

theorem sdmaReturns_iff {env : SdmaEnv} {fromAddr : UInt64} {fromVmid : UInt32}
    {stream : List UInt32} : SdmaReturns env fromAddr fromVmid stream ↔
      Settles (sdmaIbs env) (SdmaFits env) (fromVmid, stream) := by
  rw [← done_iff_settles]
  exact exists_congr fun depth => by rw [← umrSdmaDecodeStream_halt, haltOf_done]

theorem vpeReturns_iff {env : VpeEnv} {fromAddr : UInt64} {fromVmid : UInt32}
    {stream : List UInt32} : VpeReturns env fromAddr fromVmid stream ↔
      Settles (vpeIbs env) VpeFits (fromVmid, stream) := by
  rw [← done_iff_settles]
  exact exists_congr fun depth => by rw [← umrVpeDecodeStream_halt, haltOf_done]

def selfIb : List UInt32 := [0xC0023F00, 0x1000, 0, 4]

def selfEnv : Pm4Env where
  family := .ai
  noFollowIb := false
  noFollowShader := true
  shaderEnable := ⟨true, true, true, true, true, true, true, true⟩
  regName := fun _ => "mmSCRATCH_REG0"
  readVram := fun _ _ _ => some fun k => selfIb.getD k 0
  computeShaderSize := fun _ _ => 0

def SdmaInside (env : SdmaEnv) (fromAddr : UInt64) (fromVmid : UInt32) (stream : List UInt32) :
    Prop :=
  ∀ depth, umrSdmaDecodeStream env depth fromAddr fromVmid stream ≠ .error .outOfBounds

def VpeInside (env : VpeEnv) (fromAddr : UInt64) (fromVmid : UInt32) (stream : List UInt32) :
    Prop :=
  ∀ depth, umrVpeDecodeStream env depth fromAddr fromVmid stream ≠ .error .outOfBounds

/-- The decoders stay inside exactly where each array they get to has the words its
packets are sized by, unless they do not come back from one of its IBs. -/
theorem decodes_inside_iff (stream : List UInt32) :
    (∀ env fromAddr fromVmid, SdmaInside env fromAddr fromVmid stream ↔
      ∀ array, GetsTo (sdmaIbs env) (SdmaFits env) (fromVmid, stream) array →
        (∀ ib ∈ sdmaIbs env array, Settles (sdmaIbs env) (SdmaFits env) ib) → SdmaFits env array) ∧
    (∀ env fromAddr fromVmid, VpeInside env fromAddr fromVmid stream ↔
      ∀ array, GetsTo (vpeIbs env) VpeFits (fromVmid, stream) array →
        (∀ ib ∈ vpeIbs env array, Settles (vpeIbs env) VpeFits ib) → VpeFits array) := by
  refine ⟨fun env fromAddr fromVmid => ?_, fun env fromAddr fromVmid => ?_⟩
  · rw [← never_faults_iff]
    refine forall_congr' fun depth => not_congr ?_
    rw [← haltOf_fault, umrSdmaDecodeStream_halt]
  · rw [← never_faults_iff]
    refine forall_congr' fun depth => not_congr ?_
    rw [← haltOf_fault, umrVpeDecodeStream_halt]

def oss5Env : SdmaEnv where
  family := .nv
  ossmaj := some 5
  noFollowIb := true
  unhandledSize := fun _ => none
  readVram := fun _ _ _ => none

/-- A copy with physical addresses whose count of them is missing. -/
theorem sdmaInside_not_cut_copy : ¬ SdmaInside oss5Env 0 0 [0x801] := by
  intro inside
  exact inside 1 (by decide)

end Umr.Packet
