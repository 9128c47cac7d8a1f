import Umr.Lib.Fault
import Umr.Packet.Disassemble

/-!
# What the decoders store

The packets of a decoded stream, and of the IBs in it, have as many words as
they count.  A MES packet counts its header with them.
-/

set_option autoImplicit false

namespace Umr.Packet

open Umr.Lib Umr.Rumr

theorem orStop_ok {α : Type} {found : Option α} {value : α} (ran : orStop found = .ok value) :
    found = some value := by
  cases found with
  | none => cases ran
  | some other =>
      cases ran
      rfl

theorem readWords_length {mem words : List UInt32} {offset count : Nat}
    (found : readWords mem offset count = some words) : words.length = count := by
  rw [readWords] at found
  split at found
  · cases found
    rw [List.length_take, List.length_drop]
    omega
  · cases found

/-! ## PM4 and VCN decode -/

def Pm4Packet.Stored (ps : Pm4Packet) : Prop := ps.words.length = ps.nWords.toNat

theorem Pm4Packet.Stored.of_shape {ps other : Pm4Packet} (stored : ps.Stored)
    (same : other.shape = ps.shape) : other.Stored := by
  simp only [Pm4Packet.shape, Prod.mk.injEq] at same
  rw [Pm4Packet.Stored, same.2.2.1, same.2.2.2]
  exact stored

theorem parseVcnDec_shape (env : Pm4Env) (uvd : UvdIb) (ps : Pm4Packet) :
    (parseVcnDec env uvd ps).2.shape = ps.shape := by
  unfold parseVcnDec
  split
  · rfl
  · exact parsePkt0_keepsShape env uvd ps

section Pm4
variable {env : Pm4Env} {follow : UInt32 → List UInt32 → Except StreamStop Pm4Stream}
  (followed : ∀ vmid words stream, follow vmid words = .ok stream →
    stream.linked.All Pm4Packet.Stored)

include followed in
theorem followIb_stored {request : Option IbRequest} {ps : Pm4Packet}
    {result : Pm4Packet × Pm4Stream} (stored : ps.Stored)
    (ran : followIb env follow request ps = .ok result) :
    result.1.Stored ∧ result.2.linked.All Pm4Packet.Stored := by
  cases request with
  | none =>
      cases ran
      exact ⟨stored, trivial⟩
  | some ib =>
      rw [followIb] at ran
      split at ran
      · cases ran
        exact ⟨stored, trivial⟩
      · obtain ⟨stream, decoded, rest⟩ := bind_ok ran
        cases rest
        exact ⟨stored, followed _ _ _ decoded⟩

include followed in
theorem pm4Loop_stored (vmid : UInt32) (words : List UInt32) (turns : Nat) :
    ∀ (offset nwords : Nat) (uvd : UvdIb) (stream : Pm4Stream),
      pm4Loop env follow vmid words turns offset nwords uvd = .ok stream →
      stream.linked.All Pm4Packet.Stored := by
  induction turns with
  | zero =>
      intro offset nwords uvd stream ran
      cases ran
      trivial
  | succ turns ih =>
      intro offset nwords uvd stream ran
      rw [pm4Loop] at ran
      split at ran
      · cases ran
        trivial
      · obtain ⟨header, -, ran⟩ := bind_ok ran
        dsimp only at ran
        split at ran
        · cases ran
          trivial
        · obtain ⟨payload, read, ran⟩ := bind_ok ran
          obtain ⟨result, entered, ran⟩ := bind_ok ran
          obtain ⟨next, further, ran⟩ := bind_ok ran
          cases ran
          have stored : Pm4Packet.Stored { pm4Header (· = 3) header with words := payload } :=
            readWords_length (orStop_ok read)
          have parsed := stored.of_shape (parsePacket_shape env vmid uvd _)
          obtain ⟨here, inIb⟩ := followIb_stored followed parsed entered
          exact ⟨here, inIb, ih _ _ _ _ further⟩

include followed in
theorem vcnDecLoop_stored (ip : Nat × Nat) (words : List UInt32) (turns : Nat) :
    ∀ (offset nwords : Nat) (uvd : UvdIb) (stream : Pm4Stream),
      vcnDecLoop env ip follow words turns offset nwords uvd = .ok stream →
      stream.linked.All Pm4Packet.Stored := by
  induction turns with
  | zero =>
      intro offset nwords uvd stream ran
      cases ran
      trivial
  | succ turns ih =>
      intro offset nwords uvd stream ran
      rw [vcnDecLoop] at ran
      split at ran
      · cases ran
        trivial
      · obtain ⟨header, -, ran⟩ := bind_ok ran
        dsimp only at ran
        split at ran
        · cases ran
          trivial
        · obtain ⟨payload, read, ran⟩ := bind_ok ran
          obtain ⟨result, entered, ran⟩ := bind_ok ran
          obtain ⟨next, further, ran⟩ := bind_ok ran
          cases ran
          have stored : Pm4Packet.Stored { vcnDecHeader ip header with words := payload } :=
            readWords_length (orStop_ok read)
          have parsed := stored.of_shape (parseVcnDec_shape (vcnDecEnv env ip) uvd _)
          obtain ⟨here, inIb⟩ := followIb_stored followed parsed entered
          exact ⟨here, inIb, ih _ _ _ _ further⟩

end Pm4

theorem decodeWith_stored {loop : Except StreamStop Pm4Stream} {nwords : Nat} {stream : Pm4Stream}
    (looped : loop = .ok stream → stream.linked.All Pm4Packet.Stored)
    (ran : decodeWith loop nwords = .ok stream) : stream.linked.All Pm4Packet.Stored := by
  rw [decodeWith] at ran
  split at ran
  · cases ran
    exact ⟨rfl, trivial, trivial⟩
  · exact looped ran

theorem umrPm4DecodeStream_stored {env : Pm4Env} {depth : Nat} :
    ∀ (vmid : UInt32) (words : List UInt32) (stream : Pm4Stream),
      umrPm4DecodeStream env depth vmid words = .ok stream →
      stream.linked.All Pm4Packet.Stored := by
  induction depth with
  | zero =>
      intro vmid words stream ran
      cases ran
  | succ depth followed =>
      intro vmid words stream ran
      exact decodeWith_stored (pm4Loop_stored followed vmid words _ _ _ _ stream) ran

theorem umrVcnDecDecodeStream_stored {env : Pm4Env} {vcn : Option (Nat × Nat)} {depth : Nat} :
    ∀ (vmid : UInt32) (words : List UInt32) (stream : Pm4Stream),
      umrVcnDecDecodeStream env vcn depth vmid words = .ok stream →
      stream.linked.All Pm4Packet.Stored := by
  induction depth with
  | zero =>
      intro vmid words stream ran
      cases ran
  | succ depth followed =>
      intro vmid words stream ran
      cases vcn with
      | none =>
          cases ran
          trivial
      | some ip =>
          rw [umrVcnDecDecodeStream] at ran
          split at ran
          · cases ran
            trivial
          · exact decodeWith_stored (vcnDecLoop_stored followed ip words _ _ _ _ stream) ran

theorem umrVcnDecDecodeStream_version {env : Pm4Env} {vcn : Option (Nat × Nat)} {depth : Nat}
    {vmid : UInt32} {words : List UInt32} {stream : Pm4Stream}
    (ran : umrVcnDecDecodeStream env vcn depth vmid words = .ok stream) (packet : stream ≠ .null) :
    ∃ ip, vcn = some ip := by
  cases vcn with
  | none =>
      cases depth with
      | zero => cases ran
      | succ depth =>
          cases ran
          exact absurd rfl packet
  | some ip => exact ⟨ip, rfl⟩

/-! ## SDMA -/

theorem withIb_nwords {env : SdmaEnv} {ossmaj : Nat} {fromVmid : UInt32} {behind : WordAccess}
    {ps : SdmaPacket} : (withIb env ossmaj fromVmid behind ps).nwords = ps.nwords := by
  unfold withIb
  split <;> rfl

/-- What holds of every packet the SDMA decoder reads. -/
structure HoldsOfRead (env : SdmaEnv) (holds : SdmaPacket → Prop) : Prop where
  /-- the packet of an empty stream -/
  empty : holds { sdmaHeader 0 with nwords := 0 }
  read : ∀ {ossmaj : Nat} {header size : UInt32} {behind : WordAccess} (fromVmid : UInt32)
    {payload : List UInt32}, env.ossmaj = some ossmaj →
    sdmaSize env header ossmaj behind = .ok size → size ≠ unsized →
    payload.length = size.toNat →
    holds { withIb env ossmaj fromVmid behind { sdmaHeader header with nwords := size } with
      words := payload }
  fromAny : ∀ {ps : SdmaPacket} (addr : UInt64) (vmid : UInt32), holds ps →
    holds { ps with fromAddr := addr, fromVmid := vmid }

section Sdma
variable {env : SdmaEnv} {holds : SdmaPacket → Prop} (ofRead : HoldsOfRead env holds)

include ofRead in
theorem setFrom_all {addr : UInt64} {vmid : UInt32} {stream : SdmaStream}
    (all : stream.linked.All holds) : (stream.setFrom addr vmid).linked.All holds := by
  cases stream with
  | null => trivial
  | node packet nextIb next => exact ⟨ofRead.fromAny addr vmid all.1, all.2⟩

variable {follow : UInt64 → UInt32 → List UInt32 → Except StreamStop SdmaStream}
  (followed : ∀ addr vmid words stream, follow addr vmid words = .ok stream →
    stream.linked.All holds)

include ofRead followed in
theorem followSdmaIb_all {ossmaj : Nat} {here : UInt64} {fromVmid : UInt32} {ps : SdmaPacket}
    {stream : SdmaStream} (ran : followSdmaIb env follow ossmaj here fromVmid ps = .ok stream) :
    stream.linked.All holds := by
  rw [followSdmaIb] at ran
  split at ran
  · split at ran
    · cases ran
      trivial
    · obtain ⟨inner, decoded, rest⟩ := bind_ok ran
      cases rest
      exact setFrom_all ofRead (followed _ _ _ _ decoded)
  · cases ran
    trivial

include ofRead followed in
theorem sdmaLoop_all {ossmaj : Nat} (version : env.ossmaj = some ossmaj) (fromAddr : UInt64)
    (fromVmid : UInt32) (words : List UInt32) (turns : Nat) :
    ∀ (offset nwords : Nat) (stream : SdmaStream),
      sdmaLoop env follow ossmaj fromAddr fromVmid words turns offset nwords = .ok (some stream) →
      stream.linked.All holds := by
  induction turns with
  | zero =>
      intro offset nwords stream ran
      cases ran
      trivial
  | succ turns ih =>
      intro offset nwords stream ran
      rw [sdmaLoop] at ran
      split at ran
      · cases ran
        trivial
      · obtain ⟨header, -, ran⟩ := bind_ok ran
        dsimp only at ran
        obtain ⟨size, sized, ran⟩ := bind_ok ran
        obtain ⟨ib, entered, ran⟩ := bind_ok ran
        split at ran
        · cases ran
        · next isSized =>
            split at ran
            · cases ran
              trivial
            · obtain ⟨payload, read, ran⟩ := bind_ok ran
              obtain ⟨further, furtherRan, ran⟩ := bind_ok ran
              obtain ⟨next, rfl, rfl⟩ := Option.map_eq_some_iff.mp (Except.ok.inj ran)
              have counted := readWords_length (orStop_ok read)
              exact ⟨ofRead.read fromVmid version sized isSized counted,
                followSdmaIb_all ofRead followed entered, ih _ _ _ furtherRan⟩

end Sdma

theorem umrSdmaDecodeStream_all {env : SdmaEnv} {holds : SdmaPacket → Prop}
    (ofRead : HoldsOfRead env holds) {depth : Nat} :
    ∀ (fromAddr : UInt64) (fromVmid : UInt32) (words : List UInt32) (stream : SdmaStream),
      umrSdmaDecodeStream env depth fromAddr fromVmid words = .ok stream →
      stream.linked.All holds := by
  induction depth with
  | zero =>
      intro fromAddr fromVmid words stream ran
      cases ran
  | succ depth followed =>
      intro fromAddr fromVmid words stream ran
      rw [umrSdmaDecodeStream] at ran
      split at ran
      · cases ran
        trivial
      · next ossmaj version =>
          split at ran
          · cases ran
            exact ⟨ofRead.empty, trivial, trivial⟩
          · obtain ⟨decoded, looped, ran⟩ := bind_ok ran
            cases ran
            cases decoded with
            | none => trivial
            | some stream =>
                exact sdmaLoop_all ofRead followed version _ _ words _ _ _ stream looped

def SdmaPacket.Stored (ps : SdmaPacket) : Prop := ps.words.length = ps.nwords.toNat

theorem SdmaPacket.Stored.ofRead {env : SdmaEnv} : HoldsOfRead env SdmaPacket.Stored where
  empty := rfl
  read := by
    intro ossmaj header size behind fromVmid payload _ _ _ counted
    change payload.length = (withIb env ossmaj fromVmid _ _).nwords.toNat
    rw [withIb_nwords]
    exact counted
  fromAny _ _ stored := stored

theorem umrSdmaDecodeStream_stored {env : SdmaEnv} {depth : Nat} (fromAddr : UInt64)
    (fromVmid : UInt32) (words : List UInt32) (stream : SdmaStream)
    (ran : umrSdmaDecodeStream env depth fromAddr fromVmid words = .ok stream) :
    stream.linked.All SdmaPacket.Stored :=
  umrSdmaDecodeStream_all SdmaPacket.Stored.ofRead fromAddr fromVmid words stream ran

/-! ## MES and VCN encode -/

def MesPacket.Stored (ms : MesPacket) : Prop := ms.words.length + 1 = ms.nwords.toNat

theorem mesLoop_stored (words : List UInt32) (turns : Nat) :
    ∀ (offset nwords : Nat) (stream : List MesPacket),
      mesLoop words turns offset nwords = .ok stream → ∀ ms ∈ stream, ms.Stored := by
  induction turns with
  | zero =>
      intro offset nwords stream ran
      cases ran
      exact fun _ member => nomatch member
  | succ turns ih =>
      intro offset nwords stream ran
      rw [mesLoop] at ran
      split at ran
      · cases ran
        exact fun _ member => nomatch member
      · obtain ⟨header, -, ran⟩ := bind_ok ran
        dsimp only at ran
        split at ran
        · cases ran
          exact fun _ member => nomatch member
        · next whole =>
            obtain ⟨payload, read, ran⟩ := bind_ok ran
            obtain ⟨next, further, ran⟩ := bind_ok ran
            cases ran
            refine List.forall_mem_cons.mpr ⟨?_, ih _ _ _ further⟩
            have counted := readWords_length (orStop_ok read)
            have positive : (mesHeader header).nwords.toNat ≠ 0 := by
              intro zero
              exact whole (Or.inr (UInt32.toNat_inj.mp zero))
            change payload.length + 1 = (mesHeader header).nwords.toNat
            omega

theorem umrMesDecodeStream_stored {gfx : Option (Nat × Nat)} {words : List UInt32}
    {stream : List MesPacket} (nonempty : words ≠ [])
    (ran : umrMesDecodeStream gfx words = .ok stream) : ∀ ms ∈ stream, ms.Stored := by
  rw [umrMesDecodeStream] at ran
  split at ran
  · cases ran
    exact fun _ member => nomatch member
  · rw [if_neg (mt List.length_eq_zero_iff.mp nonempty)] at ran
    exact mesLoop_stored words _ _ _ stream ran

def VcnEncPacket.Stored (ps : VcnEncPacket) : Prop :=
  ps.words.length = ps.nwords.toNat ∧ ps.invalid = false

theorem vcnEncInvalid_eq_false (opcode : UInt32) :
    vcnEncInvalid opcode (findNwords opcode) = false := by
  by_cases ib : opcode = 2
  · subst ib
    rfl
  · simp [vcnEncInvalid, ib]

theorem vcnEncLoop_stored (words : List UInt32) (turns : Nat) :
    ∀ (offset nwords : Nat) (stream : List VcnEncPacket),
      vcnEncLoop words turns offset nwords = .ok stream → ∀ ps ∈ stream, ps.Stored := by
  induction turns with
  | zero =>
      intro offset nwords stream ran
      cases ran
      exact fun _ member => nomatch member
  | succ turns ih =>
      intro offset nwords stream ran
      rw [vcnEncLoop] at ran
      split at ran
      · cases ran
        exact fun _ member => nomatch member
      · obtain ⟨opcode, -, ran⟩ := bind_ok ran
        dsimp only at ran
        split at ran
        · cases ran
          exact fun _ member => nomatch member
        · obtain ⟨payload, read, ran⟩ := bind_ok ran
          obtain ⟨next, further, ran⟩ := bind_ok ran
          cases ran
          refine List.forall_mem_cons.mpr ⟨⟨?_, vcnEncInvalid_eq_false opcode⟩, ih _ _ _ further⟩
          exact readWords_length (orStop_ok read)

theorem umrVcnEncDecodeStream_stored {words : List UInt32} {stream : List VcnEncPacket}
    (ran : umrVcnEncDecodeStream words = .ok stream) : ∀ ps ∈ stream, ps.Stored := by
  rw [umrVcnEncDecodeStream] at ran
  split at ran
  · cases ran
    exact fun ps member => List.mem_singleton.mp member ▸ ⟨rfl, rfl⟩
  · exact vcnEncLoop_stored words _ _ _ stream ran

end Umr.Packet
