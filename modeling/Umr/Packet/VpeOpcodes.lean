import Umr.Packet.Vpe
import Umr.Packet.SdmaFraming
import Umr.Lib.Fault

/-!
# What the VPE opcode decoder fetches

For each packet that `umr_vpe_decode_stream` frames: the opcode decoder stays inside
it, and comes to an end, unless the packet is a descriptor with the largest count, a
plane config of an unknown sub-opcode, or a direct config whose data sizes do not
come out at its end.
-/

set_option autoImplicit false

namespace Umr.Packet

open Umr.Lib Umr.Rumr

def VpeStream.allPackets : VpeStream → List VpePacket
  | .null => []
  | .node packet nextIb next => packet :: (nextIb.allPackets ++ next.allPackets)

/-- The decoder comes to an end and fetches only words of the packet. -/
def VpeFetchesInside (ps : VpePacket) : Prop :=
  ∃ turns fetches, vpeFetches ps turns = some fetches ∧ ∀ off ∈ fetches, off < ps.nwords

/-- Words that are configs one after the other, each a header and its data. -/
inductive ConfigsTile : List UInt32 → Prop
  | nil : ConfigsTile []
  | config (header : UInt32) (data rest : List UInt32)
      (size : data.length = (header >>> 20).toNat + 1) (further : ConfigsTile rest) :
      ConfigsTile (header :: (data ++ rest))

/-- Framer and opcode decoder count the payload alike. -/
structure VpeAgrees (ps : VpePacket) : Prop where
  descriptor : ps.opcode = 1 → ps.words.getD 2 0 &&& 0xFF ≠ 0xFF
  planeConfig : ps.opcode = 2 → ps.subOpcode ≤ 2
  directConfig : ps.opcode = 3 → ps.subOpcode = 0 → ConfigsTile ps.words

/-! ## The packets of a stream -/

structure VpeFramed (ps : VpePacket) : Prop where
  opcode : ps.opcode = vpeOpcode ps.headerDw
  subOpcode : ps.subOpcode = vpeSubOpcode ps.headerDw
  sized : vpeSize ps.headerDw (bodyAccess ps.words) = .ok (some ps.nwords)
  whole : ps.words.length = ps.nwords.toNat

/-- The words that a length is read from are words of the packet. -/
theorem vpeSize_restricts {header size : UInt32} {short long : WordAccess}
    (sees : ∀ k, k < size.toNat → short k = long k)
    (run : vpeSize header long = .ok (some size)) : vpeSize header short = .ok (some size) := by
  unfold vpeSize at run ⊢
  generalize (vpeOpcode header).toNat = opcode at run ⊢
  split at run
  case h_2 =>
    obtain ⟨count, read, sized⟩ := bind_ok run
    have isSize : 3 + ((count + 1) &&& 0xFF) * 2 = size := by
      cases sized
      rfl
    have masked : ((count + 1) &&& 0xFF).toNat ≤ 0xFF := by
      rw [UInt32.toNat_and]
      exact Nat.and_le_right
    have inside : 2 < size.toNat := by
      have three : (3 : UInt32).toNat = 3 := rfl
      have two : (2 : UInt32).toNat = 2 := rfl
      rw [← isSize, UInt32.toNat_add, UInt32.toNat_mul, three, two]
      omega
    change (orStop (short 2) >>= _) = _
    rw [sees 2 inside]
    exact run
  case h_5 =>
    obtain ⟨first, _, behind⟩ := bind_ok run
    obtain ⟨second, _, behind⟩ := bind_ok behind
    obtain ⟨third, _, sized⟩ := bind_ok behind
    cases sized
    rw [sees 0 (by decide), sees 1 (by decide), sees 2 (by decide)]
    exact run
  all_goals exact run

theorem vpeFramed_zero : VpeFramed (vpeHeader 0) := ⟨rfl, rfl, rfl, rfl⟩

theorem VpeStream.setFrom_framed {stream : VpeStream} (addr : UInt64) (vmid : UInt32)
    (framed : ∀ ps ∈ stream.allPackets, VpeFramed ps) :
    ∀ ps ∈ (stream.setFrom addr vmid).allPackets, VpeFramed ps := by
  cases stream with
  | null => exact framed
  | node packet nextIb next =>
      obtain ⟨first, rest⟩ := List.forall_mem_cons.mp framed
      exact List.forall_mem_cons.mpr
        ⟨⟨first.opcode, first.subOpcode, first.sized, first.whole⟩, rest⟩

theorem withVpeIb_framed {env : VpeEnv} {behind : WordAccess} {header size : UInt32} {words : List UInt32}
    (sized : vpeSize header (bodyAccess words) = .ok (some size))
    (whole : words.length = size.toNat) :
    VpeFramed { withVpeIb env behind { vpeHeader header with nwords := size } with
      words := words } := by
  unfold withVpeIb
  split
  · exact ⟨rfl, rfl, sized, whole⟩
  · exact ⟨rfl, rfl, sized, whole⟩

theorem readWords_access {stream words : List UInt32} {offset count : Nat}
    (read : readWords stream offset count = some words) :
    words.length = count ∧ ∀ k, k < count → bodyAccess words k = readWord stream (offset + k) := by
  unfold readWords at read
  split at read
  · rename_i inside
    cases read
    refine ⟨?_, ?_⟩
    · rw [List.length_take, List.length_drop]
      omega
    · intro k below
      rw [bodyAccess, List.getElem?_take_of_lt below, List.getElem?_drop]
      rfl
  · cases read

section Framed
variable {env : VpeEnv} {follow : UInt64 → UInt32 → List UInt32 → Except StreamStop VpeStream}
  (followed : ∀ fromAddr fromVmid words decoded, follow fromAddr fromVmid words = .ok decoded →
    ∀ ps ∈ decoded.allPackets, VpeFramed ps)

include followed

theorem followVpeIb_framed {here : UInt64} {fromVmid : UInt32} {ps : VpePacket} {ib : VpeStream}
    (run : followVpeIb env follow here fromVmid ps = .ok ib) :
    ∀ inner ∈ ib.allPackets, VpeFramed inner := by
  unfold followVpeIb at run
  split at run
  · split at run
    · cases run
      exact fun _ member => absurd member List.not_mem_nil
    · obtain ⟨decoded, ran, same⟩ := bind_ok run
      cases same
      exact VpeStream.setFrom_framed _ _ (followed _ _ _ _ ran)
  · cases run
    exact fun _ member => absurd member List.not_mem_nil

theorem vpeLoop_framed {fromAddr : UInt64} {fromVmid : UInt32} {stream : List UInt32} {turns : Nat} :
    ∀ {offset nwords : Nat} {decoded : VpeStream},
      vpeLoop env follow fromAddr fromVmid stream turns offset nwords = .ok (some decoded) →
      ∀ ps ∈ decoded.allPackets, VpeFramed ps := by
  induction turns with
  | zero =>
      intro offset nwords decoded run
      cases run
      exact fun _ member => absurd member List.not_mem_nil
  | succ turns ih =>
      intro offset nwords decoded run
      rw [vpeLoop] at run
      split at run
      · cases run
        exact fun _ member => absurd member List.not_mem_nil
      · obtain ⟨header, isHeader, run⟩ := bind_ok run
        obtain ⟨sized, isSized, run⟩ := bind_ok run
        cases sized with
        | none => cases run
        | some size =>
            obtain ⟨ib, ran, run⟩ := bind_ok run
            split at run
            · cases run
              exact fun _ member => absurd member List.not_mem_nil
            · obtain ⟨words, read, run⟩ := bind_ok run
              obtain ⟨further, next, run⟩ := bind_ok run
              have isRead : readWords stream (offset + 1) size.toNat = some words := by
                cases found : readWords stream (offset + 1) size.toNat with
                | none =>
                    rw [found] at read
                    cases read
                | some others =>
                    rw [found] at read
                    cases read
                    rfl
              obtain ⟨whole, sees⟩ := readWords_access isRead
              cases further with
              | none => cases run
              | some rest =>
                  cases run
                  refine List.forall_mem_cons.mpr ⟨?_, List.forall_mem_append.mpr ⟨?_, ?_⟩⟩
                  · exact withVpeIb_framed (vpeSize_restricts sees isSized) whole
                  · exact followVpeIb_framed followed ran
                  · exact ih next

end Framed

theorem umrVpeDecodeStream_framed {env : VpeEnv} {depth : Nat} :
    ∀ {fromAddr : UInt64} {fromVmid : UInt32} {stream : List UInt32} {decoded : VpeStream},
      umrVpeDecodeStream env depth fromAddr fromVmid stream = .ok decoded →
      ∀ ps ∈ decoded.allPackets, VpeFramed ps := by
  induction depth with
  | zero =>
      intro fromAddr fromVmid stream decoded run
      cases run
  | succ depth ih =>
      intro fromAddr fromVmid stream decoded run
      rw [umrVpeDecodeStream] at run
      split at run
      · cases run
        exact List.forall_mem_singleton.mpr vpeFramed_zero
      · obtain ⟨outcome, ran, same⟩ := bind_ok run
        cases outcome with
        | none =>
            cases same
            exact fun _ member => absurd member List.not_mem_nil
        | some found =>
            cases same
            exact vpeLoop_framed (fun _ _ _ _ inner => ih inner) ran

/-! ## What is fetched, opcode by opcode -/

section Fetches
variable {ps : VpePacket}

theorem fetchesInside_of_list {fetches : List UInt32}
    (always : ∀ turns, vpeFetches ps turns = some fetches) :
    VpeFetchesInside ps ↔ ∀ off ∈ fetches, off < ps.nwords := by
  constructor
  · rintro ⟨turns, found, run, inside⟩
    rw [always turns] at run
    cases run
    exact inside
  · exact fun inside => ⟨0, fetches, always 0, inside⟩

theorem vpeFetchWord_inside (framed : VpeFramed ps) {off : UInt32} {word : UInt32}
    (at_ : ps.words[off.toNat]? = some word) : vpeFetchWord ps off = word := by
  obtain ⟨inside, same⟩ := List.getElem?_eq_some_iff.mp at_
  have below : ¬ ps.nwords ≤ off := by
    rw [framed.whole] at inside
    exact UInt32.not_le.mpr inside
  rw [vpeFetchWord, if_neg below, List.getD_eq_getElem?_getD, at_]
  rfl

theorem byte_toNat (count : UInt32) : (count &&& 0xFF).toNat = count.toNat % 256 := by
  have mask : (0xFF : UInt32).toNat = 2 ^ 8 - 1 := rfl
  rw [UInt32.toNat_and, mask, Nat.and_two_pow_sub_one_eq_mod]

theorem add_toNat {first second : UInt32} (narrow : first.toNat + second.toNat < 2 ^ 32) :
    (first + second).toNat = first.toNat + second.toNat := by
  rw [UInt32.toNat_add]
  exact Nat.mod_eq_of_lt narrow

/-! ### Descriptors -/

theorem descriptorWord_toNat {base n : UInt32} (narrow : base.toNat + 2 * n.toNat < 2 ^ 32) :
    (base + 2 * n).toNat = base.toNat + 2 * n.toNat := by
  have two : (2 : UInt32).toNat = 2 := rfl
  rw [UInt32.toNat_add, UInt32.toNat_mul, two]
  omega

theorem descriptorFetches_inside {count : UInt32} {size : Nat}
    (isCount : vpeFetchWord ps 2 = count) (isSize : size = (count &&& 0xFF).toNat + 1) :
    ∀ {turns : Nat} {n : UInt32}, n.toNat ≤ size → size - n.toNat < turns →
      ∃ fetches, descriptorFetches ps turns n = some fetches ∧
        ∀ off ∈ fetches, off.toNat < 3 + 2 * size := by
  have small := byte_toNat count
  intro turns
  induction turns with
  | zero => exact fun _ enough => absurd enough (Nat.not_lt_zero _)
  | succ turns ih =>
      intro n le enough
      have bound : ((count &&& 0xFF) + 1).toNat = size := by
        rw [UInt32.toNat_add, isSize]
        have one : (1 : UInt32).toNat = 1 := rfl
        omega
      rw [descriptorFetches, isCount]
      by_cases further : n < (count &&& 0xFF) + 1
      · have below : n.toNat < size := by
          rw [← bound]
          exact further
        have next : (n + 1).toNat = n.toNat + 1 := by
          have one : (1 : UInt32).toNat = 1 := rfl
          rw [UInt32.toNat_add]
          omega
        obtain ⟨later, run, inside⟩ := @ih (n + 1) (by omega) (by omega)
        refine ⟨_, by rw [if_pos further, run]; rfl, ?_⟩
        have three : (3 : UInt32).toNat = 3 := rfl
        have four : (4 : UInt32).toNat = 4 := rfl
        have low := @descriptorWord_toNat 3 n (by omega)
        have high := @descriptorWord_toNat 4 n (by omega)
        have two : (2 : UInt32).toNat = 2 := rfl
        intro off member
        rcases List.mem_append.mp member with here | behind
        · simp only [List.mem_cons, List.not_mem_nil, or_false] at here
          rcases here with rfl | rfl | rfl | rfl | rfl <;> omega
        · exact inside off behind
      · refine ⟨[2], by rw [if_neg further], ?_⟩
        intro off member
        rw [List.mem_singleton.mp member]
        change 2 < 3 + 2 * size
        omega

theorem framed_descriptor (framed : VpeFramed ps) (isDescriptor : ps.opcode.toNat = 1) :
    ∃ count, ps.words[2]? = some count ∧ ps.nwords = 3 + ((count + 1) &&& 0xFF) * 2 := by
  have sized := framed.sized
  have opcode : (vpeOpcode ps.headerDw).toNat = 1 := by rw [← framed.opcode, isDescriptor]
  rw [vpeSize, opcode] at sized
  obtain ⟨count, read, isSize⟩ := bind_ok sized
  refine ⟨count, ?_, ?_⟩
  · change orStop ps.words[2]? = .ok count at read
    cases found : ps.words[2]? with
    | none =>
        rw [found] at read
        cases read
    | some other =>
        rw [found] at read
        cases read
        rfl
  · exact (Option.some.inj (Except.ok.inj isSize)).symm

theorem descriptor_iff (framed : VpeFramed ps) (isDescriptor : ps.opcode.toNat = 1) :
    VpeFetchesInside ps ↔ ps.words.getD 2 0 &&& 0xFF ≠ 0xFF := by
  obtain ⟨count, third, isSize⟩ := framed_descriptor framed isDescriptor
  have isCount : vpeFetchWord ps 2 = count := vpeFetchWord_inside framed third
  have getCount : ps.words.getD 2 0 = count := by rw [List.getD_eq_getElem?_getD, third]; rfl
  have small := byte_toNat count
  have full : (0xFF : UInt32).toNat = 255 := rfl
  have payload : ps.nwords.toNat = 3 + 2 * ((count.toNat + 1) % 256) := by
    have one : (1 : UInt32).toNat = 1 := rfl
    have two : (2 : UInt32).toNat = 2 := rfl
    have three : (3 : UInt32).toNat = 3 := rfl
    rw [isSize, UInt32.toNat_add, UInt32.toNat_mul, byte_toNat, UInt32.toNat_add, one, two, three]
    omega
  rw [getCount, VpeFetchesInside]
  constructor
  · rintro ⟨turns, fetches, run, inside⟩ same
    rw [vpeFetches, isDescriptor] at run
    obtain ⟨loop, ran, rfl⟩ := Option.map_eq_some_iff.mp run
    cases turns with
    | zero => cases ran
    | succ turns =>
        rw [descriptorFetches, isCount, same, if_pos (by decide)] at ran
        obtain ⟨later, _, rfl⟩ := Option.map_eq_some_iff.mp ran
        have outside : (3 : UInt32) < ps.nwords := inside 3 (by simp)
        have three : 3 < ps.nwords.toNat := outside
        rw [same] at small
        omega
  · intro other
    have notFull : (count &&& 0xFF).toNat ≠ 255 := by
      intro same
      exact other (UInt32.toNat_inj.mp same)
    obtain ⟨loop, run, inside⟩ := @descriptorFetches_inside ps count _ isCount rfl
      ((count &&& 0xFF).toNat + 2) 0 (Nat.zero_le _) (by
        have zero : (0 : UInt32).toNat = 0 := rfl
        omega)
    refine ⟨(count &&& 0xFF).toNat + 2, [0, 0, 1, 2] ++ loop, ?_, ?_⟩
    · rw [vpeFetches, isDescriptor]
      exact congrArg (Option.map _) run
    · intro off member
      apply UInt32.lt_iff_toNat_lt.mpr
      rcases List.mem_append.mp member with front | behind
      · simp only [List.mem_cons, List.not_mem_nil, or_false] at front
        rcases front with rfl | rfl | rfl | rfl <;> simp only [UInt32.reduceToNat] <;> omega
      · have below := inside off behind
        omega

/-! ### Plane configs -/

theorem planeConfigFetches_below :
    ∀ off ∈ planeConfigFetches ps,
      off.toNat < 12 + (if (ps.headerDw >>> 16) &&& 3 ≠ 0 then 5 else 0) +
        if (ps.headerDw >>> 18) &&& 3 ≠ 0 then 5 else 0 := by
  rw [planeConfigFetches]
  by_cases sources : (ps.headerDw >>> 16) &&& 3 ≠ 0
  all_goals by_cases destinations : (ps.headerDw >>> 18) &&& 3 ≠ 0
  · simp only [if_pos sources, if_pos destinations]
    simp [planeFetches]
  · simp only [if_pos sources, if_neg destinations]
    simp [planeFetches]
  · simp only [if_neg sources, if_pos destinations]
    simp [planeFetches]
  · simp only [if_neg sources, if_neg destinations]
    simp [planeFetches]

theorem planes_toNat {field : UInt32} (few : field.toNat ≤ 3) :
    (5 * (1 + field)).toNat = 5 + 5 * field.toNat := by
  have one : (1 : UInt32).toNat = 1 := rfl
  have five : (5 : UInt32).toNat = 5 := rfl
  rw [UInt32.toNat_mul, UInt32.toNat_add, one, five]
  omega

theorem twoBits_le (field : UInt32) : (field &&& 3).toNat ≤ 3 := by
  rw [UInt32.toNat_and]
  exact Nat.and_le_right

theorem planes_le {field : UInt32} (few : field.toNat ≤ 3) :
    (if field ≠ 0 then 5 else 0) ≤ 5 * field.toNat := by
  split
  · rename_i some_
    have positive : field.toNat ≠ 0 := fun zero => some_ (UInt32.toNat_inj.mp zero)
    omega
  · exact Nat.zero_le _

theorem pipes_toNat {one_ two_ three_ four_ : UInt32} (first : one_.toNat ≤ 3)
    (second : two_.toNat ≤ 3) (third : three_.toNat ≤ 3) (fourth : four_.toNat ≤ 3) :
    (2 + 5 * (1 + one_) + 5 * (1 + two_)).toNat = 12 + 5 * one_.toNat + 5 * two_.toNat ∧
    (2 + 5 * (1 + one_) + 5 * (1 + two_) + 5 * (1 + three_)).toNat =
      17 + 5 * one_.toNat + 5 * two_.toNat + 5 * three_.toNat ∧
    (2 + 5 * (1 + one_) + 5 * (1 + two_) + 5 * (1 + three_) + 5 * (1 + four_)).toNat =
      22 + 5 * one_.toNat + 5 * two_.toNat + 5 * three_.toNat + 5 * four_.toNat := by
  have firstPipe := planes_toNat first
  have secondPipe := planes_toNat second
  have thirdPipe := planes_toNat third
  have fourthPipe := planes_toNat fourth
  have two : (2 : UInt32).toNat = 2 := rfl
  have upto1 : (2 + 5 * (1 + one_)).toNat = 7 + 5 * one_.toNat := by
    rw [add_toNat (by omega)]
    omega
  have upto2 : (2 + 5 * (1 + one_) + 5 * (1 + two_)).toNat =
      12 + 5 * one_.toNat + 5 * two_.toNat := by
    rw [add_toNat (by omega)]
    omega
  have upto3 : (2 + 5 * (1 + one_) + 5 * (1 + two_) + 5 * (1 + three_)).toNat =
      17 + 5 * one_.toNat + 5 * two_.toNat + 5 * three_.toNat := by
    rw [add_toNat (by omega)]
    omega
  refine ⟨upto2, upto3, ?_⟩
  rw [add_toNat (by omega)]
  omega

theorem sizedPlaneConfig_le {header : UInt32} (known : (vpeSubOpcode header).toNat ≤ 2) :
    12 + 5 * ((header >>> 16) &&& 3).toNat + 5 * ((header >>> 18) &&& 3).toNat ≤
      (sizedPlaneConfig header).toNat := by
  have nps0 := twoBits_le (header >>> 16)
  have npd0 := twoBits_le (header >>> 18)
  have nps1 := twoBits_le (header >>> 20)
  have npd1 := twoBits_le (header >>> 22)
  have cases_ : (vpeSubOpcode header).toNat = 0 ∨ (vpeSubOpcode header).toNat = 1 ∨
      (vpeSubOpcode header).toNat = 2 := by omega
  rw [sizedPlaneConfig]
  rcases cases_ with same | same | same
  · rw [same]
    exact Nat.le_of_eq (pipes_toNat nps0 npd0 nps1 npd1).1.symm
  · rw [same]
    have size := (pipes_toNat nps0 nps1 npd0 npd1).2.1
    exact le_of_le_of_eq (by omega) size.symm
  · rw [same]
    have size := (pipes_toNat nps0 nps1 npd0 npd1).2.2
    exact le_of_le_of_eq (by omega) size.symm

theorem planeConfig_iff (framed : VpeFramed ps) (isPlaneConfig : ps.opcode.toNat = 2) :
    VpeFetchesInside ps ↔ ps.subOpcode ≤ 2 := by
  have always : ∀ turns, vpeFetches ps turns = some (planeConfigFetches ps) := by
    intro turns
    rw [vpeFetches, isPlaneConfig]
    rfl
  have isSize : ps.nwords = sizedPlaneConfig ps.headerDw := by
    have sized := framed.sized
    rw [vpeSize, ← framed.opcode, isPlaneConfig] at sized
    exact (Option.some.inj (Except.ok.inj sized)).symm
  rw [fetchesInside_of_list always]
  constructor
  · intro inside
    by_contra unknown
    have first : (0 : UInt32) < ps.nwords := inside 0 (by simp [planeConfigFetches])
    have sub : ¬ (vpeSubOpcode ps.headerDw).toNat ≤ 2 := by
      rw [← framed.subOpcode]
      exact unknown
    have empty : sizedPlaneConfig ps.headerDw = 0 := by
      rw [sizedPlaneConfig]
      generalize (vpeSubOpcode ps.headerDw).toNat = sub_ at sub
      split <;> first | omega | rfl
    rw [isSize, empty] at first
    exact absurd first (by decide)
  · intro known off member
    have sub : (vpeSubOpcode ps.headerDw).toNat ≤ 2 := by
      rw [← framed.subOpcode]
      exact known
    have size := sizedPlaneConfig_le sub
    have below := planeConfigFetches_below off member
    have sources := planes_le (twoBits_le (ps.headerDw >>> 16))
    have destinations := planes_le (twoBits_le (ps.headerDw >>> 18))
    apply UInt32.lt_iff_toNat_lt.mpr
    rw [isSize]
    omega

/-! ### Configs -/

theorem fetchRun_last {count : Nat} {n : UInt32} (some_ : 0 < count)
    (narrow : n.toNat + count < 2 ^ 32) :
    ∃ off ∈ fetchRun count n, off.toNat = n.toNat + count - 1 := by
  induction count generalizing n with
  | zero => exact absurd some_ (Nat.lt_irrefl 0)
  | succ count ih =>
      cases count with
      | zero => exact ⟨n, List.mem_cons_self, rfl⟩
      | succ count =>
          have next : (n + 1).toNat = n.toNat + 1 := by
            have one : (1 : UInt32).toNat = 1 := rfl
            rw [UInt32.toNat_add]
            omega
          obtain ⟨off, member, isLast⟩ := @ih (n + 1) (Nat.succ_pos _) (by omega)
          exact ⟨off, List.mem_cons_of_mem _ member, by omega⟩

theorem fetchRun_below {count : Nat} {n : UInt32} (narrow : n.toNat + count < 2 ^ 32) :
    ∀ off ∈ fetchRun count n, off.toNat < n.toNat + count := by
  induction count generalizing n with
  | zero => exact fun _ member => absurd member List.not_mem_nil
  | succ count ih =>
      intro off member
      rcases List.mem_cons.mp member with rfl | later
      · omega
      · have next : (n + 1).toNat = n.toNat + 1 := by
          have one : (1 : UInt32).toNat = 1 := rfl
          rw [UInt32.toNat_add]
          omega
        have below := @ih (n + 1) (by omega) off later
        omega

theorem indirectConfigFetches_below {numDst : Nat} {n : UInt32}
    (narrow : n.toNat + 3 * numDst < 2 ^ 32) :
    ∀ off ∈ indirectConfigFetches numDst n, off.toNat < n.toNat + 3 * numDst := by
  induction numDst generalizing n with
  | zero => exact fun _ member => absurd member List.not_mem_nil
  | succ numDst ih =>
      have step (k : UInt32) (few : k.toNat ≤ 3) : (n + k).toNat = n.toNat + k.toNat := by
        rw [UInt32.toNat_add]
        omega
      have zero : (0 : UInt32).toNat = 0 := rfl
      have one : (1 : UInt32).toNat = 1 := rfl
      have two : (2 : UInt32).toNat = 2 := rfl
      have three : (3 : UInt32).toNat = 3 := rfl
      have first := step 0 (by omega)
      have second := step 1 (by omega)
      have third := step 2 (by omega)
      have next := step 3 (by omega)
      intro off member
      rcases List.mem_append.mp member with here | later
      · simp only [List.mem_cons, List.not_mem_nil, or_false] at here
        rcases here with rfl | rfl | rfl | rfl | rfl <;> omega
      · have below := @ih (n + 3) (by omega) off later
        omega

theorem dataSize_toNat (word : UInt32) :
    (vpepConfigDataSize word).toNat = (word >>> 20).toNat + 1 ∧ (word >>> 20).toNat < 4096 := by
  have shifted : (word >>> 20).toNat = word.toNat / 2 ^ 20 := by
    rw [UInt32.toNat_shiftRight, Nat.shiftRight_eq_div_pow]
    rfl
  have bound := word.toNat_lt
  have one : (1 : UInt32).toNat = 1 := rfl
  refine ⟨?_, by omega⟩
  rw [vpepConfigDataSize, add_toNat (by omega)]
  rfl

theorem sub_toNat {first second : UInt32} (le : second.toNat ≤ first.toNat) :
    (first - second).toNat = first.toNat - second.toNat :=
  UInt32.toNat_sub_of_le _ _ (UInt32.le_iff_toNat_le.mpr le)

/-- The words from `n` on, and the `size` of them that are left, as the two counters of
the loop have it. -/
structure ConfigLeft (ps : VpePacket) (size n : UInt32) : Prop where
  few : ps.words.length ≤ 2 ^ 16
  left : n.toNat + size.toNat = ps.words.length

theorem configLeft_step (framed : VpeFramed ps) {size n : UInt32} (left : ConfigLeft ps size n)
    (some_ : size ≠ 0) : ∃ word, ps.words[n.toNat]? = some word ∧ vpeFetchWord ps n = word ∧
      ∀ data : Nat, data = (word >>> 20).toNat + 1 → n.toNat + 1 + data ≤ ps.words.length →
        ConfigLeft ps (size - 1 - vpepConfigDataSize word) (n + 1 + vpepConfigDataSize word) ∧
          (n + 1 + vpepConfigDataSize word).toNat = n.toNat + 1 + data := by
  have positive : size.toNat ≠ 0 := fun zero => some_ (UInt32.toNat_inj.mp zero)
  have inside : n.toNat < ps.words.length := by
    have sum := left.left
    omega
  have word := List.getElem?_eq_getElem inside
  refine ⟨ps.words[n.toNat], word, vpeFetchWord_inside framed word, ?_⟩
  intro data isData fits
  obtain ⟨dataSize, narrow⟩ := dataSize_toNat ps.words[n.toNat]
  have one : (1 : UInt32).toNat = 1 := rfl
  have few := left.few
  have sum := left.left
  have next : (n + 1).toNat = n.toNat + 1 := add_toNat (by omega)
  have behind : (n + 1 + vpepConfigDataSize ps.words[n.toNat]).toNat = n.toNat + 1 + data := by
    rw [add_toNat (by omega)]
    omega
  have less : (size - 1).toNat = size.toNat - 1 := sub_toNat (by omega)
  have remaining : (size - 1 - vpepConfigDataSize ps.words[n.toNat]).toNat = size.toNat - 1 - data := by
    rw [sub_toNat (by omega)]
    omega
  exact ⟨⟨few, by omega⟩, behind⟩

/-- What a run that stays inside has passed over are configs. -/
theorem tile_of_inside (framed : VpeFramed ps) {turns : Nat} :
    ∀ {size n : UInt32} {fetches : List UInt32}, ConfigLeft ps size n →
      directConfigFetches ps turns size n = some fetches → (∀ off ∈ fetches, off < ps.nwords) →
      ConfigsTile (ps.words.drop n.toNat) := by
  induction turns with
  | zero =>
      intro size n fetches left run
      cases run
  | succ turns ih =>
      intro size n fetches left run inside
      rw [directConfigFetches] at run
      by_cases done : size = 0
      · have none_ : ps.words.length ≤ n.toNat := by
          have sum := left.left
          rw [done] at sum
          exact Nat.le_of_eq sum.symm
        rw [List.drop_eq_nil_of_le none_]
        exact .nil
      · obtain ⟨word, at_, isWord, next⟩ := configLeft_step framed left done
        obtain ⟨dataSize, narrow⟩ := dataSize_toNat word
        have one : (1 : UInt32).toNat = 1 := rfl
        have few := left.few
        have sum := left.left
        have positive : size.toNat ≠ 0 := fun zero => done (UInt32.toNat_inj.mp zero)
        rw [if_neg done, isWord] at run
        obtain ⟨later, further, rfl⟩ := Option.map_eq_some_iff.mp run
        have following : (n + 1).toNat = n.toNat + 1 := add_toNat (by omega)
        obtain ⟨last, member, isLast⟩ := @fetchRun_last (vpepConfigDataSize word).toNat (n + 1)
          (by omega) (by omega)
        have below : last.toNat < ps.nwords.toNat := inside last (List.mem_append_left _ (List.mem_append_right _ member))
        rw [← framed.whole] at below
        have fits : n.toNat + 1 + ((word >>> 20).toNat + 1) ≤ ps.words.length := by omega
        obtain ⟨leaves, position⟩ := next _ rfl fits
        have rest := ih leaves further fun off behind => inside off (List.mem_append_right _ behind)
        have words : ps.words.drop n.toNat = word ::
            ((ps.words.drop (n.toNat + 1)).take ((word >>> 20).toNat + 1) ++
              ps.words.drop (n.toNat + 1 + ((word >>> 20).toNat + 1))) := by
          obtain ⟨here, same⟩ := List.getElem?_eq_some_iff.mp at_
          have behind : ps.words.drop (n.toNat + 1 + ((word >>> 20).toNat + 1)) =
              (ps.words.drop (n.toNat + 1)).drop ((word >>> 20).toNat + 1) := List.drop_drop.symm
          rw [behind, List.take_append_drop, List.drop_eq_getElem_cons here, same]
        rw [words]
        refine .config word _ _ ?_ ?_
        · rw [List.length_take, List.length_drop]
          omega
        · rw [← position]
          exact rest

/-- Configs that come out at the end are passed over inside the packet. -/
theorem inside_of_tile (framed : VpeFramed ps) {left : List UInt32} (tile : ConfigsTile left) :
    ∀ {size n : UInt32}, ConfigLeft ps size n → ps.words.drop n.toNat = left →
      ∃ turns fetches, directConfigFetches ps turns size n = some fetches ∧
        ∀ off ∈ fetches, off < ps.nwords := by
  induction tile with
  | nil =>
      intro size n counters words
      have none_ : size = 0 := by
        have end_ := List.drop_eq_nil_iff.mp words
        have sum := counters.left
        apply UInt32.toNat_inj.mp
        change size.toNat = 0
        omega
      refine ⟨1, [], by rw [directConfigFetches, if_pos none_], ?_⟩
      exact fun _ member => absurd member List.not_mem_nil
  | config header data rest isSize _ ih =>
      intro size n counters words
      have lengths := congrArg List.length words
      rw [List.length_drop, List.length_cons, List.length_append] at lengths
      have some_ : size ≠ 0 := by
        rintro rfl
        have sum := counters.left
        have zero : (0 : UInt32).toNat = 0 := rfl
        omega
      obtain ⟨word, at_, isWord, next⟩ := configLeft_step framed counters some_
      have isHeader : word = header := by
        have first := congrArg List.head? words
        rw [List.head?_drop, at_] at first
        exact Option.some.inj first
      subst isHeader
      obtain ⟨leaves, position⟩ := next data.length isSize (by omega)
      obtain ⟨dataSize, narrow⟩ := dataSize_toNat word
      have one : (1 : UInt32).toNat = 1 := rfl
      have few := counters.few
      have behind : ps.words.drop (n + 1 + vpepConfigDataSize word).toNat = rest := by
        rw [position, Nat.add_assoc, ← List.drop_drop, words, Nat.add_comm 1, List.drop_succ_cons,
          List.drop_left]
      obtain ⟨turns, later, run, inside⟩ := ih leaves behind
      have following : (n + 1).toNat = n.toNat + 1 := add_toNat (by omega)
      refine ⟨turns + 1, [n, n, n, n, n] ++ fetchRun (vpepConfigDataSize word).toNat (n + 1) ++ later,
        ?_, ?_⟩
      · rw [directConfigFetches, if_neg some_, isWord]
        exact congrArg (Option.map _) run
      · intro off member
        apply UInt32.lt_iff_toNat_lt.mpr
        rw [← framed.whole]
        rcases List.mem_append.mp member with here | further
        · rcases List.mem_append.mp here with same | among
          · have isN : off = n := by simpa using same
            rw [isN]
            omega
          · have below := @fetchRun_below (vpepConfigDataSize word).toNat (n + 1) (by omega) off among
            omega
        · have below := UInt32.lt_iff_toNat_lt.mp (inside off further)
          rw [framed.whole]
          exact below

theorem directConfig_iff (framed : VpeFramed ps) (isConfig : ps.opcode.toNat = 3)
    (isDirect : ps.subOpcode.toNat = 0) : VpeFetchesInside ps ↔ ConfigsTile ps.words := by
  have isSize : ps.nwords = (ps.headerDw >>> 16) + 1 := by
    have sized := framed.sized
    rw [vpeSize, ← framed.opcode, isConfig] at sized
    have isConfigSize := (Option.some.inj (Except.ok.inj sized)).symm
    rw [sizedVpepConfig, ← framed.subOpcode, isDirect] at isConfigSize
    exact isConfigSize
  have shifted : (ps.headerDw >>> 16).toNat = ps.headerDw.toNat / 2 ^ 16 := by
    rw [UInt32.toNat_shiftRight, Nat.shiftRight_eq_div_pow]
    rfl
  have bound := ps.headerDw.toNat_lt
  have one : (1 : UInt32).toNat = 1 := rfl
  have counted : ((ps.headerDw >>> 16) + 1).toNat = ps.words.length := by
    rw [framed.whole, isSize]
  have left : ConfigLeft ps ((ps.headerDw >>> 16) + 1) 0 := by
    refine ⟨?_, ?_⟩
    · rw [← counted, add_toNat (by omega)]
      omega
    · rw [counted]
      exact Nat.zero_add _
  have always : ∀ turns, vpeFetches ps turns =
      directConfigFetches ps turns ((ps.headerDw >>> 16) + 1) 0 := by
    intro turns
    simp only [vpeFetches, isConfig, isDirect]
  constructor
  · rintro ⟨turns, fetches, run, inside⟩
    rw [always turns] at run
    exact tile_of_inside framed left run inside
  · intro tile
    obtain ⟨turns, fetches, run, inside⟩ := inside_of_tile framed tile left rfl
    exact ⟨turns, fetches, (always turns).trans run, inside⟩

/-- The indirect config counts one destination less at most. -/
theorem indirectConfig_inside (framed : VpeFramed ps) (isConfig : ps.opcode.toNat = 3)
    (isIndirect : ps.subOpcode.toNat = 1) : VpeFetchesInside ps := by
  have isSize : ps.nwords = 3 + ((ps.headerDw >>> (28 : UInt32)) + 1) * 3 := by
    have sized := framed.sized
    rw [vpeSize, ← framed.opcode, isConfig] at sized
    have isConfigSize := (Option.some.inj (Except.ok.inj sized)).symm
    rw [sizedVpepConfig, ← framed.subOpcode, isIndirect] at isConfigSize
    exact isConfigSize
  have shifted : (ps.headerDw >>> (28 : UInt32)).toNat = ps.headerDw.toNat / 2 ^ 28 := by
    rw [UInt32.toNat_shiftRight, Nat.shiftRight_eq_div_pow]
    rfl
  have bound := ps.headerDw.toNat_lt
  have one : (1 : UInt32).toNat = 1 := rfl
  have three : (3 : UInt32).toNat = 3 := rfl
  have destinations : ((ps.headerDw >>> (28 : UInt32)) + 1).toNat =
      (ps.headerDw >>> (28 : UInt32)).toNat + 1 := add_toNat (by omega)
  have size : ps.nwords.toNat = 3 + ((ps.headerDw >>> (28 : UInt32)).toNat + 1) * 3 := by
    have product : (((ps.headerDw >>> (28 : UInt32)) + 1) * 3).toNat =
        ((ps.headerDw >>> (28 : UInt32)).toNat + 1) * 3 := by
      rw [UInt32.toNat_mul, destinations, three]
      omega
    rw [isSize, add_toNat (by omega), product, three]
  have fewer : (((ps.headerDw >>> (28 : UInt32)) + 1) &&& 0xF).toNat ≤
      (ps.headerDw >>> (28 : UInt32)).toNat + 1 := by
    rw [UInt32.toNat_and, destinations]
    exact Nat.and_le_left
  refine ⟨0, _, by simp only [vpeFetches, isConfig, isIndirect]; rfl, ?_⟩
  intro off member
  apply UInt32.lt_iff_toNat_lt.mpr
  rcases List.mem_append.mp member with front | behind
  · simp only [List.mem_cons, List.not_mem_nil, or_false] at front
    rcases front with rfl | rfl | rfl | rfl <;> simp only [UInt32.reduceToNat] <;> omega
  · have below := indirectConfigFetches_below (by omega) off behind
    omega

/-! ### The other packets -/

theorem fetchesInside_of_size {fetches : List UInt32} {size : UInt32}
    (always : ∀ turns, vpeFetches ps turns = some fetches) (isSize : ps.nwords = size)
    (inside : ∀ off ∈ fetches, off < size) : VpeFetchesInside ps := by
  rw [fetchesInside_of_list always, isSize]
  exact inside

theorem pollRegmem_inside (framed : VpeFramed ps) (isPoll : ps.opcode.toNat = 8) :
    VpeFetchesInside ps := by
  have isSize : ps.nwords = if ps.subOpcode ≠ 0 then 3 else 5 := by
    have sized := framed.sized
    rw [vpeSize, ← framed.opcode, ← framed.subOpcode, isPoll] at sized
    exact (Option.some.inj (Except.ok.inj sized)).symm
  by_cases isMem : ps.subOpcode.toNat = 0
  · have zero : ¬ ps.subOpcode ≠ 0 := not_not_intro (UInt32.toNat_inj.mp isMem)
    rw [if_neg zero] at isSize
    by_cases register : ps.headerDw &&& ((1 : UInt32) <<< 31) = 0
    · refine @fetchesInside_of_size _ [0, 0, 2, 3, 4, 4] _ ?_ isSize (by simp)
      intro turns
      simp only [vpeFetches, isPoll, isMem, if_pos register]
    · refine @fetchesInside_of_size _ [0, 1, 2, 3, 4, 4] _ ?_ isSize (by simp)
      intro turns
      simp only [vpeFetches, isPoll, isMem, if_neg register]
  · have nonzero : ps.subOpcode ≠ 0 := by
      intro zero
      rw [zero] at isMem
      exact isMem rfl
    rw [if_pos nonzero] at isSize
    by_cases isWrite : ps.subOpcode.toNat = 1
    · refine @fetchesInside_of_size _ [0, 0, 1, 2] _ ?_ isSize (by simp)
      intro turns
      simp only [vpeFetches, isPoll, isWrite]
    · refine @fetchesInside_of_size _ [] _ ?_ isSize (fun _ none_ => absurd none_ List.not_mem_nil)
      intro turns
      simp only [vpeFetches, isPoll]

theorem timestamp_inside (framed : VpeFramed ps) (isTimestamp : ps.opcode.toNat = 13) :
    VpeFetchesInside ps := by
  have isSize : ps.nwords = if ps.subOpcode ≤ 2 then 2 else 0 := by
    have sized := framed.sized
    rw [vpeSize, ← framed.opcode, ← framed.subOpcode, isTimestamp] at sized
    exact (Option.some.inj (Except.ok.inj sized)).symm
  by_cases known : ps.subOpcode.toNat ≤ 2
  · rw [if_pos (UInt32.le_iff_toNat_le.mpr known)] at isSize
    have subs : ps.subOpcode.toNat = 0 ∨ ps.subOpcode.toNat = 1 ∨ ps.subOpcode.toNat = 2 := by omega
    refine @fetchesInside_of_size _ [0, 1] _ ?_ isSize (by simp)
    intro turns
    rcases subs with same | same | same <;> simp only [vpeFetches, isTimestamp, same]
  · refine @fetchesInside_of_size _ [] _ ?_ isSize (fun _ none_ => absurd none_ List.not_mem_nil)
    intro turns
    simp only [vpeFetches, isTimestamp]
    split <;> first | omega | rfl

theorem other_inside (framed : VpeFramed ps)
    (other : ps.opcode.toNat ≠ 1 ∧ ps.opcode.toNat ≠ 2 ∧ ps.opcode.toNat ≠ 3) :
    VpeFetchesInside ps := by
  obtain ⟨notDescriptor, notPlane, notConfig⟩ := other
  have sized := framed.sized
  have fixed {fetches : List UInt32} {size : UInt32}
      (always : ∀ turns, vpeFetches ps turns = some fetches)
      (isSize : (.ok (some size) : Except StreamStop (Option UInt32)) = .ok (some ps.nwords))
      (inside : ∀ off ∈ fetches, off < size) : VpeFetchesInside ps :=
    fetchesInside_of_size always (Option.some.inj (Except.ok.inj isSize)).symm inside
  rw [vpeSize, ← framed.opcode] at sized
  generalize same : ps.opcode.toNat = opcode at sized
  split at sized
  case h_2 => exact absurd same notDescriptor
  case h_3 => exact absurd same notPlane
  case h_4 => exact absurd same notConfig
  case h_9 => exact pollRegmem_inside framed same
  case h_12 => exact timestamp_inside framed same
  case h_13 => cases sized
  case h_1 =>
    exact @fixed [] _ (fun _ => by simp only [vpeFetches, same]) sized
      fun _ none_ => absurd none_ List.not_mem_nil
  case h_5 =>
    obtain ⟨_, _, behind⟩ := bind_ok sized
    obtain ⟨_, _, behind⟩ := bind_ok behind
    obtain ⟨_, _, isSize⟩ := bind_ok behind
    exact @fixed [0, 1, 2, 3, 4] _ (fun _ => by simp only [vpeFetches, same]) isSize (by simp)
  case h_6 => exact @fixed [0, 1, 2] _ (fun _ => by simp only [vpeFetches, same]) sized (by simp)
  case h_7 => exact @fixed [0] _ (fun _ => by simp only [vpeFetches, same]) sized (by simp)
  case h_8 =>
    exact @fixed [0, 0, 0, 0, 1] _ (fun _ => by simp only [vpeFetches, same]) sized (by simp)
  case h_10 =>
    exact @fixed [0, 1, 2, 3] _ (fun _ => by simp only [vpeFetches, same]) sized (by simp)
  case h_11 =>
    exact @fixed [0, 1, 2, 3, 4, 5, 6] _ (fun _ => by simp only [vpeFetches, same]) sized (by simp)

theorem otherConfig_inside (isConfig : ps.opcode.toNat = 3)
    (other : ps.subOpcode.toNat ≠ 0 ∧ ps.subOpcode.toNat ≠ 1) : VpeFetchesInside ps := by
  obtain ⟨notDirect, notIndirect⟩ := other
  refine ⟨0, [], ?_, fun _ none_ => absurd none_ List.not_mem_nil⟩
  simp only [vpeFetches, isConfig]

end Fetches

/-- Each packet that is framed is fetched from inside its bounds, to an end, exactly
when framer and opcode decoder count its payload alike. -/
theorem vpeFetchesInside_iff {env : VpeEnv} {depth : Nat} {fromAddr : UInt64} {fromVmid : UInt32}
    {stream : List UInt32} {decoded : VpeStream}
    (run : umrVpeDecodeStream env depth fromAddr fromVmid stream = .ok decoded) :
    ∀ ps ∈ decoded.allPackets, VpeFetchesInside ps ↔ VpeAgrees ps := by
  intro ps member
  have framed := umrVpeDecodeStream_framed run ps member
  have one : (1 : UInt32).toNat = 1 := rfl
  have two : (2 : UInt32).toNat = 2 := rfl
  have three : (3 : UInt32).toNat = 3 := rfl
  have isOpcode {opcode : UInt32} : ps.opcode = opcode → ps.opcode.toNat = opcode.toNat :=
    congrArg UInt32.toNat
  by_cases isDescriptor : ps.opcode.toNat = 1
  · rw [descriptor_iff framed isDescriptor]
    refine ⟨fun few => ⟨fun _ => few, ?_, ?_⟩, ?_⟩
    · intro isPlane
      have other := isOpcode isPlane
      omega
    · intro isConfig
      have other := isOpcode isConfig
      omega
    · exact fun agrees => agrees.descriptor (UInt32.toNat_inj.mp isDescriptor)
  · by_cases isPlane : ps.opcode.toNat = 2
    · rw [planeConfig_iff framed isPlane]
      refine ⟨fun known => ⟨fun isOne => absurd (isOpcode isOne) isDescriptor, fun _ => known, ?_⟩,
        ?_⟩
      · intro isConfig
        have other := isOpcode isConfig
        omega
      · exact fun agrees => agrees.planeConfig (UInt32.toNat_inj.mp isPlane)
    · by_cases isDirect : ps.opcode.toNat = 3 ∧ ps.subOpcode.toNat = 0
      · rw [directConfig_iff framed isDirect.1 isDirect.2]
        refine ⟨fun tile => ⟨fun isOne => absurd (isOpcode isOne) isDescriptor,
          fun isTwo => absurd (isOpcode isTwo) isPlane, fun _ _ => tile⟩, ?_⟩
        exact fun agrees => agrees.directConfig (UInt32.toNat_inj.mp isDirect.1)
          (UInt32.toNat_inj.mp isDirect.2)
      · have inside : VpeFetchesInside ps := by
          by_cases isConfig : ps.opcode.toNat = 3
          · by_cases isIndirect : ps.subOpcode.toNat = 1
            · exact indirectConfig_inside framed isConfig isIndirect
            · exact otherConfig_inside isConfig ⟨fun zero => isDirect ⟨isConfig, zero⟩, isIndirect⟩
          · exact other_inside framed ⟨isDescriptor, isPlane, isConfig⟩
        refine iff_of_true inside ⟨fun isOne => absurd (isOpcode isOne) isDescriptor,
          fun isTwo => absurd (isOpcode isTwo) isPlane, fun isThree isZero => ?_⟩
        exact absurd ⟨isOpcode isThree, congrArg UInt32.toNat isZero⟩ isDirect

def vpeEnv : VpeEnv where
  family := .nv
  noFollowIb := true
  readVram := fun _ _ _ => none

theorem vpeFetchesInside_trap_config :
    (umrVpeDecodeStream vpeEnv 1 0 0 [6, 0, 0x00010003, 0x100, 7] =
      .ok (.node { vpeHeader 6 with nwords := 1, words := [0] } .null
        (.node { vpeHeader 0x00010003 with nwords := 2, words := [0x100, 7] } .null .null))) ∧
    ∀ ps ∈ VpeStream.allPackets (.node { vpeHeader 6 with nwords := 1, words := [0] } .null
        (.node { vpeHeader 0x00010003 with nwords := 2, words := [0x100, 7] } .null .null)),
      VpeFetchesInside ps ↔ VpeAgrees ps := by
  have run : umrVpeDecodeStream vpeEnv 1 0 0 [6, 0, 0x00010003, 0x100, 7] =
      .ok (.node { vpeHeader 6 with nwords := 1, words := [0] } .null
        (.node { vpeHeader 0x00010003 with nwords := 2, words := [0x100, 7] } .null .null)) := by
    decide
  exact ⟨run, vpeFetchesInside_iff run⟩

/-- A descriptor with the largest count is framed without any config descriptor. -/
theorem vpeFetchesInside_not_full_descriptor :
    ¬ ∀ decoded, umrVpeDecodeStream vpeEnv 1 0 0 [1, 0, 0, 0xFF] = .ok decoded →
      ∀ ps ∈ decoded.allPackets, VpeFetchesInside ps := by
  intro claim
  have run : umrVpeDecodeStream vpeEnv 1 0 0 [1, 0, 0, 0xFF] =
      .ok (.node { vpeHeader 1 with nwords := 3, words := [0, 0, 0xFF] } .null .null) := by
    decide
  have inside := claim _ run _ List.mem_cons_self
  have framed := umrVpeDecodeStream_framed run _ List.mem_cons_self
  exact (descriptor_iff framed rfl).mp inside rfl

end Umr.Packet
