import Umr.Packet.Pm4
import Mathlib.Data.List.Find

/-!
# The shader at an address

`umr_find_shader_in_stream` of `read_pm4_stream.c`.  A packet's own shader is
compared first, then the IB it points to is searched, then the packets behind it.
What is returned is a copy, a new object beside those there already are.
-/

set_option autoImplicit false

namespace Umr.Packet

abbrev ShaderHeap := List ShaderPgm

/-- `calloc` and the assignment behind it. -/
def copyShader (pgm : ShaderPgm) : StateM ShaderHeap Nat := fun heap =>
  (heap.length, heap ++ [pgm])

/-- The comparison of the loop; the end of the shader is computed in 64 bits. -/
def ShaderPgm.compares (vmid : UInt32) (addr : UInt64) (pgm : ShaderPgm) : Bool :=
  pgm.vmid = vmid && decide (pgm.addr ≤ addr) && decide (addr < pgm.addr + pgm.size.toUInt64)

/-- `none` is `NULL`. -/
def umrFindShaderInStream (vmid : UInt32) (addr : UInt64) :
    Pm4Stream → StateM ShaderHeap (Option Nat)
  | .null => pure none
  | .node packet ib next =>
      match packet.shader.filter (ShaderPgm.compares vmid addr) with
      | some pgm => some <$> copyShader pgm
      | none => do
          match ← umrFindShaderInStream vmid addr ib with
          | some found => pure (some found)
          | none => umrFindShaderInStream vmid addr next

/-! ## Pre-order -/

def Pm4Stream.shaders : Pm4Stream → List ShaderPgm
  | .null => []
  | .node packet ib next => packet.shader.toList ++ (ib.shaders ++ next.shaders)

def ShaderPgm.Contains (vmid : UInt32) (addr : UInt64) (pgm : ShaderPgm) : Prop :=
  pgm.vmid = vmid ∧ pgm.addr.toNat ≤ addr.toNat ∧ addr.toNat < pgm.addr.toNat + pgm.size.toNat

instance (vmid : UInt32) (addr : UInt64) : DecidablePred (ShaderPgm.Contains vmid addr) :=
  fun pgm => inferInstanceAs (Decidable (pgm.vmid = vmid ∧ pgm.addr.toNat ≤ addr.toNat ∧
    addr.toNat < pgm.addr.toNat + pgm.size.toNat))

section Find
variable {vmid : UInt32} {addr : UInt64}

theorem compares_eq {pgm : ShaderPgm} (noWrap : pgm.addr.toNat + pgm.size.toNat < 2 ^ 64) :
    pgm.compares vmid addr = decide (pgm.Contains vmid addr) := by
  have end_ : (pgm.addr + pgm.size.toUInt64).toNat = pgm.addr.toNat + pgm.size.toNat := by
    rw [UInt64.toNat_add, UInt32.toNat_toUInt64, Nat.mod_eq_of_lt noWrap]
  have below : addr < pgm.addr + pgm.size.toUInt64 ↔
      addr.toNat < pgm.addr.toNat + pgm.size.toNat := by
    rw [UInt64.lt_iff_toNat_lt, end_]
  rw [ShaderPgm.compares, ← Bool.decide_and, ← Bool.decide_and]
  refine decide_eq_decide.mpr ?_
  rw [ShaderPgm.Contains, below, UInt64.le_iff_toNat_le, and_assoc]

/-- The search returns what the comparison finds first in pre-order. -/
theorem umrFindShaderInStream_first (stream : Pm4Stream) : ∀ heap : ShaderHeap,
    umrFindShaderInStream vmid addr stream heap =
      match stream.shaders.find? (ShaderPgm.compares vmid addr) with
      | some pgm => (some heap.length, heap ++ [pgm])
      | none => (none, heap) := by
  induction stream with
  | null => exact fun _ => rfl
  | node packet ib next ihIb ihNext =>
      intro heap
      have behind : (match (ib.shaders ++ next.shaders).find? (ShaderPgm.compares vmid addr) with
          | some pgm => (some heap.length, heap ++ [pgm])
          | none => (none, heap)) =
            (umrFindShaderInStream vmid addr ib >>= fun
              | some found => pure (some found)
              | none => umrFindShaderInStream vmid addr next) heap := by
        change _ = (fun found : Option Nat × ShaderHeap => (match found.1 with
          | some place => pure (some place)
          | none => umrFindShaderInStream vmid addr next : StateM ShaderHeap (Option Nat)) found.2)
            (umrFindShaderInStream vmid addr ib heap)
        rw [ihIb, List.find?_append]
        cases ib.shaders.find? (ShaderPgm.compares vmid addr) with
        | some pgm => rfl
        | none => exact (ihNext heap).symm
      rw [umrFindShaderInStream, Pm4Stream.shaders]
      cases packet.shader with
      | none => exact behind.symm
      | some pgm =>
          rw [Option.filter_some, Option.toList_some, List.cons_append, List.nil_append,
            List.find?_cons]
          cases pgm.compares vmid addr with
          | true => rfl
          | false => exact behind.symm

end Find

/-- A copy of the first shader in pre-order that contains the address, or `NULL` if
there is none. -/
theorem umrFindShaderInStream_spec {stream : Pm4Stream}
    (noWrap : ∀ pgm ∈ stream.shaders, pgm.addr.toNat + pgm.size.toNat < 2 ^ 64) (vmid : UInt32)
    (addr : UInt64) (heap : ShaderHeap) :
    (∀ pgm, stream.shaders.find? (fun pgm => decide (pgm.Contains vmid addr)) = some pgm →
      umrFindShaderInStream vmid addr stream heap = (some heap.length, heap ++ [pgm])) ∧
    ((umrFindShaderInStream vmid addr stream heap).1 = none ↔
      ∀ pgm ∈ stream.shaders, ¬ pgm.Contains vmid addr) := by
  have first := @umrFindShaderInStream_first vmid addr stream heap
  have same : stream.shaders.find? (ShaderPgm.compares vmid addr) =
      stream.shaders.find? (fun pgm => decide (pgm.Contains vmid addr)) :=
    List.find?_congr fun pgm member => compares_eq (noWrap pgm member)
  rw [same] at first
  refine ⟨?_, ?_⟩
  · intro pgm found
    rw [found] at first
    exact first
  · rw [first]
    cases found : stream.shaders.find? (fun pgm => decide (pgm.Contains vmid addr)) with
    | none =>
        refine iff_of_true rfl fun pgm member contains => ?_
        have misses := List.find?_eq_none.mp found pgm member
        exact misses (decide_eq_true contains)
    | some pgm =>
        refine iff_of_false (Option.some_ne_none _) fun none_ => ?_
        have contains : decide (pgm.Contains vmid addr) = true :=
          @List.find?_some ShaderPgm (fun pgm => decide (pgm.Contains vmid addr)) _ _ found
        exact none_ pgm (List.mem_of_find?_eq_some found) (of_decide_eq_true contains)

/-- An IB with a shader inside an IB without one, in front of a packet with another. -/
def shaderSample : Pm4Stream :=
  let packet (shader : Option ShaderPgm) : Pm4Packet := { zeroPacket with shader := shader }
  .node (packet none)
    (.node (packet none) (.node (packet (some ⟨3, 0x1000, 0x100, .pixel, 0, 0⟩)) .null .null) .null)
    (.node (packet (some ⟨3, 0x1080, 0x100, .compute, 0, 0⟩)) .null .null)

theorem umrFindShaderInStream_nested :
    (∀ pgm ∈ shaderSample.shaders, pgm.addr.toNat + pgm.size.toNat < 2 ^ 64) ∧
      umrFindShaderInStream 3 0x1090 shaderSample [] =
        (some 0, [⟨3, 0x1000, 0x100, .pixel, 0, 0⟩]) := by
  have noWrap : ∀ pgm ∈ shaderSample.shaders, pgm.addr.toNat + pgm.size.toNat < 2 ^ 64 := by
    intro pgm member
    have listed : pgm = ⟨3, 0x1000, 0x100, .pixel, 0, 0⟩ ∨ pgm = ⟨3, 0x1080, 0x100, .compute, 0, 0⟩ := by
      simpa [shaderSample, Pm4Stream.shaders] using member
    rcases listed with rfl | rfl <;> decide
  exact ⟨noWrap, (umrFindShaderInStream_spec noWrap 3 0x1090 []).1 _ (by decide)⟩

end Umr.Packet
