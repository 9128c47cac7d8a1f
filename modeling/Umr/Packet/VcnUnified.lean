import Umr.Packet.Stored
import Umr.Lib.Loop
import Umr.Lib.Fault

/-!
# Packages of a unified VCN ring

`retrieve_engine_info`, `retrieve_decode_buffer` and `find_next_vcn_ib` of
`read_vcn_enc_stream.c`: an IB is packages one after the other, each with its size in
bytes and its type in front.  What is read of the message that a decode buffer points
to is left out.
-/

set_option autoImplicit false

namespace Umr.Packet

open Umr.Lib Umr.Rumr

/-- `p_curr`, counted in words, and `offset`. -/
structure PackageScan where
  curr : Nat
  offset : UInt32
  deriving DecidableEq, Repr

/-- A turn of the two loops, which differ in the type they look for and in what they
read there.  The step is unsigned: a size below eight goes four gigawords on. -/
def packageTurn {ρ : Type} (wanted : UInt32) (found : PackageScan → Except StreamStop ρ) (missing : ρ)
    (buf : List UInt32) (scan : PackageScan) : Except StreamStop (Turn PackageScan ρ) :=
  if buf.length ≤ scan.curr then .ok (.done missing)
  else do
    let ibSize ← orStop (readWord buf scan.curr)
    let ibType ← orStop (readWord buf (scan.curr + 1))
    if ibSize = 0 then pure (.done missing)
    else if ibType = wanted then do
      let result ← found { scan with curr := scan.curr + 2 }
      pure (.done result)
    else pure (.again
      { curr := scan.curr + 2 + (ibSize / 4 - 2).toNat
        offset := scan.offset + ibSize })

def radeonVcnEngineInfo : UInt32 := 0x30000001
def radeonVcnEngineTypeDecode : UInt32 := 3
def rdecodeIbParamDecodeBuffer : UInt32 := 1
def rdecodeCmdbufFlagsMsgBuffer : UInt32 := 1

def engineInfoTurn (buf : List UInt32) : PackageScan → Except StreamStop (Turn PackageScan UInt32) :=
  packageTurn radeonVcnEngineInfo (fun scan => orStop (readWord buf scan.curr)) 0xFFFFFFFF buf

/-- The first field is the type of the engine. -/
def retrieveEngineInfo (buf : List UInt32) (fuel : Nat) : Except StreamStop (Option UInt32) :=
  faultingLoop (engineInfoTurn buf) fuel ⟨0, 0⟩

/-- `struct umr_vcn_cmd_message` of a message to be read. -/
structure VcnCmdMessage where
  vmid : UInt32
  addr : UInt64
  from_ : UInt64
  deriving DecidableEq, Repr

/-- The flags and, where there is a message buffer, its address. -/
def decodeBuffer (vmid : UInt32) (addr : UInt64) (buf : List UInt32) (scan : PackageScan) :
    Except StreamStop (Option VcnCmdMessage) := do
  let validBufFlag ← orStop (readWord buf scan.curr)
  if validBufFlag &&& rdecodeCmdbufFlagsMsgBuffer ≠ 0 then do
    let hi ← orStop (readWord buf (scan.curr + 1))
    let lo ← orStop (readWord buf (scan.curr + 2))
    pure (some ⟨vmid, (hi.toUInt64 <<< 32) ||| lo.toUInt64, addr + scan.offset.toUInt64 + 8 + 4⟩)
  else pure none

def decodeBufferTurn (vmid : UInt32) (addr : UInt64) (buf : List UInt32) :
    PackageScan → Except StreamStop (Turn PackageScan (Option VcnCmdMessage)) :=
  packageTurn rdecodeIbParamDecodeBuffer (decodeBuffer vmid addr buf) none buf

def retrieveDecodeBuffer (vmid : UInt32) (addr : UInt64) (buf : List UInt32) (fuel : Nat) :
    Except StreamStop (Option (Option VcnCmdMessage)) :=
  faultingLoop (decodeBufferTurn vmid addr buf) fuel ⟨0, 0⟩

/-- The second scan is for IBs of the decode engine, from version 4 on. -/
def findNextVcnIb (version : Option (Nat × Nat × Nat)) (vmid : UInt32) (addr : UInt64)
    (buf : List UInt32) (fuel : Nat) : Except StreamStop (Option (Option VcnCmdMessage)) :=
  match version with
  | none => .ok (some none)
  | some (maj, min, rev) =>
      if maj * 65536 + min * 256 + rev < 4 * 65536 then .ok (some none)
      else do
        match ← retrieveEngineInfo buf fuel with
        | none => pure none
        | some engineType =>
            if engineType = radeonVcnEngineTypeDecode then retrieveDecodeBuffer vmid addr buf fuel
            else pure (some none)

/-! ## Where packages are -/

/-- A package begins at the position, if the IB has words there. -/
inductive PackageAt (wanted : UInt32) (buf : List UInt32) : Nat → Prop
  | first : PackageAt wanted buf 0
  | next {pos : Nat} {size type : UInt32} (behind : PackageAt wanted buf pos)
      (isSize : buf[pos]? = some size) (isType : buf[pos + 1]? = some type) (some_ : size ≠ 0)
      (other : type ≠ wanted) : PackageAt wanted buf (pos + 2 + (size / 4 - 2).toNat)

/-- The type of a package is in the IB, and where the package is looked for what is read
of it. -/
def PackageInside (wanted : UInt32) (fields : Nat → Prop) (buf : List UInt32) (pos : Nat) : Prop :=
  pos < buf.length →
    pos + 1 < buf.length ∧
      (buf.getD pos 0 ≠ 0 → buf.getD (pos + 1) 0 = wanted → fields (pos + 2))

def EngineInfoInside (buf : List UInt32) : Nat → Prop :=
  PackageInside radeonVcnEngineInfo (fun pos => pos < buf.length) buf

def DecodeBufferInside (buf : List UInt32) : Nat → Prop :=
  PackageInside rdecodeIbParamDecodeBuffer (fun pos => pos < buf.length ∧
    (buf.getD pos 0 &&& rdecodeCmdbufFlagsMsgBuffer ≠ 0 → pos + 2 < buf.length)) buf

theorem readWord_ends_iff {buf : List UInt32} {pos : Nat} :
    Ends (orStop (readWord buf pos)) ↔ pos < buf.length := by
  constructor
  · rintro ⟨word, read⟩
    by_contra outside
    rw [readWord, List.getElem?_eq_none (Nat.le_of_not_lt outside)] at read
    cases read
  · intro inside
    rw [readWord, List.getElem?_eq_getElem inside]
    exact ends_ok _

theorem readWord_inside {buf : List UInt32} {pos : Nat} (inside : pos < buf.length) :
    orStop (readWord buf pos) = .ok (buf.getD pos 0) := by
  rw [readWord, List.getD_eq_getElem?_getD, List.getElem?_eq_getElem inside]
  rfl

section Scan
variable {ρ : Type} {wanted : UInt32} {found : PackageScan → Except StreamStop ρ} {missing : ρ}
  {buf : List UInt32}

theorem packageTurn_ok_iff {fields : Nat → Prop}
    (isFields : ∀ scan, Ends (found scan) ↔ fields scan.curr) (scan : PackageScan) :
    (∃ turn, packageTurn wanted found missing buf scan = .ok turn) ↔
      PackageInside wanted fields buf scan.curr := by
  rw [packageTurn, PackageInside]
  by_cases past : buf.length ≤ scan.curr
  · rw [if_pos past]
    exact iff_of_true ⟨_, rfl⟩ fun inside => absurd past (Nat.not_le.mpr inside)
  · have inside : scan.curr < buf.length := Nat.not_le.mp past
    rw [if_neg past, readWord_inside inside]
    by_cases typed : scan.curr + 1 < buf.length
    · rw [readWord_inside typed]
      dsimp only [bind, Except.bind]
      by_cases empty : buf.getD scan.curr 0 = 0
      · rw [if_pos empty]
        exact iff_of_true ⟨_, rfl⟩ fun _ => ⟨typed, fun some_ => absurd empty some_⟩
      · rw [if_neg empty]
        by_cases same : buf.getD (scan.curr + 1) 0 = wanted
        · rw [if_pos same]
          have ends := isFields { scan with curr := scan.curr + 2 }
          constructor
          · rintro ⟨turn, run⟩ _
            obtain ⟨result, ran, _⟩ := bind_ok run
            exact ⟨typed, fun _ _ => ends.mp ⟨result, ran⟩⟩
          · intro whole
            obtain ⟨result, ran⟩ := ends.mpr ((whole inside).2 empty same)
            rw [ran]
            exact ⟨_, rfl⟩
        · rw [if_neg same]
          exact iff_of_true ⟨_, rfl⟩ fun _ => ⟨typed, fun _ wanted_ => absurd wanted_ same⟩
    · refine iff_of_false ?_ fun whole => typed (whole inside).1
      rintro ⟨turn, run⟩
      obtain ⟨size, _, run⟩ := bind_ok run
      obtain ⟨type, read, _⟩ := bind_ok run
      exact typed (readWord_ends_iff.mp ⟨type, read⟩)

theorem packageTurn_again {scan next : PackageScan}
    (turn : packageTurn wanted found missing buf scan = .ok (.again next)) :
    ∃ size type, buf[scan.curr]? = some size ∧ buf[scan.curr + 1]? = some type ∧ size ≠ 0 ∧
      type ≠ wanted ∧ next.curr = scan.curr + 2 + (size / 4 - 2).toNat := by
  rw [packageTurn] at turn
  split at turn
  · cases turn
  · obtain ⟨size, isSize, turn⟩ := bind_ok turn
    obtain ⟨type, isType, turn⟩ := bind_ok turn
    split at turn
    · cases turn
    · next some_ =>
        split at turn
        · obtain ⟨result, _, turn⟩ := bind_ok turn
          cases turn
        · next other =>
            cases turn
            exact ⟨size, type, orStop_ok isSize, orStop_ok isType, some_, other, rfl⟩

theorem packageTurn_descends {scan next : PackageScan}
    (turn : packageTurn wanted found missing buf scan = .ok (.again next)) :
    buf.length - next.curr < buf.length - scan.curr := by
  obtain ⟨size, type, isSize, _, _, _, behind⟩ := packageTurn_again turn
  have inside : scan.curr < buf.length := (List.getElem?_eq_some_iff.mp isSize).1
  omega

theorem packageTurn_go {scan : PackageScan} {size type : UInt32} (isSize : buf[scan.curr]? = some size)
    (isType : buf[scan.curr + 1]? = some type) (some_ : size ≠ 0) (other : type ≠ wanted) :
    packageTurn wanted found missing buf scan =
      .ok (.again ⟨scan.curr + 2 + (size / 4 - 2).toNat, scan.offset + size⟩) := by
  have inside : scan.curr < buf.length := (List.getElem?_eq_some_iff.mp isSize).1
  rw [packageTurn, if_neg (Nat.not_le.mpr inside), readWord, readWord, isSize, isType]
  dsimp only [orStop, bind, Except.bind]
  rw [if_neg some_, if_neg other]
  rfl

theorem packageAt_iff_reached {pos : Nat} :
    PackageAt wanted buf pos ↔
      ∃ offset, ReachedFrom (packageTurn wanted found missing buf) ⟨0, 0⟩ ⟨pos, offset⟩ := by
  constructor
  · intro package
    induction package with
    | first => exact ⟨0, .start⟩
    | next _ isSize isType some_ other ih =>
        obtain ⟨offset, reached⟩ := ih
        exact ⟨_, reached.again (packageTurn_go isSize isType some_ other)⟩
  · rintro ⟨offset, reached⟩
    have all : ∀ scan, ReachedFrom (packageTurn wanted found missing buf) ⟨0, 0⟩ scan →
        PackageAt wanted buf scan.curr := by
      intro scan reached
      induction reached with
      | start => exact .first
      | again _ turn ih =>
          obtain ⟨size, type, isSize, isType, some_, other, behind⟩ := packageTurn_again turn
          rw [behind]
          exact .next ih isSize isType some_ other
    exact all ⟨pos, offset⟩ reached

theorem packages_endWell_iff {fields : Nat → Prop}
    (isFields : ∀ scan, Ends (found scan) ↔ fields scan.curr) :
    EndsWell (packageTurn wanted found missing buf) ⟨0, 0⟩ ↔
      ∀ pos, PackageAt wanted buf pos → PackageInside wanted fields buf pos := by
  rw [endsWell_iff packageTurn_descends]
  constructor
  · intro fine pos package
    obtain ⟨offset, reached⟩ := packageAt_iff_reached.mp package
    exact (packageTurn_ok_iff isFields ⟨pos, offset⟩).mp (fine _ reached)
  · intro inside scan reached
    exact (packageTurn_ok_iff isFields scan).mpr
      (inside scan.curr (packageAt_iff_reached.mpr ⟨scan.offset, reached⟩))

end Scan

theorem decodeBuffer_ends_iff {vmid : UInt32} {addr : UInt64} {buf : List UInt32} (scan : PackageScan) :
    Ends (decodeBuffer vmid addr buf scan) ↔ scan.curr < buf.length ∧
      (buf.getD scan.curr 0 &&& rdecodeCmdbufFlagsMsgBuffer ≠ 0 → scan.curr + 2 < buf.length) := by
  rw [decodeBuffer]
  by_cases inside : scan.curr < buf.length
  · rw [readWord_inside inside, and_iff_right inside]
    dsimp only [bind, Except.bind]
    by_cases flagged : buf.getD scan.curr 0 &&& rdecodeCmdbufFlagsMsgBuffer ≠ 0
    · rw [if_pos flagged]
      constructor
      · rintro ⟨message, run⟩ _
        obtain ⟨hi, _, run⟩ := bind_ok run
        obtain ⟨lo, read, _⟩ := bind_ok run
        exact readWord_ends_iff.mp ⟨lo, read⟩
      · intro all
        have last := all flagged
        have middle : scan.curr + 1 < buf.length := by omega
        rw [readWord_inside last, readWord_inside middle]
        exact ends_pure _
    · rw [if_neg flagged]
      exact iff_of_true (ends_pure _) fun impossible => absurd impossible flagged
  · refine iff_of_false ?_ fun both => inside both.1
    rintro ⟨message, run⟩
    obtain ⟨flag, read, _⟩ := bind_ok run
    exact inside (readWord_ends_iff.mp ⟨flag, read⟩)

def VcnScansInside (buf : List UInt32) : Prop :=
  (∃ fuel engineType, retrieveEngineInfo buf fuel = .ok (some engineType)) ∧
    ∀ vmid addr, ∃ fuel message, retrieveDecodeBuffer vmid addr buf fuel = .ok (some message)

/-- Turns as many as there are words are enough, whatever the words are. -/
theorem retrieve_halts (vmid : UInt32) (addr : UInt64) (buf : List UInt32) :
    retrieveEngineInfo buf (buf.length + 1) ≠ .ok none ∧
      retrieveDecodeBuffer vmid addr buf (buf.length + 1) ≠ .ok none := by
  refine ⟨?_, ?_⟩
  · exact faultingLoop_halts packageTurn_descends (Nat.lt_succ_self _)
  · exact faultingLoop_halts packageTurn_descends (Nat.lt_succ_self _)

theorem findNextVcnIb_ends {buf : List UInt32} (inside : VcnScansInside buf)
    (version : Option (Nat × Nat × Nat)) (vmid : UInt32) (addr : UInt64) :
    ∃ fuel message, findNextVcnIb version vmid addr buf fuel = .ok (some message) := by
  obtain ⟨⟨few, engineType, engine⟩, decodes⟩ := inside
  obtain ⟨more, message, decode⟩ := decodes vmid addr
  have engine : retrieveEngineInfo buf (few + more) = .ok (some engineType) :=
    faultingLoop_more engine (Nat.le_add_right ..)
  have decode : retrieveDecodeBuffer vmid addr buf (few + more) = .ok (some message) :=
    faultingLoop_more decode (Nat.le_add_left ..)
  refine ⟨few + more, ?_⟩
  rw [findNextVcnIb.eq_def]
  split
  · exact ⟨none, rfl⟩
  · split
    · exact ⟨none, rfl⟩
    · rw [engine]
      dsimp only [bind, Except.bind]
      split
      · exact ⟨message, decode⟩
      · exact ⟨none, rfl⟩

end Umr.Packet
