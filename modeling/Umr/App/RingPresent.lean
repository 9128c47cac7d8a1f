import Umr.Packet.Pm4Opcodes
import Mathlib.Logic.Function.Basic

/-!
# A ring on the command line

The callbacks of `ring_stream_read.c`.  Every IB, every shader and every data block is written to a
file of its own, so that what is nested comes behind what it is nested in; at the end the files are
printed in the order in which they were opened.
-/

set_option autoImplicit false

namespace Umr.App

open Umr.Lib Umr.Packet

/-- What one `fprintf` writes, without colours; of a field its radix decides how the value is
printed. -/
inductive Piece where
  | decodingIb (ibVmid : UInt32) (ibAddr : UInt64) (fromVmid : UInt32) (fromAddr : UInt64)
      (size : UInt32) (type : Nat)
  | opcode (ibVmid : UInt32) (ibAddr offset : UInt64) (header opcode : UInt32)
      (subop : Option UInt32) (opcodeName : String) (nwords pkttype : UInt32)
  | word (ibVmid : UInt32) (ibAddr offset : UInt64) (raw : List UInt32)
  | comma
  | register (str : Option String) (value : UInt64)
  | field (fieldName : String) (str : Option String) (idealRadix : Int) (value : UInt64)
  | shader (ibVmid : UInt32) (ibAddr offset : UInt64) (pgm : ShaderPgm)
  | line (text : String)
  | doneShader
  | data (ibVmid : UInt32) (ibAddr offset : UInt64) (bufVmid : UInt32) (bufAddr : UInt64)
      (type : Datablock)
  | subType (etype : UInt64) (name : String)
  | mqdLine (text : String)
  | doneData
  | doneIb
  deriving DecidableEq, Repr

/-! ## The callbacks -/

structure Level where
  ibAddr : UInt64
  fAddr : UInt64
  bAddr : UInt64
  rawdata : Option (List UInt32)
  f : Nat

/-- `struct ui_data`; `sp` counts the levels that are open, `no` is the number of files. -/
structure UiData where
  stack : Nat → Level
  sp : Nat
  files : List (List Piece)

def UiData.zero : UiData := ⟨fun _ => ⟨0, 0, 0, none, 0⟩, 0, []⟩

inductive MqdEngine where
  | compute | reserved | sdma0 | sdma1 | gfx | mes | invalid
  deriving DecidableEq, Repr

/-- `disasm` is `umr_vm_disasm_to_str`, whose result is not looked at: where it fails the lines are
not there.  `readMqd` is `umr_read_vram` of 512 words and `mqdDecode` is `umr_mqd_decode_data` for
the family of the ASIC.  `behind` is the memory behind the words of a packet. -/
structure UiEnv where
  sdma : Bool
  noFollowIb : Bool
  disasm : ShaderPgm → Option (List String)
  readMqd : UInt32 → UInt64 → Option (List UInt32)
  mqdDecode : MqdEngine → List UInt32 → Option (List String)
  behind : Nat → UInt32

/-- `stack` has 32 entries; a file is emptied when it is opened. -/
def nextLevel (data : UiData) : Option UiData :=
  if data.sp < 32 then
    some ⟨Function.update data.stack data.sp { data.stack data.sp with f := data.files.length },
      data.sp + 1, data.files ++ [[]]⟩
  else none

def UiData.setTop (data : UiData) (level : Level) : UiData :=
  { data with stack := Function.update data.stack (data.sp - 1) level }

def UiData.top (data : UiData) : Option Level :=
  if data.sp = 0 then none else some (data.stack (data.sp - 1))

def UiData.put (data : UiData) (pieces : List Piece) : UiData :=
  { data with files := data.files.modify (data.stack (data.sp - 1)).f (· ++ pieces) }

section Callbacks
variable {π : Type} (env : UiEnv)

def rawWord (raw : List UInt32) (index : UInt64) : UInt32 :=
  if index.toNat < raw.length then raw.getD index.toNat 0 else env.behind (index.toNat - raw.length)

/-- The words in front of a field; a negative size is that of a packet of 16-bit units. -/
def fieldWords (raw : List UInt32) (off : UInt64) (fieldSize : Int) : List UInt32 :=
  if 0 ≤ fieldSize then
    if 32 < fieldSize then [rawWord env raw (1 + off / 4), rawWord env raw (off / 4)]
    else [rawWord env raw (off / 4)]
  else if -16 ≤ fieldSize then [rawWord env raw (1 + off / 2)]
  else if -32 ≤ fieldSize then [rawWord env raw (2 + off / 2), rawWord env raw (1 + off / 2)]
  else [rawWord env raw (4 + off / 2), rawWord env raw (3 + off / 2), rawWord env raw (2 + off / 2),
    rawWord env raw (1 + off / 2)]

def fieldPiece (fieldName : String) (value : UInt64) (str : Option String) (idealRadix : Int) :
    Piece :=
  if fieldName = "REG" ∧ idealRadix = 16 then .register str value
  else .field fieldName str idealRadix value

def opcodeSubop (subop : UInt32) : Option UInt32 := if env.sdma then some subop else none

def shaderText (callAddr : UInt64) (ibVmid : UInt32) (pgm : ShaderPgm) (ibAddr : UInt64) :
    Option (List Piece) :=
  (env.disasm pgm).map fun lines =>
    .shader ibVmid ibAddr (callAddr - ibAddr) pgm :: (lines.map .line ++ [.doneShader])

def selnames : List String := ["compute", "reserved", "sdma0", "sdma1", "gfx", "mes"]

def mqdEngine (etype : UInt64) : MqdEngine :=
  match etype.toNat with
  | 0 => .compute
  | 2 => .sdma0
  | 3 => .sdma0
  | 4 => .gfx
  | 5 => .mes
  | _ => .invalid

def mqdLines (bufAddr : UInt64) (bufVmid : UInt32) (etype : UInt64) : List String :=
  ((env.readMqd bufVmid bufAddr).bind (env.mqdDecode (mqdEngine etype))).getD []

/-- What a data block is written as in an IB at `ibAddr`; `selnames` is read without a check. -/
def dataText (callAddr : UInt64) (ibVmid : UInt32) (bufAddr : UInt64) (bufVmid : UInt32)
    (type : Datablock) (etype : UInt64) (ibAddr : UInt64) : Option (List Piece) :=
  selnames[etype.toNat]?.map fun name =>
    .data ibVmid ibAddr (callAddr - ibAddr) bufVmid bufAddr type :: .subType etype name ::
      ((mqdLines env bufAddr bufVmid etype).map .mqdLine ++ [.doneData])

def writeNested (data : UiData) (text : UInt64 → Option (List Piece)) : Option UiData := do
  let outer ← data.top
  let data ← nextLevel data
  let pieces ← text outer.ibAddr
  let data := data.put pieces
  pure { data with sp := data.sp - 1 }

def callback (data : UiData) : UiCall π → Option UiData
  | .startIb ibAddr ibVmid fromAddr fromVmid size type => do
      let data ← nextLevel data
      let level ← data.top
      pure ((data.setTop { level with ibAddr := ibAddr }).put
        [.decodingIb ibVmid ibAddr fromVmid fromAddr size type])
  | .startOpcode ibAddr ibVmid pkttype opcode subop nwords opcodeName header rawData => do
      let level ← data.top
      let level := { level with bAddr := ibAddr + 4, fAddr := ibAddr - 4, rawdata := some rawData }
      pure ((data.setTop level).put [.opcode ibVmid level.ibAddr (ibAddr - level.ibAddr) header opcode
        (opcodeSubop env subop) opcodeName nwords pkttype])
  | .addField ibAddr ibVmid fieldName value str idealRadix fieldSize => do
      let level ← data.top
      if level.fAddr = ibAddr then
        pure (data.put [.comma, fieldPiece fieldName value str idealRadix])
      else
        let raw ← level.rawdata
        pure ((data.setTop { level with fAddr := ibAddr }).put
          [.word ibVmid level.ibAddr (ibAddr - level.ibAddr)
            (fieldWords env raw (ibAddr - level.bAddr) fieldSize),
          fieldPiece fieldName value str idealRadix])
  | .addShader ibAddr ibVmid pgm => writeNested data (shaderText env ibAddr ibVmid pgm)
  | .addData ibAddr ibVmid bufAddr bufVmid type etype =>
      if env.noFollowIb then some data
      else writeNested data (dataText env ibAddr ibVmid bufAddr bufVmid type etype)
  | .unhandledDword .. => some data
  | .unhandled .. => some data
  | .unhandledSubop .. => some data
  | .done => do
      let _ ← data.top
      let data := data.put [.doneIb]
      pure { data with sp := data.sp - 1 }

def umrRingStreamPresent (calls : List (UiCall π)) : Option (List Piece) :=
  (calls.foldlM (callback env) .zero).map fun data => data.files.flatten

end Callbacks

/-! ## What is nested in what -/

/-- The calls of an IB behind its `start_ib`, with the calls of the IBs in it. -/
inductive Body (π : Type) where
  | nil
  | own (call : UiCall π) (rest : Body π)
  | shader (ibAddr : UInt64) (ibVmid : UInt32) (pgm : ShaderPgm) (rest : Body π)
  | data (ibAddr : UInt64) (ibVmid : UInt32) (bufAddr : UInt64) (bufVmid : UInt32)
      (type : Datablock) (etype : UInt64) (rest : Body π)
  | ib (ibAddr : UInt64) (ibVmid : UInt32) (fromAddr : UInt64) (fromVmid size : UInt32) (type : Nat)
      (inner rest : Body π)

structure Shown where
  fAddr : UInt64
  bAddr : UInt64
  rawdata : List UInt32

section Body
variable {π : Type} (env : UiEnv)

def Body.calls : Body π → List (UiCall π)
  | .nil => []
  | .own call rest => call :: rest.calls
  | .shader ibAddr ibVmid pgm rest => .addShader ibAddr ibVmid pgm :: rest.calls
  | .data ibAddr ibVmid bufAddr bufVmid type etype rest =>
      .addData ibAddr ibVmid bufAddr bufVmid type etype :: rest.calls
  | .ib ibAddr ibVmid fromAddr fromVmid size type inner rest =>
      .startIb ibAddr ibVmid fromAddr fromVmid size type :: (inner.calls ++ .done :: rest.calls)

/-- How many levels are opened on top of the IB's own. -/
def Body.levels : Body π → Nat
  | .nil => 0
  | .own _ rest => rest.levels
  | .shader _ _ _ rest => max 1 rest.levels
  | .data _ _ _ _ _ _ rest => if env.noFollowIb then rest.levels else max 1 rest.levels
  | .ib _ _ _ _ _ _ inner rest => max (1 + inner.levels) rest.levels

/-- Every shader can be read, and the engine of every data block that is written has a name. -/
def Body.Printable : Body π → Prop
  | .nil => True
  | .own _ rest => rest.Printable
  | .shader _ _ pgm rest => (env.disasm pgm).isSome ∧ rest.Printable
  | .data _ _ _ _ _ etype rest => (env.noFollowIb ∨ etype < 6) ∧ rest.Printable
  | .ib _ _ _ _ _ _ inner rest => inner.Printable ∧ rest.Printable

def Body.decidablePrintable : (body : Body π) → Decidable (body.Printable env)
  | .nil => isTrue trivial
  | .own _ rest => rest.decidablePrintable
  | .shader _ _ _ rest => @instDecidableAnd _ _ inferInstance rest.decidablePrintable
  | .data _ _ _ _ _ _ rest => @instDecidableAnd _ _ inferInstance rest.decidablePrintable
  | .ib _ _ _ _ _ _ inner rest =>
      @instDecidableAnd _ _ inner.decidablePrintable rest.decidablePrintable

instance (body : Body π) : Decidable (body.Printable env) := body.decidablePrintable env

/-- The calls that open and close no level; a field needs a packet it belongs to. -/
def OwnCall (opened : Bool) : UiCall π → Prop
  | .startIb .. => False
  | .addShader .. => False
  | .addData .. => False
  | .done => False
  | .addField .. => opened = true
  | _ => True

def opensPacket : UiCall π → Bool
  | .startOpcode .. => true
  | _ => false

/-- Fields are shown behind the packet they belong to; `opened` tells whether there is one. -/
def Body.InPackets : Bool → Body π → Prop
  | _, .nil => True
  | opened, .own call rest => OwnCall opened call ∧ rest.InPackets (opened || opensPacket call)
  | opened, .shader _ _ _ rest => rest.InPackets opened
  | opened, .data _ _ _ _ _ _ rest => rest.InPackets opened
  | opened, .ib _ _ _ _ _ _ inner rest => inner.InPackets false ∧ rest.InPackets opened

/-- What is written for a call to the file of its IB, and the packet that is shown behind it. -/
def ownPieces (ibAddr : UInt64) (shown : Option Shown) : UiCall π → Option Shown × List Piece
  | .startOpcode callAddr ibVmid pkttype opcode subop nwords opcodeName header rawData =>
      (some ⟨callAddr - 4, callAddr + 4, rawData⟩,
        [.opcode ibVmid ibAddr (callAddr - ibAddr) header opcode (opcodeSubop env subop) opcodeName
          nwords pkttype])
  | .addField callAddr ibVmid fieldName value str idealRadix fieldSize =>
      match shown with
      | none => (none, [])
      | some packet =>
          if packet.fAddr = callAddr then
            (shown, [.comma, fieldPiece fieldName value str idealRadix])
          else
            (some { packet with fAddr := callAddr },
              [.word ibVmid ibAddr (callAddr - ibAddr)
                (fieldWords env packet.rawdata (callAddr - packet.bAddr) fieldSize),
              fieldPiece fieldName value str idealRadix])
  | _ => (shown, [])

/-- The text of an IB, in which nothing that is nested leaves a trace. -/
def Body.text (ibAddr : UInt64) : Option Shown → Body π → List Piece
  | _, .nil => []
  | shown, .own call rest =>
      (ownPieces env ibAddr shown call).2 ++ rest.text ibAddr (ownPieces env ibAddr shown call).1
  | shown, .shader _ _ _ rest => rest.text ibAddr shown
  | shown, .data _ _ _ _ _ _ rest => rest.text ibAddr shown
  | shown, .ib _ _ _ _ _ _ _ rest => rest.text ibAddr shown

def ibText (ibAddr : UInt64) (ibVmid : UInt32) (fromAddr : UInt64) (fromVmid size : UInt32)
    (type : Nat) (inner : Body π) : List Piece :=
  .decodingIb ibVmid ibAddr fromVmid fromAddr size type :: (inner.text env ibAddr none ++ [.doneIb])

/-- The texts of what is nested, each IB in front of what is nested in it. -/
def Body.nested (ibAddr : UInt64) : Body π → List (List Piece)
  | .nil => []
  | .own _ rest => rest.nested ibAddr
  | .shader callAddr ibVmid pgm rest =>
      (shaderText env callAddr ibVmid pgm ibAddr).getD [] :: rest.nested ibAddr
  | .data callAddr ibVmid bufAddr bufVmid type etype rest =>
      if env.noFollowIb then rest.nested ibAddr
      else (dataText env callAddr ibVmid bufAddr bufVmid type etype ibAddr).getD [] ::
        rest.nested ibAddr
  | .ib innerAddr ibVmid fromAddr fromVmid size type inner rest =>
      ibText env innerAddr ibVmid fromAddr fromVmid size type inner ::
        (inner.nested innerAddr ++ rest.nested ibAddr)

end Body

/-! ## A run -/

/-- The level `n` is open for an IB at an address. -/
structure Open (data : UiData) (n : Nat) (ibAddr : UInt64) (shown : Option Shown) : Prop where
  sp : data.sp = n + 1
  ibAddr : (data.stack n).ibAddr = ibAddr
  file : (data.stack n).f < data.files.length
  shown : ∀ packet, shown = some packet → (data.stack n).fAddr = packet.fAddr ∧
    (data.stack n).bAddr = packet.bAddr ∧ (data.stack n).rawdata = some packet.rawdata

/-- From `data` on, `own` was added to the file of the level and files with `more` were opened. -/
structure Adds (data after : UiData) (n : Nat) (own : List Piece) (more : List (List Piece)) :
    Prop where
  below : ∀ i < n, after.stack i = data.stack i
  file : (after.stack n).f = (data.stack n).f
  files : after.files = data.files.modify (data.stack n).f (· ++ own) ++ more

theorem modify_append_left {α : Type} (f : α → α) (more : List α) :
    ∀ {files : List α} {k : Nat}, k < files.length →
      (files ++ more).modify k f = files.modify k f ++ more
  | [], _, inside => absurd inside (Nat.not_lt_zero _)
  | _ :: _, 0, _ => rfl
  | a :: files, k + 1, inside => by
      rw [List.cons_append, List.modify_succ_cons, List.modify_succ_cons, List.cons_append,
        modify_append_left f more (Nat.lt_of_succ_lt_succ inside)]

theorem modify_last {α : Type} (f : α → α) (last : α) :
    ∀ files : List α, (files ++ [last]).modify files.length f = files ++ [f last]
  | [] => rfl
  | a :: files => by
      rw [List.cons_append, List.length_cons, List.modify_succ_cons, modify_last f last files,
        List.cons_append]

theorem modify_pieces (files : List (List Piece)) (k : Nat) (own next : List Piece) :
    (files.modify k (· ++ own)).modify k (· ++ next) = files.modify k (· ++ (own ++ next)) := by
  refine List.ext_getElem? fun i => ?_
  rw [List.getElem?_modify, List.getElem?_modify, List.getElem?_modify]
  cases files[i]? with
  | none => rfl
  | some pieces =>
      by_cases same : k = i
      · simp [same]
      · simp [same]

theorem modify_nothing (files : List (List Piece)) (k : Nat) : files.modify k (· ++ []) = files := by
  refine List.ext_getElem? fun i => ?_
  rw [List.getElem?_modify]
  cases files[i]? with
  | none => rfl
  | some pieces => simp

theorem Adds.refl (data : UiData) (n : Nat) : Adds data data n [] [] :=
  ⟨fun _ _ => rfl, rfl, by rw [modify_nothing, List.append_nil]⟩

theorem Adds.trans {data mid after : UiData} {n : Nat} {own next : List Piece}
    {more further : List (List Piece)} (inside : (data.stack n).f < data.files.length)
    (first : Adds data mid n own more) (second : Adds mid after n next further) :
    Adds data after n (own ++ next) (more ++ further) where
  below i less := (second.below i less).trans (first.below i less)
  file := second.file.trans first.file
  files := by
    have room : (data.stack n).f < (data.files.modify (data.stack n).f (· ++ own)).length := by
      rwa [List.length_modify]
    rw [second.files, first.file, first.files, modify_append_left _ _ room, modify_pieces,
      List.append_assoc]

section Step
variable {π : Type} {env : UiEnv} {data : UiData} {n : Nat} {ibAddr : UInt64}

theorem top_open (sp : data.sp = n + 1) : data.top = some (data.stack n) := by
  rw [UiData.top, sp, if_neg (Nat.succ_ne_zero n), Nat.add_sub_cancel]

theorem put_setTop (sp : data.sp = n + 1) {level : Level} (file : level.f = (data.stack n).f)
    (pieces : List Piece) :
    Adds data ((data.setTop level).put pieces) n pieces [] ∧
      ((data.setTop level).put pieces).sp = n + 1 ∧
      ((data.setTop level).put pieces).stack n = level := by
  have own : (data.setTop level).stack n = level := by
    rw [UiData.setTop, sp, Nat.add_sub_cancel]
    exact Function.update_self ..
  have number : (data.setTop level).sp = n + 1 := sp
  refine ⟨⟨fun i less => ?_, ?_, ?_⟩, sp, own⟩
  · change (data.setTop level).stack i = data.stack i
    rw [UiData.setTop, sp, Nat.add_sub_cancel]
    exact Function.update_of_ne (Nat.ne_of_lt less) ..
  · exact (congrArg Level.f own).trans file
  · rw [UiData.put, number, Nat.add_sub_cancel, own, file, List.append_nil]
    rfl

/-- What stays open when a level is changed and something is written. -/
theorem open_setTop {shown next : Option Shown} (isOpen : Open data n ibAddr shown) {level : Level}
    (file : level.f = (data.stack n).f) (sameAddr : level.ibAddr = ibAddr)
    (isNext : ∀ packet, next = some packet → level.fAddr = packet.fAddr ∧
      level.bAddr = packet.bAddr ∧ level.rawdata = some packet.rawdata) (pieces : List Piece) :
    Open ((data.setTop level).put pieces) n ibAddr next ∧
      Adds data ((data.setTop level).put pieces) n pieces [] := by
  obtain ⟨adds, sp, own⟩ := put_setTop isOpen.sp file pieces
  refine ⟨⟨sp, ?_, ?_, ?_⟩, adds⟩
  · rw [own]
    exact sameAddr
  · rw [adds.file, adds.files, List.append_nil, List.length_modify]
    exact isOpen.file
  · rw [own]
    exact isNext

theorem setTop_self (sp : data.sp = n + 1) : data.setTop (data.stack n) = data := by
  obtain ⟨stack, _, files⟩ := data
  cases sp
  change (⟨Function.update stack n (stack n), n + 1, files⟩ : UiData) = ⟨stack, n + 1, files⟩
  rw [Function.update_eq_self]

theorem callback_own {shown : Option Shown} (isOpen : Open data n ibAddr shown) {call : UiCall π}
    (own : OwnCall shown.isSome call) :
    ∃ after, callback env data call = some after ∧
      Open after n ibAddr (ownPieces env ibAddr shown call).1 ∧
      Adds data after n (ownPieces env ibAddr shown call).2 [] := by
  have top := top_open isOpen.sp
  cases call with
  | startIb => cases own
  | addShader => cases own
  | addData => cases own
  | done => cases own
  | unhandledDword => exact ⟨data, rfl, isOpen, .refl data n⟩
  | unhandled => exact ⟨data, rfl, isOpen, .refl data n⟩
  | unhandledSubop => exact ⟨data, rfl, isOpen, .refl data n⟩
  | startOpcode callAddr ibVmid pkttype opcode subop nwords opcodeName header rawData =>
      have address := isOpen.ibAddr
      refine ⟨_, ?_, @open_setTop data n ibAddr shown
        (some ⟨callAddr - 4, callAddr + 4, rawData⟩) isOpen
        { data.stack n with bAddr := callAddr + 4, fAddr := callAddr - 4, rawdata := some rawData }
        rfl address (fun packet same => ?_) _⟩
      · rw [callback, top]
        dsimp only [Option.bind_eq_bind, Option.bind_some]
        rw [address]
        rfl
      · cases same
        exact ⟨rfl, rfl, rfl⟩
  | addField callAddr ibVmid fieldName value str idealRadix fieldSize =>
      obtain ⟨packet, rfl⟩ := Option.isSome_iff_exists.mp own
      obtain ⟨fAddr, bAddr, raw⟩ := isOpen.shown packet rfl
      have address := isOpen.ibAddr
      rw [ownPieces]
      by_cases same : packet.fAddr = callAddr
      · have level := @open_setTop data n ibAddr (some packet) (some packet) isOpen (data.stack n) rfl
          address (fun other isOther => by cases isOther; exact ⟨fAddr, bAddr, raw⟩)
          [.comma, fieldPiece fieldName value str idealRadix]
        rw [setTop_self isOpen.sp] at level
        refine ⟨data.put [.comma, fieldPiece fieldName value str idealRadix], ?_, ?_⟩
        · rw [callback, top]
          dsimp only [Option.bind_eq_bind, Option.bind_some]
          rw [if_pos (fAddr.trans same)]
          rfl
        · rw [if_pos same]
          exact level
      · refine ⟨(data.setTop { data.stack n with fAddr := callAddr }).put
          [.word ibVmid ibAddr (callAddr - ibAddr)
            (fieldWords env packet.rawdata (callAddr - packet.bAddr) fieldSize),
          fieldPiece fieldName value str idealRadix], ?_, ?_⟩
        · rw [callback, top]
          dsimp only [Option.bind_eq_bind, Option.bind_some]
          rw [if_neg fun alike => same (fAddr.symm.trans alike), raw, address, bAddr]
          rfl
        · rw [if_neg same]
          exact @open_setTop data n ibAddr (some packet) (some { packet with fAddr := callAddr }) isOpen
            { data.stack n with fAddr := callAddr } rfl address
            (fun other isOther => by cases isOther; exact ⟨rfl, bAddr, raw⟩) _

theorem nextLevel_open (sp : data.sp = n) :
    (n < 32 → ∃ inner, nextLevel data = some inner ∧ inner.sp = n + 1 ∧
      (inner.stack n).f = data.files.length ∧ inner.files = data.files ++ [[]] ∧
      ∀ i < n, inner.stack i = data.stack i) ∧
    (¬ n < 32 → nextLevel data = none) := by
  constructor
  · intro room
    obtain ⟨level, isLevel⟩ : ∃ level : Level,
        level = { data.stack n with f := data.files.length } := ⟨_, rfl⟩
    refine ⟨⟨Function.update data.stack n level, n + 1, data.files ++ [[]]⟩, ?_, rfl, ?_, rfl,
      fun i less => Function.update_of_ne (Nat.ne_of_lt less) ..⟩
    · rw [nextLevel, sp, if_pos room, isLevel]
    · change (Function.update data.stack n level n).f = data.files.length
      rw [Function.update_self, isLevel]
  · intro full
    rw [nextLevel, sp, if_neg full]

/-- What is written to a file that was opened last, and the files behind it. -/
theorem files_nested {inner after : UiData} {first text : List Piece} {more : List (List Piece)}
    (file : (inner.stack n).f = data.files.length) (files : inner.files = data.files ++ [first])
    (adds : Adds inner after n text more) : after.files = data.files ++ [first ++ text] ++ more := by
  rw [adds.files, file, files]
  exact congrArg (· ++ more) (modify_last (· ++ text) first data.files)

theorem closed_adds {shown : Option Shown} (isOpen : Open data n ibAddr shown) {after : UiData}
    (sp : after.sp = n + 1) (below : ∀ i < n + 1, after.stack i = data.stack i)
    {more : List (List Piece)} (files : after.files = data.files ++ more) :
    Open after n ibAddr shown ∧ Adds data after n [] more := by
  have own : after.stack n = data.stack n := below n (Nat.lt_succ_self n)
  refine ⟨⟨sp, ?_, ?_, ?_⟩, ⟨fun i less => below i (Nat.lt_succ_of_lt less), ?_, ?_⟩⟩
  · rw [own]
    exact isOpen.ibAddr
  · rw [own, files, List.length_append]
    exact Nat.lt_of_lt_of_le isOpen.file (Nat.le_add_right _ _)
  · rw [own]
    exact isOpen.shown
  · rw [own]
  · rw [modify_nothing]
    exact files

theorem shaderText_isSome (callAddr : UInt64) (ibVmid : UInt32) (pgm : ShaderPgm) (ibAddr : UInt64) :
    (shaderText env callAddr ibVmid pgm ibAddr).isSome = (env.disasm pgm).isSome :=
  Option.isSome_map

theorem dataText_isSome_iff (callAddr : UInt64) (ibVmid : UInt32) (bufAddr : UInt64)
    (bufVmid : UInt32) (type : Datablock) (etype : UInt64) (ibAddr : UInt64) :
    (dataText env callAddr ibVmid bufAddr bufVmid type etype ibAddr).isSome = true ↔ etype < 6 := by
  rw [dataText, Option.isSome_map, isSome_getElem?]
  exact Iff.rfl

/-- A file of its own is written where there is a level for it and something to write. -/
theorem writeNested_open {shown : Option Shown} (isOpen : Open data n ibAddr shown)
    (text : UInt64 → Option (List Piece)) :
    (n + 1 < 32 ∧ (text ibAddr).isSome = true → ∃ after, writeNested data text = some after ∧
      Open after n ibAddr shown ∧ Adds data after n [] [(text ibAddr).getD []]) ∧
    (¬ (n + 1 < 32 ∧ (text ibAddr).isSome = true) → writeNested data text = none) := by
  have top := top_open isOpen.sp
  obtain ⟨goes, full⟩ := nextLevel_open isOpen.sp
  constructor
  · rintro ⟨room, written⟩
    obtain ⟨inner, ran, sp, file, files, below⟩ := goes room
    obtain ⟨pieces, isPieces⟩ := Option.isSome_iff_exists.mp written
    obtain ⟨adds, putSp, -⟩ := put_setTop sp (rfl : (inner.stack (n + 1)).f = _) pieces
    rw [setTop_self sp] at adds putSp
    refine ⟨{ inner.put pieces with sp := inner.sp - 1 }, ?_, ?_⟩
    · rw [writeNested, top]
      dsimp only [Option.bind_eq_bind, Option.bind_some]
      rw [ran, isOpen.ibAddr, isPieces]
      rfl
    · refine closed_adds isOpen ?_ (fun i less => ?_) ?_
      · change inner.sp - 1 = n + 1
        rw [sp]
        rfl
      · exact (adds.below i less).trans (below i less)
      · change (inner.put pieces).files = _
        rw [files_nested file files adds, isPieces, List.append_nil]
        rfl
  · intro fails
    rw [writeNested, top]
    dsimp only [Option.bind_eq_bind, Option.bind_some]
    by_cases room : n + 1 < 32
    · obtain ⟨inner, ran, -⟩ := goes room
      have unwritten : text ibAddr = none := by
        cases written : text ibAddr with
        | none => rfl
        | some pieces => exact absurd ⟨room, by rw [written]; rfl⟩ fails
      rw [ran, isOpen.ibAddr, Option.bind_some, unwritten]
      rfl
    · rw [full room]
      rfl

theorem callback_startIb (sp : data.sp = n) (innerAddr : UInt64) (ibVmid : UInt32)
    (fromAddr : UInt64) (fromVmid size : UInt32) (type : Nat) :
    (n < 32 → ∃ inner,
      callback env data (.startIb innerAddr ibVmid fromAddr fromVmid size type : UiCall π) =
        some inner ∧ Open inner n innerAddr none ∧ (inner.stack n).f = data.files.length ∧
      inner.files = data.files ++ [[.decodingIb ibVmid innerAddr fromVmid fromAddr size type]] ∧
      ∀ i < n, inner.stack i = data.stack i) ∧
    (¬ n < 32 →
      callback env data (.startIb innerAddr ibVmid fromAddr fromVmid size type : UiCall π) = none) := by
  obtain ⟨goes, full⟩ := nextLevel_open sp
  constructor
  · intro room
    obtain ⟨blank, ran, blankSp, file, files, below⟩ := goes room
    obtain ⟨adds, innerSp, own⟩ := @put_setTop blank n blankSp
      { blank.stack n with ibAddr := innerAddr } rfl
      [.decodingIb ibVmid innerAddr fromVmid fromAddr size type]
    have innerFiles := files_nested file files adds
    refine ⟨_, ?_, ⟨innerSp, ?_, ?_, fun packet none_ => nomatch none_⟩, ?_, ?_, ?_⟩
    · rw [callback, ran]
      dsimp only [Option.bind_eq_bind, Option.bind_some]
      rw [top_open blankSp]
      rfl
    · rw [own]
    · rw [adds.file, file, innerFiles, List.append_nil, List.length_append]
      exact Nat.lt_succ_self _
    · rw [adds.file, file]
    · rw [innerFiles, List.append_nil, List.nil_append]
    · exact fun i less => (adds.below i less).trans (below i less)
  · intro no
    rw [callback, full no]
    rfl

theorem callback_done {shown : Option Shown} (isOpen : Open data n ibAddr shown) :
    ∃ after, callback env data (.done : UiCall π) = some after ∧ after.sp = n ∧
      Adds data after n [.doneIb] [] := by
  obtain ⟨adds, sp, -⟩ := put_setTop isOpen.sp (rfl : (data.stack n).f = _) [.doneIb]
  rw [setTop_self isOpen.sp] at adds sp
  refine ⟨{ data.put [.doneIb] with sp := data.sp - 1 }, ?_, ?_, ⟨adds.below, adds.file, adds.files⟩⟩
  · rw [callback, top_open isOpen.sp]
    rfl
  · change data.sp - 1 = n
    rw [isOpen.sp, Nat.add_sub_cancel]

end Step

section Run
variable {π : Type} {env : UiEnv}

theorem ownPieces_shown (ibAddr : UInt64) (shown : Option Shown) (call : UiCall π) :
    (ownPieces env ibAddr shown call).1.isSome = (shown.isSome || opensPacket call) := by
  cases call with
  | addField =>
      cases shown with
      | none => rfl
      | some packet =>
          simp only [ownPieces, opensPacket]
          split <;> rfl
  | startOpcode => exact (Bool.or_true _).symm
  | _ => exact (Bool.or_false _).symm

theorem run_nested {data : UiData} {n : Nat} {ibAddr : UInt64} {shown : Option Shown}
    (isOpen : Open data n ibAddr shown) {call : UiCall π} {text : UInt64 → Option (List Piece)}
    (nests : callback env data call = writeNested data text) {calls : List (UiCall π)}
    {levels : Nat} {printable : Prop} {own : List Piece} {more : List (List Piece)}
    (further : ∀ {mid : UiData}, Open mid n ibAddr shown →
      (n + 1 + levels ≤ 32 ∧ printable → ∃ after last,
        calls.foldlM (callback env) mid = some after ∧ Open after n ibAddr last ∧
        Adds mid after n own more) ∧
      (¬ (n + 1 + levels ≤ 32 ∧ printable) → calls.foldlM (callback env) mid = none)) :
    (n + 1 + max 1 levels ≤ 32 ∧ (text ibAddr).isSome = true ∧ printable → ∃ after last,
      (call :: calls).foldlM (callback env) data = some after ∧ Open after n ibAddr last ∧
      Adds data after n own ((text ibAddr).getD [] :: more)) ∧
    (¬ (n + 1 + max 1 levels ≤ 32 ∧ (text ibAddr).isSome = true ∧ printable) →
      (call :: calls).foldlM (callback env) data = none) := by
  obtain ⟨writes, faults⟩ := writeNested_open isOpen text
  rw [List.foldlM_cons, nests]
  constructor
  · rintro ⟨room, written, rest⟩
    obtain ⟨mid, ran, midOpen, first⟩ := writes ⟨by omega, written⟩
    obtain ⟨after, last, ranRest, isLast, second⟩ := (further midOpen).1 ⟨by omega, rest⟩
    refine ⟨after, last, ?_, isLast, first.trans isOpen.file second⟩
    rw [ran]
    exact ranRest
  · intro unfit
    by_cases here : n + 1 < 32 ∧ (text ibAddr).isSome = true
    · obtain ⟨mid, ran, midOpen, -⟩ := writes here
      rw [ran]
      exact (further midOpen).2 fun fits => unfit ⟨by omega, here.2, fits.2⟩
    · rw [faults here]
      rfl

/-- What the calls of an IB do: nothing is left open, its own text is written to its file, and the
texts of what is nested are in files that were opened since. -/
theorem run_body (body : Body π) : ∀ {data : UiData} {n : Nat} {ibAddr : UInt64}
    {shown : Option Shown}, n < 32 → Open data n ibAddr shown → body.InPackets shown.isSome →
    (n + 1 + body.levels env ≤ 32 ∧ body.Printable env → ∃ after last,
      body.calls.foldlM (callback env) data = some after ∧ Open after n ibAddr last ∧
      Adds data after n (body.text env ibAddr shown) (body.nested env ibAddr)) ∧
    (¬ (n + 1 + body.levels env ≤ 32 ∧ body.Printable env) →
      body.calls.foldlM (callback env) data = none) := by
  induction body with
  | nil =>
      intro data n ibAddr shown room isOpen _
      exact ⟨fun _ => ⟨data, shown, rfl, isOpen, .refl data n⟩, fun unfit => absurd ⟨room, trivial⟩ unfit⟩
  | own call rest ih =>
      intro data n ibAddr shown room isOpen inPackets
      obtain ⟨mid, ran, midOpen, first⟩ := @callback_own π env data n ibAddr shown isOpen call
        inPackets.1
      have behind := inPackets.2
      rw [← @ownPieces_shown π env ibAddr shown call] at behind
      obtain ⟨goes, fails⟩ := ih room midOpen behind
      constructor
      · intro fits
        obtain ⟨after, last, ranRest, isLast, second⟩ := goes fits
        refine ⟨after, last, ?_, isLast, first.trans isOpen.file second⟩
        rw [Body.calls, List.foldlM_cons, ran]
        exact ranRest
      · intro unfit
        rw [Body.calls, List.foldlM_cons, ran]
        exact fails unfit
  | shader callAddr ibVmid pgm rest ih =>
      intro data n ibAddr shown room isOpen inPackets
      rw [Body.levels, Body.Printable, ← shaderText_isSome callAddr ibVmid pgm ibAddr]
      exact run_nested isOpen rfl fun midOpen => ih room midOpen inPackets
  | data callAddr ibVmid bufAddr bufVmid type etype rest ih =>
      intro data n ibAddr shown room isOpen inPackets
      rw [Body.levels, Body.Printable, Body.nested, Body.text, Body.calls]
      cases follow : env.noFollowIb with
      | true =>
          have same : callback env data
              (.addData callAddr ibVmid bufAddr bufVmid type etype : UiCall π) = some data := by
            rw [callback, follow]
            rfl
          rw [List.foldlM_cons, same, if_pos rfl, if_pos rfl, eq_self, true_or, true_and]
          exact ih room isOpen inPackets
      | false =>
          have nests : callback env data
              (.addData callAddr ibVmid bufAddr bufVmid type etype : UiCall π) =
              writeNested data (dataText env callAddr ibVmid bufAddr bufVmid type etype) := by
            rw [callback, follow]
            rfl
          have named := @dataText_isSome_iff env callAddr ibVmid bufAddr bufVmid type etype ibAddr
          have step := run_nested isOpen nests fun midOpen => ih room midOpen inPackets
          rw [named] at step
          rw [if_neg Bool.false_ne_true, if_neg Bool.false_ne_true, or_iff_right Bool.false_ne_true]
          exact step
  | ib innerAddr ibVmid fromAddr fromVmid size type inner rest ihInner ih =>
      intro data n ibAddr shown room isOpen inPackets
      obtain ⟨opens, full⟩ := @callback_startIb π env data (n + 1) isOpen.sp innerAddr ibVmid fromAddr
        fromVmid size type
      rw [Body.levels, Body.Printable, Body.calls, List.foldlM_cons]
      by_cases deeper : n + 1 < 32
      · obtain ⟨first, opened, firstOpen, file, files, below⟩ := opens deeper
        obtain ⟨innerGoes, innerFails⟩ := ihInner deeper firstOpen inPackets.1
        rw [opened]
        change (_ → ∃ after last, (inner.calls ++ UiCall.done :: rest.calls).foldlM (callback env) first =
          some after ∧ _) ∧ (_ → (inner.calls ++ UiCall.done :: rest.calls).foldlM (callback env) first =
          none)
        rw [List.foldlM_append]
        by_cases innerFits : n + 1 + 1 + inner.levels env ≤ 32 ∧ inner.Printable env
        · obtain ⟨second, innerLast, ranInner, secondOpen, innerAdds⟩ := innerGoes innerFits
          obtain ⟨third, done, thirdSp, doneAdds⟩ := @callback_done π env second (n + 1) innerAddr
            innerLast secondOpen
          have whole := innerAdds.trans firstOpen.file doneAdds
          rw [List.append_nil] at whole
          have nestedFiles := files_nested file files whole
          have belowAll : ∀ i < n + 1, third.stack i = data.stack i := fun i less =>
            (whole.below i less).trans (below i less)
          obtain ⟨thirdOpen, thirdAdds⟩ := closed_adds isOpen thirdSp belowAll
            (by rw [nestedFiles, List.append_assoc])
          rw [ranInner]
          change (_ → ∃ after last, (UiCall.done :: rest.calls).foldlM (callback env) second =
            some after ∧ _) ∧ (_ → (UiCall.done :: rest.calls).foldlM (callback env) second = none)
          rw [List.foldlM_cons, done]
          obtain ⟨goes, fails⟩ := ih room thirdOpen inPackets.2
          constructor
          · rintro ⟨levels, -, readRest⟩
            obtain ⟨after, last, ranRest, isLast, behind⟩ := goes ⟨by omega, readRest⟩
            exact ⟨after, last, ranRest, isLast, thirdAdds.trans isOpen.file behind⟩
          · intro unfit
            exact fails fun fits => unfit ⟨by omega, innerFits.2, fits.2⟩
        · rw [innerFails innerFits]
          refine ⟨fun fits => absurd ⟨by omega, fits.2.1⟩ innerFits, fun _ => rfl⟩
      · rw [full deeper]
        exact ⟨fun fits => absurd fits.1 (by omega), fun _ => rfl⟩

/-- A whole IB, from no open level on. -/
theorem present_ib (ibAddr : UInt64) (ibVmid : UInt32) (fromAddr : UInt64) (fromVmid size : UInt32)
    (type : Nat) {inner : Body π} (inPackets : inner.InPackets false) :
    umrRingStreamPresent env (.startIb ibAddr ibVmid fromAddr fromVmid size type ::
        (inner.calls ++ [.done])) =
      if 1 + inner.levels env ≤ 32 ∧ inner.Printable env then
        some (ibText env ibAddr ibVmid fromAddr fromVmid size type inner ++
          (inner.nested env ibAddr).flatten)
      else none := by
  obtain ⟨first, opened, firstOpen, file, files, -⟩ := (@callback_startIb π env .zero 0 rfl ibAddr
    ibVmid fromAddr fromVmid size type).1 (by decide)
  obtain ⟨goes, fails⟩ := @run_body π env inner _ _ _ _ (by decide) firstOpen inPackets
  have start : umrRingStreamPresent env (.startIb ibAddr ibVmid fromAddr fromVmid size type ::
      (inner.calls ++ [.done])) =
      ((inner.calls.foldlM (callback env) first).bind (callback env · (.done : UiCall π))).map
        fun data => data.files.flatten := by
    rw [umrRingStreamPresent, List.foldlM_cons, opened]
    change ((inner.calls ++ [UiCall.done]).foldlM (callback env) first).map _ = _
    rw [List.foldlM_append]
    cases inner.calls.foldlM (callback env) first with
    | none => rfl
    | some data =>
        change ([(UiCall.done : UiCall π)].foldlM (callback env) data).map _ =
          (callback env data (.done : UiCall π)).map _
        rw [List.foldlM_cons]
        cases callback env data (.done : UiCall π) <;> rfl
  rw [start]
  by_cases fits : 1 + inner.levels env ≤ 32 ∧ inner.Printable env
  · obtain ⟨second, last, ran, secondOpen, innerAdds⟩ := goes ⟨by omega, fits.2⟩
    obtain ⟨third, done, -, doneAdds⟩ := @callback_done π env second 0 ibAddr last secondOpen
    have whole := innerAdds.trans firstOpen.file doneAdds
    rw [List.append_nil] at whole
    have nestedFiles := files_nested file files whole
    rw [if_pos fits, ran, Option.bind_some, done, Option.map_some, nestedFiles, List.flatten_append]
    simp only [UiData.zero, List.nil_append, List.flatten_singleton, ibText,
      List.cons_append]
  · rw [if_neg fits, fails fun all => fits ⟨by omega, all.2⟩]
    rfl

end Run

end Umr.App
