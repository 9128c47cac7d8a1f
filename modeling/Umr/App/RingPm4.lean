import Umr.App.RingPresent

/-!
# A PM4 ring on the command line

What the PM4 opcode decoder calls is the body of an IB: every field stands behind the packet it
belongs to, the data blocks of a packet between its fields, and every IB behind the packet that
points to it is closed in front of the next packet.
-/

set_option autoImplicit false

namespace Umr.App

open Umr.Lib Umr.Packet Umr.Packet.Pm4

/-- The calls for a packet that are neither brackets nor shaders. -/
def PacketCall {π : Type} (opened : Bool) : UiCall π → Prop
  | .addData .. => True
  | call => OwnCall opened call

/-- The other opcodes only call for fields, for data blocks and for what is unhandled. -/
def PlainFields (env : OpcodeEnv) : Prop :=
  ∀ opcode nWords ibAddr ibVmid prog, env.pkt3Fields opcode nWords ibAddr ibVmid = some prog →
    prog.Yields fun calls => ∀ call ∈ calls, PacketCall true call

def Anywhere {π : Type} (body : Body π) : Prop := ∀ opened, body.InPackets opened

theorem PacketCall.opened {π : Type} {opened : Bool} {call : UiCall π}
    (placed : PacketCall opened call) : PacketCall true call := by
  cases call with
  | addField => rfl
  | _ => exact placed

theorem PacketCall.closed {π : Type} {call : UiCall π} (placed : PacketCall false call)
    (opened : Bool) : PacketCall opened call := by
  cases call with
  | addField => cases placed
  | _ => exact placed

def Body.cons {π : Type} (call : UiCall π) (rest : Body π) : Body π :=
  match call with
  | .addData ibAddr ibVmid bufAddr bufVmid type etype =>
      .data ibAddr ibVmid bufAddr bufVmid type etype rest
  | other => .own other rest

theorem calls_cons {π : Type} (call : UiCall π) (rest : Body π) :
    (rest.cons call).calls = call :: rest.calls := by
  cases call <;> rfl

theorem inPackets_cons {π : Type} {call : UiCall π} {rest : Body π} {opened : Bool}
    (placed : PacketCall opened call) (behind : rest.InPackets (opened || opensPacket call)) :
    (rest.cons call).InPackets opened := by
  cases call with
  | addData =>
      change rest.InPackets (opened || false) at behind
      rw [Bool.or_false] at behind
      exact behind
  | _ => exact ⟨placed, behind⟩

def Body.behind {π : Type} (calls : List (UiCall π)) (rest : Body π) : Body π :=
  calls.foldr Body.cons rest

theorem calls_behind {π : Type} (calls : List (UiCall π)) (rest : Body π) :
    (rest.behind calls).calls = calls ++ rest.calls := by
  induction calls with
  | nil => rfl
  | cons call calls ih => exact (calls_cons call _).trans (congrArg (call :: ·) ih)

theorem inPackets_behind {π : Type} {calls : List (UiCall π)} {rest : Body π}
    (anywhere : Anywhere rest) : ∀ {opened : Bool}, (∀ call ∈ calls, PacketCall opened call) →
      (rest.behind calls).InPackets opened := by
  induction calls with
  | nil => exact fun _ => anywhere _
  | cons call calls ih =>
      intro opened placed
      obtain ⟨here, later⟩ := List.forall_mem_cons.mp placed
      refine inPackets_cons here (ih fun other member => ?_)
      cases opens : opened || opensPacket call with
      | true => exact (later other member).opened
      | false =>
          obtain ⟨rfl, -⟩ := Bool.or_eq_false_iff.mp opens
          exact later other member

/-- Fields behind a packet that was just started. -/
theorem anywhere_started {π : Type} {calls fields : List (UiCall π)} {start : UiCall π}
    {rest : Body π} (anywhere : Anywhere rest) (placed : ∀ call ∈ calls, PacketCall false call)
    (opens : opensPacket start = true) (inPacket : ∀ call ∈ fields, PacketCall true call) :
    Anywhere (rest.behind (calls ++ start :: fields)) := by
  induction calls with
  | nil =>
      intro opened
      refine inPackets_cons ?_ ?_
      · cases start with
        | startOpcode => trivial
        | _ => cases opens
      · rw [opens, Bool.or_true]
        exact inPackets_behind anywhere inPacket
  | cons call calls ih =>
      obtain ⟨here, later⟩ := List.forall_mem_cons.mp placed
      exact fun opened => inPackets_cons (here.closed opened) (ih later _)

section Packet
variable {env : OpcodeEnv} {ps : Pm4Packet} {ibAddr : UInt64} {ibVmid : UInt32}

theorem fetched_placed {prog : Fetch (List Call)} {result : List Call × Bool}
    (yields : prog.Yields fun calls => ∀ call ∈ calls, PacketCall true call)
    (ran : fetched ps prog = .ok result) : ∀ call ∈ result.1, PacketCall true call := by
  rw [fetched] at ran
  cases run : prog.run ps.nWords.toNat ps.words 0 ps.invalid with
  | none =>
      rw [run] at ran
      cases ran
  | some value =>
      rw [run] at ran
      cases ran
      exact yields.run run

theorem decodePkt0_placed : (decodePkt0 env ps ibAddr ibVmid).Yields fun calls =>
    ∀ call ∈ calls, PacketCall true call := by
  refine @Fetching.Yields.mapM _ _ _ (PacketCall true) _ (fun n => ?_) _
  exact Fetching.yields_word fun value => rfl

theorem loadXReg_placed (opcode nWords : UInt32) :
    (loadXReg env ibAddr ibVmid opcode nWords).Yields fun calls =>
      ∀ call ∈ calls, PacketCall true call := by
  refine Fetching.yields_word fun low => Fetching.yields_word fun high => ?_
  refine @Fetching.Yields.bind _ _ _ (fun loads => ∀ load ∈ loads, ∀ call ∈ load,
    PacketCall true call) _ _ _
    (Fetching.Yields.mapM (fun turn => Fetching.yields_word fun k => Fetching.yields_word fun m => ?_) _)
    fun loads placed => ?_
  · exact List.forall_mem_cons.mpr ⟨rfl, List.forall_mem_singleton.mpr rfl⟩
  · refine List.forall_mem_append.mpr ⟨List.forall_mem_cons.mpr ⟨rfl,
      List.forall_mem_singleton.mpr rfl⟩, fun call member => ?_⟩
    obtain ⟨load, isLoad, inLoad⟩ := List.mem_flatten.mp member
    exact placed load isLoad call inLoad

theorem mapQueue_placed (layout : MapQueues) (select : UInt32) (turn : Nat) :
    (mapQueue env ibAddr ibVmid layout select turn).Yields fun calls =>
      ∀ call ∈ calls, PacketCall true call := by
  refine Fetching.yields_word fun mqdLo => Fetching.yields_word fun mqdHi => ?_
  refine Fetching.yields_word fun wptrLo => Fetching.yields_word fun wptrHi => ?_
  refine List.forall_mem_append.mpr ⟨?_, ?_⟩
  · exact List.forall_mem_cons.mpr ⟨rfl, List.forall_mem_cons.mpr ⟨rfl,
      List.forall_mem_cons.mpr ⟨rfl, List.forall_mem_singleton.mpr rfl⟩⟩⟩
  · split
    · exact List.forall_mem_singleton.mpr trivial
    · exact fun call member => absurd member List.not_mem_nil

theorem bitsFields_placed (ibAddr : UInt64) (ibVmid value : UInt32) (shown : List BitsField) :
    ∀ call ∈ shown.map (BitsField.call ibAddr ibVmid value), PacketCall true call :=
  List.forall_mem_map.mpr fun _ _ => rfl

theorem mapQueues_placed (layout : MapQueues) (nWords : UInt32) :
    (mapQueues env ibAddr ibVmid layout nWords).Yields fun calls =>
      ∀ call ∈ calls, PacketCall true call := by
  refine Fetching.yields_word fun select => Fetching.yields_word fun doorbell => ?_
  refine @Fetching.Yields.bind _ _ _ (fun queues => ∀ queue ∈ queues, ∀ call ∈ queue,
    PacketCall true call) _ _ _ (Fetching.Yields.mapM (mapQueue_placed layout select) _)
    fun queues placed => ?_
  refine List.forall_mem_append.mpr ⟨List.forall_mem_append.mpr
    ⟨bitsFields_placed _ _ _ _, bitsFields_placed _ _ _ _⟩, fun call member => ?_⟩
  obtain ⟨queue, isQueue, inQueue⟩ := List.mem_flatten.mp member
  exact placed queue isQueue call inQueue

theorem nopFields_placed (nWords : UInt32) :
    (nopFields ibAddr ibVmid nWords).Yields fun result =>
      ∀ call ∈ result.1, PacketCall true call := by
  rw [nopFields]
  split
  · exact fun call member => absurd member List.not_mem_nil
  · refine Fetching.yields_word fun magic => ?_
    split
    · refine Fetching.yields_word fun pktlen => Fetching.yields_word fun pkttype => ?_
      exact List.forall_mem_cons.mpr ⟨rfl, List.forall_mem_singleton.mpr rfl⟩
    · split
      · refine Fetching.Yields.bind (@Fetching.Yields.mapM _ _ _ (PacketCall true) _ (fun n => ?_) _)
          fun fields placed => placed
        exact Fetching.yields_word fun value => rfl
      · exact fun call member => absurd member List.not_mem_nil

theorem decodeNop_placed {result : List Call × Bool} (ran : decodeNop ps ibAddr ibVmid = .ok result) :
    ∀ call ∈ result.1, PacketCall true call := by
  rw [decodeNop] at ran
  cases run : (nopFields ibAddr ibVmid ps.nWords).run ps.nWords.toNat ps.words 0 ps.invalid with
  | none =>
      rw [run] at ran
      cases ran
  | some value =>
      obtain ⟨⟨fields, comment⟩, invalid⟩ := value
      have placed : ∀ call ∈ fields, PacketCall true call := (nopFields_placed ps.nWords).run run
      rw [run] at ran
      dsimp only [orOutside, bind, Except.bind] at ran
      cases comment with
      | none =>
          cases ran
          exact placed
      | some pktlen =>
          dsimp only at ran
          split at ran
          · cases ran
          · cases ran
            exact List.forall_mem_append.mpr ⟨placed, List.forall_mem_singleton.mpr rfl⟩

theorem packetFields_placed (plain : PlainFields env) {result : List Call × Bool}
    (ran : packetFields env ps ibAddr ibVmid = .ok result) :
    (∀ call ∈ result.1, PacketCall true call) ∧
      (ps.pkttype ≠ 0 → ps.pkttype ≠ 3 → result.1 = []) := by
  rw [packetFields] at ran
  by_cases three : ps.pkttype = 3
  · refine ⟨?_, fun _ not_ => absurd three not_⟩
    rw [if_pos three, decodePkt3] at ran
    split at ran
    · split at ran
      · exact decodeNop_placed ran
      · split at ran
        · exact fetched_placed (loadXReg_placed _ _) ran
        · split at ran
          · exact fetched_placed (mapQueues_placed _ _) ran
          · split at ran
            · next prog isProg => exact fetched_placed (plain _ _ _ _ prog isProg) ran
            · cases ran
              split
              · exact List.forall_mem_singleton.mpr trivial
              · exact fun call member => absurd member List.not_mem_nil
    · cases ran
      exact fun call member => absurd member List.not_mem_nil
  · rw [if_neg three] at ran
    split at ran
    · next zero => exact ⟨fetched_placed decodePkt0_placed ran, fun not_ => absurd zero not_⟩
    · cases ran
      exact ⟨fun call member => absurd member List.not_mem_nil, fun _ _ => rfl⟩

def shaderBehind (ps : Pm4Packet) (ibAddr : UInt64) (ibVmid : UInt32) (rest : Body Pm4Packet) :
    Body Pm4Packet :=
  match ps.shader with
  | none => rest
  | some pgm => .shader ibAddr ibVmid pgm rest

theorem calls_shaderBehind (rest : Body Pm4Packet) :
    (shaderBehind ps ibAddr ibVmid rest).calls =
      (ps.shader.map (UiCall.addShader ibAddr ibVmid)).toList ++ rest.calls := by
  rw [shaderBehind]
  cases ps.shader <;> rfl

theorem anywhere_shaderBehind {rest : Body Pm4Packet} (anywhere : Anywhere rest) :
    Anywhere (shaderBehind ps ibAddr ibVmid rest) := by
  rw [shaderBehind]
  cases ps.shader <;> exact anywhere

theorem packet_body {dword start fields : List Call} {rest : Body Pm4Packet} (anywhere : Anywhere rest)
    (inDword : ∀ call ∈ dword, PacketCall false call)
    (inPacket : ∀ call ∈ fields, PacketCall true call)
    (started : (∃ call, start = [call] ∧ opensPacket call = true) ∨ start = [] ∧ fields = []) :
    ∃ body : Body Pm4Packet, body.calls = dword ++ start ++ fields ++ rest.calls ∧ Anywhere body := by
  refine ⟨rest.behind (dword ++ start ++ fields), calls_behind _ _, ?_⟩
  rcases started with ⟨call, rfl, opens⟩ | ⟨rfl, rfl⟩
  · rw [List.append_assoc]
    exact anywhere_started anywhere inDword opens inPacket
  · rw [List.append_nil, List.append_nil]
    exact fun opened => inPackets_behind anywhere fun call member =>
      (inDword call member).closed opened

/-- The calls for a packet are in their place in front of what stands anywhere. -/
theorem showPacket_body (plain : PlainFields env) {before : Option String} {calls : List Call}
    {ended : TurnEnd} (ran : showPacket env ps ibAddr ibVmid before = .ok (calls, ended))
    {rest : Body Pm4Packet} (anywhere : Anywhere rest) :
    ∃ body : Body Pm4Packet, body.calls = calls ++ rest.calls ∧ Anywhere body := by
  rw [showPacket] at ran
  obtain ⟨dword, isDword⟩ : ∃ dword : List Call, dword =
    if ps.pkttype = 0xFF ∧ env.unhandledDword = true then [.unhandledDword ibAddr ibVmid ps.header]
    else [] := ⟨_, rfl⟩
  have inDword : ∀ call ∈ dword, PacketCall false call := by
    rw [isDword]
    split
    · exact List.forall_mem_singleton.mpr trivial
    · exact fun call member => absurd member List.not_mem_nil
  rw [← isDword] at ran
  cases named : (opcodeName env ps).or before with
  | none =>
      rw [named] at ran
      cases ran
  | some name =>
      rw [named] at ran
      dsimp only at ran
      split at ran
      · cases ran
        refine ⟨rest.behind _, calls_behind _ _, fun opened => inPackets_behind anywhere ?_⟩
        refine List.forall_mem_append.mpr ⟨fun call member => (inDword call member).closed opened, ?_⟩
        split
        · exact List.forall_mem_singleton.mpr trivial
        · exact fun call member => absurd member List.not_mem_nil
      · cases fields : packetFields env ps ibAddr ibVmid with
        | error stop =>
            rw [fields] at ran
            cases ran
        | ok result =>
            obtain ⟨placed, nothing⟩ := packetFields_placed plain fields
            obtain ⟨shown, invalid⟩ := result
            rw [fields] at ran
            have started : ∀ start : List Call, start = (if ps.pkttype = 0 ∨ ps.pkttype = 3 then
                [.startOpcode ibAddr ibVmid ps.pkttype ps.opcode 0 ps.nWords name ps.header ps.words]
                else []) → (∃ call, start = [call] ∧ opensPacket call = true) ∨ start = [] ∧ shown = [] := by
              rintro start rfl
              by_cases typed : ps.pkttype = 0 ∨ ps.pkttype = 3
              · rw [if_pos typed]
                exact Or.inl ⟨_, rfl, rfl⟩
              · rw [if_neg typed]
                obtain ⟨zero, three⟩ := not_or.mp typed
                exact Or.inr ⟨rfl, nothing zero three⟩
            cases invalid with
            | true =>
                cases ran
                exact packet_body anywhere inDword placed (started _ rfl)
            | false =>
                cases ran
                obtain ⟨body, isCalls, isAnywhere⟩ := packet_body
                  (@anywhere_shaderBehind ps ibAddr ibVmid rest anywhere) inDword placed (started _ rfl)
                refine ⟨body, ?_, isAnywhere⟩
                rw [isCalls, calls_shaderBehind, ← List.append_assoc]

end Packet

theorem opcodeRun_body {env : OpcodeEnv} (plain : PlainFields env) {follow : Bool}
    {stream : Pm4Stream} : ∀ {ncodes : Nat} {ibAddr : UInt64} {ibVmid : UInt32}
      {before : Option String} {turns : List PacketTurn} {left : Pm4Stream},
      opcodeRun env follow stream ncodes ibAddr ibVmid before = (turns, .ok left) →
      ∃ body : Body Pm4Packet, body.calls = turns.flatMap PacketTurn.calls ∧ Anywhere body := by
  induction stream with
  | null =>
      intro ncodes ibAddr ibVmid before turns left ran
      cases ran
      exact ⟨.nil, rfl, fun _ => trivial⟩
  | node ps ib next ihIb ihNext =>
      intro ncodes ibAddr ibVmid before turns left ran
      cases ncodes with
      | zero =>
          cases ran
          exact ⟨.nil, rfl, fun _ => trivial⟩
      | succ ncodes =>
          rw [opcodeRun] at ran
          cases shown : showPacket env ps ibAddr ibVmid before with
          | error stop =>
              rw [shown] at ran
              cases ran
          | ok result =>
              obtain ⟨calls, ended⟩ := result
              rw [shown] at ran
              have alone : ∀ further : List PacketTurn,
                  (∃ body : Body Pm4Packet, body.calls = further.flatMap PacketTurn.calls ∧
                    Anywhere body) → ∃ body : Body Pm4Packet, body.calls =
                      ((⟨ibAddr, ps, .ok calls, []⟩ :: further : List PacketTurn).flatMap
                        PacketTurn.calls) ∧ Anywhere body := by
                rintro further ⟨rest, isRest, anywhere⟩
                obtain ⟨body, isBody, inPlace⟩ := showPacket_body plain shown anywhere
                refine ⟨body, ?_, inPlace⟩
                rw [isBody, isRest, List.flatMap_cons, PacketTurn.calls, List.append_nil]
              cases ended with
              | left =>
                  cases ran
                  exact alone [] ⟨.nil, rfl, fun _ => trivial⟩
              | unknown =>
                  obtain ⟨rfl, isLeft⟩ := Prod.mk.inj ran
                  exact alone _ (ihNext (Prod.ext rfl isLeft))
              | shown =>
                  dsimp only at ran
                  split at ran
                  · split at ran
                    · cases ran
                    · next innerLeft nested =>
                        obtain ⟨rfl, isLeft⟩ := Prod.mk.inj ran
                        obtain ⟨inner, isInner, innerPlace⟩ := ihIb (Prod.ext rfl nested)
                        obtain ⟨rest, isRest, anywhere⟩ := ihNext (Prod.ext rfl isLeft)
                        obtain ⟨body, isBody, inPlace⟩ := @showPacket_body env ps ibAddr ibVmid plain
                          before calls .shown shown (.ib ps.ibAddr ps.ibVmid ibAddr ibVmid
                            (countWords (ib.nodes.take (countedOpcodes maxOpcodes))) 4 inner rest)
                          fun opened => ⟨innerPlace false, anywhere opened⟩
                        refine ⟨body, ?_, inPlace⟩
                        rw [isBody, Body.calls, isInner, isRest, List.flatMap_cons, PacketTurn.calls,
                          inStartIb]
                        simp
                  · obtain ⟨rfl, isLeft⟩ := Prod.mk.inj ran
                    exact alone _ (ihNext (Prod.ext rfl isLeft))

/-- What is printed of a PM4 stream: the text of the IB, in which nothing that is nested leaves a
trace, and behind it the texts of the IBs, the shaders and the data blocks in it, each IB in front of
what is nested in it.  It is printed exactly where at most 32 levels are open at once, every shader is
read and the engine of every data block has a name. -/
theorem umrRingStreamPresent_pm4 {env : OpcodeEnv} (plain : PlainFields env) (ui : UiEnv)
    {follow : Bool} {stream : Pm4Stream} {ibAddr : UInt64} {ibVmid : UInt32}
    {fromAddr fromVmid opcodes : UInt64} {calls : List Call} {left : Pm4Stream}
    (ran : Pm4.umrPm4DecodeStreamOpcodes env follow stream ibAddr ibVmid fromAddr fromVmid opcodes =
      .ok (calls, left)) :
    ∃ (size : UInt32) (inner : Body Pm4Packet),
      calls = .startIb ibAddr ibVmid fromAddr fromVmid.toUInt32 size 4 :: (inner.calls ++ [.done]) ∧
      umrRingStreamPresent ui calls =
        if 1 + inner.levels ui ≤ 32 ∧ inner.Printable ui then
          some (ibText ui ibAddr ibVmid fromAddr fromVmid.toUInt32 size 4 inner ++
            (inner.nested ui ibAddr).flatten)
        else none := by
  rw [Pm4.umrPm4DecodeStreamOpcodes] at ran
  obtain ⟨turns, ended⟩ : ∃ turns, turns = opcodeRun env follow stream (countedOpcodes opcodes)
    ibAddr ibVmid none := ⟨_, rfl⟩
  rw [← ended] at ran
  cases stopped : turns.2 with
  | error stop =>
      rw [stopped] at ran
      cases ran
  | ok rest =>
      obtain ⟨inner, isInner, anywhere⟩ := opcodeRun_body plain
        (ended.symm.trans (Prod.ext rfl stopped : turns = (turns.1, .ok rest)))
      rw [stopped] at ran
      cases ran
      refine ⟨countWords (stream.nodes.take (countedOpcodes opcodes)), inner, ?_, ?_⟩
      · rw [isInner]
        rfl
      · rw [inStartIb, ← isInner]
        exact present_ib ibAddr ibVmid fromAddr fromVmid.toUInt32 _ 4 (anywhere false)

def nestedStream : Pm4Stream :=
  .node { pm4Header (· = 3) 0xC0001000 with words := [7], ibAddr := 0x8000, ibVmid := 1 }
    (.node { pm4Header (· = 3) 0xC0001000 with words := [8] } .null .null)
    (.node { pm4Header (· = 3) 0xC0001000 with words := [9] } .null .null)

def plainUi : UiEnv where
  sdma := false
  noFollowIb := false
  disasm := fun _ => none
  readMqd := fun _ _ => none
  mqdDecode := fun _ _ => none
  behind := fun _ => 0

def nestedCalls : List Call :=
  let nop (ibAddr : UInt64) (ibVmid word : UInt32) : Call :=
    .startOpcode ibAddr ibVmid 3 0x10 0 1 "PKT3_NOP" 0xC0001000 [word]
  [.startIb 0x100 0 0 0 4 4, nop 0x100 0 7, .startIb 0x8000 1 0x100 0 2 4, nop 0x8000 1 8, .done,
    nop 0x108 0 9, .done]

/-- The packet behind the IB is printed in front of it. -/
example : umrRingStreamPresent plainUi nestedCalls =
    some [.decodingIb 0 0x100 0 0 4 4, .opcode 0 0x100 0 0xC0001000 0x10 none "PKT3_NOP" 1 3,
      .opcode 0 0x100 8 0xC0001000 0x10 none "PKT3_NOP" 1 3, .doneIb,
      .decodingIb 1 0x8000 0 0x100 2 4, .opcode 1 0x8000 0 0xC0001000 0x10 none "PKT3_NOP" 1 3,
      .doneIb] := by
  decide

/-- An engine select of 4 is that of a graphics queue; one of 6 has no name. -/
example :
    let block (etype : UInt64) : List Call :=
      [.startIb 0x100 0 0 0 7 4, .addData 0x10C 0 0x9000 2 .mqdNv etype, .done]
    umrRingStreamPresent plainUi (block 4) =
        some [.decodingIb 0 0x100 0 0 7 4, .doneIb, .data 0 0x100 0xC 2 0x9000 .mqdNv,
          .subType 4 "gfx", .doneData] ∧
      umrRingStreamPresent plainUi (block 6) = none := by
  decide

theorem umrRingStreamPresent_pm4_nested :
    ∃ (size : UInt32) (inner : Body Pm4Packet),
      nestedCalls = .startIb 0x100 0 0 0 size 4 :: (inner.calls ++ [.done]) ∧
      umrRingStreamPresent plainUi nestedCalls =
        if 1 + inner.levels plainUi ≤ 32 ∧ inner.Printable plainUi then
          some (ibText plainUi 0x100 0 0 0 size 4 inner ++ (inner.nested plainUi 0x100).flatten)
        else none := by
  have plain : PlainFields sampleOpcodes := fun _ _ _ _ _ impossible => by cases impossible
  have ran : Pm4.umrPm4DecodeStreamOpcodes sampleOpcodes true nestedStream 0x100 0 0 0 maxOpcodes =
      .ok (nestedCalls, .null) := by decide
  exact umrRingStreamPresent_pm4 plain plainUi ran

end Umr.App
