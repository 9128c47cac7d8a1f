import Umr.Lib.Run
import Umr.Vm.Report

/-!
# Requests of the GUI server that read GPU-mapped memory

`vm-read` and `vm-decode` install callbacks of their own for one access: `my_va_decode` collects
the levels of the walk in `page_table`, and `vm_message` is set to `dummy_printf` and to NULL
afterwards.  The callbacks belong to the ASIC, so the accesses of later requests run under what an
earlier one left there.
-/

set_option autoImplicit false

namespace Umr.Gui

open Umr.Lib Umr.Vm

inductive VmMessage where
  | dummyPrintf
  deriving DecidableEq, Repr

inductive VaAddrDecode where
  | myVaDecode
  deriving DecidableEq, Repr

structure Callbacks where
  vmMessage : Option VmMessage
  vaAddrDecode : Option VaAddrDecode
  verbose : Int
  deriving DecidableEq, Repr

/-- The ASICs by index, and the number of entries in use of the 64 of `page_table`, which all
ASICs share. -/
structure Server where
  asics : Nat → Callbacks
  numPageTableEntries : Nat

def Server.setAsic (server : Server) (gpu : Nat) (callbacks : Callbacks) : Server :=
  { server with asics := Function.update server.asics gpu callbacks }

def freshCallbacks : Callbacks := ⟨some .dummyPrintf, none, 0⟩

def initAsics : Server := ⟨fun _ => freshCallbacks, 0⟩

/-- One entry for each PDE and one for the PTE. -/
def Server.myVaDecode (server : Server) (numPde : Nat) : Server :=
  { server with numPageTableEntries := server.numPageTableEntries + (numPde + 1) }

/-! ## Requests -/

inductive Step where
  | quiet (gpu : Nat)
  | install (gpu : Nat)
  | access (gpu : Nat) (call : AccessCall)
  | release (gpu : Nat) (failed : Bool)

/-- `none` stands for a call through a `vm_message` of NULL. -/
def Server.step : Step → Server → Option Server
  | .quiet gpu, server => some (server.setAsic gpu { server.asics gpu with verbose := 0 })
  | .install gpu, server =>
      some { server.setAsic gpu ⟨some .dummyPrintf, some .myVaDecode, 1⟩ with
        numPageTableEntries := 0 }
  | .access gpu call, server =>
      if call.reports (server.asics gpu).verbose = true ∧ (server.asics gpu).vmMessage = none then
        none
      else
        match (server.asics gpu).vaAddrDecode, call.decoded with
        | some .myVaDecode, some pdeCnt => some (server.myVaDecode pdeCnt)
        | _, _ => some server
  | .release gpu failed, server =>
      some { server.setAsic gpu { server.asics gpu with vmMessage := none, verbose := 0 } with
        numPageTableEntries := if failed then 0 else server.numPageTableEntries }

def Server.run : List Step → Server → Option Server
  | [], server => some server
  | step :: steps, server => (Server.step step server).bind (Server.run steps)

structure Device where
  asic : Asic
  partition : Int
  fuel : Nat
  state : State

def umrReadVram (device : Device) (vmid address size : Nat) (dst : Option Nat) : AccessCall :=
  ⟨device.asic, device.partition, vmid, address, size, dst, false, device.fuel, device.state⟩

/-- `if (size % 8) size += 8 - size % 8`, in 32 bits. -/
def wholeQuads (size : Nat) : Nat :=
  if size % 8 ≠ 0 then (size + (8 - size % 8)) % 2 ^ 32 else size

/-- The requests that access GPU-mapped memory.  Which accesses a ring or the waves lead to depends
on what they hold, so they come with the request. -/
inductive Request where
  | vmRead (gpu : Nat) (device : Device) (vmid : Option Nat) (address size : Nat)
  | vmDecode (gpu : Nat) (device : Device) (vmid : Option Nat) (address : Nat)
  | waves (gpu : Nat) (accesses : List AccessCall)
  | singlestep (gpu : Nat) (accesses : List AccessCall)
  | ring (gpu : Nat) (accesses : List AccessCall)

namespace Request

def gpu : Request → Nat
  | vmRead gpu _ _ _ _ => gpu
  | vmDecode gpu _ _ _ => gpu
  | waves gpu _ => gpu
  | singlestep gpu _ => gpu
  | ring gpu _ => gpu

def isVm : Request → Bool
  | vmRead _ _ _ _ _ => true
  | vmDecode _ _ _ _ => true
  | waves _ _ => false
  | singlestep _ _ => false
  | ring _ _ => false

def calls : Request → List AccessCall
  | vmRead _ device vmid address size =>
      [umrReadVram device (vmid.getD 0xFF00) address (wholeQuads size) (some 0)]
  | vmDecode _ device vmid address => [umrReadVram device (vmid.getD 0xFF00) address 4 none]
  | waves _ accesses => accesses
  | singlestep _ accesses => accesses
  | ring _ accesses => accesses

def accesses (request : Request) : List Step := request.calls.map (.access request.gpu)

/-- A failed `vm-read` empties `page_table`; a `vm-decode` has no buffer and does not. -/
def steps (request : Request) : List Step :=
  match request with
  | vmRead gpu _ _ _ _ =>
      .install gpu :: (request.accesses ++
        [.release gpu (request.calls.any fun call => decide (call.status ≠ .ok))])
  | vmDecode gpu _ _ _ => .install gpu :: (request.accesses ++ [.release gpu false])
  | waves gpu _ => .quiet gpu :: request.accesses
  | singlestep gpu _ => .quiet gpu :: request.accesses
  | ring _ _ => request.accesses

end Request

/-- The requests a server has taken so far.  It makes its accesses one after the other, so only the
last one may be an access that never returns. -/
structure History where
  requests : List Request
  returned : ∀ call ∈ (requests.flatMap Request.calls).dropLast, call.status ≠ .running

def History.steps (history : History) : List Step := history.requests.flatMap Request.steps

/-! ## What is left behind -/

/-- The ASICs that served a `vm-read` or `vm-decode`, and the entries that walks handed over since
the last of these. -/
structure Ledger where
  gpus : List Nat
  entries : Nat

def handedOver (call : AccessCall) : Nat :=
  match call.decoded with
  | none => 0
  | some pdeCnt => pdeCnt + 1

def Request.handedOver (request : Request) : Nat := (request.calls.map Gui.handedOver).sum

def Ledger.record (ledger : Ledger) (request : Request) : Ledger :=
  if request.isVm then ⟨request.gpu :: ledger.gpus, request.handedOver⟩
  else if request.gpu ∈ ledger.gpus then
    { ledger with entries := ledger.entries + request.handedOver }
  else ledger

/-- After a `vm-read` or `vm-decode` no other access to that ASIC uses `vm_message`, and the
entries fit. -/
def Ledger.Admits (ledger : Ledger) (request : Request) : Prop :=
  (request.isVm = false → request.gpu ∈ ledger.gpus →
      ∀ call ∈ request.calls, call.reports 0 = false) ∧
    (ledger.record request).entries ≤ 64

def releasedCallbacks : Callbacks := ⟨none, some .myVaDecode, 0⟩

def Ledger.server (ledger : Ledger) : Server :=
  { asics := fun gpu => if gpu ∈ ledger.gpus then releasedCallbacks else freshCallbacks
    numPageTableEntries := ledger.entries }

def Fits (server : Server) : Prop := server.numPageTableEntries ≤ 64

/-! ## Runs of accesses -/

theorem run_append (steps more : List Step) (server : Server) :
    server.run (steps ++ more) = (server.run steps).bind (Server.run more) := by
  induction steps generalizing server with
  | nil => rfl
  | cons step steps ih =>
      rw [List.cons_append, Server.run, Server.run]
      cases Server.step step server with
      | none => rfl
      | some next => exact ih next

section Accesses
variable {gpu : Nat} {server : Server}

theorem step_access_fresh (fresh : server.asics gpu = freshCallbacks) (call : AccessCall) :
    Server.step (.access gpu call) server = some server := by
  simp [Server.step, fresh, freshCallbacks]

theorem step_access_released (released : server.asics gpu = releasedCallbacks) (call : AccessCall) :
    Server.step (.access gpu call) server =
      if call.reports 0 = true then none
      else some { server with
        numPageTableEntries := server.numPageTableEntries + handedOver call } := by
  simp only [Server.step, released, releasedCallbacks, and_true, handedOver]
  cases call.decoded <;> rfl

theorem run_accesses_fresh (fresh : server.asics gpu = freshCallbacks) (calls : List AccessCall) :
    server.run (calls.map (.access gpu)) = some server := by
  induction calls with
  | nil => rfl
  | cons call calls ih => rw [List.map_cons, Server.run, step_access_fresh fresh, Option.bind_some, ih]

theorem safe_accesses_fresh (fresh : server.asics gpu = freshCallbacks) (fits : Fits server)
    (calls : List AccessCall) (rest : List Step) :
    Safe Server.step Fits (calls.map (.access gpu) ++ rest) server ↔
      Safe Server.step Fits rest server := by
  induction calls with
  | nil => rfl
  | cons call calls ih =>
      rw [List.map_cons, List.cons_append, Safe, step_access_fresh fresh]
      simp only [Option.some.injEq, exists_eq_left', ih, and_iff_right fits]

theorem safe_accesses_released (released : server.asics gpu = releasedCallbacks)
    (fits : Fits server) (calls : List AccessCall) (rest : List Step) :
    Safe Server.step Fits (calls.map (.access gpu) ++ rest) server ↔
      ((∀ call ∈ calls, call.reports 0 = false) ∧
        server.numPageTableEntries + (calls.map handedOver).sum ≤ 64) ∧
      Safe Server.step Fits rest { server with numPageTableEntries :=
        server.numPageTableEntries + (calls.map handedOver).sum } := by
  induction calls generalizing server with
  | nil =>
      have room : server.numPageTableEntries ≤ 64 := fits
      simp [room]
  | cons call calls ih =>
      rw [List.map_cons, List.cons_append, Safe, step_access_released released, List.map_cons,
        List.sum_cons, List.forall_mem_cons, ← Nat.add_assoc]
      cases reports : call.reports 0 with
      | true => simp
      | false =>
          simp only [Bool.false_eq_true, if_false, Option.some.injEq, exists_eq_left',
            true_and, and_iff_right fits]
          have later : Server.asics { server with numPageTableEntries :=
              server.numPageTableEntries + handedOver call } gpu = releasedCallbacks := released
          constructor
          · intro safe
            exact (ih later safe.initial).mp safe
          · rintro ⟨⟨silent, room⟩, safe⟩
            refine (ih later ?_).mpr ⟨⟨silent, room⟩, safe⟩
            exact Nat.le_trans (Nat.le_add_right _ _) room

end Accesses

/-! ## Runs of requests -/

theorem server_fresh {ledger : Ledger} {gpu : Nat} (untouched : gpu ∉ ledger.gpus) :
    ledger.server.asics gpu = freshCallbacks := if_neg untouched

theorem server_released {ledger : Ledger} {gpu : Nat} (served : gpu ∈ ledger.gpus) :
    ledger.server.asics gpu = releasedCallbacks := if_pos served

/-- Outside of `vm-read` and `vm-decode` nothing is verbose. -/
theorem step_quiet (ledger : Ledger) (gpu : Nat) :
    Server.step (.quiet gpu) ledger.server = some ledger.server := by
  have same : { ledger.server.asics gpu with verbose := 0 } = ledger.server.asics gpu := by
    by_cases served : gpu ∈ ledger.gpus
    · rw [server_released served]
      rfl
    · rw [server_fresh served]
      rfl
  unfold Server.step Server.setAsic
  simp only [same, Function.update_eq_self]

def vmSteps (gpu : Nat) (call : AccessCall) (failed : Bool) : List Step :=
  [.install gpu, .access gpu call, .release gpu failed]

theorem vm_steps {request : Request} (vm : request.isVm = true) :
    ∃ call failed, request.calls = [call] ∧ request.steps = vmSteps request.gpu call failed ∧
      (failed = true → call.decoded = none) := by
  cases request with
  | vmRead gpu device vmid address size =>
      refine ⟨_, _, rfl, rfl, ?_⟩
      intro failed
      have notOk : ¬ (umrReadVram device (vmid.getD 0xFF00) address (wholeQuads size)
          (some 0)).status = .ok := by
        simpa [Request.calls] using failed
      unfold AccessCall.decoded
      split
      · rfl
      · rfl
      · exact if_neg notOk
  | vmDecode gpu device vmid address => exact ⟨_, _, rfl, rfl, nofun⟩
  | waves gpu accesses => cases vm
  | singlestep gpu accesses => cases vm
  | ring gpu accesses => cases vm

/-- The callbacks of the request find a walk of any outcome; they are not what was there before. -/
theorem vm_servers (server : Server) (gpu : Nat) (call : AccessCall) {failed : Bool}
    (empty : failed = true → call.decoded = none) :
    ∃ opened walked, Server.step (.install gpu) server = some opened ∧
      opened.numPageTableEntries = 0 ∧
      Server.step (.access gpu call) opened = some walked ∧
      walked.numPageTableEntries = handedOver call ∧
      Server.step (.release gpu failed) walked =
        some ⟨Function.update server.asics gpu releasedCallbacks, handedOver call⟩ := by
  have opens : (Function.update server.asics gpu ⟨some .dummyPrintf, some .myVaDecode, 1⟩) gpu =
      (⟨some .dummyPrintf, some .myVaDecode, 1⟩ : Callbacks) := Function.update_self _ _ _
  refine ⟨_, ⟨Function.update server.asics gpu ⟨some .dummyPrintf, some .myVaDecode, 1⟩,
    handedOver call⟩, rfl, rfl, ?_, rfl, ?_⟩
  · simp only [Server.step, Server.setAsic, opens, reduceCtorEq, and_false, if_false, handedOver,
      Server.myVaDecode]
    cases call.decoded with
    | none => rfl
    | some pdeCnt => simp
  · have kept : (if failed = true then 0 else handedOver call) = handedOver call := by
      cases failed with
      | false => rfl
      | true => simp [handedOver, empty rfl]
    simp only [Server.step, Server.setAsic, opens, kept, Function.update_idem]
    rfl

theorem record_vm {request : Request} (vm : request.isVm = true) {call : AccessCall}
    (calls : request.calls = [call]) (ledger : Ledger) :
    (ledger.record request).server =
      ⟨Function.update ledger.server.asics request.gpu releasedCallbacks, handedOver call⟩ := by
  have handed : request.handedOver = handedOver call := by simp [Request.handedOver, calls]
  unfold Ledger.record
  rw [if_pos vm, handed]
  unfold Ledger.server
  congr 1
  funext gpu
  by_cases same : gpu = request.gpu
  · subst same
    simp
  · simp [same]

theorem other_steps {request : Request} (other : request.isVm = false) :
    request.steps = request.accesses ∨ request.steps = .quiet request.gpu :: request.accesses := by
  cases request with
  | vmRead gpu device vmid address size => cases other
  | vmDecode gpu device vmid address => cases other
  | waves gpu accesses => exact .inr rfl
  | singlestep gpu accesses => exact .inr rfl
  | ring gpu accesses => exact .inl rfl

theorem record_other {request : Request} (other : request.isVm = false) (ledger : Ledger) :
    ledger.record request =
      if request.gpu ∈ ledger.gpus then
        { ledger with entries := ledger.entries + request.handedOver }
      else ledger := by
  unfold Ledger.record
  rw [if_neg (by simp [other])]

theorem safe_vm {request : Request} (vm : request.isVm = true) {ledger : Ledger}
    (room : ledger.entries ≤ 64) (rest : List Step) :
    Safe Server.step Fits (request.steps ++ rest) ledger.server ↔
      ledger.Admits request ∧ Safe Server.step Fits rest (ledger.record request).server := by
  obtain ⟨call, failed, calls, steps, empty⟩ := vm_steps vm
  obtain ⟨opened, walked, installs, none, accesses, count, releases⟩ :=
    vm_servers ledger.server request.gpu call empty
  have record := record_vm vm calls ledger
  have admits : ledger.Admits request ↔ handedOver call ≤ 64 := by
    have entries : (ledger.record request).entries = handedOver call :=
      congrArg Server.numPageTableEntries record
    simp [Ledger.Admits, vm, entries]
  have before : Fits ledger.server := room
  have empty : Fits opened := by simp [Fits, none]
  have fits : Fits walked ↔ handedOver call ≤ 64 := by rw [Fits, count]
  rw [steps, vmSteps, List.cons_append, Safe, installs, admits, record]
  simp only [List.cons_append, List.nil_append, Safe, accesses, releases, Option.some.injEq,
    exists_eq_left', before, empty, fits, true_and]

theorem safe_other {request : Request} (other : request.isVm = false) {ledger : Ledger}
    (room : ledger.entries ≤ 64) (rest : List Step) :
    Safe Server.step Fits (request.steps ++ rest) ledger.server ↔
      ledger.Admits request ∧ Safe Server.step Fits rest (ledger.record request).server := by
  have fits : Fits ledger.server := room
  have skipQuiet : Safe Server.step Fits (request.steps ++ rest) ledger.server ↔
      Safe Server.step Fits (request.accesses ++ rest) ledger.server := by
    rcases other_steps other with steps | steps
    · rw [steps]
    · rw [steps, List.cons_append, Safe, step_quiet]
      simp only [Option.some.injEq, exists_eq_left', fits, true_and]
  rw [skipQuiet, Ledger.Admits, record_other other]
  by_cases served : request.gpu ∈ ledger.gpus
  · simp only [other, served, forall_const]
    exact safe_accesses_released (server_released served) fits request.calls rest
  · rw [if_neg served]
    simp only [served, false_implies, implies_true, true_and, room]
    exact safe_accesses_fresh (server_fresh served) fits request.calls rest

/-- The run of the server is as safe as the entries of the ledger. -/
theorem safe_iff_admits (requests : List Request) {ledger : Ledger} (room : ledger.entries ≤ 64) :
    Safe Server.step Fits (requests.flatMap Request.steps) ledger.server ↔
      Admitted (fun request ledger => some (Ledger.record ledger request)) Ledger.Admits requests
        ledger := by
  induction requests generalizing ledger with
  | nil => exact ⟨fun _ => trivial, fun _ => room⟩
  | cons request requests ih =>
      have first : Safe Server.step Fits
          (request.steps ++ requests.flatMap Request.steps) ledger.server ↔
            ledger.Admits request ∧ Safe Server.step Fits (requests.flatMap Request.steps)
              (ledger.record request).server := by
        cases kind : request.isVm with
        | true => exact safe_vm kind room _
        | false => exact safe_other kind room _
      rw [List.flatMap_cons, first, Admitted]
      refine and_congr_right fun admits => ?_
      rw [ih admits.2]
      simp only [Option.some.injEq, forall_eq']

/-! ## What `vm-read` and `vm-decode` restore -/

theorem run_untouched {requests : List Request} (others : ∀ request ∈ requests, request.isVm = false) :
    initAsics.run (requests.flatMap Request.steps) = some initAsics := by
  have start : initAsics = Ledger.server ⟨[], 0⟩ := rfl
  induction requests with
  | nil => rfl
  | cons request requests ih =>
      have accesses : initAsics.run request.accesses = some initAsics :=
        run_accesses_fresh rfl request.calls
      have first : initAsics.run request.steps = some initAsics := by
        rcases other_steps (others request List.mem_cons_self) with steps | steps
        · rw [steps, accesses]
        · rw [steps, Server.run, start, step_quiet, Option.bind_some, ← start, accesses]
      rw [List.flatMap_cons, run_append, first, Option.bind_some,
        ih fun other member => others other (List.mem_cons_of_mem _ member)]

/-- Every answered `vm-read` and `vm-decode` leaves the callbacks and `verbose` of all ASICs as
they were before. -/
def Restored (history : History) : Prop :=
  ∀ before request after, history.requests = before ++ request :: after → request.isVm = true →
    (∀ call ∈ request.calls, call.status ≠ .running) →
      ∀ server next, initAsics.run (before.flatMap Request.steps) = some server →
        server.run request.steps = some next → next.asics = server.asics

theorem first_vm_changes {request : Request} (vm : request.isVm = true) :
    ∃ next, initAsics.run request.steps = some next ∧ next.asics ≠ initAsics.asics := by
  obtain ⟨call, failed, calls, steps, empty⟩ := vm_steps vm
  obtain ⟨opened, walked, installs, none, accesses, count, releases⟩ :=
    vm_servers initAsics request.gpu call empty
  refine ⟨_, by rw [steps, vmSteps, Server.run, installs, Option.bind_some, Server.run, accesses,
    Option.bind_some, Server.run, releases, Option.bind_some, Server.run], ?_⟩
  intro same
  have found := congrFun same request.gpu
  simp only [Function.update_self] at found
  cases found

theorem restored_iff (history : History) :
    Restored history ↔ ∀ request ∈ history.requests, request.isVm = true →
      ∃ call ∈ request.calls, call.status = .running := by
  constructor
  · intro restored request member vm
    obtain ⟨first, found⟩ := Option.isSome_iff_exists.mp
      (List.find?_isSome.mpr ⟨request, member, vm⟩)
    obtain ⟨firstVm, before, after, split, others⟩ := List.find?_eq_some_iff_append.mp found
    have noVm : ∀ other ∈ before, other.isVm = false := fun other earlier => by
      simpa using others other earlier
    have hangs : ∃ call ∈ first.calls, call.status = .running := by
      by_contra returns
      simp only [not_exists, not_and] at returns
      obtain ⟨next, taken, changed⟩ := first_vm_changes firstVm
      exact changed (restored before first after split firstVm returns initAsics next
        (run_untouched noVm) taken)
    rw [split] at member
    rcases List.mem_append.mp member with earlier | later
    · cases (noVm request earlier).symm.trans vm
    · rcases List.mem_cons.mp later with rfl | later
      · exact hangs
      · -- an access that does not return is the last one
        obtain ⟨call, ofFirst, running⟩ := hangs
        obtain ⟨last, failed, lastCalls, -, -⟩ := vm_steps vm
        have more : after.flatMap Request.calls ≠ [] := by
          have ofLast : last ∈ request.calls := by simp [lastCalls]
          exact List.ne_nil_of_mem (List.mem_flatMap.mpr ⟨request, later, ofLast⟩)
        refine absurd running (history.returned call ?_)
        rw [split, List.flatMap_append, List.flatMap_cons, List.dropLast_append_of_ne_nil (by simp [more]),
          List.dropLast_append_of_ne_nil more]
        exact List.mem_append_right _ (List.mem_append_left _ ofFirst)
  · intro hang before request after split vm returns
    obtain ⟨call, ofRequest, running⟩ := hang request (by simp [split]) vm
    exact absurd running (returns call ofRequest)

/-- The callbacks are restored only while no `vm-read` or `vm-decode` is answered.  The server
stays safe as long as the accesses that follow one do not report and their levels fit. -/
theorem vm_requests_kept_iff (history : History) :
    (Restored history ↔ ∀ request ∈ history.requests, request.isVm = true →
        ∃ call ∈ request.calls, call.status = .running) ∧
      (Safe Server.step Fits history.steps initAsics ↔
        Admitted (fun request ledger => some (Ledger.record ledger request)) Ledger.Admits
          history.requests ⟨[], 0⟩) := by
  have room : Ledger.entries ⟨[], 0⟩ ≤ 64 := Nat.zero_le 64
  exact ⟨restored_iff history, safe_iff_admits history.requests room⟩

/-! ## A read, and a ring after it -/

def pageDevice : Device :=
  { asic := sampleAsic 1 0 0x3FFFF
    partition := 0
    fuel := 1
    state := ⟨sampleMemory [(0x1000, 0x2001), (0x2000, 0x10001)], fun _ => 0, none, [], []⟩ }

def mappedRead : Request := .vmRead 0 pageDevice (some 1) 0 8

def ringAccess (address : Nat) : AccessCall := umrReadVram pageDevice 1 address 4 (some 0)

def unmappedIb : History where
  requests := [mappedRead, .ring 0 [ringAccess 0x1000]]
  returned := by
    intro call member
    rw [List.mem_singleton.mp member]
    decide +kernel

def repeatedIb (accesses : Nat) : History where
  requests := [mappedRead, .ring 0 (List.replicate accesses (ringAccess 0))]
  returned := by
    intro call member
    rcases List.mem_cons.mp (List.mem_of_mem_dropLast member) with first | later
    · rw [first]
      decide +kernel
    · have same : call = ringAccess 0 :=
        List.eq_of_mem_replicate (by simpa [Request.calls] using later)
      rw [same]
      decide +kernel

/-- The ring calls `vm_message` after it was set to NULL, or overruns `page_table`; the first
`vm-read` alone leaves other callbacks behind. -/
theorem ring_after_vm_read :
    (initAsics.run unmappedIb.steps).isNone = true ∧
      (initAsics.run (repeatedIb 21).steps).map Server.numPageTableEntries = some 66 ∧
      ¬ Restored unmappedIb := by
  refine ⟨by decide +kernel, by decide +kernel, ?_⟩
  intro restored
  obtain ⟨call, member, running⟩ := (restored_iff unmappedIb).mp restored mappedRead
    List.mem_cons_self rfl
  rw [List.mem_singleton.mp member] at running
  revert running
  decide +kernel

end Umr.Gui
