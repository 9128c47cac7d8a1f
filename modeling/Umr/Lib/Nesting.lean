import Mathlib.Data.List.Basic
import Mathlib.Logic.Relation

/-!
# Calls that make calls

A call makes its inner calls one after the other and then comes to its own end, by
itself or with a fault.  A fault, or too deep a call, ends every call around it.
Some depth is enough if and only if the inner calls are well founded and nothing
below faults; whether a call faults at all is decided by the calls it gets to.
-/

set_option autoImplicit false

namespace Umr.Lib

inductive Halt where
  | done
  | fault
  | deep
  deriving DecidableEq, Repr

def Halt.andThen : Halt → Halt → Halt
  | .done, next => next
  | .fault, _ => .fault
  | .deep, _ => .deep

theorem Halt.andThen_assoc (first second third : Halt) :
    (first.andThen second).andThen third = first.andThen (second.andThen third) := by
  cases first <;> rfl

theorem Halt.andThen_done (first : Halt) : first.andThen .done = first := by
  cases first <;> rfl

section InTurn
variable {β : Type} {run other : β → Halt}

def inTurn (run : β → Halt) : List β → Halt
  | [] => .done
  | call :: calls => (run call).andThen (inTurn run calls)

theorem inTurn_done {calls : List β} :
    inTurn run calls = .done ↔ ∀ call ∈ calls, run call = .done := by
  induction calls with
  | nil => exact iff_of_true rfl fun _ member => absurd member List.not_mem_nil
  | cons call calls ih =>
      rw [List.forall_mem_cons, ← ih, inTurn]
      cases run call <;> simp [Halt.andThen]

theorem inTurn_append {before behind : List β} :
    inTurn run (before ++ behind) = (inTurn run before).andThen (inTurn run behind) := by
  induction before with
  | nil => rfl
  | cons call before ih =>
      rw [List.cons_append, inTurn, inTurn, ih]
      cases run call <;> rfl

theorem inTurn_fault {calls : List β} (faults : inTurn run calls = .fault) :
    ∃ before call behind, calls = before ++ call :: behind ∧
      (∀ earlier ∈ before, run earlier = .done) ∧ run call = .fault := by
  induction calls with
  | nil => cases faults
  | cons call calls ih =>
      rw [inTurn] at faults
      cases ran : run call with
      | fault =>
          exact ⟨[], call, calls, rfl, fun _ member => absurd member List.not_mem_nil, ran⟩
      | deep =>
          rw [ran] at faults
          cases faults
      | done =>
          rw [ran] at faults
          obtain ⟨before, faulty, behind, split_, done, isFault⟩ := ih faults
          refine ⟨call :: before, faulty, behind, congrArg (call :: ·) split_, ?_, isFault⟩
          exact List.forall_mem_cons.mpr ⟨ran, done⟩

/-- What is decided with `run` is decided the same way where `other` goes on. -/
theorem inTurn_settled (further : ∀ call, run call ≠ .deep → other call = run call)
    {calls : List β} (settled : inTurn run calls ≠ .deep) :
    inTurn other calls = inTurn run calls := by
  induction calls with
  | nil => rfl
  | cons call calls ih =>
      rw [inTurn] at settled
      rw [inTurn, inTurn]
      cases ran : run call with
      | deep =>
          rw [ran] at settled
          exact absurd rfl settled
      | fault => rw [further call (by rw [ran]; decide), ran, Halt.andThen, Halt.andThen]
      | done =>
          rw [ran] at settled
          rw [further call (by rw [ran]; decide), ran, Halt.andThen, Halt.andThen]
          exact ih settled

end InTurn

section Nesting
variable {α : Type} (within : α → List α) (sound : α → Prop)

def Inner (inner outer : α) : Prop := inner ∈ within outer

def Reaches : α → α → Prop := Relation.ReflTransGen fun outer inner => inner ∈ within outer

/-- Below the call no nesting goes on forever, and nothing faults. -/
structure Settles (call : α) : Prop where
  ends : Acc (Inner within) call
  holds : ∀ below, Reaches within call below → sound below

/-- The calls that a run gets to: everything before them comes back. -/
inductive GetsTo (call : α) : α → Prop
  | start : GetsTo call call
  | inner {outer inner : α} {before behind : List α} (comes : GetsTo call outer)
      (here : within outer = before ++ inner :: behind)
      (back : ∀ earlier ∈ before, Settles within sound earlier) : GetsTo call inner

variable {within sound}

theorem Settles.inner {call inner : α} (settles : Settles within sound call)
    (member : inner ∈ within call) : Settles within sound inner :=
  ⟨settles.ends.inv member, fun below further => settles.holds below (.head member further)⟩

theorem not_settles_of_self {call : α} (self : call ∈ within call) :
    ¬ Settles within sound call := by
  intro settles
  induction settles.ends with
  | intro call _ ih => exact ih call self self settles

theorem GetsTo.of_inner {outer inner call : α} {before behind : List α}
    (here : within outer = before ++ inner :: behind)
    (back : ∀ earlier ∈ before, Settles within sound earlier)
    (comes : GetsTo within sound inner call) : GetsTo within sound outer call := by
  induction comes with
  | start => exact .inner .start here back
  | inner _ next earlier ih => exact .inner ih next earlier

variable [DecidablePred sound]

variable (within sound) in
/-- The end of a call within `depth` levels. -/
def halt : Nat → α → Halt
  | 0, _ => .deep
  | depth + 1, call =>
      (inTurn (halt depth) (within call)).andThen (if sound call then .done else .fault)

theorem halt_settled {depth : Nat} {call : α} (settled : halt within sound depth call ≠ .deep) :
    halt within sound (depth + 1) call = halt within sound depth call := by
  induction depth generalizing call with
  | zero => exact absurd rfl settled
  | succ depth ih =>
      rw [halt] at settled
      have inside : inTurn (halt within sound depth) (within call) ≠ .deep := by
        intro deep
        rw [deep] at settled
        exact settled rfl
      rw [halt, inTurn_settled (fun _ => ih) inside]
      rfl

theorem halt_le {depth more : Nat} {call : α} (le : depth ≤ more)
    (settled : halt within sound depth call ≠ .deep) :
    halt within sound more call = halt within sound depth call := by
  induction le with
  | refl => rfl
  | step _ ih => rw [halt_settled (by rwa [ih]), ih]

theorem halt_done_le {depth more : Nat} {call : α} (le : depth ≤ more)
    (done : halt within sound depth call = .done) : halt within sound more call = .done := by
  rw [halt_le le (by rw [done]; decide), done]

/-- One depth for all of finitely many calls. -/
theorem common_depth {calls : List α}
    (each : ∀ call ∈ calls, ∃ depth, halt within sound depth call = .done) :
    ∃ depth, ∀ call ∈ calls, halt within sound depth call = .done := by
  induction calls with
  | nil => exact ⟨0, fun _ member => absurd member List.not_mem_nil⟩
  | cons call calls ih =>
      obtain ⟨here, first⟩ := each call List.mem_cons_self
      obtain ⟨rest, others⟩ := ih fun other member => each other (List.mem_cons_of_mem _ member)
      refine ⟨max here rest, List.forall_mem_cons.mpr ⟨?_, ?_⟩⟩
      · exact halt_done_le (Nat.le_max_left _ _) first
      · exact fun other member => halt_done_le (Nat.le_max_right _ _) (others other member)

theorem halt_succ_done {depth : Nat} {call : α} :
    halt within sound (depth + 1) call = .done ↔
      (∀ inner ∈ within call, halt within sound depth inner = .done) ∧ sound call := by
  rw [halt, ← inTurn_done]
  cases inTurn (halt within sound depth) (within call) <;> simp [Halt.andThen]

theorem settles_of_done {depth : Nat} {call : α} (done : halt within sound depth call = .done) :
    Settles within sound call := by
  induction depth generalizing call with
  | zero => cases done
  | succ depth ih =>
      obtain ⟨inside, here⟩ := halt_succ_done.mp done
      refine ⟨Acc.intro call fun inner member => (ih (inside inner member)).ends, ?_⟩
      intro below reached
      rcases Relation.ReflTransGen.cases_head reached with rfl | ⟨inner, member, further⟩
      · exact here
      · exact (ih (inside inner member)).holds below further

theorem done_of_settles {call : α} (settles : Settles within sound call) :
    ∃ depth, halt within sound depth call = .done := by
  induction settles.ends with
  | intro call _ ih =>
      obtain ⟨depth, inside⟩ := common_depth fun inner (member : inner ∈ within call) =>
        ih inner member (settles.inner member)
      exact ⟨depth + 1, halt_succ_done.mpr ⟨inside, settles.holds call .refl⟩⟩

/-- A call comes back if and only if it settles. -/
theorem done_iff_settles {call : α} :
    (∃ depth, halt within sound depth call = .done) ↔ Settles within sound call := by
  refine ⟨?_, done_of_settles⟩
  rintro ⟨depth, done⟩
  exact settles_of_done done

/-! ## Whether a call faults -/

theorem faults_of_unsound {call : α}
    (back : ∀ inner ∈ within call, Settles within sound inner) (unsound : ¬ sound call) :
    ∃ depth, halt within sound depth call = .fault := by
  obtain ⟨depth, done⟩ := common_depth fun inner member => done_of_settles (back inner member)
  refine ⟨depth + 1, ?_⟩
  rw [halt, inTurn_done.mpr done, if_neg unsound, Halt.andThen]

theorem faults_outwards {outer inner : α} {before behind : List α}
    (here : within outer = before ++ inner :: behind)
    (back : ∀ earlier ∈ before, Settles within sound earlier)
    (faults : ∃ depth, halt within sound depth inner = .fault) :
    ∃ depth, halt within sound depth outer = .fault := by
  obtain ⟨deep, fault⟩ := faults
  obtain ⟨depth, done⟩ := common_depth fun earlier member => done_of_settles (back earlier member)
  have earlier : inTurn (halt within sound (max depth deep)) before = .done :=
    inTurn_done.mpr fun call member => halt_done_le (Nat.le_max_left _ _) (done call member)
  have later : halt within sound (max depth deep) inner = .fault := by
    rw [halt_le (Nat.le_max_right _ _) (by rw [fault]; decide), fault]
  refine ⟨max depth deep + 1, ?_⟩
  rw [halt, here, inTurn_append, earlier, inTurn, later]
  rfl

theorem unsound_of_fault {depth : Nat} {call : α}
    (faults : halt within sound depth call = .fault) :
    ∃ below, GetsTo within sound call below ∧
      (∀ inner ∈ within below, Settles within sound inner) ∧ ¬ sound below := by
  induction depth generalizing call with
  | zero => cases faults
  | succ depth ih =>
      rw [halt] at faults
      cases inside : inTurn (halt within sound depth) (within call) with
      | deep =>
          rw [inside] at faults
          cases faults
      | fault =>
          obtain ⟨before, inner, behind, here, done, fault⟩ := inTurn_fault inside
          obtain ⟨below, comes, back, unsound⟩ := ih fault
          exact ⟨below, comes.of_inner here fun earlier member =>
            settles_of_done (done earlier member), back, unsound⟩
      | done =>
          rw [inside] at faults
          refine ⟨call, .start, fun inner member => ?_, ?_⟩
          · exact settles_of_done (inTurn_done.mp inside inner member)
          · intro holds
            rw [if_pos holds] at faults
            cases faults

/-- A call never faults if and only if every call it gets to is sound, or has an
inner call that does not come back. -/
theorem never_faults_iff {call : α} :
    (∀ depth, halt within sound depth call ≠ .fault) ↔
      ∀ below, GetsTo within sound call below →
        (∀ inner ∈ within below, Settles within sound inner) → sound below := by
  constructor
  · intro never below comes back
    by_contra unsound
    have faults := faults_of_unsound back unsound
    suffices ∃ depth, halt within sound depth call = .fault by
      obtain ⟨depth, fault⟩ := this
      exact never depth fault
    clear back unsound
    induction comes with
    | start => exact faults
    | inner _ here earlier ih => exact ih (faults_outwards here earlier faults)
  · intro holds depth fault
    obtain ⟨below, comes, back, unsound⟩ := unsound_of_fault fault
    exact unsound (holds below comes back)

end Nesting

/-! ## Packets that make calls -/

section Scan
variable {α β : Type} (size : α → List α → Option Nat)

/-- What is behind a packet, where `size` is the number of its payload words: nothing
if that is not known, or if the payload is not complete. -/
def packetRest (header : α) (behind : List α) : List α :=
  match size header behind with
  | none => []
  | some count => if behind.length < count then [] else behind.drop count

/-- Where packets begin, each with all words behind its header. -/
def packetStarts : Nat → List α → List (α × List α)
  | 0, _ => []
  | _ + 1, [] => []
  | turns + 1, header :: behind =>
      (header, behind) :: packetStarts turns (packetRest size header behind)

variable (reads : α → Nat) (call : α → List α → Option β) (run : β → Halt)

/-- A scan that looks at `reads` words of a packet and makes its call, if it has one. -/
def scanHalt : Nat → List α → Halt
  | 0, _ => .done
  | _ + 1, [] => .done
  | turns + 1, header :: behind =>
      if behind.length < reads header then .fault
      else (inTurn run (call header behind).toList).andThen
        (scanHalt turns (packetRest size header behind))

def scanCalls (turns : Nat) (words : List α) : List β :=
  (packetStarts size turns words).flatMap fun packet => (call packet.1 packet.2).toList

def ReadsInside (turns : Nat) (words : List α) : Prop :=
  ∀ packet ∈ packetStarts size turns words, reads packet.1 ≤ packet.2.length

instance (turns : Nat) (words : List α) : Decidable (ReadsInside size reads turns words) :=
  inferInstanceAs (Decidable (∀ packet ∈ packetStarts size turns words,
    reads packet.1 ≤ packet.2.length))

variable {size reads call run}

theorem packetStarts_nil (turns : Nat) : packetStarts size turns [] = [] := by
  cases turns <;> rfl

theorem scanHalt_nil (turns : Nat) : scanHalt size reads call run turns [] = .done := by
  cases turns <;> rfl

theorem readsInside_cons {turns : Nat} {header : α} {behind : List α} :
    ReadsInside size reads (turns + 1) (header :: behind) ↔
      reads header ≤ behind.length ∧
        ReadsInside size reads turns (packetRest size header behind) :=
  List.forall_mem_cons

theorem scanCalls_cons {turns : Nat} {header : α} {behind : List α} :
    scanCalls size call (turns + 1) (header :: behind) =
      (call header behind).toList ++ scanCalls size call turns (packetRest size header behind) :=
  List.flatMap_cons

/-- A scan halts as its calls do one after the other, and then by the words it misses;
a packet that misses one ends the scan. -/
theorem scanHalt_eq
    (cut : ∀ header behind, behind.length < reads header →
      size header behind = none ∧ call header behind = none) (turns : Nat) (words : List α) :
    scanHalt size reads call run turns words =
      (inTurn run (scanCalls size call turns words)).andThen
        (if ReadsInside size reads turns words then .done else .fault) := by
  induction turns generalizing words with
  | zero => rfl
  | succ turns ih =>
      cases words with
      | nil => rfl
      | cons header behind =>
          rw [scanHalt, scanCalls_cons]
          by_cases short : behind.length < reads header
          · obtain ⟨unsized, silent⟩ := cut header behind short
            have misses : ¬ ReadsInside size reads (turns + 1) (header :: behind) := by
              rw [readsInside_cons]
              omega
            have rest : packetRest size header behind = [] := by rw [packetRest, unsized]
            rw [if_pos short, if_neg misses, silent, rest, scanCalls, packetStarts_nil]
            rfl
          · have inside : ReadsInside size reads (turns + 1) (header :: behind) ↔
                ReadsInside size reads turns (packetRest size header behind) :=
              readsInside_cons.trans (and_iff_right (Nat.le_of_not_lt short))
            rw [if_neg short, ih, inTurn_append, Halt.andThen_assoc]
            simp only [inside]

end Scan

end Umr.Lib
