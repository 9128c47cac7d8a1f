import Umr.Lib.Bytes
import Umr.Lib.Tally
import Mathlib.Data.List.Perm.Basic

/-!
# Hits of the profiler

The end of `umr_profiler` in `profile.c`: the collected hits are sorted, runs of
equal hits are counted, and the counted hits are grouped by shader.  A run is
stored when the next one starts, so the last one never is.
-/

set_option autoImplicit false

namespace Umr.Waves

open Umr.Lib

@[ext] structure ProfilerHit where
  vmid : UInt32
  instDw0 : UInt32
  instDw1 : UInt32
  shaderSize : UInt32
  pc : UInt64
  baseAddr : UInt64
  deriving DecidableEq, Repr

def ProfilerHit.bytes (hit : ProfilerHit) : List UInt8 :=
  wordBytes hit.vmid ++ (wordBytes hit.instDw0 ++ (wordBytes hit.instDw1 ++
    (wordBytes hit.shaderSize ++ (wordBytes (loWord hit.pc) ++ (wordBytes (hiWord hit.pc) ++
      (wordBytes (loWord hit.baseAddr) ++ wordBytes (hiWord hit.baseAddr)))))))

structure ProfilerRle where
  data : ProfilerHit
  cnt : Nat
  deriving DecidableEq, Repr

/-- `struct umr_profiler_shaders`; every one is made with a first hit. -/
structure ProfilerShader where
  totalCnt : Nat
  first : ProfilerRle
  later : List ProfilerRle
  deriving DecidableEq, Repr

def ProfilerShader.hits (shader : ProfilerShader) : List ProfilerRle := shader.first :: shader.later

def memcmp : List UInt8 → List UInt8 → Int
  | a :: as, b :: bs => if a = b then memcmp as bs else (a.toNat : Int) - b.toNat
  | _, _ => 0

def compHits (a b : ProfilerHit) : Int := memcmp a.bytes b.bytes

def sortHits (phit : List ProfilerHit) : List ProfilerHit :=
  phit.mergeSort fun a b => compHits a b ≤ 0

/-- The hits behind `phit[y]`, of which `x - y` are read. -/
def rleLoop (y : ProfilerHit) (count : Nat) : List ProfilerHit → List ProfilerRle
  | [] => []
  | hit :: rest =>
      if compHits hit y ≠ 0 then ⟨y, count⟩ :: rleLoop hit 1 rest else rleLoop y (count + 1) rest

def rle : List ProfilerHit → List ProfilerRle
  | [] => []
  | hit :: rest => rleLoop hit 1 rest

def sameShader (a b : ProfilerHit) : Bool :=
  a.vmid = b.vmid ∧ a.baseAddr = b.baseAddr ∧ a.shaderSize = b.shaderSize

/-- A counted hit goes to the first shader it belongs to, or starts a new one. -/
def addRle (entry : ProfilerRle) : List ProfilerShader → List ProfilerShader
  | [] => [⟨entry.cnt, entry, []⟩]
  | shader :: shaders =>
      if sameShader shader.first.data entry.data then
        { shader with totalCnt := shader.totalCnt + entry.cnt, later := shader.later ++ [entry] } ::
          shaders
      else shader :: addRle entry shaders

def groupShaders (prle : List ProfilerRle) : List ProfilerShader :=
  prle.foldl (fun shaders entry => addRle entry shaders) []

/-- The shaders before they are sorted by their hits. -/
def umrProfiler (phit : List ProfilerHit) : List ProfilerShader :=
  groupShaders (rle (sortHits phit))

/-- Every hit is in one shader, once, with the number of its occurrences, and the totals add up. -/
structure Accounted (shaders : List ProfilerShader) (phit : List ProfilerHit) : Prop where
  once : ∀ hit ∈ phit, ((shaders.flatMap ProfilerShader.hits).filter fun entry =>
    entry.data = hit) = [⟨hit, phit.count hit⟩]
  totals : ∀ shader ∈ shaders, shader.totalCnt = (shader.hits.map ProfilerRle.cnt).sum
  all : (shaders.map ProfilerShader.totalCnt).sum = phit.length

/-! ## The order of the hits -/

section Order

theorem memcmp_neg_iff {a b : List UInt8} (length : a.length = b.length) :
    memcmp a b < 0 ↔ a.map UInt8.toNat < b.map UInt8.toNat := by
  induction a generalizing b with
  | nil =>
      rw [List.length_eq_zero_iff.mp length.symm]
      exact iff_of_false (Int.lt_irrefl 0) (lt_irrefl _)
  | cons c a ih =>
      cases b with
      | nil => cases length
      | cons d b =>
          rw [memcmp, List.map_cons, List.map_cons, List.cons_lt_cons_iff]
          by_cases same : c = d
          · rw [if_pos same, ih (Nat.succ.inj length), same]
            simp only [Nat.lt_irrefl, false_or, true_and]
          · have unequal : c.toNat ≠ d.toNat := fun equal => same (UInt8.toNat_inj.mp equal)
            rw [if_neg same]
            simp only [unequal, false_and, or_false]
            omega

theorem memcmp_eq_zero_iff {a b : List UInt8} (length : a.length = b.length) :
    memcmp a b = 0 ↔ a = b := by
  induction a generalizing b with
  | nil => exact iff_of_true rfl (List.length_eq_zero_iff.mp length.symm).symm
  | cons c a ih =>
      cases b with
      | nil => cases length
      | cons d b =>
          rw [memcmp, List.cons.injEq]
          by_cases same : c = d
          · rw [if_pos same, ih (Nat.succ.inj length)]
            simp [same]
          · have unequal : c.toNat ≠ d.toNat := fun equal => same (UInt8.toNat_inj.mp equal)
            rw [if_neg same]
            exact iff_of_false (by omega) fun equal => same equal.1

theorem length_bytes (hit : ProfilerHit) : hit.bytes.length = 32 := by
  simp [ProfilerHit.bytes]

theorem wordBytes_inj {a b : UInt32} (same : wordBytes a = wordBytes b) : a = b := by
  rw [← bytesWord_wordBytes a, same, bytesWord_wordBytes]

theorem bytes_inj {a b : ProfilerHit} (same : a.bytes = b.bytes) : a = b := by
  have cut : ∀ {u v : UInt32} {s t : List UInt8}, wordBytes u ++ s = wordBytes v ++ t →
      u = v ∧ s = t := by
    intro u v s t equal
    obtain ⟨words, rests⟩ := List.append_inj equal (by simp)
    exact ⟨wordBytes_inj words, rests⟩
  obtain ⟨vmid, same⟩ := cut same
  obtain ⟨instDw0, same⟩ := cut same
  obtain ⟨instDw1, same⟩ := cut same
  obtain ⟨shaderSize, same⟩ := cut same
  obtain ⟨pcLow, same⟩ := cut same
  obtain ⟨pcHigh, same⟩ := cut same
  obtain ⟨baseLow, baseHigh⟩ := cut same
  have pc : a.pc = b.pc := by
    rw [← joinWords_halves a.pc, pcLow, pcHigh, joinWords_halves]
  have baseAddr : a.baseAddr = b.baseAddr := by
    rw [← joinWords_halves a.baseAddr, baseLow, wordBytes_inj baseHigh, joinWords_halves]
  exact ProfilerHit.ext vmid instDw0 instDw1 shaderSize pc baseAddr

theorem compHits_eq_zero_iff (a b : ProfilerHit) : compHits a b = 0 ↔ a = b := by
  rw [compHits, memcmp_eq_zero_iff (by rw [length_bytes, length_bytes])]
  exact ⟨bytes_inj, congrArg _⟩

theorem compHits_le_iff (a b : ProfilerHit) :
    compHits a b ≤ 0 ↔ a.bytes.map UInt8.toNat ≤ b.bytes.map UInt8.toNat := by
  have length : a.bytes.length = b.bytes.length := by rw [length_bytes, length_bytes]
  have injective : Function.Injective (List.map UInt8.toNat) :=
    List.map_injective_iff.mpr fun _ _ => UInt8.toNat_inj.mp
  rw [compHits, Int.le_iff_lt_or_eq, memcmp_neg_iff length, memcmp_eq_zero_iff length,
    ← injective.eq_iff]
  exact le_iff_lt_or_eq.symm

theorem compHits_antisymm (a b : ProfilerHit) (ab : compHits a b ≤ 0) (ba : compHits b a ≤ 0) :
    a = b := by
  rw [compHits_le_iff] at ab ba
  have same := le_antisymm ab ba
  exact bytes_inj (List.map_injective_iff.mpr (fun _ _ => UInt8.toNat_inj.mp) same)

theorem sortHits_sorted (phit : List ProfilerHit) :
    (sortHits phit).Pairwise fun a b => compHits a b ≤ 0 := by
  have sorted : (sortHits phit).Pairwise fun a b => decide (compHits a b ≤ 0) = true := by
    refine List.pairwise_mergeSort ?_ ?_ phit
    · intro a b c first second
      rw [decide_eq_true_eq, compHits_le_iff] at *
      exact le_trans first second
    · intro a b
      rw [Bool.or_eq_true, decide_eq_true_eq, decide_eq_true_eq, compHits_le_iff, compHits_le_iff]
      exact le_total _ _
  exact sorted.imp fun ordered => of_decide_eq_true ordered

theorem sortHits_perm (phit : List ProfilerHit) : (sortHits phit).Perm phit :=
  List.mergeSort_perm phit _

end Order

/-! ## The loops -/

def rleOf (run : ProfilerHit × Nat) : ProfilerRle := ⟨run.1, run.2⟩

theorem rleLoop_eq (y : ProfilerHit) (count : Nat) (rest : List ProfilerHit) :
    rleLoop y count rest = ((runsFrom y count rest).dropLast).map rleOf := by
  induction rest generalizing y count with
  | nil => rfl
  | cons hit rest ih =>
      rw [rleLoop, runsFrom]
      by_cases same : hit = y
      · rw [if_neg (not_not.mpr ((compHits_eq_zero_iff hit y).mpr same)), if_pos same]
        exact ih y (count + 1)
      · rw [if_pos (mt (compHits_eq_zero_iff hit y).mp same), if_neg same,
          List.dropLast_cons_of_ne_nil (runsFrom_ne_nil hit 1 rest), List.map_cons, ih]
        rfl

/-- All runs are stored but the last. -/
theorem rle_eq (phit : List ProfilerHit) : rle phit = ((runs phit).dropLast).map rleOf := by
  cases phit with
  | nil => rfl
  | cons hit rest => exact rleLoop_eq hit 1 rest

section Grouping
variable {shaders : List ProfilerShader}

theorem addRle_hits (entry : ProfilerRle) (shaders : List ProfilerShader) :
    ((addRle entry shaders).flatMap ProfilerShader.hits).Perm
      (shaders.flatMap ProfilerShader.hits ++ [entry]) := by
  induction shaders with
  | nil => exact List.Perm.refl _
  | cons shader shaders ih =>
      rw [addRle]
      split
      · rw [List.flatMap_cons, List.flatMap_cons]
        change (shader.first :: (shader.later ++ [entry]) ++ _).Perm
          (shader.first :: shader.later ++ _ ++ [entry])
        rw [← List.cons_append, List.append_assoc, List.append_assoc]
        exact List.Perm.append_left _ List.perm_append_comm
      · rw [List.flatMap_cons, List.flatMap_cons, List.append_assoc]
        exact ih.append_left _

def TotalsRight (shaders : List ProfilerShader) : Prop :=
  ∀ shader ∈ shaders, shader.totalCnt = (shader.hits.map ProfilerRle.cnt).sum

theorem addRle_totals (entry : ProfilerRle) (right : TotalsRight shaders) :
    TotalsRight (addRle entry shaders) := by
  induction shaders with
  | nil =>
      intro shader member
      rw [List.mem_singleton.mp member]
      simp [ProfilerShader.hits]
  | cons shader shaders ih =>
      have head := right shader List.mem_cons_self
      have tail : TotalsRight shaders := fun other member =>
        right other (List.mem_cons_of_mem _ member)
      rw [addRle]
      split
      · intro other member
        rcases List.mem_cons.mp member with rfl | later
        · dsimp only
          rw [head]
          simp [ProfilerShader.hits, Nat.add_assoc]
        · exact tail other later
      · intro other member
        rcases List.mem_cons.mp member with rfl | later
        · exact head
        · exact ih tail other later

theorem totals_sum (right : TotalsRight shaders) :
    (shaders.map ProfilerShader.totalCnt).sum =
      ((shaders.flatMap ProfilerShader.hits).map ProfilerRle.cnt).sum := by
  induction shaders with
  | nil => rfl
  | cons shader shaders ih =>
      rw [List.map_cons, List.sum_cons, List.flatMap_cons, List.map_append, List.sum_append,
        right shader List.mem_cons_self,
        ih fun other member => right other (List.mem_cons_of_mem _ member)]

/-- Grouping neither loses nor repeats an entry, and each total is that of its shader's hits. -/
theorem groupShaders_spec (prle : List ProfilerRle) :
    ((groupShaders prle).flatMap ProfilerShader.hits).Perm prle ∧
      TotalsRight (groupShaders prle) := by
  have run : ∀ (entries : List ProfilerRle) (shaders : List ProfilerShader), TotalsRight shaders →
      ((entries.foldl (fun shaders entry => addRle entry shaders) shaders).flatMap
          ProfilerShader.hits).Perm (shaders.flatMap ProfilerShader.hits ++ entries) ∧
        TotalsRight (entries.foldl (fun shaders entry => addRle entry shaders) shaders) := by
    intro entries
    induction entries with
    | nil =>
        intro shaders right
        rw [List.append_nil]
        exact ⟨List.Perm.refl _, right⟩
    | cons entry entries ih =>
        intro shaders right
        obtain ⟨hits, totals⟩ := ih (addRle entry shaders) (addRle_totals entry right)
        refine ⟨hits.trans ?_, totals⟩
        rw [← List.singleton_append, ← List.append_assoc]
        exact (addRle_hits entry shaders).append_right entries
  exact run prle [] fun _ member => absurd member List.not_mem_nil

end Grouping

/-! ## What is accounted for -/

section Main
variable {phit : List ProfilerHit} {shaders : List ProfilerShader}

/-- Every hit but the greatest is in one shader, once, with the number of its occurrences; the
greatest is in none, and the totals miss as many hits as it has occurrences. -/
theorem accounted_but_greatest {greatest : ProfilerHit}
    (ordered : shaders.Perm (umrProfiler phit))
    (last : (sortHits phit).getLast? = some greatest) :
    (∀ hit ∈ phit, ((shaders.flatMap ProfilerShader.hits).filter fun entry => entry.data = hit) =
      if hit = greatest then [] else [⟨hit, phit.count hit⟩]) ∧
    TotalsRight shaders ∧
    (shaders.map ProfilerShader.totalCnt).sum + phit.count greatest = phit.length := by
  have perm := sortHits_perm phit
  obtain ⟨hits, totals⟩ := groupShaders_spec (rle (sortHits phit))
  have right : TotalsRight shaders := fun shader member => totals shader (ordered.mem_iff.mp member)
  have entries : (shaders.flatMap ProfilerShader.hits).Perm (rle (sortHits phit)) :=
    (ordered.flatMap_right _).trans hits
  have lastRun := runs_last (sortHits phit)
  rw [last, Option.map_eq_some_iff] at lastRun
  obtain ⟨run, isLast, ofGreatest⟩ := lastRun
  have split : runs (sortHits phit) = (runs (sortHits phit)).dropLast ++ [run] :=
    (List.dropLast_append_getLast? run isLast).symm
  have oneRun : ∀ hit ∈ phit, ((runs (sortHits phit)).filter fun run => run.1 = hit) =
      [(hit, phit.count hit)] := by
    intro hit member
    rw [runs_filter compHits_antisymm (sortHits_sorted phit) (perm.mem_iff.mpr member),
      perm.count_eq]
  have greatestMember : greatest ∈ phit := perm.mem_iff.mp (List.mem_of_getLast? last)
  have ofLast := oneRun greatest greatestMember
  rw [split, List.filter_append, List.filter_singleton, decide_eq_true ofGreatest,
    cond_true] at ofLast
  have noneBefore : ((runs (sortHits phit)).dropLast.filter fun run => run.1 = greatest) = [] :=
    (List.append_eq_singleton_iff.mp ofLast).elim (fun case => case.1)
      fun case => absurd case.2 (List.cons_ne_nil _ _)
  rw [noneBefore, List.nil_append, List.singleton_inj] at ofLast
  refine ⟨?_, right, ?_⟩
  · intro hit member
    have filtered : ((rle (sortHits phit)).filter fun entry => entry.data = hit) =
        ((runs (sortHits phit)).dropLast.filter fun run => run.1 = hit).map rleOf := by
      rw [rle_eq, List.filter_map]
      rfl
    by_cases same : hit = greatest
    · rw [if_pos same]
      refine List.Perm.eq_nil ((entries.filter _).trans ?_)
      rw [filtered, same, noneBefore]
      exact List.Perm.refl _
    · rw [if_neg same]
      have own := oneRun hit member
      have apart : run.1 ≠ hit := fun equal => same (equal.symm.trans ofGreatest)
      rw [split, List.filter_append, List.filter_singleton, decide_eq_false apart, cond_false,
        List.append_nil] at own
      refine List.perm_singleton.mp ((entries.filter _).trans ?_)
      rw [filtered, own]
      exact List.Perm.refl _
  · have sum := runs_sum (sortHits phit)
    rw [split, List.map_append, List.sum_append, perm.length_eq, ofLast] at sum
    have counts : ((rle (sortHits phit)).map ProfilerRle.cnt).sum =
        (((runs (sortHits phit)).dropLast).map Prod.snd).sum := by
      rw [rle_eq, List.map_map]
      rfl
    rw [totals_sum right, (entries.map ProfilerRle.cnt).sum_eq, counts]
    simpa using sum

/-- However the shaders are ordered: the hits are accounted for if and only if there are none. -/
theorem accounted_iff (ordered : shaders.Perm (umrProfiler phit)) :
    Accounted shaders phit ↔ phit = [] := by
  constructor
  · intro accounted
    by_contra some_
    have nonempty : sortHits phit ≠ [] := by
      intro empty
      exact some_ (List.Perm.nil_eq (empty ▸ sortHits_perm phit)).symm
    have last := List.getLast?_eq_some_getLast nonempty
    have member := (sortHits_perm phit).mem_iff.mp (List.mem_of_getLast? last)
    have missing := (accounted_but_greatest ordered last).1 _ member
    rw [if_pos rfl, accounted.once _ member] at missing
    exact absurd missing (List.cons_ne_nil _ _)
  · rintro rfl
    rw [umrProfiler, sortHits, List.mergeSort_nil] at ordered
    have none_ : shaders = [] := List.Perm.eq_nil ordered
    subst none_
    exact ⟨fun _ member => absurd member List.not_mem_nil,
      fun _ member => absurd member List.not_mem_nil, rfl⟩

end Main

/-! ## One hit -/

def oneHit : ProfilerHit := ⟨1, 0xBF810000, 0, 256, 0x1000, 0x1000⟩

theorem oneHit_accounted_iff : ([] : List ProfilerShader).Perm (umrProfiler [oneHit]) ∧
    (Accounted [] [oneHit] ↔ [oneHit] = []) := by
  have ordered : ([] : List ProfilerShader).Perm (umrProfiler [oneHit]) := by
    rw [umrProfiler, sortHits, List.mergeSort_singleton]
    exact List.Perm.refl _
  exact ⟨ordered, accounted_iff ordered⟩

theorem oneHit_not_accounted : ¬ ∀ (phit : List ProfilerHit) (shaders : List ProfilerShader),
    shaders.Perm (umrProfiler phit) → Accounted shaders phit := by
  intro all
  have ordered : ([] : List ProfilerShader).Perm (umrProfiler [oneHit]) := by
    rw [umrProfiler, sortHits, List.mergeSort_singleton]
    exact List.Perm.refl _
  have once := (all [oneHit] [] ordered).once oneHit List.mem_cons_self
  cases once

end Umr.Waves
