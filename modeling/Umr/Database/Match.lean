import Mathlib

/-!
# Register file for an IP version

`umr_database_find_ip` of `database/match.c`.  The loop keeps the best item so
far; an item is better by its minor version below the requested one, then by its
revision below the requested one.  Both keys together are one linear order
(`rank`), and the loop returns the first item of the greatest rank.

Items above the request have all the same rank, so that among them the order of
the list decides.
-/

set_option autoImplicit false

namespace Umr.Database

structure ScanItem where
  path : List Char
  fname : List Char
  ipname : List Char
  maj : Int
  min : Int
  rev : Int
  deriving DecidableEq, Repr

def strstr (text pattern : List Char) : Bool := decide (pattern <:+: text)

section FindIp
variable (ipname : List Char) (maj min rev : Int)

def betterIp (desired : Option (List Char)) (best : Option ScanItem) (si : ScanItem) :
    Option ScanItem :=
  if desired.all (strstr si.path) then
    if ipname = si.ipname then
      if maj = si.maj then
        match best with
        | none => some si
        | some found =>
            if min ≥ si.min then
              if min - si.min < min - found.min ∨ min < found.min then some si
              else if min - si.min = min - found.min then
                if rev ≥ si.rev ∧ (rev - si.rev < rev - found.rev ∨ rev < found.rev) then some si
                else best
              else best
            else best
      else best
    else best
  else best

/-- Without a match on the desired path any path will do. -/
def umrDatabaseFindIp (db : List ScanItem) (desired : Option (List Char)) : Option ScanItem :=
  match db.foldl (betterIp ipname maj min rev desired) none, desired with
  | none, some _ => db.foldl (betterIp ipname maj min rev none) none
  | best, _ => best

/-! ## The candidates and their order -/

def candidate (desired : Option (List Char)) (si : ScanItem) : Bool :=
  desired.all (strstr si.path) && (ipname == si.ipname && maj == si.maj)

/-- Items of the name and major version inside the desired path, or anywhere when there is none
inside it. -/
def candidates (db : List ScanItem) (desired : Option (List Char)) : List ScanItem :=
  if db.filter (candidate ipname maj desired) = [] then db.filter (candidate ipname maj none)
  else db.filter (candidate ipname maj desired)

/-- Nothing is known of a minor version or a revision above the request. -/
def rank (si : ScanItem) : WithBot (ℤ ×ₗ WithBot ℤ) :=
  if si.min ≤ min then
    WithBot.some (toLex (si.min, if si.rev ≤ rev then WithBot.some si.rev else ⊥))
  else ⊥

variable {ipname maj min rev}

theorem rank_eq_bot_iff {si : ScanItem} : rank min rev si = ⊥ ↔ min < si.min := by
  by_cases older : si.min ≤ min
  · simp only [rank, if_pos older, WithBot.coe_ne_bot, false_iff]
    omega
  · simp only [rank, if_neg older, true_iff]
    omega

theorem rank_of_le {si : ScanItem} (older : si.min ≤ min) :
    rank min rev si = WithBot.some (toLex (si.min,
      if si.rev ≤ rev then WithBot.some si.rev else ⊥)) := by
  rw [rank, if_pos older]

/-- The test of the loop compares the ranks. -/
theorem rank_lt_iff {found si : ScanItem} :
    rank min rev found < rank min rev si ↔ si.min ≤ min ∧
      (min < found.min ∨ found.min < si.min ∨
        found.min = si.min ∧ si.rev ≤ rev ∧ (rev < found.rev ∨ found.rev < si.rev)) := by
  by_cases older : si.min ≤ min
  · by_cases foundOlder : found.min ≤ min
    · rw [rank_of_le older, rank_of_le foundOlder, WithBot.coe_lt_coe, Prod.Lex.toLex_lt_toLex]
      have revision : ((if found.rev ≤ rev then WithBot.some found.rev else ⊥) <
          if si.rev ≤ rev then WithBot.some si.rev else ⊥) ↔
          si.rev ≤ rev ∧ (rev < found.rev ∨ found.rev < si.rev) := by
        by_cases siRev : si.rev ≤ rev
        · by_cases foundRev : found.rev ≤ rev
          · simp only [if_pos siRev, if_pos foundRev, WithBot.coe_lt_coe]
            omega
          · simp only [if_pos siRev, if_neg foundRev, WithBot.bot_lt_coe, true_iff]
            omega
        · rw [if_neg siRev]
          simp only [not_lt_bot, siRev, false_and]
      rw [revision]
      simp only
      omega
    · rw [rank_eq_bot_iff.mpr (by omega : min < found.min), rank_of_le older]
      simp only [WithBot.bot_lt_coe, true_iff]
      omega
  · rw [rank_eq_bot_iff.mpr (by omega : min < si.min)]
    simp only [not_lt_bot, older, false_and]

theorem betterIp_of_candidate {desired : Option (List Char)} {si : ScanItem}
    (isCandidate : candidate ipname maj desired si = true) (best : Option ScanItem) :
    betterIp ipname maj min rev desired best si =
      List.argAux (fun b c => rank min rev c < rank min rev b) best si := by
  simp only [candidate, Bool.and_eq_true, beq_iff_eq] at isCandidate
  obtain ⟨inside, sameName, sameMajor⟩ := isCandidate
  cases best with
  | none => simp only [betterIp, List.argAux, if_pos inside, if_pos sameName, if_pos sameMajor]
  | some found =>
      simp only [betterIp, List.argAux, if_pos inside, if_pos sameName, if_pos sameMajor]
      simp only [rank_lt_iff]
      split_ifs <;> first | rfl | omega

theorem betterIp_of_not_candidate {desired : Option (List Char)} {si : ScanItem}
    (notCandidate : candidate ipname maj desired si = false) (best : Option ScanItem) :
    betterIp ipname maj min rev desired best si = best := by
  simp only [candidate, Bool.and_eq_false_iff, beq_eq_false_iff_ne] at notCandidate
  unfold betterIp
  rcases notCandidate with outside | otherName | otherMajor
  · simp only [outside, Bool.false_eq_true, if_false]
  · simp only [if_neg otherName, ite_self]
  · simp only [if_neg otherMajor, ite_self]

theorem foldl_betterIp (db : List ScanItem) (desired : Option (List Char)) :
    db.foldl (betterIp ipname maj min rev desired) none =
      (db.filter (candidate ipname maj desired)).argmax (rank min rev) := by
  rw [List.argmax, List.foldl_filter]
  congr 1
  funext best si
  cases isCandidate : candidate ipname maj desired si with
  | true => simp only [if_pos, betterIp_of_candidate isCandidate]
  | false => simp only [Bool.false_eq_true, if_false, betterIp_of_not_candidate isCandidate]

/-- The loop returns the first candidate of the greatest rank. -/
theorem umrDatabaseFindIp_eq_argmax (db : List ScanItem) (desired : Option (List Char)) :
    umrDatabaseFindIp ipname maj min rev db desired =
      (candidates ipname maj db desired).argmax (rank min rev) := by
  unfold umrDatabaseFindIp candidates
  rw [foldl_betterIp, foldl_betterIp]
  by_cases noneInside : db.filter (candidate ipname maj desired) = []
  · rw [if_pos noneInside, noneInside, List.argmax_nil]
    cases desired with
    | none => rw [noneInside, List.argmax_nil]
    | some path => rfl
  · rw [if_neg noneInside]
    obtain ⟨best, found⟩ := Option.ne_none_iff_exists'.mp
      (fun missing => noneInside (List.argmax_eq_none.mp missing) :
        (db.filter (candidate ipname maj desired)).argmax (rank min rev) ≠ none)
    rw [found]

theorem candidates_major {db : List ScanItem} {desired : Option (List Char)} {si : ScanItem}
    (isCandidate : si ∈ candidates ipname maj db desired) : si.maj = maj := by
  unfold candidates at isCandidate
  have passed : ∃ path, candidate ipname maj path si = true := by
    split_ifs at isCandidate with noneInside
    · exact ⟨none, (List.mem_filter.mp isCandidate).2⟩
    · exact ⟨desired, (List.mem_filter.mp isCandidate).2⟩
  obtain ⟨path, passed⟩ := passed
  simp only [candidate, Bool.and_eq_true, beq_iff_eq] at passed
  exact passed.2.2.symm

/-- The item found is a candidate, and nearest below the request: first by its minor version, then
by its revision. -/
theorem umrDatabaseFindIp_nearest (db : List ScanItem) (desired : Option (List Char)) :
    (umrDatabaseFindIp ipname maj min rev db desired = none ↔
      candidates ipname maj db desired = []) ∧
    ∀ found, umrDatabaseFindIp ipname maj min rev db desired = some found →
      found ∈ candidates ipname maj db desired ∧
      ((∃ si ∈ candidates ipname maj db desired, si.min ≤ min) →
        found.min ≤ min ∧
        (∀ si ∈ candidates ipname maj db desired, si.min ≤ min → si.min ≤ found.min) ∧
        ((∃ si ∈ candidates ipname maj db desired, si.min = found.min ∧ si.rev ≤ rev) →
          found.rev ≤ rev ∧
          ∀ si ∈ candidates ipname maj db desired, si.min = found.min → si.rev ≤ rev →
            si.rev ≤ found.rev)) ∧
      (∀ si ∈ candidates ipname maj db desired, si.min = min → si.rev = rev →
        (found.maj, found.min, found.rev) = (maj, min, rev)) := by
  rw [umrDatabaseFindIp_eq_argmax]
  refine ⟨List.argmax_eq_none, ?_⟩
  intro found isFound
  have isCandidate := List.argmax_mem isFound
  have best : ∀ si ∈ candidates ipname maj db desired, ¬ rank min rev found < rank min rev si :=
    fun si member => List.not_lt_of_mem_argmax member isFound
  simp only [rank_lt_iff] at best
  refine ⟨isCandidate, ?_, ?_⟩
  · rintro ⟨older, olderMember, olderMinor⟩
    have := best older olderMember
    refine ⟨by omega, ?_, ?_⟩
    · intro si member minor
      have := best si member
      omega
    · rintro ⟨known, knownMember, knownMinor, knownRevision⟩
      have := best known knownMember
      refine ⟨by omega, ?_⟩
      intro si member minor revision
      have := best si member
      omega
  · intro exact exactMember sameMinor sameRevision
    have := best exact exactMember
    have := candidates_major isCandidate
    simp only [Prod.mk.injEq]
    omega

/-! ## The order of the list -/

theorem candidates_perm {db other : List ScanItem} (permuted : other.Perm db)
    (desired : Option (List Char)) :
    (candidates ipname maj other desired).Perm (candidates ipname maj db desired) := by
  have inside := permuted.filter (candidate ipname maj desired)
  have anywhere := permuted.filter (candidate ipname maj none)
  unfold candidates
  by_cases noneInside : db.filter (candidate ipname maj desired) = []
  · rw [noneInside] at inside
    rw [if_pos noneInside, if_pos inside.eq_nil]
    exact anywhere
  · have stillInside : other.filter (candidate ipname maj desired) ≠ [] := by
      intro empty
      rw [empty] at inside
      exact noneInside inside.symm.eq_nil
    rw [if_neg noneInside, if_neg stillInside]
    exact inside

/-- A candidate at the head of the list is the first candidate. -/
theorem candidates_head {si : ScanItem} {rest : List ScanItem} {desired : Option (List Char)}
    (isCandidate : si ∈ candidates ipname maj (si :: rest) desired) :
    ∃ others, candidates ipname maj (si :: rest) desired = si :: others := by
  unfold candidates at isCandidate ⊢
  split_ifs at isCandidate ⊢ with noneInside
  all_goals
    have passed := (List.mem_filter.mp isCandidate).2
    exact ⟨_, List.filter_cons_of_pos passed⟩

/-- Some order of the list gives any item that no candidate outranks. -/
theorem umrDatabaseFindIp_front {db : List ScanItem} {desired : Option (List Char)}
    {si : ScanItem} (isCandidate : si ∈ candidates ipname maj db desired)
    (greatest : ∀ other ∈ candidates ipname maj db desired,
      ¬ rank min rev si < rank min rev other) :
    ∃ other, other.Perm db ∧
      umrDatabaseFindIp ipname maj min rev other desired = some si := by
  have member : si ∈ db := by
    unfold candidates at isCandidate
    split_ifs at isCandidate
    all_goals exact (List.mem_filter.mp isCandidate).1
  have permuted : (si :: db.erase si).Perm db := (List.perm_cons_erase member).symm
  refine ⟨si :: db.erase si, permuted, ?_⟩
  have same : (candidates ipname maj (si :: db.erase si) desired).Perm
      (candidates ipname maj db desired) := candidates_perm permuted desired
  obtain ⟨others, headed⟩ := candidates_head (same.mem_iff.mpr isCandidate)
  rw [umrDatabaseFindIp_eq_argmax, headed, List.argmax_cons]
  cases restBest : others.argmax (rank min rev) with
  | none => rfl
  | some second =>
      have listed : second ∈ candidates ipname maj db desired := by
        refine same.mem_iff.mp ?_
        rw [headed]
        exact List.mem_cons_of_mem _ (List.argmax_mem restBest)
      exact if_neg (greatest second listed)

/-- The items the choice is between: those of the greatest minor version not above the request,
or all of them when every one is above it. -/
def Nearest (min : Int) (items : List ScanItem) (si : ScanItem) : Prop :=
  si ∈ items ∧ ((∀ other ∈ items, min < other.min) ∨
    si.min ≤ min ∧ ∀ other ∈ items, other.min ≤ min → other.min ≤ si.min)

/-- A revision not above the request is there to choose, or there is nothing to choose. -/
def Settled (min rev : Int) (items : List ScanItem) : Prop :=
  (∃ si, Nearest min items si ∧ si.min ≤ min ∧ si.rev ≤ rev) ∨
  ∀ one other, Nearest min items one → Nearest min items other →
    one.min = other.min ∧ one.rev = other.rev

def version (si : ScanItem) : Int × Int × Int := (si.maj, si.min, si.rev)

theorem nearest_of_greatest {items : List ScanItem} {si : ScanItem} (member : si ∈ items)
    (greatest : ∀ other ∈ items, ¬ rank min rev si < rank min rev other) :
    Nearest min items si := by
  simp only [rank_lt_iff] at greatest
  refine ⟨member, ?_⟩
  by_cases older : si.min ≤ min
  · refine Or.inr ⟨older, ?_⟩
    intro other otherMember otherOlder
    have := greatest other otherMember
    omega
  · refine Or.inl ?_
    intro other otherMember
    have := greatest other otherMember
    omega

theorem Nearest.greatest {items : List ScanItem} {si : ScanItem} (nearest : Nearest min items si)
    (above : ∀ other, Nearest min items other → other.min ≤ min → rev < other.rev) :
    ∀ other ∈ items, ¬ rank min rev si < rank min rev other := by
  intro other member outranked
  rw [rank_lt_iff] at outranked
  rcases nearest.2 with allAbove | ⟨older, greatestMinor⟩
  · have := allAbove other member
    omega
  · have := greatestMinor other member outranked.1
    have sameMinor : other.min = si.min := by omega
    have otherNearest : Nearest min items other := by
      refine ⟨member, Or.inr ⟨outranked.1, ?_⟩⟩
      rw [sameMinor]
      exact greatestMinor
    have := above other otherNearest outranked.1
    omega

theorem version_eq_of_settled {db : List ScanItem} {desired : Option (List Char)}
    {one other : ScanItem} (settled : Settled min rev (candidates ipname maj db desired))
    (oneMember : one ∈ candidates ipname maj db desired)
    (otherMember : other ∈ candidates ipname maj db desired)
    (oneGreatest : ∀ si ∈ candidates ipname maj db desired, ¬ rank min rev one < rank min rev si)
    (otherGreatest : ∀ si ∈ candidates ipname maj db desired,
      ¬ rank min rev other < rank min rev si) :
    version one = version other := by
  have sameMajor : one.maj = other.maj :=
    (candidates_major oneMember).trans (candidates_major otherMember).symm
  have sameRest : one.min = other.min ∧ one.rev = other.rev := by
    rcases settled with ⟨known, nearest, knownMinor, knownRevision⟩ | onlyOne
    · have oneOther := oneGreatest other otherMember
      have otherOne := otherGreatest one oneMember
      have oneKnown := oneGreatest known nearest.1
      have otherKnown := otherGreatest known nearest.1
      rw [rank_lt_iff] at oneOther otherOne oneKnown otherKnown
      rcases nearest.2 with allAbove | ⟨-, greatestMinor⟩
      · have := allAbove known nearest.1
        omega
      · have := greatestMinor one oneMember
        have := greatestMinor other otherMember
        omega
    · exact onlyOne one other (nearest_of_greatest oneMember oneGreatest)
        (nearest_of_greatest otherMember otherGreatest)
  rw [version, version, sameMajor, sameRest.1, sameRest.2]

/-- The version found does not depend on the order of the list exactly when the order is not needed
to choose. -/
theorem umrDatabaseFindIp_perm_iff (db : List ScanItem) (desired : Option (List Char)) :
    (∀ other, other.Perm db →
      (umrDatabaseFindIp ipname maj min rev other desired).map version =
        (umrDatabaseFindIp ipname maj min rev db desired).map version) ↔
      Settled min rev (candidates ipname maj db desired) := by
  constructor
  · intro independent
    by_contra unsettled
    unfold Settled at unsettled
    push Not at unsettled
    obtain ⟨above, one, other, oneNearest, otherNearest, different⟩ := unsettled
    obtain ⟨oneFirst, onePerm, oneFound⟩ :=
      umrDatabaseFindIp_front oneNearest.1 (oneNearest.greatest above)
    obtain ⟨otherFirst, otherPerm, otherFound⟩ :=
      umrDatabaseFindIp_front otherNearest.1 (otherNearest.greatest above)
    have same := (independent oneFirst onePerm).trans (independent otherFirst otherPerm).symm
    rw [oneFound, otherFound] at same
    simp only [Option.map_some, Option.some.injEq, version, Prod.mk.injEq] at same
    exact different same.2.1 same.2.2
  · intro settled other permuted
    have same : (candidates ipname maj other desired).Perm (candidates ipname maj db desired) :=
      candidates_perm permuted desired
    rw [umrDatabaseFindIp_eq_argmax, umrDatabaseFindIp_eq_argmax]
    cases foundOther : (candidates ipname maj other desired).argmax (rank min rev) with
    | none =>
        rw [List.argmax_eq_none] at foundOther
        rw [foundOther] at same
        rw [same.symm.eq_nil, List.argmax_nil]
    | some second =>
        cases foundFirst : (candidates ipname maj db desired).argmax (rank min rev) with
        | none =>
            rw [List.argmax_eq_none] at foundFirst
            rw [foundFirst] at same
            rw [same.eq_nil, List.argmax_nil] at foundOther
            cases foundOther
        | some first =>
            have secondMember := same.mem_iff.mp (List.argmax_mem foundOther)
            have versions : version second = version first := by
              refine version_eq_of_settled settled secondMember (List.argmax_mem foundFirst) ?_ ?_
              · intro si member
                exact List.not_lt_of_mem_argmax (same.mem_iff.mpr member) foundOther
              · intro si member
                exact List.not_lt_of_mem_argmax member foundFirst
            rw [Option.map_some, Option.map_some, versions]

/-- Two register files newer than the request: whichever is listed first is taken. -/
theorem newer_files_in_either_order :
    ¬ ∀ (ipname : List Char) (maj min rev : Int) (db other : List ScanItem)
        (desired : Option (List Char)), other.Perm db →
      (umrDatabaseFindIp ipname maj min rev other desired).map version =
        (umrDatabaseFindIp ipname maj min rev db desired).map version := by
  intro independent
  let older : ScanItem := ⟨"/db".toList, "gc_11_0_2.reg".toList, "gc".toList, 11, 0, 2⟩
  let newer : ScanItem := ⟨"/db".toList, "gc_11_0_4.reg".toList, "gc".toList, 11, 0, 4⟩
  have same := independent "gc".toList 11 0 1 [older, newer] [newer, older] none
    (List.Perm.swap _ _ _)
  revert same
  decide

end FindIp

end Umr.Database
