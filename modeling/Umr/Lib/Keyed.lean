import Umr.Lib.Interning

/-!
# Lists with one entry a key

An entry is searched by its key and changed where it stands, or put behind the others if
there is none.  A run of such changes leaves the keys at the places of their first occurrences, each
with what its own changes made of a new entry.
-/

set_option autoImplicit false

namespace Umr.Lib

section Keyed
variable {Key Entry : Type} [DecidableEq Key]

/-- How the entries are told apart and what a new one is. -/
structure Keyed (Key Entry : Type) where
  key : Entry → Key
  new : Key → Entry
  key_new : ∀ k, key (new k) = k

variable (keyed : Keyed Key Entry)

structure Keyed.Change (keyed : Keyed Key Entry) where
  key : Key
  change : Entry → Entry
  keeps : ∀ entry, keyed.key (change entry) = keyed.key entry

def Keyed.upsert (change : keyed.Change) : List Entry → List Entry
  | [] => [change.change (keyed.new change.key)]
  | entry :: entries =>
      if keyed.key entry = change.key then change.change entry :: entries
      else entry :: Keyed.upsert change entries

def Keyed.upsertAll (changes : List keyed.Change) (entries : List Entry) : List Entry :=
  changes.foldl (fun entries change => keyed.upsert change entries) entries

/-- The keys, each at the place of its first change. -/
def Keyed.keys (changes : List keyed.Change) : List Key := (changes.map Keyed.Change.key).eraseDups

def Keyed.entryOf (changes : List keyed.Change) (k : Key) : Entry :=
  (changes.filter fun change => change.key = k).foldl (fun entry change => change.change entry)
    (keyed.new k)

variable {keyed}

theorem Keyed.mem_keys {changes : List keyed.Change} {k : Key} :
    k ∈ keyed.keys changes ↔ ∃ change ∈ changes, change.key = k := by
  rw [Keyed.keys, List.mem_eraseDups, List.mem_map]

theorem Keyed.keys_nodup (changes : List keyed.Change) : (keyed.keys changes).Nodup :=
  nodup_eraseDups _

theorem Keyed.key_entryOf (changes : List keyed.Change) (k : Key) :
    keyed.key (keyed.entryOf changes k) = k := by
  unfold Keyed.entryOf
  induction (changes.filter fun change => change.key = k) using List.reverseRecOn with
  | nil => exact keyed.key_new k
  | append_singleton changes change ih =>
      rw [List.foldl_append]
      exact (change.keeps _).trans ih

theorem Keyed.entryOf_concat (changes : List keyed.Change) (change : keyed.Change) (k : Key) :
    keyed.entryOf (changes ++ [change]) k =
      if change.key = k then change.change (keyed.entryOf changes k)
      else keyed.entryOf changes k := by
  unfold Keyed.entryOf
  rw [List.filter_append, List.filter_singleton]
  by_cases here : change.key = k
  · rw [if_pos here, decide_eq_true here, List.foldl_append]
    rfl
  · rw [if_neg here, decide_eq_false here]
    exact congrArg (List.foldl _ _) (List.append_nil _)

theorem Keyed.find_map {entry : Key → Entry} (keys : ∀ k, keyed.key (entry k) = k) {ks : List Key}
    {k : Key} (member : k ∈ ks) :
    (ks.map entry).find? (fun other => decide (keyed.key other = k)) = some (entry k) := by
  induction ks with
  | nil => exact absurd member List.not_mem_nil
  | cons other ks ih =>
      rw [List.map_cons, List.find?_cons, keys]
      by_cases here : other = k
      · rw [decide_eq_true here, here]
      · rw [decide_eq_false here]
        exact ih ((List.mem_cons.mp member).resolve_left (Ne.symm here))

theorem Keyed.upsert_map (change : keyed.Change) {entry : Key → Entry}
    (keys : ∀ k, keyed.key (entry k) = k) {ks : List Key} (nodup : ks.Nodup) :
    keyed.upsert change (ks.map entry) =
      if change.key ∈ ks then
        ks.map fun k => if change.key = k then change.change (entry k) else entry k
      else ks.map entry ++ [change.change (keyed.new change.key)] := by
  induction ks with
  | nil => rfl
  | cons k ks ih =>
      obtain ⟨new, nodup⟩ := List.nodup_cons.mp nodup
      rw [List.map_cons, Keyed.upsert, keys]
      by_cases here : k = change.key
      · have others : ks.map entry =
            ks.map fun k => if change.key = k then change.change (entry k) else entry k := by
          refine List.map_congr_left fun other member => (if_neg ?_).symm
          rintro rfl
          exact new (here ▸ member)
        rw [if_pos here, if_pos (here ▸ List.mem_cons_self), List.map_cons, if_pos here.symm, others]
      · have member : change.key ∈ k :: ks ↔ change.key ∈ ks :=
          List.mem_cons.trans (or_iff_right (Ne.symm here))
        rw [if_neg here, ih nodup]
        simp only [member]
        split
        · rw [List.map_cons, if_neg (Ne.symm here)]
        · rfl

theorem Keyed.keys_concat (changes : List keyed.Change) (change : keyed.Change) :
    keyed.keys (changes ++ [change]) =
      if change.key ∈ keyed.keys changes then keyed.keys changes
      else keyed.keys changes ++ [change.key] := by
  unfold Keyed.keys
  rw [List.map_append, List.map_singleton, eraseDups_concat]
  by_cases old : change.key ∈ changes.map Keyed.Change.key
  · rw [if_pos old, if_pos (List.mem_eraseDups.mpr old)]
  · rw [if_neg old, if_neg fun member => old (List.mem_eraseDups.mp member)]

theorem Keyed.entryOf_new {changes : List keyed.Change} {k : Key} (new : k ∉ keyed.keys changes) :
    keyed.entryOf changes k = keyed.new k := by
  have none_ : changes.filter (fun other => other.key = k) = [] := by
    refine List.filter_eq_nil_iff.mpr fun other member same => new ?_
    exact Keyed.mem_keys.mpr ⟨other, member, of_decide_eq_true same⟩
  rw [Keyed.entryOf, none_]
  rfl

theorem Keyed.upsertAll_eq (changes : List keyed.Change) :
    keyed.upsertAll changes [] = (keyed.keys changes).map (keyed.entryOf changes) := by
  induction changes using List.reverseRecOn with
  | nil => rfl
  | append_singleton changes change ih =>
      have one : keyed.upsertAll (changes ++ [change]) [] =
          keyed.upsert change (keyed.upsertAll changes []) := by
        rw [Keyed.upsertAll, List.foldl_append]
        rfl
      rw [one, ih, Keyed.upsert_map change (Keyed.key_entryOf changes) (Keyed.keys_nodup changes),
        Keyed.keys_concat]
      by_cases old : change.key ∈ keyed.keys changes
      · rw [if_pos old, if_pos old]
        exact List.map_congr_left fun k _ => (Keyed.entryOf_concat changes change k).symm
      · have others : (keyed.keys changes).map (keyed.entryOf changes) =
            (keyed.keys changes).map (keyed.entryOf (changes ++ [change])) := by
          refine List.map_congr_left fun k member => ?_
          rw [Keyed.entryOf_concat, if_neg]
          rintro rfl
          exact old member
        rw [if_neg old, if_neg old, List.map_append, List.map_singleton, others,
          Keyed.entryOf_concat, if_pos rfl, Keyed.entryOf_new old]

end Keyed

end Umr.Lib
