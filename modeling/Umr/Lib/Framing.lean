import Mathlib.Data.List.Basic

/-!
# Words cut into packets

A stream decoder reads a header word, works out from it and from what follows
how many payload words belong to the packet, and goes on behind them.  `Framed`
is that cut of a word list as a relation; it determines the packets, so two
decoders that both establish it agree.
-/

set_option autoImplicit false

namespace Umr.Lib

/-- The `count` words from `offset` on; `none` if one of them lies outside. -/
def readWords {α : Type} (mem : List α) (offset count : Nat) : Option (List α) :=
  if offset + count ≤ mem.length then some ((mem.drop offset).take count) else none

def readWord {α : Type} (mem : List α) (offset : Nat) : Option α := mem[offset]?

section Framing
variable {α : Type} {payload : α → List α → Nat}

/-- `words` is `packets` one after the other and then `rest`, in which the packet
announced by the first word is not complete.  `payload header behind` is the
number of payload words announced. -/
inductive Framed (payload : α → List α → Nat) : List α → List (α × List α) → List α → Prop where
  | done (rest : List α)
      (short : ∀ header behind, rest = header :: behind → behind.length < payload header behind) :
      Framed payload rest [] rest
  | packet (header : α) (body tail : List α) (packets : List (α × List α)) (rest : List α)
      (announced : body.length = payload header (body ++ tail))
      (further : Framed payload tail packets rest) :
      Framed payload (header :: (body ++ tail)) ((header, body) :: packets) rest

def reassemble (packets : List (α × List α)) : List α :=
  packets.flatMap fun packet => packet.1 :: packet.2

theorem Framed.reassembles {words rest : List α} {packets : List (α × List α)}
    (framed : Framed payload words packets rest) : words = reassemble packets ++ rest := by
  induction framed with
  | done rest short => rfl
  | packet header body tail packets rest announced further ih =>
      rw [reassemble, List.flatMap_cons, List.append_assoc, ← reassemble, ← ih]
      rfl

theorem Framed.short {words rest : List α} {packets : List (α × List α)}
    (framed : Framed payload words packets rest) :
    ∀ header behind, rest = header :: behind → behind.length < payload header behind := by
  induction framed with
  | done rest short => exact short
  | packet header body tail packets rest announced further ih => exact ih

theorem Framed.length_le {words rest : List α}
    {packets : List (α × List α)} (framed : Framed payload words packets rest) :
    packets.length ≤ words.length := by
  induction framed with
  | done rest short => exact Nat.zero_le _
  | packet header body tail packets rest announced further ih =>
      rw [List.length_cons, List.length_cons, List.length_append]
      omega

theorem Framed.payload_length {size : α → Nat} {words rest : List α}
    {packets : List (α × List α)}
    (framed : Framed (fun header _ => size header) words packets rest) :
    ∀ packet ∈ packets, packet.2.length = size packet.1 := by
  induction framed with
  | done rest short => exact fun _ member => nomatch member
  | packet header body tail packets rest announced further ih =>
      intro packet member
      rcases List.mem_cons.mp member with rfl | later
      · exact announced
      · exact ih packet later

theorem Framed.unique {words rest other : List α} {packets others : List (α × List α)}
    (framed : Framed payload words packets rest) (again : Framed payload words others other) :
    packets = others ∧ rest = other := by
  induction framed generalizing others with
  | done rest short =>
      cases again with
      | done => exact ⟨rfl, rfl⟩
      | packet header body tail packets rest announced further =>
          have incomplete := short header (body ++ tail) rfl
          rw [← announced, List.length_append] at incomplete
          omega
  | packet header body tail packets rest announced further ih =>
      generalize wordsEq : header :: (body ++ tail) = words at again
      cases again with
      | done other short =>
          have incomplete := short header (body ++ tail) wordsEq.symm
          rw [← announced, List.length_append] at incomplete
          omega
      | packet header' body' tail' packets' rest' announced' further' =>
          obtain ⟨rfl, behind⟩ := List.cons.inj wordsEq
          have lengths : body.length = body'.length := by
            rw [announced, announced', behind]
          obtain ⟨rfl, rfl⟩ := List.append_inj behind lengths
          obtain ⟨rfl, rfl⟩ := ih further'
          exact ⟨rfl, rfl⟩

end Framing

section Access
variable {α : Type} {mem : List α} {offset : Nat}

theorem readWord_of_drop {header : α} {behind : List α} (left : mem.drop offset = header :: behind) :
    readWord mem offset = some header := by
  have found := congrArg List.head? left
  rwa [List.head?_drop] at found

theorem readWords_of_drop {header : α} {behind : List α} {count : Nat}
    (left : mem.drop offset = header :: behind) (enough : count ≤ behind.length) :
    ∃ body tail, behind = body ++ tail ∧ body.length = count ∧
      readWords mem (offset + 1) count = some body ∧ mem.drop (offset + (1 + count)) = tail := by
  have following : mem.drop (offset + 1) = behind := by
    rw [← List.drop_drop, left]
    rfl
  have length := congrArg List.length left
  rw [List.length_drop, List.length_cons] at length
  refine ⟨behind.take count, behind.drop count, (List.take_append_drop count behind).symm, ?_, ?_, ?_⟩
  · rw [List.length_take]
    omega
  · rw [readWords, if_pos (by omega), following]
  · rw [← Nat.add_assoc, ← List.drop_drop, following]

end Access

section Sized
variable {α : Type} {size : α → Nat} {mem : List α}

/-- The packets among the next `nwords` words, where a header counts itself; a packet
that is not complete, or has no size, ends the loop. -/
def cutPackets (size : α → Nat) (mem : List α) : Nat → Nat → Nat → Option (List (α × List α))
  | 0, _, _ => some []
  | turns + 1, offset, nwords =>
      if nwords = 0 then some []
      else do
        let header ← readWord mem offset
        if nwords < size header ∨ size header = 0 then some []
        else do
          let body ← readWords mem (offset + 1) (size header - 1)
          let next ← cutPackets size mem turns (offset + size header) (nwords - size header)
          some ((header, body) :: next)

/-- A header without a size announces more than there is. -/
def sizedPayload (size : α → Nat) (header : α) (behind : List α) : Nat :=
  if size header = 0 then behind.length + 1 else size header - 1

theorem framed_nil {payload : α → List α → Nat} : Framed payload [] [] [] :=
  .done [] fun _ _ impossible => by cases impossible

/-- The loop reads inside and cuts the words that it counts. -/
theorem cutPackets_frames {turns : Nat} :
    ∀ {offset nwords : Nat}, nwords ≤ turns → nwords ≤ (mem.drop offset).length →
      ∃ packets rest, cutPackets size mem turns offset nwords = some packets ∧
        Framed (sizedPayload size) ((mem.drop offset).take nwords) packets rest ∧
        ∀ packet ∈ packets, packet.2.length + 1 = size packet.1 := by
  induction turns with
  | zero =>
      intro offset nwords few _
      rw [Nat.le_zero.mp few]
      exact ⟨[], [], rfl, framed_nil, fun _ member => by cases member⟩
  | succ turns ih =>
      intro offset nwords few inside
      rw [cutPackets]
      by_cases none_ : nwords = 0
      · rw [if_pos none_, none_]
        exact ⟨[], [], rfl, framed_nil, fun _ member => by cases member⟩
      · rw [if_neg none_]
        cases left : mem.drop offset with
        | nil =>
            rw [left] at inside
            exact absurd (Nat.le_zero.mp inside) none_
        | cons header behind =>
            rw [left, List.length_cons] at inside
            rw [readWord_of_drop left]
            change ∃ packets rest, (if nwords < size header ∨ size header = 0 then some [] else _) =
              some packets ∧ _
            have first : (header :: behind).take nwords = header :: behind.take (nwords - 1) := by
              obtain ⟨n, rfl⟩ := Nat.exists_eq_succ_of_ne_zero none_
              rfl
            by_cases stop : nwords < size header ∨ size header = 0
            · rw [if_pos stop, first]
              refine ⟨[], _, rfl, .done _ ?_, fun _ member => by cases member⟩
              rintro _ _ ⟨⟩
              rw [sizedPayload]
              split
              · exact Nat.lt_succ_self _
              · next known =>
                  have short := stop.resolve_right known
                  rw [List.length_take]
                  omega
            · rw [if_neg stop]
              obtain ⟨enough, known⟩ := not_or.mp stop
              obtain ⟨body, tail, isBehind, count, read, further⟩ :=
                @readWords_of_drop _ _ _ _ _ (size header - 1) left (by omega)
              have next : offset + (1 + (size header - 1)) = offset + size header := by omega
              rw [next] at further
              have length := congrArg List.length isBehind
              rw [List.length_append] at length
              obtain ⟨later, rest, ran, framed, sizes⟩ :=
                @ih (offset + size header) (nwords - size header) (by omega) (by rw [further]; omega)
              rw [read, ran]
              refine ⟨(header, body) :: later, rest, rfl, ?_,
                List.forall_mem_cons.mpr ⟨by dsimp only; omega, sizes⟩⟩
              have cut : (header :: behind).take nwords =
                  header :: (body ++ tail.take (nwords - size header)) := by
                have same : nwords - 1 - (size header - 1) = nwords - size header := by omega
                rw [first, isBehind, List.take_append, List.take_of_length_le (by omega), count, same]
              rw [cut]
              refine .packet header body _ _ rest ?_ (further ▸ framed)
              rw [sizedPayload, if_neg known, count]

/-- Packets that end in front of a place are the packets of the words up to there. -/
theorem Framed.take_sized {words rest : List α} {packets : List (α × List α)}
    (framed : Framed (sizedPayload size) words packets rest) :
    ∀ {n : Nat}, (reassemble packets).length ≤ n →
      ∃ left, Framed (sizedPayload size) (words.take n) packets left := by
  induction framed with
  | done rest short =>
      intro n _
      refine ⟨_, .done _ ?_⟩
      intro header behind isTaken
      cases rest with
      | nil =>
          rw [List.take_nil] at isTaken
          cases isTaken
      | cons first others =>
          cases n with
          | zero => cases isTaken
          | succ n =>
              cases isTaken
              have before := short header others rfl
              rw [sizedPayload] at before ⊢
              split
              · exact Nat.lt_succ_self _
              · next known =>
                  rw [if_neg known] at before
                  rw [List.length_take]
                  omega
  | packet header body tail packets rest announced further ih =>
      intro n enough
      rw [reassemble, List.flatMap_cons, ← reassemble, List.length_append, List.length_cons] at enough
      dsimp only at enough
      obtain ⟨left, framed⟩ := @ih (n - (body.length + 1)) (by omega)
      obtain ⟨m, rfl⟩ : ∃ m, n = m + 1 := ⟨n - 1, by omega⟩
      have same : m + 1 - (body.length + 1) = m - body.length := by omega
      rw [List.take_succ_cons, List.take_append, List.take_of_length_le (by omega), ← same]
      refine ⟨left, .packet header body _ packets left ?_ framed⟩
      rw [sizedPayload] at announced ⊢
      split
      · next unknown =>
          rw [if_pos unknown, List.length_append] at announced
          omega
      · next known =>
          rw [if_neg known] at announced
          exact announced

end Sized

end Umr.Lib
