import Umr.Lib.Codec

/-!
# Reading a truncated input

Readers on an input that ends too early, where a read that fails returns a blank
value and takes nothing.  The input is written in chunks, one for each read.  A
cut that leaves fewer than `grain` items of the chunk it falls into, the size of
the shortest read, is harmless: everything from that chunk on is blank
(`Takes`).  A cut that leaves more is not, since the next short read takes them
(`Overreads`).
-/

set_option autoImplicit false

namespace Umr.Lib

section Leftover
variable {τ : Type}

/-- How many items of the chunk it falls into a cut after `n` items leaves. -/
def leftover : List (List τ) → Nat → Nat
  | [], n => n
  | chunk :: chunks, n => if n < chunk.length then n else leftover chunks (n - chunk.length)

theorem leftover_here {chunk : List τ} {n : Nat} (inside : n < chunk.length)
    (chunks : List (List τ)) : leftover (chunk :: chunks) n = n := if_pos inside

theorem leftover_behind {chunk : List τ} {n : Nat} (behind : chunk.length ≤ n)
    (chunks : List (List τ)) :
    leftover (chunk :: chunks) n = leftover chunks (n - chunk.length) := if_neg (by omega)

theorem leftover_zero (chunks : List (List τ)) : leftover chunks 0 = 0 := by
  induction chunks with
  | nil => rfl
  | cons chunk chunks ih =>
      rw [leftover, Nat.zero_sub, ih]
      exact ite_self 0

theorem leftover_append_left {first : List (List τ)} (second : List (List τ)) :
    ∀ {n : Nat}, n < first.flatten.length → leftover (first ++ second) n = leftover first n := by
  induction first with
  | nil => exact fun inside => absurd inside (Nat.not_lt_zero _)
  | cons chunk chunks ih =>
      intro n inside
      rw [List.flatten_cons, List.length_append] at inside
      by_cases here : n < chunk.length
      · rw [List.cons_append, leftover_here here, leftover_here here]
      · rw [List.cons_append, leftover_behind (by omega), leftover_behind (by omega),
          ih (by omega)]

theorem leftover_append_right {first : List (List τ)} (second : List (List τ)) :
    ∀ {n : Nat}, first.flatten.length ≤ n →
      leftover (first ++ second) n = leftover second (n - first.flatten.length) := by
  induction first with
  | nil => exact fun _ => rfl
  | cons chunk chunks ih =>
      intro n behind
      rw [List.flatten_cons, List.length_append] at behind ⊢
      rw [List.cons_append, leftover_behind (by omega), ih (by omega), Nat.sub_sub]

theorem take_flatten_append_left {first : List (List τ)} (second : List (List τ)) {n : Nat}
    (inside : n < first.flatten.length) :
    (first ++ second).flatten.take n = first.flatten.take n := by
  rw [List.flatten_append, List.take_append_of_le_length (by omega)]

theorem take_flatten_append_right {first : List (List τ)} (second : List (List τ)) {n : Nat}
    (behind : first.flatten.length ≤ n) :
    (first ++ second).flatten.take n =
      first.flatten ++ second.flatten.take (n - first.flatten.length) := by
  rw [List.flatten_append, List.take_append, List.take_of_length_le behind]

end Leftover

/-- What readers read from.  A read that reaches beyond the end is refused if it
does so by less than `slack` items. -/
structure Input (σ τ : Type) where
  good : σ → Prop
  unread : σ → List τ
  slack : Nat

/-- A read of `width` items that are not there returns a blank value and takes
nothing. -/
def Refuses {σ τ α : Type} (input : Input σ τ) (reader : StateT σ Option α) (width : Nat)
    (blank : α) : Prop :=
  ∀ state, input.good state → (input.unread state).length < width →
    width < (input.unread state).length + input.slack → reader state = some (blank, state)

theorem Refuses.map {σ τ α β : Type} {input : Input σ τ} {reader : StateT σ Option α} {width : Nat}
    {blank : α} (build : α → β) (refuses : Refuses input reader width blank) :
    Refuses input (reader >>= fun x => Pure.pure (build x)) width (build blank) := by
  intro state good short room
  change (reader state).bind (fun pair => some (build pair.1, pair.2)) = _
  rw [refuses state good short room]
  rfl

section Take
variable {σ τ α β : Type} (input : Input σ τ) (left : Nat)

/-- The state in front of chunks of which only `n` items are there, `left` of
them in the chunk that is cut.  Once that chunk has been passed, they are what
remains. -/
structure Standing (state : σ) (chunks : List (List τ)) (n : Nat) : Prop where
  good : input.good state
  ahead : (input.unread state = chunks.flatten.take n ∧ n < chunks.flatten.length ∧
      leftover chunks n = left) ∨ (n = 0 ∧ (input.unread state).length = left)
  room : chunks.flatten.length < (input.unread state).length + input.slack

/-- On an input cut after `n` items, the reader of the chunks at `start` returns
the value and goes on behind them. -/
def Takes (n start : Nat) (reader : StateT σ Option α) (chunks : List (List τ)) (value : α) :
    Prop :=
  ∀ state more, Standing input left state (chunks ++ more) (n - start) →
    ∃ next, reader state = some (value, next) ∧
      Standing input left next more (n - (start + chunks.flatten.length))

variable {input : Input σ τ} {left n start : Nat}

theorem Standing.skip {state : σ} {chunks more : List (List τ)}
    (standing : Standing input left state (chunks ++ more) 0) :
    Standing input left state more 0 := by
  refine ⟨standing.good, Or.inr ⟨rfl, ?_⟩, ?_⟩
  · rcases standing.ahead with ⟨unread, _, isLeft⟩ | ⟨_, remains⟩
    · rw [leftover_zero] at isLeft
      rw [unread, ← isLeft]
      rfl
    · exact remains
  · have room := standing.room
    rw [List.flatten_append, List.length_append] at room
    omega

theorem Takes.pure (value : α) : Takes input left n start (Pure.pure value) [] value := by
  intro state more standing
  exact ⟨state, rfl, standing⟩

theorem Takes.pure_behind (behind : n ≤ start) (chunks : List (List τ)) (value : α) :
    Takes input left n start (Pure.pure value) chunks value := by
  intro state more standing
  rw [Nat.sub_eq_zero_of_le behind] at standing
  refine ⟨state, rfl, ?_⟩
  rw [Nat.sub_eq_zero_of_le (by omega)]
  exact standing.skip

theorem Takes.bind {first : StateT σ Option α} {next : α → StateT σ Option β}
    {chunks more : List (List τ)} {value : α} {result : β}
    (here : Takes input left n start first chunks value)
    (there : Takes input left n (start + chunks.flatten.length) (next value) more result) :
    Takes input left n start (first >>= next) (chunks ++ more) result := by
  intro state rest standing
  rw [List.append_assoc] at standing
  obtain ⟨middle, run, middleStanding⟩ := here state _ standing
  obtain ⟨final, runRest, finalStanding⟩ := there middle rest middleStanding
  refine ⟨final, ?_, ?_⟩
  · change (first state).bind (fun pair => next pair.1 pair.2) = _
    rw [run]
    exact runRest
  · rw [List.flatten_append, List.length_append, ← Nat.add_assoc]
    exact finalStanding

theorem Takes.map {reader : StateT σ Option α} {chunks : List (List τ)} {value : α}
    (build : α → β) (here : Takes input left n start reader chunks value) :
    Takes input left n start (reader >>= fun x => Pure.pure (build x)) chunks (build value) := by
  have composed : Takes input left n start (reader >>= fun x => Pure.pure (build x)) (chunks ++ [])
      (build value) := here.bind (Takes.pure (build value))
  rwa [List.append_nil] at composed

/-- The field that ends at offset `stop`, blank unless it is there as a whole. -/
def held (blank value : α) (stop n : Nat) : α := if stop ≤ n then value else blank

theorem held_map (build : α → β) (blank value : α) (stop n : Nat) :
    build (held blank value stop n) = held (build blank) (build value) stop n :=
  apply_ite build _ _ _

theorem Takes.read {reader : StateT σ Option α} {chunk : List τ} {value blank : α}
    (reads : Reads input.good input.unread reader chunk value)
    (refuses : Refuses input reader chunk.length blank)
    (wide : left < chunk.length) :
    Takes input left n start reader [chunk] (held blank value (start + chunk.length) n) := by
  intro state more standing
  have good := standing.good
  have room := standing.room
  rw [List.singleton_append, List.flatten_cons, List.length_append] at room
  have width : [chunk].flatten.length = chunk.length := by
    rw [List.flatten_singleton]
  rw [width, held]
  rcases standing.ahead with ⟨unread, inside, isLeft⟩ | ⟨behind, remains⟩
  · rw [List.singleton_append, List.flatten_cons] at unread inside
    rw [List.singleton_append] at isLeft
    rw [List.length_append] at inside
    by_cases whole : start + chunk.length ≤ n
    · rw [List.take_append, List.take_of_length_le (by omega)] at unread
      rw [leftover_behind (by omega), Nat.sub_sub] at isLeft
      rw [Nat.sub_sub] at unread
      obtain ⟨next, run, nextGood, nextUnread⟩ := reads state _ good unread
      rw [if_pos whole]
      refine ⟨next, run, nextGood, Or.inl ⟨nextUnread, by omega, isLeft⟩, ?_⟩
      have lengths := congrArg List.length unread
      rw [List.length_append] at lengths
      rw [nextUnread]
      omega
    · have short : n - start < chunk.length := by
        by_contra long
        exact whole (by omega)
      have remains : (input.unread state).length = n - start := by
        rw [unread, List.length_take, List.length_append]
        omega
      rw [leftover_here short] at isLeft
      rw [if_neg whole, refuses state good (by omega) (by omega)]
      exact ⟨state, rfl, good, Or.inr ⟨by omega, remains.trans isLeft⟩, by omega⟩
  · rw [if_neg (by omega), refuses state good (by omega) (by omega)]
    exact ⟨state, rfl, good, Or.inr ⟨by omega, remains⟩, by omega⟩

/-- The items at `start` and behind it, each as the cut leaves it. -/
def cutMany {γ : Type} (length : γ → Nat) (cutAt : Nat → γ → α) : Nat → List γ → List α
  | _, [] => []
  | start, item :: items =>
      cutAt start item :: cutMany length cutAt (start + length item) items

theorem Takes.readMany {γ : Type} {reader : StateT σ Option α} (chunks : γ → List (List τ))
    (cutAt : Nat → γ → α) (items : List γ) :
    ∀ start, (∀ item ∈ items, ∀ start, Takes input left n start reader (chunks item)
      (cutAt start item)) →
    Takes input left n start (readMany reader items.length) (items.flatMap chunks)
      (cutMany (fun item => (chunks item).flatten.length) cutAt start items) := by
  induction items with
  | nil => exact fun start _ => Takes.pure []
  | cons item items ih =>
      intro start each
      have head := each item (List.mem_cons_self ..) start
      have tail := ih (start + (chunks item).flatten.length)
        fun item member => each item (List.mem_cons_of_mem _ member)
      exact head.bind (tail.map fun values => cutAt start item :: values)

end Take

/-! ## What is blank -/

section Blank
variable {α : Type} {blank value : α} {n stop : Nat}

theorem held_eq_value_iff : held blank value stop n = value ↔ (n < stop → value = blank) := by
  unfold held
  split
  · exact ⟨fun _ lost => absurd lost (by omega), fun _ => rfl⟩
  · exact ⟨fun same _ => same.symm, fun lost => (lost (by omega)).symm⟩

theorem held_eq_blank_iff : held blank value stop n = blank ↔ (stop ≤ n → value = blank) := by
  unfold held
  split
  · exact ⟨fun same _ => same, fun kept => kept (by assumption)⟩
  · exact ⟨fun _ kept => absurd kept (by assumption), fun _ => rfl⟩

variable {τ : Type} (isBlank : List τ → Prop) (ends : Nat → Prop)

/-- Of the chunks at `start` and behind it, those that end where `ends` says are blank. -/
def BlankWhere : Nat → List (List τ) → Prop
  | _, [] => True
  | start, chunk :: chunks =>
      (ends (start + chunk.length) → isBlank chunk) ∧ BlankWhere (start + chunk.length) chunks

/-- What a cut after `n` items leaves of the chunks is blank. -/
def KeptBlank (n start : Nat) (chunks : List (List τ)) : Prop :=
  BlankWhere isBlank (· ≤ n) start chunks

/-- What it takes of them is blank; a chunk it falls into is taken. -/
def LostBlank (n start : Nat) (chunks : List (List τ)) : Prop :=
  BlankWhere isBlank (n < ·) start chunks

variable {isBlank ends}

theorem blankWhere_append {first second : List (List τ)} : ∀ {start : Nat},
    BlankWhere isBlank ends start (first ++ second) ↔
      BlankWhere isBlank ends start first ∧
        BlankWhere isBlank ends (start + first.flatten.length) second := by
  induction first with
  | nil => exact fun {start} => (and_iff_right trivial).symm
  | cons chunk chunks ih =>
      intro start
      rw [List.cons_append, BlankWhere, BlankWhere, ih, List.flatten_cons, List.length_append,
        Nat.add_assoc, and_assoc]

theorem keptBlank_behind {chunks : List (List τ)} : ∀ {start : Nat}, n < start →
    KeptBlank isBlank n start chunks := by
  induction chunks with
  | nil => exact fun _ => trivial
  | cons chunk chunks ih =>
      intro start behind
      refine ⟨fun inside => absurd inside ?_, ih (by omega)⟩
      omega

variable {γ : Type} {chunks : γ → List (List τ)} {cutAt : Nat → γ → γ} {items : List γ}

theorem cutMany_eq_nil_iff {length : γ → Nat} {start : Nat} :
    cutMany length cutAt start items = [] ↔ items = [] := by
  cases items with
  | nil => exact Iff.rfl
  | cons item items => exact iff_of_false (List.cons_ne_nil _ _) (List.cons_ne_nil _ _)

theorem cutMany_eq_self_iff
    (each : ∀ item ∈ items, ∀ start,
      cutAt start item = item ↔ LostBlank isBlank n start (chunks item)) : ∀ start,
    cutMany (fun item => (chunks item).flatten.length) cutAt start items = items ↔
      LostBlank isBlank n start (items.flatMap chunks) := by
  induction items with
  | nil => exact fun start => iff_of_true rfl trivial
  | cons item items ih =>
      intro start
      have tail := ih (fun item member => each item (List.mem_cons_of_mem _ member))
        (start + (chunks item).flatten.length)
      rw [cutMany, List.cons_eq_cons, each item (List.mem_cons_self ..), tail, List.flatMap_cons]
      exact blankWhere_append.symm

variable {counted start : Nat}

/-- A list whose count ends at `counted` comes through if its count and its items do. -/
theorem counted_eq_self_iff
    (each : ∀ item ∈ items, ∀ start,
      cutAt start item = item ↔ LostBlank isBlank n start (chunks item)) :
    (if counted ≤ n then cutMany (fun item => (chunks item).flatten.length) cutAt start items
      else []) = items ↔
      (n < counted → items = []) ∧ LostBlank isBlank n start (items.flatMap chunks) := by
  rw [← cutMany_eq_self_iff each]
  split
  · rename_i there
    rw [and_iff_right fun lost => absurd lost (by omega)]
  · rename_i gone
    constructor
    · rintro rfl
      exact ⟨fun _ => rfl, rfl⟩
    · exact fun lost => (lost.1 (by omega)).symm

theorem counted_eq_nil_iff (behind : counted ≤ start) :
    (if counted ≤ n then cutMany (fun item => (chunks item).flatten.length) cutAt start items
      else []) = [] ↔
      (counted ≤ n → items = []) ∧ KeptBlank isBlank n start (items.flatMap chunks) := by
  split
  · rename_i there
    rw [cutMany_eq_nil_iff]
    refine ⟨?_, fun kept => kept.1 there⟩
    rintro rfl
    exact ⟨fun _ => rfl, trivial⟩
  · rename_i gone
    exact iff_of_true rfl ⟨fun there => absurd there gone, keptBlank_behind (by omega)⟩

end Blank

section Overread
variable {σ τ α β : Type} (input : Input σ τ) (grain : Nat)

def Forward (reader : StateT σ Option α) : Prop :=
  ∀ state value next, input.good state → reader state = some (value, next) →
    input.good next ∧ (input.unread next).length ≤ (input.unread state).length

/-- The reader takes something wherever the shortest read succeeds. -/
def Greedy (reader : StateT σ Option α) : Prop :=
  ∀ state value next, input.good state → grain ≤ (input.unread state).length →
    reader state = some (value, next) →
    input.good next ∧ (input.unread next).length < (input.unread state).length

/-- Of a chunk that is cut behind a whole grain the reader takes a part. -/
def Overreads (reader : StateT σ Option α) (chunks : List (List τ)) : Prop :=
  ∀ state value next n, input.good state → input.unread state = chunks.flatten.take n →
    n < chunks.flatten.length → grain ≤ leftover chunks n →
    chunks.flatten.length < n + input.slack → reader state = some (value, next) →
    input.good next ∧ (input.unread next).length < leftover chunks n

variable {input : Input σ τ} {grain : Nat}

theorem bind_eq_some {first : StateT σ Option α} {next : α → StateT σ Option β} {state final : σ}
    {result : β} (run : (first >>= next) state = some (result, final)) :
    ∃ value middle, first state = some (value, middle) ∧
      next value middle = some (result, final) := by
  change (first state).bind (fun pair => next pair.1 pair.2) = _ at run
  obtain ⟨⟨value, middle⟩, firstRun, nextRun⟩ := Option.bind_eq_some_iff.mp run
  exact ⟨value, middle, firstRun, nextRun⟩

theorem Forward.pure (value : α) : Forward input (Pure.pure value) := by
  intro state result next good run
  cases run
  exact ⟨good, Nat.le_refl _⟩

theorem Forward.bind {first : StateT σ Option α} {next : α → StateT σ Option β}
    (here : Forward input first) (there : ∀ value, Forward input (next value)) :
    Forward input (first >>= next) := by
  intro state result final good run
  obtain ⟨value, middle, firstRun, nextRun⟩ := bind_eq_some run
  obtain ⟨middleGood, firstLe⟩ := here state value middle good firstRun
  obtain ⟨finalGood, nextLe⟩ := there value middle result final middleGood nextRun
  exact ⟨finalGood, Nat.le_trans nextLe firstLe⟩

theorem Forward.readMany {reader : StateT σ Option α} (each : Forward input reader) :
    ∀ count, Forward input (readMany reader count) := by
  intro count
  induction count with
  | zero => exact Forward.pure []
  | succ count ih =>
      exact each.bind fun head => ih.bind fun tail => Forward.pure (head :: tail)

theorem Greedy.bind {first : StateT σ Option α} {next : α → StateT σ Option β}
    (here : Greedy input grain first) (there : ∀ value, Forward input (next value)) :
    Greedy input grain (first >>= next) := by
  intro state result final good enough run
  obtain ⟨value, middle, firstRun, nextRun⟩ := bind_eq_some run
  obtain ⟨middleGood, firstLt⟩ := here state value middle good enough firstRun
  obtain ⟨finalGood, nextLe⟩ := there value middle result final middleGood nextRun
  exact ⟨finalGood, Nat.lt_of_le_of_lt nextLe firstLt⟩

theorem Overreads.nil (reader : StateT σ Option α) : Overreads input grain reader [] := by
  intro state value next n _ _ inside
  exact absurd inside (Nat.not_lt_zero _)

theorem leftover_lt_grain {chunks : List (List τ)} (short : ∀ chunk ∈ chunks, chunk.length ≤ grain) :
    ∀ {n : Nat}, n < chunks.flatten.length → leftover chunks n < grain := by
  induction chunks with
  | nil => exact fun inside => absurd inside (Nat.not_lt_zero _)
  | cons chunk chunks ih =>
      intro n inside
      rw [List.flatten_cons, List.length_append] at inside
      have first := short chunk (List.mem_cons_self ..)
      by_cases here : n < chunk.length
      · rw [leftover_here here]
        omega
      · rw [leftover_behind (by omega)]
        exact ih (fun chunk member => short chunk (List.mem_cons_of_mem _ member)) (by omega)

/-- Short reads in front leave it to what follows. -/
theorem Overreads.behind {first : StateT σ Option α} {next : α → StateT σ Option β}
    {chunks more : List (List τ)} {value : α}
    (reads : Reads input.good input.unread first chunks.flatten value)
    (short : ∀ chunk ∈ chunks, chunk.length ≤ grain)
    (there : Overreads input grain (next value) more) :
    Overreads input grain (first >>= next) (chunks ++ more) := by
  intro state result final n good unread inside enough room run
  rw [List.flatten_append, List.length_append] at inside room
  obtain ⟨found, middle, firstRun, nextRun⟩ := bind_eq_some run
  have behind : chunks.flatten.length ≤ n := by
    by_contra cut
    rw [leftover_append_left more (by omega)] at enough
    have few : leftover chunks n < grain := leftover_lt_grain short (by omega)
    omega
  rw [take_flatten_append_right more behind] at unread
  rw [leftover_append_right more behind] at enough ⊢
  obtain ⟨middle', run', middleGood, middleUnread⟩ := reads state _ good unread
  rw [firstRun] at run'
  cases run'
  exact there middle result final _ middleGood middleUnread (by omega) enough (by omega) nextRun

theorem Overreads.andThen {first : StateT σ Option α} {next : α → StateT σ Option β}
    {chunks : List (List τ)} (here : Overreads input grain first chunks)
    (forward : ∀ value, Forward input (next value)) :
    Overreads input grain (first >>= next) chunks := by
  intro state result final n good unread inside enough room run
  obtain ⟨value, middle, firstRun, nextRun⟩ := bind_eq_some run
  obtain ⟨middleGood, firstLt⟩ := here state value middle n good unread inside enough room firstRun
  obtain ⟨finalGood, nextLe⟩ := forward value middle result final middleGood nextRun
  exact ⟨finalGood, Nat.lt_of_le_of_lt nextLe firstLt⟩

theorem Overreads.bind {first : StateT σ Option α} {next : α → StateT σ Option β}
    {chunks more : List (List τ)} {value : α}
    (reads : Reads input.good input.unread first chunks.flatten value)
    (here : Overreads input grain first chunks) (forward : ∀ value, Forward input (next value))
    (there : Overreads input grain (next value) more) :
    Overreads input grain (first >>= next) (chunks ++ more) := by
  intro state result final n good unread inside enough room run
  rw [List.flatten_append, List.length_append] at inside room
  by_cases cut : n < chunks.flatten.length
  · rw [take_flatten_append_left more cut] at unread
    rw [leftover_append_left more cut] at enough ⊢
    exact here.andThen forward state result final n good unread cut enough (by omega) run
  · obtain ⟨found, middle, firstRun, nextRun⟩ := bind_eq_some run
    rw [take_flatten_append_right more (by omega)] at unread
    rw [leftover_append_right more (by omega)] at enough ⊢
    obtain ⟨next', run', middleGood, middleUnread⟩ := reads state _ good unread
    rw [firstRun] at run'
    cases run'
    exact there middle result final _ middleGood middleUnread (by omega) enough (by omega) nextRun

/-- The chunk of a read that fails is left to a greedy reader. -/
theorem Overreads.wide {first : StateT σ Option α} {next : α → StateT σ Option β}
    {chunk : List τ} {more : List (List τ)} {value blank : α}
    (reads : Reads input.good input.unread first chunk value)
    (refuses : Refuses input first chunk.length blank)
    (greedy : Greedy input grain (next blank))
    (there : Overreads input grain (next value) more) :
    Overreads input grain (first >>= next) (chunk :: more) := by
  intro state result final n good unread inside enough room run
  rw [List.flatten_cons, List.length_append] at inside room
  rw [List.flatten_cons] at unread
  obtain ⟨found, middle, firstRun, nextRun⟩ := bind_eq_some run
  by_cases cut : n < chunk.length
  · have remains : (input.unread state).length = n := by
      rw [unread, List.length_take, List.length_append]
      omega
    rw [leftover_here cut] at enough ⊢
    rw [refuses state good (by omega) (by omega)] at firstRun
    cases firstRun
    have taken := greedy state result final good (by omega) nextRun
    rwa [remains] at taken
  · rw [List.take_append, List.take_of_length_le (by omega)] at unread
    rw [leftover_behind (by omega)] at enough ⊢
    obtain ⟨next', run', middleGood, middleUnread⟩ := reads state _ good unread
    rw [firstRun] at run'
    cases run'
    exact there middle result final _ middleGood middleUnread (by omega) enough (by omega) nextRun

theorem Overreads.readMany {γ : Type} {reader : StateT σ Option α} (chunks : γ → List (List τ))
    (decoded : γ → α) (forward : Forward input reader) (items : List γ)
    (reads : ∀ item ∈ items,
      Reads input.good input.unread reader (chunks item).flatten (decoded item))
    (each : ∀ item ∈ items, Overreads input grain reader (chunks item)) :
    Overreads input grain (readMany reader items.length) (items.flatMap chunks) := by
  induction items with
  | nil => exact Overreads.nil _
  | cons item items ih =>
      have tailReads := fun item member => reads item (List.mem_cons_of_mem _ member)
      have tail := ih tailReads fun item member => each item (List.mem_cons_of_mem _ member)
      have rest : ∀ head : α, ∀ tail : List α, Forward input (Pure.pure (head :: tail)) :=
        fun head tail => Forward.pure (head :: tail)
      refine Overreads.bind (reads item (List.mem_cons_self ..))
        (each item (List.mem_cons_self ..)) ?_ (tail.andThen (rest _))
      exact fun head => (forward.readMany items.length).bind (rest head)

end Overread

end Umr.Lib
