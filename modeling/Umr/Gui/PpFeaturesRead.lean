import Umr.Gui.PpFeatures
import Umr.Gui.VmInfoRead

/-!
# What is read of the power features

The lines of the kernel read one by one, the array and the mask they make, and when the
answer is the one the text stands for.
-/

set_option autoImplicit false

namespace Umr.Gui

open Umr.Lib Umr.Registers Umr.Gui.Trace

/-! ## What a line is read as -/

instance (feature : Feature) : Decidable feature.Utf8 := inferInstanceAs (Decidable (_ = true))

def Feature.sentName (feature : Feature) : Option (List Char) :=
  if feature.Utf8 then some feature.name else none

def PpFormat.shown : PpFormat → Feature → Bool
  | .vega _, feature => feature.on
  | .numbered _ _, feature => feature.on || decide ("enabled".toList <:+: feature.name)

def PpFormat.Parsed : PpFormat → Feature → Prop
  | .vega _, _ => True
  | .numbered _ _, feature => feature.name ≠ [] ∧ feature.listed.length < 2048

structure PpFormat.ReadAs (format : PpFormat) (feature : Feature) (line : FeatureLine) : Prop where
  name : jsonStringWithLen line.nameStart line.nameLength = feature.sentName
  bit : line.bit = feature.bit
  state : line.enabled = format.shown feature

section Lines
variable (feature : Feature)

theorem Feature.noBlank : ' ' ∉ feature.name := by
  intro member
  exact absurd (feature.noSpace ' ' member).1 (by decide)

theorem alignLeft_blank (width : Nat) (text rest : List Char) :
    alignLeft width text ++ ' ' :: rest =
      text ++ ' ' :: (List.replicate (width - text.length) ' ' ++ rest) := by
  have moved : ∀ count, List.replicate count ' ' ++ ' ' :: rest =
      ' ' :: (List.replicate count ' ' ++ rest) := by
    intro count
    induction count with
    | zero => rfl
    | succ count ih => rw [List.replicate_succ, List.cons_append, ih, List.cons_append]
  rw [alignLeft, List.append_assoc, moved]

theorem dropBlanks (count : Nat) {rest : List Char} (stop : StopsAt (· = ' ') rest) :
    (List.replicate count ' ' ++ rest).dropWhile (· = ' ') = rest := by
  rw [List.dropWhile_append_of_pos fun c member => decide_eq_true (List.eq_of_mem_replicate member)]
  cases rest with
  | nil => rfl
  | cons c rest =>
      have other : decide (c = ' ') = false := stop c rfl
      exact List.dropWhile_cons_of_neg (by rw [other]; decide)

theorem lowestBit_power {bit : Nat} (below : bit < 64) :
    lowestBit (UInt64.ofNat (2 ^ bit)) = some bit := by
  have each : ∀ bit < 64, lowestBit (UInt64.ofNat (2 ^ bit)) = some bit := by decide +kernel
  exact each bit below

theorem parsePpFeatureVegaLine_line (mask : UInt64) (below : feature.bit < 64) (rest : List Char) :
    ∃ line, parsePpFeatureVegaLine (feature.vegaLine ++ '\n' :: rest) = some (some line) ∧
      (PpFormat.vega mask).ReadAs feature line := by
  have fits : 2 ^ feature.bit < 16 ^ 16 :=
    Nat.lt_of_lt_of_le (Nat.pow_lt_pow_right (by decide) below) (by decide)
  let state := alignRight 6 [if feature.on then 'Y' else 'N'] ++ '\n' :: rest
  let mask := printPadded 16 (2 ^ feature.bit) ++ ' ' :: state
  let behind := List.replicate (19 - feature.name.length) ' ' ++ ("0x".toList ++ mask)
  have shape : feature.vegaLine ++ '\n' :: rest = feature.name ++ ' ' :: behind := by
    have moved := alignLeft_blank 19 feature.name ("0x".toList ++ mask)
    simpa [Feature.vegaLine, mask, state, behind] using moved
  have found : strchr ' ' (feature.name ++ ' ' :: behind) = some (' ' :: behind) :=
    strchr_behind feature.noBlank
  have toMask : (' ' :: behind).dropWhile (· = ' ') = "0x".toList ++ mask := by
    have stop : StopsAt (· = ' ') ("0x".toList ++ mask) := by
      intro c first
      cases first
      rfl
    exact dropBlanks (19 - feature.name.length + 1) stop
  have stop : StopsAt isxdigit (' ' :: state) := by
    intro c first
    cases first
    rfl
  have scanned : (scanLiteral "0x".toList ("0x".toList ++ mask)).bind sscanfHex =
      some (UInt64.ofNat (2 ^ feature.bit)) :=
    sscanfHex_printPadded (by decide) fits stop
  have width : (printPadded 16 (2 ^ feature.bit)).length = 16 :=
    length_printPadded_eq (by decide) fits
  have long : ¬ ("0x".toList ++ mask).length < 18 := by
    simp [mask, width]
  have toState : ("0x".toList ++ mask).drop 18 = ' ' :: state := by
    have dropped : mask.drop 16 = ' ' :: state := List.drop_left' width
    exact dropped
  have shown : (' ' :: state).dropWhile (· = ' ') =
      (if feature.on then 'Y' else 'N') :: '\n' :: rest := by
    have stop : StopsAt (· = ' ') ((if feature.on then 'Y' else 'N') :: '\n' :: rest) := by
      intro c first
      cases first
      cases feature.on <;> rfl
    exact dropBlanks 6 stop
  refine ⟨⟨feature.name ++ ' ' :: behind, feature.name.length, feature.bit, feature.on⟩, ?_, ?_⟩
  · rw [shape, parsePpFeatureVegaLine, found]
    dsimp only
    rw [toMask, scanned]
    dsimp only
    rw [lowestBit_power below]
    dsimp only
    rw [if_neg long, toState, shown]
    simp
  · exact ⟨jsonStringWithLen_name (by decide) feature.name behind, rfl, rfl⟩

theorem featureLabel_ne_nil (i : Nat) : featureLabel i ≠ [] := by
  simp [featureLabel]

theorem lookupField_label (i count : Nat) {value rest : List Char} (oneLine : '\n' ∉ value)
    (some_ : value ≠ []) (starts : ∀ c ∈ value.head?, c ≠ ' ' ∧ c ≠ '\t') :
    lookupField (featureLabel i ++ ' ' :: (List.replicate count ' ' ++ (value ++ '\n' :: rest)))
        (featureLabel i) ' ' =
      if 2048 ≤ value.length then none else some (some value) := by
  obtain ⟨c, more, rfl⟩ := List.exists_cons_of_ne_nil some_
  have here : ∀ rest, strchr ' ' (' ' :: rest) = some (' ' :: rest) := strstr_here [' ']
  have input : (List.replicate count ' ' ++ (c :: more ++ '\n' :: rest)).dropWhile
      (fun c => c = ' ' ∨ c = '\t') = c :: (more ++ '\n' :: rest) := by
    rw [List.dropWhile_append_of_pos fun d member =>
      decide_eq_true (.inl (List.eq_of_mem_replicate member))]
    refine List.dropWhile_cons_of_neg ?_
    rw [decide_eq_true_iff]
    exact not_or.mpr (starts c rfl)
  have ends : strchr '\n' ((c :: (more ++ '\n' :: rest)).drop 1) = some ('\n' :: rest) :=
    strchr_behind fun member => oneLine (List.mem_cons_of_mem c member)
  have field : (c :: (more ++ '\n' :: rest)).take
      ((c :: (more ++ '\n' :: rest)).length - ('\n' :: rest).length) = c :: more := by
    refine @List.take_left' _ (c :: more) _ _ ?_
    simp
    omega
  rw [lookupField, strstr_here]
  dsimp only
  rw [List.drop_left, here]
  dsimp only
  rw [List.drop_succ_cons, List.drop_zero, input, ends]
  dsimp only
  rw [field]

def Feature.bitAndState : List Char :=
  '(' :: (alignRight 2 (printDec feature.bit) ++ (") : ".toList ++ stateText feature.on))

theorem Feature.listed_eq : feature.listed = feature.name ++ ' ' ::
    (List.replicate (20 - feature.name.length) ' ' ++ feature.bitAndState) :=
  alignLeft_blank 20 feature.name _

theorem Feature.bitAndState_oneLine : '\n' ∉ feature.bitAndState := by
  have digits : '\n' ∉ printDec feature.bit := absent_printDec (by decide) feature.bit
  have state : '\n' ∉ stateText feature.on := by cases feature.on <;> decide
  simp [Feature.bitAndState, alignRight, digits, state]

theorem Feature.listed_oneLine : '\n' ∉ feature.listed := by
  have name : '\n' ∉ feature.name := fun member => absurd (feature.noSpace _ member).1 (by decide)
  rw [Feature.listed_eq]
  simp [name, Feature.bitAndState_oneLine]

/-- The state is looked for in the whole line. -/
theorem strstr_enabled :
    (strstr "enabled".toList feature.listed).isSome =
      (feature.on || decide ("enabled".toList <:+: feature.name)) := by
  by_cases inside : "enabled".toList <:+: feature.name
  · obtain ⟨found, isFound, -⟩ := strstr_within inside
      (' ' :: (List.replicate (20 - feature.name.length) ' ' ++ feature.bitAndState))
    rw [Feature.listed_eq, isFound, decide_eq_true inside, Bool.or_true]
    rfl
  · have digits : 'e' ∉ printDec feature.bit := absent_printDec (by decide) feature.bit
    have front : 'e' ∉ List.replicate (20 - feature.name.length) ' ' ++
        '(' :: (alignRight 2 (printDec feature.bit) ++ ") : ".toList) := by
      simp [alignRight, digits]
    have shape : List.replicate (20 - feature.name.length) ' ' ++ feature.bitAndState =
        (List.replicate (20 - feature.name.length) ' ' ++
          '(' :: (alignRight 2 (printDec feature.bit) ++ ") : ".toList)) ++
            (stateText feature.on ++ []) := by
      simp [Feature.bitAndState]
    have passed : strstr "enabled".toList (List.replicate (20 - feature.name.length) ' ' ++
        feature.bitAndState) = strstr "enabled".toList (stateText feature.on ++ []) := by
      rw [shape]
      exact strstr_absent front
    rw [Feature.listed_eq, strstr_skip inside (by decide), passed, decide_eq_false inside,
      Bool.or_false]
    cases feature.on <;> decide

theorem numberedLine_field (i : Nat) (rest : List Char) (named : feature.name ≠ []) :
    lookupField (feature.numberedLine i ++ '\n' :: rest) (featureLabel i) ' ' =
      if 2048 ≤ feature.listed.length then none else some (some feature.listed) := by
  have shape : feature.numberedLine i ++ '\n' :: rest =
      featureLabel i ++ ' ' :: (List.replicate 0 ' ' ++ (feature.listed ++ '\n' :: rest)) := by
    simp [Feature.numberedLine]
  have starts : ∀ c ∈ feature.listed.head?, c ≠ ' ' ∧ c ≠ '\t' := by
    intro c first
    rw [Feature.listed_eq, List.head?_append_of_ne_nil _ named] at first
    have plain := (feature.noSpace c (List.mem_of_mem_head? first)).1
    constructor <;> rintro rfl <;> cases plain
  have some_ : feature.listed ≠ [] := by simp [Feature.listed_eq]
  rw [shape, lookupField_label i 0 feature.listed_oneLine some_ starts]

theorem parsePpFeatureLine_long (i : Nat) (rest : List Char) (named : feature.name ≠ [])
    (long : ¬ feature.listed.length < 2048) :
    parsePpFeatureLine (feature.numberedLine i ++ '\n' :: rest) i = none := by
  rw [parsePpFeatureLine, numberedLine_field feature i rest named, if_pos (Nat.not_lt.mp long)]

/-- Without a name, the bit is taken for it and the state for the bit. -/
theorem parsePpFeatureLine_nameless (i : Nat) (rest : List Char) (nameless : feature.name = [])
    (below : feature.bit < 64) :
    parsePpFeatureLine (feature.numberedLine i ++ '\n' :: rest) i = some none := by
  have shape : feature.numberedLine i ++ '\n' :: rest = featureLabel i ++ ' ' ::
      (List.replicate 21 ' ' ++ (feature.bitAndState ++ '\n' :: rest)) := by
    rw [Feature.numberedLine, Feature.listed_eq, nameless]
    simp [List.replicate]
  have starts : ∀ c ∈ feature.bitAndState.head?, c ≠ ' ' ∧ c ≠ '\t' := by
    intro c first
    cases first
    decide
  have some_ : feature.bitAndState ≠ [] := by simp [Feature.bitAndState]
  have digits : (printDec feature.bit).length ≤ 2 := by
    have each : ∀ bit < 64, (printDec bit).length ≤ 2 := by decide +kernel
    exact each feature.bit below
  have short : ¬ 2048 ≤ feature.bitAndState.length := by
    have state : (stateText feature.on).length ≤ 8 := by cases feature.on <;> decide
    simp [Feature.bitAndState, alignRight]
    omega
  have unread : ∀ bit < 64, ∀ on,
      ((strchr ' ' ('(' :: (alignRight 2 (printDec bit) ++ (") : ".toList ++ stateText on)))).map
        fun sp => (scanLiteral "(".toList (sp.dropWhile (· = ' '))).bind scanInt) = some none := by
    decide +kernel
  obtain ⟨sp, found, none_⟩ := Option.map_eq_some_iff.mp (unread feature.bit below feature.on)
  rw [shape, parsePpFeatureLine, lookupField_label i 21 feature.bitAndState_oneLine some_ starts,
    if_neg short]
  dsimp only
  rw [Feature.bitAndState, found]
  dsimp only
  rw [none_]

theorem parsePpFeatureLine_line (high low : UInt32) (i : Nat) (rest : List Char)
    (parsed : (PpFormat.numbered high low).Parsed feature) (below : feature.bit < 64) :
    ∃ line, parsePpFeatureLine (feature.numberedLine i ++ '\n' :: rest) i = some (some line) ∧
      (PpFormat.numbered high low).ReadAs feature line := by
  obtain ⟨named, short⟩ := parsed
  let behind := List.replicate (20 - feature.name.length) ' ' ++ feature.bitAndState
  have found : strchr ' ' feature.listed = some (' ' :: behind) := by
    rw [Feature.listed_eq]
    exact strchr_behind feature.noBlank
  have toBit : (' ' :: behind).dropWhile (· = ' ') = feature.bitAndState := by
    have stop : StopsAt (· = ' ') feature.bitAndState := by
      intro c first
      cases first
      rfl
    exact dropBlanks (20 - feature.name.length + 1) stop
  have scanned : scanInt (alignRight 2 (printDec feature.bit) ++
        (") : ".toList ++ stateText feature.on)) =
      some ((feature.bit : Int), ") : ".toList ++ stateText feature.on) := by
    have gap : ∀ c ∈ List.replicate (2 - (printDec feature.bit).length) ' ', isspace c = true := by
      intro c member
      rw [List.eq_of_mem_replicate member]
      rfl
    have ends : StopsAt isdigit (") : ".toList ++ stateText feature.on) := by
      intro c first
      cases first
      rfl
    have low : -2 ^ 31 ≤ (feature.bit : Int) := by omega
    have high : (feature.bit : Int) < 2 ^ 31 := by omega
    have number := scanInt_printInt low high gap ends
    rw [printInt_natCast] at number
    rw [alignRight, List.append_assoc, number]
  have bracket : scanLiteral "(".toList feature.bitAndState =
      some (alignRight 2 (printDec feature.bit) ++ (") : ".toList ++ stateText feature.on)) := rfl
  refine ⟨⟨feature.listed, feature.name.length, feature.bit,
    feature.on || decide ("enabled".toList <:+: feature.name)⟩, ?_, ?_, rfl, rfl⟩
  · rw [parsePpFeatureLine, numberedLine_field feature i rest named, if_neg (Nat.not_le.mpr short)]
    dsimp only
    rw [found]
    dsimp only
    rw [toBit, bracket, Option.bind_some, scanned]
    dsimp only
    rw [strstr_enabled, Feature.listed_eq]
    simp [behind]
  · rw [Feature.listed_eq]
    exact jsonStringWithLen_name (by decide) feature.name behind

end Lines

/-! ## The array and the mask -/

section Tables

def tableFrom : Nat → List Feature → List FeatureObject
  | _, [] => []
  | start, feature :: features =>
      List.replicate (feature.bit - start) FeatureObject.empty ++
        feature.object :: tableFrom (feature.bit + 1) features

def maskFrom : UInt64 → List Feature → UInt64
  | raw, [] => raw
  | raw, feature :: features =>
      maskFrom (if feature.on then raw ||| (1 <<< UInt64.ofNat feature.bit) else raw) features

structure Ordered (start : Nat) (features : List Feature) : Prop where
  increasing : (features.map Feature.bit).Pairwise (· < ·)
  above : ∀ feature ∈ features, start ≤ feature.bit
  below : ∀ feature ∈ features, feature.bit < 64

variable {start : Nat} {feature : Feature} {features : List Feature}

theorem Ordered.tail (ordered : Ordered start (feature :: features)) :
    Ordered (feature.bit + 1) features := by
  have ⟨first, later⟩ := List.pairwise_cons.mp ordered.increasing
  refine ⟨later, ?_, fun other member => ordered.below other (List.mem_cons_of_mem _ member)⟩
  intro other member
  exact first other.bit (List.mem_map_of_mem member)

theorem Ordered.length_le (ordered : Ordered start features) : features.length ≤ 64 - start := by
  induction features generalizing start with
  | nil => exact Nat.zero_le _
  | cons feature features ih =>
      have above := ordered.above feature List.mem_cons_self
      have below := ordered.below feature List.mem_cons_self
      have later := ih ordered.tail
      rw [List.length_cons]
      omega

theorem FeatureList.ordered (list : FeatureList) : Ordered 0 list.features :=
  ⟨list.increasing, fun _ _ => Nat.zero_le _, list.below⟩

theorem tableFrom_behind (i : Nat) :
    (tableFrom start (feature :: features))[feature.bit - start + i]? =
      (feature.object :: tableFrom (feature.bit + 1) features)[i]? := by
  rw [tableFrom, List.getElem?_append_right (by simp)]
  simp

theorem tableFrom_listed (ordered : Ordered start features) :
    ∀ feature ∈ features,
      (tableFrom start features)[feature.bit - start]? = some feature.object := by
  induction features generalizing start with
  | nil => nofun
  | cons first features ih =>
      have above := ordered.above first List.mem_cons_self
      intro feature member
      rcases List.mem_cons.mp member with rfl | later
      · exact tableFrom_behind 0
      · have behind := ordered.tail.above feature later
        have place : feature.bit - start =
            first.bit - start + (feature.bit - (first.bit + 1) + 1) := by
          omega
        rw [place, tableFrom_behind _, List.getElem?_cons_succ]
        exact ih ordered.tail feature later

theorem tableFrom_gaps (ordered : Ordered start features) {i : Nat}
    (within : i < (tableFrom start features).length)
    (unlisted : ∀ feature ∈ features, feature.bit ≠ start + i) :
    (tableFrom start features)[i]? = some FeatureObject.empty := by
  induction features generalizing start i with
  | nil => cases within
  | cons first features ih =>
      have above := ordered.above first List.mem_cons_self
      have other := unlisted first List.mem_cons_self
      rcases Nat.lt_or_ge i (first.bit - start) with before | behind
      · rw [tableFrom, List.getElem?_append_left (by simpa using before)]
        simp [before]
      · obtain ⟨k, rfl⟩ : ∃ k, i = first.bit - start + (k + 1) :=
          ⟨i - (first.bit - start) - 1, by omega⟩
        rw [tableFrom_behind _, List.getElem?_cons_succ]
        refine ih ordered.tail ?_ ?_
        · simp [tableFrom] at within
          omega
        · intro feature member
          have unlike := unlisted feature (List.mem_cons_of_mem _ member)
          omega

theorem tableFrom_ends (ordered : Ordered start features) :
    start + (tableFrom start features).length =
      (features.getLast?.map fun feature => feature.bit + 1).getD start := by
  induction features generalizing start with
  | nil => rfl
  | cons first features ih =>
      have above := ordered.above first List.mem_cons_self
      have later := ih ordered.tail
      rw [List.getLast?_cons, tableFrom, List.length_append, List.length_replicate,
        List.length_cons]
      cases last : features.getLast? with
      | none =>
          rw [last] at later
          simp only [Option.map_none, Option.map_some, Option.getD_none, Option.getD_some]
            at later ⊢
          omega
      | some final =>
          rw [last] at later
          simp only [Option.map_some, Option.getD_some] at later ⊢
          omega

theorem toNat_placeBit {bit : Nat} (below : bit < 64) :
    ((1 : UInt64) <<< UInt64.ofNat bit).toNat = 2 ^ bit := by
  have small : bit % 2 ^ 64 % 64 = bit := by omega
  have fits : 2 ^ bit < 2 ^ 64 := Nat.pow_lt_pow_right (by decide) below
  rw [UInt64.toNat_shiftLeft, UInt64.toNat_ofNat', small, UInt64.toNat_one, Nat.shiftLeft_eq,
    Nat.one_mul, Nat.mod_eq_of_lt fits]

theorem testBit_maskFrom (raw : UInt64) (ordered : Ordered start features) {i : Nat} :
    (maskFrom raw features).toNat.testBit i =
      (raw.toNat.testBit i || features.any fun feature => feature.bit = i ∧ feature.on) := by
  induction features generalizing raw start with
  | nil => simp [maskFrom]
  | cons first features ih =>
      have below := ordered.below first List.mem_cons_self
      rw [maskFrom, ih _ ordered.tail, List.any_cons, ← Bool.or_assoc]
      congr 1
      cases first.on with
      | false => simp
      | true =>
          rw [if_pos rfl, UInt64.toNat_or, Nat.testBit_or, toNat_placeBit below,
            Nat.testBit_two_pow]
          simp

end Tables

theorem features_eq_table {features : List Feature} (ordered : Ordered 0 features)
    {out : PpFeatures} (right : FeaturesRight features out) :
    out.features = tableFrom 0 features := by
  have sameLength : out.features.length = (tableFrom 0 features).length := by
    rw [right.ends, ← tableFrom_ends ordered, Nat.zero_add]
  refine List.ext_getElem? fun i => ?_
  rcases Nat.lt_or_ge i out.features.length with within | behind
  · by_cases listed : ∃ feature ∈ features, feature.bit = i
    · obtain ⟨feature, member, rfl⟩ := listed
      rw [right.listed feature member]
      exact (tableFrom_listed ordered feature member).symm
    · have unlisted : ∀ feature ∈ features, feature.bit ≠ i :=
        fun feature member same => listed ⟨feature, member, same⟩
      rw [right.gaps i within unlisted, tableFrom_gaps ordered (sameLength ▸ within)
        (by simpa using unlisted)]
  · rw [List.getElem?_eq_none behind, List.getElem?_eq_none (sameLength ▸ behind)]

theorem table_right {features : List Feature} (ordered : Ordered 0 features) :
    FeaturesRight features ⟨tableFrom 0 features, maskFrom 0 features⟩ := by
  refine ⟨tableFrom_listed ordered, ?_, ?_, ?_⟩
  · intro i within unlisted
    exact tableFrom_gaps ordered within (by simpa using unlisted)
  · rw [← tableFrom_ends ordered, Nat.zero_add]
  · intro i _
    rw [testBit_maskFrom 0 ordered]
    simp

/-! ## The loop -/

def PpFormat.parse : PpFormat → List Char → Nat → Option (Option FeatureLine)
  | .vega _ => fun ptr _ => parsePpFeatureVegaLine ptr
  | .numbered _ _ => parsePpFeatureLine

section Loop
variable {format : PpFormat} {feature : Feature} {features : List Feature}

theorem or_decide_eq_self_iff (on : Bool) (word : Prop) [Decidable word] :
    (on || decide word) = on ↔ (on = false → ¬ word) := by
  cases on with
  | false => rw [Bool.false_or, decide_eq_false_iff_not, forall_prop_of_true rfl]
  | true => exact iff_of_true rfl fun off => absurd off Bool.noConfusion

theorem readable_iff :
    format.Readable feature ↔
      format.Parsed feature ∧ feature.sentName = some feature.name ∧
        format.shown feature = feature.on := by
  have sent : feature.sentName = some feature.name ↔ feature.Utf8 := by
    simp [Feature.sentName]
  rw [sent]
  cases format with
  | vega mask => simp [PpFormat.Readable, PpFormat.Parsed, PpFormat.shown]
  | numbered high low =>
      simp only [PpFormat.Readable, PpFormat.Parsed, PpFormat.shown, or_decide_eq_self_iff]
      tauto

theorem parse_parsed (parsed : format.Parsed feature) (below : feature.bit < 64) (i : Nat)
    (rest : List Char) :
    ∃ line, format.parse (format.line i feature ++ '\n' :: rest) i = some (some line) ∧
      format.ReadAs feature line := by
  cases format with
  | vega mask => exact parsePpFeatureVegaLine_line feature mask below rest
  | numbered high low => exact parsePpFeatureLine_line feature high low i rest parsed below

theorem parse_unparsed (unparsed : ¬ format.Parsed feature) (below : feature.bit < 64) (i : Nat)
    (rest : List Char) :
    format.parse (format.line i feature ++ '\n' :: rest) i = none ∨
      format.parse (format.line i feature ++ '\n' :: rest) i = some none := by
  cases format with
  | vega mask => exact absurd trivial unparsed
  | numbered high low =>
      by_cases named : feature.name = []
      · exact .inr (parsePpFeatureLine_nameless feature i rest named below)
      · exact .inl (parsePpFeatureLine_long feature i rest named
          fun short => unparsed ⟨named, short⟩)

theorem parse_end (i : Nat) : format.parse [] i = some none := by
  cases format with
  | vega mask => rfl
  | numbered high low =>
      have absent : strstr (featureLabel i) [] = none := if_neg (featureLabel_ne_nil i)
      simp [PpFormat.parse, parsePpFeatureLine, lookupField, absent]

theorem line_oneLine (i : Nat) : '\n' ∉ format.line i feature := by
  cases format with
  | vega mask =>
      have name : '\n' ∉ feature.name :=
        fun member => absurd (feature.noSpace _ member).1 (by decide)
      have digits : '\n' ∉ printPadded 16 (2 ^ feature.bit) :=
        absent_printPadded (by decide) 16 _
      have state : '\n' ≠ if feature.on then 'Y' else 'N' := by cases feature.on <;> decide
      simp [PpFormat.line, Feature.vegaLine, alignLeft, alignRight, name, digits, state]
  | numbered high low =>
      have digits : '\n' ∉ printDec i := absent_printDec (by decide) i
      simp [PpFormat.line, Feature.numberedLine, featureLabel, digits, feature.listed_oneLine]

theorem add_readAs {line : FeatureLine} (readAs : format.ReadAs feature line) (out : PpFeatures) :
    out.add line = ⟨out.features ++
        (List.replicate (feature.bit - out.features.length) FeatureObject.empty ++
          [⟨feature.sentName, some (format.shown feature)⟩]),
      if format.shown feature then out.rawValue ||| (1 <<< UInt64.ofNat feature.bit)
      else out.rawValue⟩ := by
  have count : ((feature.bit : Int) - out.features.length).toNat =
      feature.bit - out.features.length := by omega
  have bit : UInt64.ofInt (feature.bit : Int) = UInt64.ofNat feature.bit := by
    refine UInt64.toNat.inj ?_
    rw [UInt64.ofInt, UInt64.toNat_ofNat', UInt64.toNat_ofNat']
    omega
  rw [PpFeatures.add, readAs.name, readAs.bit, readAs.state, count, bit]

theorem featureLoop_extends {parse : List Char → Nat → Option (Option FeatureLine)} {turns i : Nat}
    {ptr : List Char} {out last : PpFeatures}
    (ran : featureLoop parse turns i ptr out = some last) : out.features <+: last.features := by
  induction turns generalizing i ptr out with
  | zero =>
      cases ran
      exact List.prefix_rfl
  | succ turns ih =>
      simp only [featureLoop, Option.bind_eq_bind, Option.bind_eq_some_iff] at ran
      obtain ⟨parsed, -, ran⟩ := ran
      cases parsed with
      | none =>
          cases ran
          exact List.prefix_rfl
      | some line =>
          obtain ⟨nextLine, -, ran⟩ := Option.bind_eq_some_iff.mp ran
          exact (List.prefix_append _ _).trans (ih ran)

theorem featureLoop_step (parsed : format.Parsed feature) (below : feature.bit < 64) (turns i : Nat)
    (out : PpFeatures) :
    featureLoop format.parse (turns + 1) i (format.linesFrom i (feature :: features)) out =
      featureLoop format.parse turns (i + 1) (format.linesFrom (i + 1) features)
        ⟨out.features ++ (List.replicate (feature.bit - out.features.length) FeatureObject.empty ++
            [⟨feature.sentName, some (format.shown feature)⟩]),
          if format.shown feature then out.rawValue ||| (1 <<< UInt64.ofNat feature.bit)
          else out.rawValue⟩ := by
  obtain ⟨line, isLine, readAs⟩ :=
    parse_parsed parsed below i (format.linesFrom (i + 1) features)
  have ends : strchr '\n' (format.line i feature ++ '\n' :: format.linesFrom (i + 1) features) =
      some ('\n' :: format.linesFrom (i + 1) features) :=
    strchr_behind (line_oneLine i)
  rw [← add_readAs readAs, PpFormat.linesFrom, featureLoop, isLine]
  simp only [Option.bind_eq_bind, Option.bind_some, ends, List.drop_succ_cons, List.drop_zero]

theorem featureLoop_readable {turns i : Nat} {out : PpFeatures}
    (ordered : Ordered out.features.length features) (enough : features.length ≤ turns)
    (readable : ∀ feature ∈ features, format.Readable feature) :
    featureLoop format.parse turns i (format.linesFrom i features) out =
      some ⟨out.features ++ tableFrom out.features.length features,
        maskFrom out.rawValue features⟩ := by
  induction features generalizing turns i out with
  | nil =>
      cases turns with
      | zero => simp [featureLoop, tableFrom, maskFrom]
      | succ turns => simp [featureLoop, PpFormat.linesFrom, parse_end, tableFrom, maskFrom]
  | cons feature features ih =>
      obtain ⟨turns, rfl⟩ : ∃ more, turns = more + 1 := ⟨turns - 1, by simp at enough; omega⟩
      obtain ⟨first, later⟩ := List.forall_mem_cons.mp readable
      obtain ⟨parsed, sent, shown⟩ := readable_iff.mp first
      have above := ordered.above feature List.mem_cons_self
      have length : ∀ object, (out.features ++
          (List.replicate (feature.bit - out.features.length) FeatureObject.empty ++
            [object])).length = feature.bit + 1 := by
        intro object
        simp
        omega
      rw [featureLoop_step parsed (ordered.below feature List.mem_cons_self), sent, shown,
        ih _ (Nat.le_of_succ_le_succ enough) later]
      · simp [length, tableFrom, maskFrom, Feature.object]
      · rw [length]
        exact ordered.tail

/-- Conversely, a line that is not read for what it says leaves a trace in the array. -/
theorem readable_of_features {turns i : Nat} {out last : PpFeatures}
    (ordered : Ordered out.features.length features) (enough : features.length ≤ turns)
    (ran : featureLoop format.parse turns i (format.linesFrom i features) out = some last)
    (right : last.features = out.features ++ tableFrom out.features.length features) :
    ∀ feature ∈ features, format.Readable feature := by
  induction features generalizing turns i out with
  | nil => nofun
  | cons feature features ih =>
      obtain ⟨turns, rfl⟩ : ∃ more, turns = more + 1 := ⟨turns - 1, by simp at enough; omega⟩
      have above := ordered.above feature List.mem_cons_self
      have below := ordered.below feature List.mem_cons_self
      by_cases parsed : format.Parsed feature
      · rw [featureLoop_step parsed below] at ran
        obtain ⟨more, appended⟩ := featureLoop_extends ran
        have same : FeatureObject.mk feature.sentName (some (format.shown feature)) :: more =
            feature.object :: tableFrom (feature.bit + 1) features := by
          rw [right, tableFrom] at appended
          simpa using appended
        obtain ⟨object, behind⟩ := List.cons.inj same
        obtain ⟨sent, shown⟩ := FeatureObject.mk.inj object
        have first : format.Readable feature :=
          readable_iff.mpr ⟨parsed, sent, Option.some.inj shown⟩
        have length : (out.features ++
            (List.replicate (feature.bit - out.features.length) FeatureObject.empty ++
              [FeatureObject.mk feature.sentName (some (format.shown feature))])).length =
            feature.bit + 1 := by
          simp
          omega
        refine List.forall_mem_cons.mpr ⟨first, ih ?_ (Nat.le_of_succ_le_succ enough) ran ?_⟩
        · rw [length]
          exact ordered.tail
        · rw [length, ← behind, ← appended]
      · exfalso
        have stops : last = out := by
          rw [PpFormat.linesFrom, featureLoop] at ran
          rcases parse_unparsed parsed below i (format.linesFrom (i + 1) features) with none_ | end_
          · rw [none_] at ran
            cases ran
          · rw [end_] at ran
            cases ran
            rfl
        have length := congrArg List.length right
        simp [stops, tableFrom] at length

end Loop

/-! ## The whole file -/

theorem header_lines (format : PpFormat) (rest : List Char) :
    ∃ first second, '\n' ∉ first ∧ '\n' ∉ second ∧
      format.header ++ rest = first ++ '\n' :: (second ++ '\n' :: rest) := by
  cases format with
  | vega mask =>
      refine ⟨"Current ppfeatures: 0x".toList ++ printPadded 16 mask.toNat,
        "FEATURES            BITMASK                ENABLEMENT".toList, ?_, by decide, ?_⟩
      · have digits : '\n' ∉ printPadded 16 mask.toNat := absent_printPadded (by decide) 16 _
        simp [digits]
      · have secondLine : "\nFEATURES            BITMASK                ENABLEMENT\n".toList =
            '\n' :: ("FEATURES            BITMASK                ENABLEMENT".toList ++ ['\n']) := by
          decide +kernel
        unfold PpFormat.header
        rw [secondLine]
        simp only [List.append_assoc, List.cons_append, List.nil_append]
  | numbered high low =>
      refine ⟨"features high: 0x".toList ++ (printPadded 8 high.toNat ++
        (" low: 0x".toList ++ printPadded 8 low.toNat)),
        "No. Feature               Bit : State".toList, ?_, by decide, ?_⟩
      · have highDigits : '\n' ∉ printPadded 8 high.toNat := absent_printPadded (by decide) 8 _
        have lowDigits : '\n' ∉ printPadded 8 low.toNat := absent_printPadded (by decide) 8 _
        simp [highDigits, lowDigits]
      · have secondLine : "\nNo. Feature               Bit : State\n".toList =
            '\n' :: ("No. Feature               Bit : State".toList ++ ['\n']) := by
          decide +kernel
        unfold PpFormat.header
        rw [secondLine]
        simp only [List.append_assoc, List.cons_append, List.nil_append]

theorem parsePpFeaturesSysfsFile_text (format : PpFormat) (list : FeatureList) :
    parsePpFeaturesSysfsFile (format.text list) =
      featureLoop format.parse 64 0 (format.linesFrom 0 list.features) ⟨[], 0⟩ := by
  obtain ⟨first, second, oneLine, alsoOne, shape⟩ :=
    header_lines format (format.linesFrom 0 list.features)
  have firstEnds : strchr '\n' (format.text list) =
      some ('\n' :: (second ++ '\n' :: format.linesFrom 0 list.features)) := by
    rw [PpFormat.text, shape]
    exact strchr_behind oneLine
  have secondEnds : strchr '\n' (second ++ '\n' :: format.linesFrom 0 list.features) =
      some ('\n' :: format.linesFrom 0 list.features) := strchr_behind alsoOne
  rw [parsePpFeaturesSysfsFile, firstEnds]
  simp only [Option.bind_eq_bind, Option.bind_some, List.drop_succ_cons, List.drop_zero, secondEnds]
  cases format with
  | vega mask =>
      have front : "Current ppfeatures: 0x".toList =
          "Current ppfeatures".toList ++ ": 0x".toList := by
        decide +kernel
      have isVega : "Current ppfeatures".toList <+: (PpFormat.vega mask).text list := by
        rw [PpFormat.text]
        unfold PpFormat.header
        rw [front]
        simp only [List.append_assoc]
        exact List.prefix_append _ _
      rw [if_pos isVega]
      rfl
  | numbered high low =>
      refine if_neg (not_prefix_head ?_)
      intro d first
      cases first
      decide

/-- The answer is the one the text stands for just when every name can be read. -/
theorem ppFeatures_right_iff (format : PpFormat) (list : FeatureList) :
    (∃ out, parsePpFeaturesSysfsFile (format.text list) = some out ∧
      FeaturesRight list.features out) ↔ ∀ feature ∈ list.features, format.Readable feature := by
  rw [parsePpFeaturesSysfsFile_text]
  have enough : list.features.length ≤ 64 := list.ordered.length_le
  constructor
  · rintro ⟨out, ran, right⟩
    have table : out.features = [] ++ tableFrom 0 list.features :=
      features_eq_table list.ordered right
    have start : Ordered (PpFeatures.mk [] 0).features.length list.features := list.ordered
    exact readable_of_features start enough ran table
  · intro readable
    exact ⟨_, featureLoop_readable list.ordered enough readable, table_right list.ordered⟩

/-- The line of the feature ends in `disabled`. -/
def gfxoff : Feature where
  name := "GFXOFF_enabled".toList
  noSpace := by
    have each : "GFXOFF_enabled".toList.all (fun c => isspace c = false ∧ c ≠ nul) = true := by
      decide
    exact fun c member => of_decide_eq_true (List.all_eq_true.mp each c member)
  bit := 3
  on := false

def gfxoffList : FeatureList where
  features := [gfxoff]
  distinct := by decide
  increasing := by decide
  below := by decide

/-- A feature that is off is shown as on, for the word in its name. -/
theorem gfxoff_shownOn :
    (parsePpFeaturesSysfsFile ((PpFormat.numbered 0 0).text gfxoffList)).map
        (fun out => (out.features.getLast?, out.rawValue)) =
      some (some ⟨some "GFXOFF_enabled".toList, some true⟩, 8) := by
  decide +kernel

theorem gfxoff_wrong : ¬ ∃ out,
    parsePpFeaturesSysfsFile ((PpFormat.numbered 0 0).text gfxoffList) = some out ∧
      FeaturesRight gfxoffList.features out := by
  rintro ⟨out, parsed, right⟩
  have read := gfxoff_shownOn
  rw [parsed] at read
  have value : out.rawValue = 8 := (Prod.mk.inj (Option.some.inj read)).2
  have mask := right.mask 3 (by decide)
  rw [value] at mask
  revert mask
  decide

end Umr.Gui
