import Umr.Compiler.RegisterTables

/-!
# A compiled register file, read back

The lines that are printed are scanned, so both readers get the registers that the headers define.
-/

set_option autoImplicit false

namespace Umr.Compiler

open Umr.Lib Umr.Database

/-! ## The span of a mask -/

def lowest (mask : Nat) : Nat := (List.range 64).findIdx mask.testBit

def span (mask : UInt64) : Nat × Nat :=
  if mask = 0 then (0, 0) else (lowest mask.toNat, mask.toNat.log2)

theorem startLoop_lowest (turns : Nat) : ∀ {mask : Nat} (start : Nat), mask ≠ 0 → mask < 2 ^ turns →
    ∃ k < turns, startLoop turns mask start = (mask / 2 ^ k, start + k) ∧
      mask.testBit k = true ∧ ∀ i < k, mask.testBit i = false := by
  induction turns with
  | zero =>
      intro mask start some_ small
      exact absurd (Nat.lt_one_iff.mp small) some_
  | succ turns ih =>
      intro mask start some_ small
      rw [startLoop]
      by_cases odd : mask % 2 = 1
      · refine ⟨0, Nat.succ_pos _, ?_, ?_, fun i less => absurd less (Nat.not_lt_zero i)⟩
        · rw [if_pos odd, Nat.pow_zero, Nat.div_one]
          rfl
        · rw [Nat.testBit_zero, odd]
          rfl
      · rw [Nat.pow_succ] at small
        obtain ⟨k, less, ran, set, clear⟩ := @ih (mask / 2) (start + 1) (by omega) (by omega)
        refine ⟨k + 1, Nat.succ_lt_succ less, ?_, ?_, fun i below => ?_⟩
        · rw [if_neg odd, ran, Nat.div_div_eq_div_mul, Nat.pow_succ', Nat.add_assoc, Nat.add_comm 1 k]
        · rwa [Nat.testBit_succ]
        · cases i with
          | zero =>
              rw [Nat.testBit_zero]
              exact decide_eq_false odd
          | succ i =>
              rw [Nat.testBit_succ]
              exact clear i (Nat.lt_of_succ_lt_succ below)

theorem stopLoop_log2 (turns : Nat) : ∀ {mask : Nat} (stop : Int), mask < 2 ^ turns →
    stopLoop turns mask stop = stop + if mask = 0 then 0 else (mask.log2 : Int) + 1 := by
  induction turns with
  | zero =>
      intro mask stop small
      rw [if_pos (Nat.lt_one_iff.mp small), stopLoop, Int.add_zero]
  | succ turns ih =>
      intro mask stop small
      rw [stopLoop]
      by_cases none_ : mask = 0
      · rw [if_pos none_, if_pos none_, Int.add_zero]
      · rw [Nat.pow_succ] at small
        rw [if_neg none_, if_neg none_, @ih (mask / 2) (stop + 1) (by omega)]
        by_cases one : mask / 2 = 0
        · have log : mask.log2 = 0 := by
            rw [Nat.log2_def, if_neg (by omega)]
          rw [if_pos one, log]
          omega
        · have log : mask.log2 = (mask / 2).log2 + 1 := by
            rw [Nat.log2_def, if_pos (by omega)]
          rw [if_neg one, log]
          omega

theorem lowest_eq {mask k : Nat} (small : k < 64) (set : mask.testBit k = true)
    (clear : ∀ i < k, mask.testBit i = false) : lowest mask = k := by
  refine (List.findIdx_eq (by rwa [List.length_range])).mpr ⟨?_, fun i less => ?_⟩
  · rwa [List.getElem_range]
  · rw [List.getElem_range]
    exact clear i less

/-- The bits of a mask go from the lowest one to the highest one. -/
theorem bitsStartStop_span (mask : UInt64) :
    bitsStartStop mask = (((span mask).1 : Int), ((span mask).2 : Int)) := by
  rw [bitsStartStop, span]
  by_cases none_ : mask = 0
  · rw [if_pos none_, if_pos none_]
    rfl
  · have some_ : mask.toNat ≠ 0 := fun zero => none_ (UInt64.toNat_inj.mp zero)
    obtain ⟨k, less, ran, set, clear⟩ := startLoop_lowest 64 0 some_ mask.toNat_lt
    have large : 2 ^ k ≤ mask.toNat := Nat.ge_two_pow_of_testBit set
    have smaller : mask.toNat / 2 ^ k < 2 ^ 64 :=
      Nat.lt_of_le_of_lt (Nat.div_le_self _ _) mask.toNat_lt
    have left : mask.toNat / 2 ^ k ≠ 0 := Nat.ne_of_gt (Nat.div_pos large (Nat.two_pow_pos k))
    have log : (mask.toNat / 2 ^ k).log2 + k = mask.toNat.log2 := by
      have high := (Nat.le_log2 some_).mpr large
      rw [Nat.log2_eq_log_two, Nat.log_div_base_pow, ← Nat.log2_eq_log_two]
      omega
    rw [if_neg none_, if_neg none_, ran]
    dsimp only
    rw [stopLoop_log2 64 _ smaller, if_neg left, lowest_eq less set clear, ← log]
    refine Prod.ext (by simp) ?_
    dsimp only
    omega

/-! ## The lines are scanned -/

theorem blank_stops {rest : List Char} (ends : Blank rest) : StopsAt inNumeral rest := by
  intro c first
  have blank : (!isspace c) = false := ends c first
  cases inside : inNumeral c with
  | false => rfl
  | true =>
      simp only [inNumeral, Bool.or_eq_true, decide_eq_true_eq] at inside
      rcases inside with (digit | rfl) | rfl
      · rw [isxdigit_not_isspace digit] at blank
        cases blank
      · cases blank
      · cases blank

theorem scan0x_next {n : Nat} (fits : n < 2 ^ 64) {rest : List Char} (ends : Blank rest) :
    scan0x (' ' :: (printHex0x n ++ rest)) = some (UInt64.ofNat n, rest) := by
  have digits := isxdigit_printHex n
  have some_ := printHex_ne_nil n
  have scanned := sscanfHex_digits some_ digits (by rw [hexValue_printHex]; exact fits) ends
  have stop : StopsAt isxdigit rest :=
    stopsAt_mono (blank_stops ends) fun c digit => by rw [inNumeral, digit]; rfl
  have body : skipPrefix (skipSign ((printHex n ++ rest).dropWhile isspace)).2 =
      printHex n ++ rest := by
    have whole := skipPrefix_digits some_ digits (blank_stops ends)
    obtain ⟨first, more, isHex⟩ := List.exists_cons_of_ne_nil some_
    rw [isHex] at digits whole ⊢
    rw [List.cons_append, skipSign_digit (digits first List.mem_cons_self)]
    exact whole
  have start : (' ' :: (printHex0x n ++ rest)).dropWhile isspace = '0' :: 'x' :: (printHex n ++ rest) :=
    rfl
  rw [scan0x, start]
  change (sscanfHex (printHex n ++ rest)).map _ = _
  rw [scanned, hexValue_printHex, Option.map_some, body, dropWhile_append_stop digits stop]

theorem scanUnsigned_printDec {n : Nat} (fits : n < 2 ^ 32) {gap rest : List Char}
    (blank : ∀ c ∈ gap, isspace c = true) (ends : StopsAt isdigit rest) :
    scanUnsigned (gap ++ (printDec n ++ rest)) = some (UInt32.ofNat n, rest) := by
  have digits := isdigit_printDec n
  have word : IsWord (printDec n) :=
    ⟨printDec_ne_nil n, fun c member => isdigit_not_isspace (digits c member)⟩
  rw [scanUnsigned, dropWhile_gap blank (word.stops rest), skipSign_digits]
  dsimp only
  rw [takeWhile_append_stop digits ends, if_neg (printDec_ne_nil n), decValue_printDec,
    if_neg (by omega), if_neg Bool.false_ne_true, dropWhile_append_stop digits ends]

theorem scanUnsigned_next (value : UInt32) {rest : List Char} (ends : Blank rest) :
    scanUnsigned (' ' :: (printDec value.toNat ++ rest)) = some (value, rest) := by
  have scanned := scanUnsigned_printDec value.toNat_lt space_is_gap (blank_not_isdigit ends)
  rwa [UInt32.ofNat_toNat] at scanned

theorem bitsStartStop_fits (mask : UInt64) : (span mask).1 < 64 ∧ (span mask).2 < 64 := by
  unfold span
  by_cases none_ : mask = 0
  · rw [if_pos none_]
    decide
  · have some_ : mask.toNat ≠ 0 := fun zero => none_ (UInt64.toNat_inj.mp zero)
    obtain ⟨k, less, -, set, clear⟩ := startLoop_lowest 64 0 some_ mask.toNat_lt
    rw [if_neg none_]
    refine ⟨?_, (Nat.log2_lt some_).mpr mask.toNat_lt⟩
    rwa [lowest_eq less set clear]

theorem scanBit_bitLine {b : Bit} (named : IsWord b.name) :
    scanBit blankBit (bitLine b ++ ['\n']) = (⟨b.name, b.start, b.stop⟩, true) := by
  have spans := bitsStartStop_fits b.mask
  have start : b.start = ((span b.mask).1 : Int) := congrArg Prod.fst (bitsStartStop_span b.mask)
  have stop : b.stop = ((span b.mask).2 : Int) := congrArg Prod.snd (bitsStartStop_span b.mask)
  have whole : bitLine b ++ ['\n'] =
      ['\t'] ++ (b.name ++ ' ' :: (printInt b.start ++ ' ' :: (printInt b.stop ++ ['\n']))) := by
    simp [bitLine]
  have tab : ∀ c ∈ ['\t'], isspace c = true := by
    intro c member
    rw [List.mem_singleton.mp member]
    rfl
  have first := @scanInt_next b.start (' ' :: (printInt b.stop ++ ['\n'])) (by omega) (by omega)
    (blank_space _)
  have second := @scanInt_next b.stop ['\n'] (by omega) (by omega) blank_newline
  rw [scanBit, whole, scanWord_word tab named (blank_space _)]
  dsimp only
  rw [first]
  dsimp only
  rw [second]

theorem scanReg_regLine {r : Regs} (named : IsWord r.name) (low : -2 ^ 31 ≤ r.type)
    (high : r.type < 2 ^ 31) :
    scanReg blankReg (regLine r ++ ['\n']) =
      (⟨r.name, r.type, r.addr, r.nobits, r.is64, r.idx⟩, true) := by
  have whole : regLine r ++ ['\n'] =
      r.name ++ ' ' :: (printInt r.type ++ ' ' :: (printHex0x r.addr.toNat ++ ' ' ::
        (printDec r.nobits.toNat ++ ' ' :: (printDec r.is64.toNat ++ ' ' ::
          (printDec r.idx.toNat ++ ['\n']))))) := by
    simp [regLine]
  have type := @scanInt_next r.type (' ' :: (printHex0x r.addr.toNat ++ ' ' ::
    (printDec r.nobits.toNat ++ ' ' :: (printDec r.is64.toNat ++ ' ' ::
      (printDec r.idx.toNat ++ ['\n']))))) low high (blank_space _)
  have addr := @scan0x_next r.addr.toNat r.addr.toNat_lt (' ' :: (printDec r.nobits.toNat ++ ' ' ::
    (printDec r.is64.toNat ++ ' ' :: (printDec r.idx.toNat ++ ['\n'])))) (blank_space _)
  have nobits := @scanUnsigned_next r.nobits (' ' :: (printDec r.is64.toNat ++ ' ' ::
    (printDec r.idx.toNat ++ ['\n']))) (blank_space _)
  have is64 := @scanUnsigned_next r.is64 (' ' :: (printDec r.idx.toNat ++ ['\n'])) (blank_space _)
  have idx := @scanUnsigned_next r.idx ['\n'] blank_newline
  rw [UInt64.ofNat_toNat] at addr
  rw [scanReg, whole, scanWord_first named (blank_space _)]
  dsimp only
  rw [type]
  dsimp only
  rw [addr]
  dsimp only
  rw [nobits]
  dsimp only
  rw [is64]
  dsimp only
  rw [idx]

/-! ## The file -/

theorem inSymbol_solid {c : Char} (inside : inSymbol c = true) : isspace c = false := by
  have range := inSymbol_range inside
  refine decide_eq_false ?_
  rintro (rfl | control)
  · exact absurd range.1 (by decide)
  · omega

/-- A name that is printed: of characters of symbols, and with room in the readers. -/
structure IsPrinted (name : List Char) : Prop where
  nonempty : name ≠ []
  all : ∀ c ∈ name, inSymbol c = true
  short : name.length < 128

theorem IsPrinted.word {name : List Char} (printed : IsPrinted name) : IsWord name :=
  ⟨printed.nonempty, fun c member => inSymbol_solid (printed.all c member)⟩

def Plain (text : List Char) : Prop := ∀ c ∈ text, c ≠ '\n' ∧ c ≠ nul

theorem IsPrinted.plain {name : List Char} (printed : IsPrinted name) : Plain name := by
  intro c member
  have inside := printed.all c member
  constructor
  · rintro rfl
    cases inside
  · rintro rfl
    cases inside

theorem Plain.append {first second : List Char} (isFirst : Plain first) (isSecond : Plain second) :
    Plain (first ++ second) := fun c member =>
  (List.mem_append.mp member).elim (isFirst c) (isSecond c)

theorem Plain.cons {c : Char} {text : List Char} (here : c ≠ '\n' ∧ c ≠ nul) (plain : Plain text) :
    Plain (c :: text) := List.forall_mem_cons.mpr ⟨here, plain⟩

theorem space_plain : ' ' ≠ '\n' ∧ ' ' ≠ nul := by decide

theorem printInt_plain_line (value : Int) : Plain (printInt value) := by
  intro c member
  obtain ⟨solid, other⟩ := printInt_solid value c member
  refine ⟨?_, other⟩
  rintro rfl
  cases solid

theorem printDec_plain (n : Nat) : Plain (printDec n) := by
  intro c member
  have digit := isdigit_printDec n c member
  constructor
  · rintro rfl
    cases digit
  · rintro rfl
    cases digit

theorem printHex0x_plain (n : Nat) : Plain (printHex0x n) := by
  refine .cons (by decide) (.cons (by decide) fun c member => ?_)
  have digit := isxdigit_printHex n c member
  constructor
  · rintro rfl
    cases digit
  · rintro rfl
    cases digit

theorem printDec_short {n : Nat} (fits : n < 2 ^ 32) : (printDec n).length ≤ 10 :=
  (Nat.length_toDigits_le_iff (by decide) (by decide)).mpr (by omega)

theorem printHex0x_short (value : UInt64) : (printHex0x value.toNat).length ≤ 18 := by
  have digits : (printHex value.toNat).length ≤ 16 :=
    (Nat.length_toDigits_le_iff (by decide) (by decide)).mpr value.toNat_lt
  rw [printHex0x, List.length_cons, List.length_cons]
  omega

theorem printInt_short {value : Int} (low : 0 ≤ value) (high : value < 2 ^ 32) :
    (printInt value).length ≤ 10 := by
  have positive : ¬ value < 0 := by omega
  rw [printInt, if_neg positive]
  exact printDec_short (by omega)

structure RegsFit (r : Regs) : Prop where
  name : IsPrinted r.name
  type : 0 ≤ r.type ∧ r.type < 2 ^ 31
  bits : ∀ b ∈ r.bits, IsPrinted b.name
  few : r.bits.length < 2 ^ 32

theorem regLine_plain {r : Regs} (fits : RegsFit r) :
    Plain (regLine r) ∧ (regLine r).length + 1 < 256 := by
  have name := fits.name.short
  have type := printInt_short fits.type.1 (by have high := fits.type.2; omega)
  have addr := printHex0x_short r.addr
  have nobits := printDec_short r.nobits.toNat_lt
  have is64 := printDec_short r.is64.toNat_lt
  have idx := printDec_short r.idx.toNat_lt
  constructor
  · exact fits.name.plain.append (.cons space_plain ((printInt_plain_line _).append
      (.cons space_plain ((printHex0x_plain _).append (.cons space_plain ((printDec_plain _).append
        (.cons space_plain ((printDec_plain _).append (.cons space_plain (printDec_plain _))))))))))
  · rw [regLine]
    simp only [List.length_append, List.length_cons]
    omega

theorem bitLine_plain {b : Bit} (printed : IsPrinted b.name) :
    Plain (bitLine b) ∧ (bitLine b).length + 1 < 256 := by
  have spans := bitsStartStop_fits b.mask
  have isStart : b.start = ((span b.mask).1 : Int) := congrArg Prod.fst (bitsStartStop_span b.mask)
  have isStop : b.stop = ((span b.mask).2 : Int) := congrArg Prod.snd (bitsStartStop_span b.mask)
  have name := printed.short
  have start := @printInt_short b.start (by omega) (by omega)
  have stop := @printInt_short b.stop (by omega) (by omega)
  constructor
  · exact .cons (by decide) (printed.plain.append (.cons space_plain
      ((printInt_plain_line _).append (.cons space_plain (printInt_plain_line _)))))
  · rw [bitLine]
    simp only [List.length_append, List.length_cons]
    omega

def fileLines (noRegs : UInt32) (sr : List Regs) : List (List Char) :=
  printDec noRegs.toNat :: sr.flatMap fun r => regLine r :: r.bits.map bitLine

def joined (lines : List (List Char)) : List Char := lines.flatMap fun line => line ++ ['\n']

theorem regsText_joined (noRegs : UInt32) (sr : List Regs) :
    regsText noRegs sr = joined (fileLines noRegs sr) := by
  unfold regsText joined fileLines
  rw [List.flatMap_cons, List.flatMap_assoc, List.append_assoc]
  refine congrArg (printDec noRegs.toNat ++ ·) (congrArg ('\n' :: ·) ?_)
  refine List.flatMap_congr fun r _ => ?_
  rw [List.flatMap_cons, List.flatMap_map, List.append_assoc]
  rfl

theorem fileLines_plain (noRegs : UInt32) {sr : List Regs} (fits : ∀ r ∈ sr, RegsFit r) :
    ∀ line ∈ fileLines noRegs sr, Plain line ∧ line.length + 1 < 256 := by
  intro line member
  rcases List.mem_cons.mp member with rfl | inside
  · refine ⟨printDec_plain _, ?_⟩
    have short := printDec_short noRegs.toNat_lt
    omega
  · obtain ⟨r, isReg, isLine⟩ := List.mem_flatMap.mp inside
    rcases List.mem_cons.mp isLine with rfl | isBit
    · exact regLine_plain (fits r isReg)
    · obtain ⟨b, bitMember, rfl⟩ := List.mem_map.mp isBit
      exact bitLine_plain ((fits r isReg).bits b bitMember)

theorem shortLines_joined {lines : List (List Char)} (short : ∀ line ∈ lines, line.length + 1 < 256) :
    ShortLines (joined lines) := by
  induction lines with
  | nil =>
      intro before line behind whole _
      have none_ := congrArg List.length whole
      rw [List.length_append, List.length_append] at none_
      change 0 = _ at none_
      omega
  | cons first lines ih =>
      obtain ⟨here, later⟩ := List.forall_mem_cons.mp short
      intro before line behind whole one
      have text : joined (first :: lines) = first ++ '\n' :: joined lines := by
        simp [joined]
      rw [text, List.append_assoc] at whole
      rcases List.append_eq_append_iff.mp whole with ⟨more, front, back⟩ | ⟨more, front, back⟩
      · -- the line begins behind the first one
        cases more with
        | nil =>
            cases line with
            | nil => exact Nat.lt_of_le_of_lt (Nat.le_add_left _ _) here
            | cons c line =>
                have same := (List.cons.inj back).1
                exact absurd (by rw [same]; exact List.mem_cons_self) one
        | cons c more =>
            have rest : joined lines = more ++ line ++ behind := by
              rw [List.append_assoc]
              exact (List.cons.inj back).2
            exact ih later more line behind rest one
      · have long := congrArg List.length front
        rw [List.length_append] at long
        rcases List.append_eq_append_iff.mp back with ⟨tail, isMore, -⟩ | ⟨tail, isLine, isRest⟩
        · rw [isMore, List.length_append] at long
          omega
        · cases tail with
          | nil =>
              rw [isLine, List.append_nil]
              omega
          | cons c tail =>
              have same := (List.cons.inj isRest).1
              refine absurd ?_ one
              rw [isLine, same]
              exact List.mem_append_right _ List.mem_cons_self

/-! ## The records -/

def recordOf (r : Regs) : RegRecord where
  line := regLine r ++ ['\n']
  bits := r.bits.map fun b => bitLine b ++ ['\n']

theorem recordOf_fields {r : Regs} (fits : RegsFit r) :
    (recordOf r).fields = ⟨r.name, r.type, r.addr, r.nobits, r.is64, r.idx⟩ := by
  have type := fits.type
  rw [RegRecord.fields, recordOf, scanReg_regLine fits.name.word (by omega) type.2]

theorem bitOf_bitLine {b : Bit} (printed : IsPrinted b.name) :
    bitOf (bitLine b ++ ['\n']) = ⟨b.name, b.start, b.stop⟩ := by
  rw [bitOf, scanBit_bitLine printed.word]

theorem recordOf_scans {r : Regs} (fits : RegsFit r) : (recordOf r).Scans := by
  have type := fits.type
  have fields := recordOf_fields fits
  refine ⟨?_, ?_, ?_, ?_, ?_⟩
  · change (scanReg blankReg (regLine r ++ ['\n'])).2 = true
    rw [scanReg_regLine fits.name.word (by omega) type.2]
  · rw [fields, recordOf, List.length_map]
    change (UInt32.ofNat r.bits.length).toNat = r.bits.length
    rw [UInt32.toNat_ofNat']
    exact Nat.mod_eq_of_lt fits.few
  · intro line member
    obtain ⟨b, isBit, rfl⟩ := List.mem_map.mp member
    rw [scanBit_bitLine (fits.bits b isBit).word]
  · rw [fields]
    exact fits.name.short
  · intro line member
    obtain ⟨b, isBit, rfl⟩ := List.mem_map.mp member
    rw [bitOf_bitLine (fits.bits b isBit)]
    exact (fits.bits b isBit).short

theorem cString_line {line : List Char} (plain : Plain line) :
    cString (line ++ ['\n']) = line ++ ['\n'] := by
  refine List.takeWhile_eq_self_iff.mpr fun c member => decide_eq_true ?_
  rcases List.mem_append.mp member with inside | last
  · exact (plain c inside).2
  · rw [List.mem_singleton.mp last]
    decide

theorem regsText_scans {sr : List Regs} (fits : ∀ r ∈ sr, RegsFit r) (few : sr.length < 2 ^ 32) :
    RegContents.Scans ⟨UInt32.ofNat sr.length, sr.map recordOf⟩
      (regsText (UInt32.ofNat sr.length) sr) := by
  have plain := fileLines_plain (UInt32.ofNat sr.length) fits
  have short := fun line member => (plain line member).2
  have chunked : chunks 256 (joined (fileLines (UInt32.ofNat sr.length) sr)) =
      (fileLines (UInt32.ofNat sr.length) sr).map fun line => line ++ ['\n'] := by
    have lines : ∀ line ∈ fileLines (UInt32.ofNat sr.length) sr,
        '\n' ∉ line ∧ line.length + 1 < 256 := fun line member =>
      ⟨fun inside => ((plain line member).1 _ inside).1 rfl, (plain line member).2⟩
    rw [joined, chunks_lines lines]
    exact List.map_congr_left fun line member => cString_line (plain line member).1
  refine ⟨?_, ⟨printDec (UInt32.ofNat sr.length).toNat ++ ['\n'], ?_, ?_⟩, ?_, ?_⟩
  · rw [regsText_joined]
    exact shortLines_joined short
  · rw [regsText_joined, chunked, fileLines, List.map_cons]
    refine congrArg _ ?_
    unfold recordLines
    rw [List.map_flatMap, List.flatMap_map]
    refine List.flatMap_congr fun r _ => ?_
    unfold RegRecord.lines recordOf
    rw [List.map_cons, List.map_map]
    rfl
  · have scanned := @scanUnsigned_printDec (UInt32.ofNat sr.length).toNat
      (UInt32.ofNat sr.length).toNat_lt [] ['\n'] none_is_gap (blank_not_isdigit blank_newline)
    rw [List.nil_append] at scanned
    rw [scanned, UInt32.ofNat_toNat]
    rfl
  · intro record member
    obtain ⟨r, isReg, rfl⟩ := List.mem_map.mp member
    exact recordOf_scans (fits r isReg)
  · change (sr.map recordOf).length ≤ (UInt32.ofNat sr.length).toNat
    rw [List.length_map, UInt32.toNat_ofNat', Nat.mod_eq_of_lt few]

/-! ## The registers that are read -/

def RegDef.register (bs : List BitDef) (off : Option (Nat → UInt64)) (d : RegDef) : Register where
  regname := d.name
  type := d.type
  addr :=
    match off with
    | none => d.addr
    | some off => if d.type = regMmio then d.addr + off d.idx.toNat else d.addr
  noBits := UInt32.ofNat (bitNames bs d.suffix).length
  bit64 := if ∃ name ∈ bitNames bs d.suffix, 32 < (span (maskOf bs d.suffix name)).2 then 1 else 0
  bits := (bitNames bs d.suffix).map fun name =>
    ⟨name, UInt8.ofNat (span (maskOf bs d.suffix name)).1,
      UInt8.ofNat (span (maskOf bs d.suffix name)).2⟩

theorem maxBit_above (bits : List Bit) (first : Int) :
    bits.foldl (fun maxBit b => if b.stop > maxBit then b.stop else maxBit) first > 32 ↔
      first > 32 ∨ ∃ b ∈ bits, b.stop > 32 := by
  induction bits generalizing first with
  | nil => simp
  | cons b bits ih =>
      rw [List.foldl_cons, ih, List.exists_mem_cons_iff, ← or_assoc]
      refine or_congr_left ?_
      split <;> omega

section Bits
variable {s15 : Bool} {bs : List BitDef} {d : RegDef}

theorem bitsAfter_names : (bitsAfter bs d []).map Bit.name = bitNames bs d.suffix := by
  have both := congrArg (List.map Prod.fst) (bitsAfter_eq bs d)
  rw [List.map_map, List.map_map] at both
  exact both.trans (List.map_id _)

theorem mem_bitNames {name : List Char} (member : name ∈ bitNames bs d.suffix) :
    ∃ b ∈ bs, b.bitname = name := by
  obtain ⟨change, isChange, same⟩ := Keyed.mem_keys.mp member
  obtain ⟨b, isBit, rfl⟩ := List.mem_map.mp isChange
  exact ⟨b, (List.mem_filter.mp isBit).1, (change_key b).symm.trans same⟩

theorem bitNames_length_le : (bitNames bs d.suffix).length ≤ bs.length := by
  have distinct : (bitNames bs d.suffix).Nodup := Keyed.keys_nodup _
  have inside : bitNames bs d.suffix ⊆ bs.map BitDef.bitname := fun name member =>
    List.mem_map.mpr (mem_bitNames member)
  have fewer := (distinct.subperm inside).length_le
  rwa [List.length_map] at fewer

theorem bit_span (b : Bit) :
    b.start = ((span b.mask).1 : Int) ∧ b.stop = ((span b.mask).2 : Int) :=
  ⟨congrArg Prod.fst (bitsStartStop_span b.mask), congrArg Prod.snd (bitsStartStop_span b.mask)⟩

theorem charOfInt_small {n : Nat} (small : n < 64) : charOfInt (n : Int) = UInt8.ofNat n := by
  have inside : ((n : Int) % 256).toNat = n := by omega
  rw [charOfInt, inside]

theorem recordOf_bits (fits : RegsFit (d.regs (bitsAfter bs d []))) (off : Option (Nat → UInt64)) :
    (recordOf (d.regs (bitsAfter bs d []))).bits.map (fun line =>
      (⟨(bitOf line).name, charOfInt (bitOf line).start, charOfInt (bitOf line).stop⟩ : Bitfield)) =
      (d.register bs off).bits := by
  have spans : (bitsAfter bs d []).map (fun b =>
      (⟨b.name, UInt8.ofNat (span b.mask).1, UInt8.ofNat (span b.mask).2⟩ : Bitfield)) =
      (d.register bs off).bits := by
    have both := congrArg (List.map fun p : List Char × UInt64 =>
      (⟨p.1, UInt8.ofNat (span p.2).1, UInt8.ofNat (span p.2).2⟩ : Bitfield)) (bitsAfter_eq bs d)
    rwa [List.map_map, List.map_map] at both
  rw [← spans, recordOf, List.map_map]
  refine List.map_congr_left fun b member => ?_
  have small := bitsStartStop_fits b.mask
  have place := bit_span b
  rw [Function.comp, bitOf_bitLine (fits.bits b member), place.1, place.2, charOfInt_small small.1,
    charOfInt_small small.2]

theorem is64_register (off : Option (Nat → UInt64)) :
    (d.regs (bitsAfter bs d [])).is64 = (d.register bs off).bit64 := by
  have same : (d.regs (bitsAfter bs d [])).maxBit > 32 ↔
      ∃ name ∈ bitNames bs d.suffix, 32 < (span (maskOf bs d.suffix name)).2 := by
    rw [Regs.maxBit, maxBit_above]
    have pairs := bitsAfter_eq bs d
    constructor
    · rintro (never | ⟨b, member, above⟩)
      · exact absurd never (by decide)
      · have pair : (b.name, b.mask) ∈ (bitsAfter bs d []).map fun bit => (bit.name, bit.mask) :=
          List.mem_map.mpr ⟨b, member, rfl⟩
        rw [pairs] at pair
        obtain ⟨name, isName, same⟩ := List.mem_map.mp pair
        refine ⟨name, isName, ?_⟩
        rw [(Prod.mk.inj same).2]
        rw [(bit_span b).2] at above
        omega
    · rintro ⟨name, isName, above⟩
      have pair : (name, maskOf bs d.suffix name) ∈
          (bitNames bs d.suffix).map fun name => (name, maskOf bs d.suffix name) :=
        List.mem_map.mpr ⟨name, isName, rfl⟩
      rw [← pairs] at pair
      obtain ⟨b, member, same⟩ := List.mem_map.mp pair
      refine Or.inr ⟨b, member, ?_⟩
      rw [(bit_span b).2, (Prod.mk.inj same).2]
      omega
  unfold Regs.is64 RegDef.register
  simp only [same]

theorem placeRecord_register (off : Option (Nat → UInt64))
    {segments : Option (Nat → Option UInt64)}
    (place : placed segments (recordOf (d.regs (bitsAfter bs d []))).fields =
      .ok (d.register bs off).addr) (fits : RegsFit (d.regs (bitsAfter bs d []))) :
    placeRecord segments (recordOf (d.regs (bitsAfter bs d []))) = .ok (d.register bs off) := by
  have fields := recordOf_fields fits
  have number : (d.regs (bitsAfter bs d [])).nobits = (d.register bs off).noBits := by
    change UInt32.ofNat (bitsAfter bs d []).length = UInt32.ofNat (bitNames bs d.suffix).length
    rw [← bitsAfter_names, List.length_map]
  have whole : ({ (recordOf (d.regs (bitsAfter bs d []))).register (fun _ => 0) with
      addr := (d.register bs off).addr } : Register) = d.register bs off := by
    rw [RegRecord.register]
    dsimp only
    rw [recordOf_bits fits off, fields]
    dsimp only
    rw [number, is64_register off]
    rfl
  rw [placeRecord, place]
  exact congrArg Except.ok whole

end Bits

/-! ## The whole file -/

theorem mapM_ok {α β ε : Type} {f : α → Except ε β} {g : α → β} {as : List α}
    (all : ∀ a ∈ as, f a = .ok (g a)) : as.mapM f = .ok (as.map g) := by
  induction as with
  | nil => rfl
  | cons a as ih =>
      obtain ⟨here, later⟩ := List.forall_mem_cons.mp all
      rw [List.mapM_cons, here, ih later]
      rfl

theorem bytesOf_terminated {name : List Char} (all : ∀ c ∈ name, inSymbol c = true) :
    ∀ b ∈ bytesOf name, b ≠ 0 := by
  intro b member
  obtain ⟨c, inside, rfl⟩ := List.mem_map.mp member
  have range := inSymbol_range (all c inside)
  intro zero
  have value := congrArg UInt8.toNat zero
  rw [UInt8.toNat_ofNat', Nat.mod_eq_of_lt (by omega)] at value
  change c.toNat = 0 at value
  omega

/-- Registers whose names are of symbols can be sorted. -/
theorem sorted_exists {sr : List Regs} (all : ∀ r ∈ sr, ∀ c ∈ r.name, inSymbol c = true) :
    ∃ sorted, Sorted sr sorted := by
  obtain ⟨below, isBelow⟩ : ∃ below : Regs → Regs → Bool, below = fun a b =>
      decide (Registers.folded (bytesOf a.name) ≤ Registers.folded (bytesOf b.name)) := ⟨_, rfl⟩
  have perm := List.mergeSort_perm sr below
  have order : (sr.mergeSort below).Pairwise fun a b => below a b = true := by
    refine List.pairwise_mergeSort ?_ ?_ sr
    · intro a b c first second
      rw [isBelow, decide_eq_true_eq] at first second ⊢
      exact le_trans first second
    · intro a b
      rw [isBelow, Bool.or_eq_true, decide_eq_true_eq, decide_eq_true_eq]
      exact le_total _ _
  refine ⟨sr.mergeSort below, perm, order.imp_of_mem fun {a b} isA isB less => ?_⟩
  have signs := Registers.istrCmp_sign (bytesOf_terminated (all a (perm.mem_iff.mp isA)))
    (bytesOf_terminated (all b (perm.mem_iff.mp isB)))
  rw [isBelow, decide_eq_true_eq] at less
  rcases lt_or_eq_of_le less with before | same
  · exact le_of_lt (signs.1.mpr before)
  · exact le_of_eq (signs.2.mpr same)

theorem perm_of_map {α β : Type} {f : α → β} {as : List α} {bs : List β} (perm : bs.Perm (as.map f)) :
    ∃ as' : List α, as'.Perm as ∧ bs = as'.map f := by
  have images : List.Forall₂ (fun b a => b = f a) (as.map f) as :=
    List.forall₂_map_left_iff.mpr (List.forall₂_same.mpr fun a _ => rfl)
  obtain ⟨as', same, order⟩ := List.perm_comp_forall₂ perm images
  refine ⟨as', order, ?_⟩
  rw [← List.forall₂_eq_eq_eq]
  exact List.forall₂_map_right_iff.mpr same

structure TableFits (regs : List RegDef) (entry : Option Soc15) (inst : Nat) : Prop where
  inst : entry.isSome = true → inst < maxInst
  idx : entry.isSome = true → ∀ d ∈ regs, d.type = regMmio → d.idx.toNat < maxSeg

/-- Two headers and what they define. -/
structure Defines (s15 : Bool) (rf bf : List HeaderLine) (regs : List RegDef) (bs : List BitDef) :
    Prop where
  regHeader : HeaderFits rf
  bitHeader : HeaderFits bf
  regNames : (definitions rf).filter isRegister = regs.flatMap (RegDef.defines s15)
  bitSymbols : (definitions bf).filter isBit = bs.map fun b => (b.symbol, b.value)
  regFits : ∀ d ∈ regs, d.Fits s15
  bitFits : ∀ b ∈ bs, b.Fits
  distinct : (regs.map RegDef.suffix).Nodup
  few : regs.length < 2 ^ 32
  fewBits : bs.length < 2 ^ 32

namespace Defines
variable {s15 : Bool} {rf bf : List HeaderLine} {regs : List RegDef} {bs : List BitDef}
  (defines_ : Defines s15 rf bf regs bs)
include defines_

theorem regPrinted {d : RegDef} (member : d ∈ regs) : IsPrinted d.name := by
  have first : (d.name, d.addr) ∈ d.defines s15 := by
    unfold RegDef.defines
    split <;> exact List.mem_cons_self
  have inside : (d.name, d.addr) ∈ (definitions rf).filter isRegister := by
    rw [defines_.regNames]
    exact List.mem_flatMap.mpr ⟨d, member, first⟩
  have isSymbol := definitions_isSymbol defines_.regHeader _ (List.mem_of_mem_filter inside)
  exact ⟨isSymbol.nonempty, isSymbol.all, (defines_.regFits d member).short⟩

theorem bitPrinted {b : BitDef} (member : b ∈ bs) : IsPrinted b.bitname := by
  have inside : (b.symbol, b.value) ∈ (definitions bf).filter isBit := by
    rw [defines_.bitSymbols]
    exact List.mem_map.mpr ⟨b, member, rfl⟩
  have isSymbol := definitions_isSymbol defines_.bitHeader _ (List.mem_of_mem_filter inside)
  have fits := defines_.bitFits b member
  refine ⟨fits.some_, fun c isChar => isSymbol.all c ?_, fits.short⟩
  exact List.mem_append_right _ (List.mem_append_right _ (List.mem_append_left _ isChar))

theorem regsFit {d : RegDef} (member : d ∈ regs) : RegsFit (d.regs (bitsAfter bs d [])) where
  name := defines_.regPrinted member
  type := by
    change 0 ≤ regType d.name ∧ regType d.name < 2 ^ 31
    unfold regType
    split_ifs <;> decide
  bits b isBit := by
    have isName : b.name ∈ bitNames bs d.suffix := by
      rw [← bitsAfter_names]
      exact List.mem_map.mpr ⟨b, isBit, rfl⟩
    obtain ⟨own, isOwn, same⟩ := mem_bitNames isName
    rw [← same]
    exact defines_.bitPrinted isOwn
  few := by
    change (bitsAfter bs d []).length < 2 ^ 32
    rw [← List.length_map, bitsAfter_names]
    exact Nat.lt_of_le_of_lt bitNames_length_le defines_.fewBits

theorem placed_addr {entry : Option Soc15} {inst : Nat} (table : TableFits regs entry inst)
    {d : RegDef} (member : d ∈ regs) :
    placed (entry.map fun entry => soc15Segments entry inst)
        (recordOf (d.regs (bitsAfter bs d []))).fields =
      .ok (d.register bs (entry.map fun entry => entry.off inst)).addr := by
  rw [recordOf_fields (defines_.regsFit member)]
  cases entry with
  | none => rfl
  | some entry =>
      rw [Option.map_some, placed]
      dsimp only
      have type : (d.regs (bitsAfter bs d [])).type = d.type := rfl
      rw [type]
      by_cases mmio : d.type = regMmio
      · have inside := table.idx rfl d member mmio
        have segment : soc15Segments entry inst (d.regs (bitsAfter bs d [])).idx.toNat =
            some (entry.off inst d.idx.toNat) := if_pos ⟨table.inst rfl, inside⟩
        rw [if_pos mmio, segment]
        unfold RegDef.register
        dsimp only [Option.map_some]
        rw [if_pos mmio]
        rfl
      · rw [if_neg mmio]
        unfold RegDef.register
        dsimp only [Option.map_some]
        rw [if_neg mmio]
        rfl

theorem compiles_iff (text : List Char) :
    Compiles s15 (headerText rf) (headerText bf) text ↔
      ∃ sorted : List RegDef, sorted.Perm regs ∧
        (sorted.Pairwise fun a b => Registers.istrCmp (bytesOf a.name) (bytesOf b.name) ≤ 0) ∧
        text = regsText (UInt32.ofNat regs.length) (sorted.map fun d => d.regs (bitsAfter bs d [])) := by
  obtain ⟨t, compiled⟩ := compiled_table defines_.regHeader defines_.bitHeader defines_.regNames
    defines_.bitSymbols defines_.regFits defines_.bitFits defines_.distinct
  have taken := collected_table defines_.regFits (fun d => bitsAfter bs d []) t
  have number : (tableOf regs (fun d => bitsAfter bs d []) t).length - 1 = regs.length := by
    rw [tableOf, List.length_append, List.length_map, List.length_singleton, Nat.add_sub_cancel]
  constructor
  · rintro ⟨table, sr, sorted, isTable, isSr, order, rfl⟩
    cases compiled.symm.trans isTable
    cases taken.symm.trans isSr
    obtain ⟨defs, perm, rfl⟩ := perm_of_map order.perm
    refine ⟨defs, perm, List.pairwise_map.mp order.order, ?_⟩
    rw [number]
  · rintro ⟨sorted, perm, order, rfl⟩
    refine ⟨_, _, _, compiled, taken, ⟨perm.map _, List.pairwise_map.mpr order⟩, ?_⟩
    rw [number]

theorem read {sorted : List RegDef} (perm : sorted.Perm regs) (stale : Stale)
    {soc15 : Option (List Soc15)} {entry : Option Soc15} {soc15name : List Char}
    (cmnname : List Char) {filename : List Char} (named : IsWord filename)
    (found : NamesEntry soc15 soc15name entry) {inst : Nat} (table : TableFits regs entry inst) :
    umrDatabaseReadIpblock stale soc15
        (some (regsText (UInt32.ofNat regs.length) (sorted.map fun d => d.regs (bitsAfter bs d []))))
        filename cmnname soc15name inst =
      .ok (some ⟨cmnname, UInt32.ofNat regs.length,
        sorted.map (RegDef.register bs (entry.map fun entry => entry.off inst)),
        fillIpverFromPath filename⟩, []) := by
  have fits : ∀ r ∈ sorted.map fun d => d.regs (bitsAfter bs d []), RegsFit r := by
    intro r member
    obtain ⟨d, isDef, rfl⟩ := List.mem_map.mp member
    exact defines_.regsFit (perm.mem_iff.mp isDef)
  have number : (sorted.map fun d => d.regs (bitsAfter bs d [])).length = regs.length := by
    rw [List.length_map, perm.length_eq]
  have scans := regsText_scans fits (by rw [number]; exact defines_.few)
  rw [number] at scans
  have places : ((sorted.map fun d => d.regs (bitsAfter bs d [])).map recordOf).mapM
      (placeRecord (entry.map fun entry => soc15Segments entry inst)) =
      .ok (sorted.map (RegDef.register bs (entry.map fun entry => entry.off inst))) := by
    rw [List.map_map, List.mapM_map]
    refine mapM_ok fun d isDef => ?_
    have member := perm.mem_iff.mp isDef
    exact placeRecord_register _ (defines_.placed_addr table member) (defines_.regsFit member)
  rw [umrDatabaseReadIpblock_contents scans stale cmnname named found inst, places]
  rfl

end Defines

/-- Headers are compiled, and whatever order is printed, the registers are read as defined. -/
theorem compiledRegisters_read {s15 : Bool} {rf bf : List HeaderLine} {regs : List RegDef}
    {bs : List BitDef} (defines_ : Defines s15 rf bf regs bs) :
    (∃ text, Compiles s15 (headerText rf) (headerText bf) text) ∧
      ∀ text, Compiles s15 (headerText rf) (headerText bf) text →
        ∃ sorted : List RegDef, sorted.Perm regs ∧
          (sorted.Pairwise fun a b => Registers.istrCmp (bytesOf a.name) (bytesOf b.name) ≤ 0) ∧
          ∀ (stale : Stale) (soc15 : Option (List Soc15)) (entry : Option Soc15)
            (soc15name cmnname filename : List Char) (inst : Nat), IsWord filename →
            NamesEntry soc15 soc15name entry → TableFits regs entry inst →
            umrDatabaseReadIpblock stale soc15 (some text) filename cmnname soc15name inst =
              .ok (some ⟨cmnname, UInt32.ofNat regs.length,
                sorted.map (RegDef.register bs (entry.map fun entry => entry.off inst)),
                fillIpverFromPath filename⟩, []) := by
  constructor
  · obtain ⟨sorted, perm, order⟩ := @sorted_exists (regs.map fun d => d.regs (bitsAfter bs d []))
      fun r member => by
        obtain ⟨d, isDef, rfl⟩ := List.mem_map.mp member
        exact (defines_.regPrinted isDef).all
    obtain ⟨defs, isPerm, rfl⟩ := perm_of_map perm
    exact ⟨_, (defines_.compiles_iff _).mpr ⟨defs, isPerm, List.pairwise_map.mp order, rfl⟩⟩
  · intro text compiles
    obtain ⟨sorted, perm, order, rfl⟩ := (defines_.compiles_iff text).mp compiles
    refine ⟨sorted, perm, order, fun stale soc15 entry soc15name cmnname filename inst named found
      table => ?_⟩
    exact defines_.read perm stale cmnname named found table

/-- A register whose segment comes behind a comment, one that needs none, and a bit. -/
def scratchRegHeader : List HeaderLine :=
  [.guard [] [' '] "_gc_OFFSET_HEADER".toList [],
    .define [] [' '] "regSCRATCH".toList [' '] (.hex "0b40".toList) [],
    .other "// segment".toList,
    .define [] [' '] "regSCRATCH_BASE_IDX".toList [' '] (.dec "1".toList) [],
    .define [] [' '] "ixGAIN".toList [' '] (.hex "20".toList) [' ']]

def scratchBitHeader : List HeaderLine :=
  [.other "//SCRATCH".toList,
    .define [] [' '] "SCRATCH__VALUE__SHIFT".toList [' '] (.hex "4".toList) [],
    .define [] [' '] "SCRATCH__VALUE_MASK".toList [' '] (.hex "0000FFF0".toList) ['L']]

def scratchRegs : List RegDef :=
  [⟨reg, "SCRATCH".toList, 0xB40, 1⟩, ⟨ix, "GAIN".toList, 0x20, 0xFFFFFFFF⟩]

def scratchBits : List BitDef :=
  [⟨"SCRATCH".toList, "VALUE".toList, true, 4⟩, ⟨"SCRATCH".toList, "VALUE".toList, false, 0xFFF0⟩]

theorem scratchHeaders_fit : HeaderFits scratchRegHeader ∧ HeaderFits scratchBitHeader := by
  have symbols : ∀ {sym : List Char}, sym ≠ [] ∧ sym.length < 256 →
      (sym.all fun c => inSymbol c) = true → IsSymbol sym :=
    fun lengths all => ⟨lengths.1, List.all_eq_true.mp all, lengths.2⟩
  have blanks : ∀ {gap : List Char}, (gap.all fun c => isBlank c) = true → Blanks gap :=
    fun all => List.all_eq_true.mp all
  have stops : ∀ continues : Char → Bool, StopsAt continues [] := fun _ _ first => by cases first
  have one : ∀ {continues : Char → Bool} {c : Char} {rest : List Char}, continues c = false →
      StopsAt continues (c :: rest) := by
    intro continues c rest ends d first
    cases first
    exact ends
  refine ⟨⟨?_, ?_, ?_, ?_, ?_, trivial⟩, ⟨?_, ?_, ?_, trivial⟩⟩
  · exact ⟨⟨blanks rfl, blanks rfl, blanks rfl⟩, symbols (by decide) (by decide), one (by decide)⟩
  · exact ⟨⟨blanks rfl, blanks rfl, blanks rfl, by decide⟩, symbols (by decide) (by decide),
      ⟨by decide, List.all_eq_true.mp (by decide), by decide⟩, ⟨by decide, by decide⟩, stops _⟩
  · exact ⟨by decide, by decide⟩
  · exact ⟨⟨blanks rfl, blanks rfl, blanks rfl, by decide⟩, symbols (by decide) (by decide),
      ⟨by decide, List.all_eq_true.mp (by decide), by decide⟩, ⟨by decide, by decide⟩, stops _⟩
  · exact ⟨⟨blanks rfl, blanks rfl, blanks rfl, by decide⟩, symbols (by decide) (by decide),
      ⟨by decide, List.all_eq_true.mp (by decide), by decide⟩, ⟨by decide, by decide⟩, one (by decide)⟩
  · exact ⟨by decide, by decide⟩
  · exact ⟨⟨blanks rfl, blanks rfl, blanks rfl, by decide⟩, symbols (by decide) (by decide),
      ⟨by decide, List.all_eq_true.mp (by decide), by decide⟩, ⟨by decide, by decide⟩, stops _⟩
  · exact ⟨⟨blanks rfl, blanks rfl, blanks rfl, by decide⟩, symbols (by decide) (by decide),
      ⟨by decide, List.all_eq_true.mp (by decide), by decide⟩, ⟨by decide, by decide⟩, one (by decide)⟩

theorem scratchHeaders_define :
    Defines true scratchRegHeader scratchBitHeader scratchRegs scratchBits where
  regHeader := scratchHeaders_fit.1
  bitHeader := scratchHeaders_fit.2
  regNames := by decide
  bitSymbols := by decide
  regFits := by
    intro d member
    simp only [scratchRegs, List.mem_cons, List.not_mem_nil, or_false] at member
    rcases member with rfl | rfl
    · exact ⟨by decide, by decide, by decide, by decide, by decide⟩
    · exact ⟨by decide, by decide, by decide, by decide, by decide⟩
  bitFits := by
    intro b member
    simp only [scratchBits, List.mem_cons, List.not_mem_nil, or_false] at member
    rcases member with rfl | rfl
    · exact ⟨by decide, by decide, by decide, by decide, by decide⟩
    · exact ⟨by decide, by decide, by decide, by decide, by decide⟩
  distinct := by decide
  few := by decide
  fewBits := by decide

theorem compiledRegisters_scratch :
    (∃ text, Compiles true (headerText scratchRegHeader) (headerText scratchBitHeader) text) ∧
      ∀ text, Compiles true (headerText scratchRegHeader) (headerText scratchBitHeader) text →
        ∃ sorted : List RegDef, sorted.Perm scratchRegs ∧
          (sorted.Pairwise fun a b => Registers.istrCmp (bytesOf a.name) (bytesOf b.name) ≤ 0) ∧
          ∀ (stale : Stale) (soc15 : Option (List Soc15)) (entry : Option Soc15)
            (soc15name cmnname filename : List Char) (inst : Nat), IsWord filename →
            NamesEntry soc15 soc15name entry → TableFits scratchRegs entry inst →
            umrDatabaseReadIpblock stale soc15 (some text) filename cmnname soc15name inst =
              .ok (some ⟨cmnname, UInt32.ofNat scratchRegs.length,
                sorted.map (RegDef.register scratchBits (entry.map fun entry => entry.off inst)),
                fillIpverFromPath filename⟩, []) :=
  compiledRegisters_read scratchHeaders_define

end Umr.Compiler
