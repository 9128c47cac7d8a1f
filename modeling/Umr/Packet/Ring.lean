import Umr.Lib.Circular
import Mathlib.Data.Int.ModEq
import Mathlib.Tactic.NormNum

/-!
# Linearising a kernel ring

`umr_packet_decode_ring` of `packet_stream.c` up to the call of the stream
decoder.  `start` and `stop` are `int`s that the function reads and writes
back; `-1` asks for the kernel's own pointer.  The words are copied by a loop
whose exit test compares the running position with `stop`, so the windows that
end exactly at the ring size, and those as long as the ring, go wrong.
-/

set_option autoImplicit false

namespace Umr.Packet

open Umr.Lib

inductive RingType where
  | pm4 | pm4Lite | sdma | mes | vpe | umsch | hsa | vcnDec | vcnEnc | guess | unk
  deriving DecidableEq, Repr

/-- The packet format of a ring, from its name when the caller says
`UMR_RING_GUESS`. -/
def ringTypeOf (rt : RingType) (ringname : String) : Option RingType :=
  let named := fun start : String => start.toList.isPrefixOf ringname.toList
  if rt = .guess then
    if named "gfx" || named "uvd" || named "mes_kiq" || named "kiq" || named "comp" then
      some .pm4
    else if named "vcn_enc" || named "vcn_unified_" then some .vcnEnc
    else if named "vcn_dec" then some .vcnDec
    else if named "sdma" || named "page" then some .sdma
    else if named "mes" then some .mes
    else if named "vpe" then some .vpe
    else if named "umsch" then some .umsch
    else none
  else some rt

/-- What `read_ring_data` returns: the three pointer words, unreduced, and the
words of the ring.  The size in bytes is a `uint32_t`. -/
structure Ring where
  rptr : UInt32
  wptr : UInt32
  dwptr : UInt32
  words : List UInt32
  nonempty : 0 < words.length
  fits : 4 * words.length < 2 ^ 32

def toU32 (x : Int) : Int := x % 2 ^ 32

def toInt32 (x : Int) : Int := Int.bmod x (2 ^ 32)

/-- The copy loop: the positions read, in order. -/
def linearPositions (ringsize : Nat) (stop : Int) : Nat → Int → List Int
  | 0, _ => []
  | left + 1, start =>
      if start = stop then []
      else start :: linearPositions ringsize stop left (toU32 (start + 1) % ringsize)

/-- `ringdata[3 + position]`; only positions on the ring have a word. -/
def Ring.word (ring : Ring) (position : Int) : UInt32 :=
  ring.words.getD position.toNat 0

structure RingDecode where
  start : Int
  stop : Int
  positions : List Int
  handed : Option (RingType × List UInt32)
  deriving DecidableEq, Repr

/-- The sentinels replaced by the kernel pointers. -/
def askedBounds (rptr wptr start stop : Int) : Int × Int :=
  if start = -1 ∧ stop ≠ -1 then (rptr, rptr + stop)
  else if start ≠ -1 ∧ stop = -1 then (wptr - start, wptr)
  else if start = -1 ∧ stop = -1 then (rptr, wptr)
  else (start, stop)

/-- The window in ring coordinates: a negative start and a stop beyond the end
are wrapped once. -/
def ringBounds (ring : Ring) (start stop : Int) : Int × Int :=
  let ringsize := ring.words.length
  let bounds := askedBounds (ring.rptr.toNat % ringsize : Nat)
    (ring.wptr.toNat % ringsize : Nat) start stop
  (if bounds.1 < 0 then toInt32 (ringsize + bounds.1) else bounds.1,
    if toU32 bounds.2 > ringsize then toInt32 (bounds.2 - ringsize) else bounds.2)

def umrPacketDecodeRing (ringname : String) (rt : RingType) (ringdata : Option Ring)
    (start stop : Int) : RingDecode :=
  match ringTypeOf rt ringname, ringdata with
  | some kind, some ring =>
      let ringsize := ring.words.length
      let stop := if stop ≠ -1 ∧ toU32 (stop * 4) ≥ 4 * ringsize then (ringsize : Int) else stop
      let onlyActive := start = -1 ∧ stop = -1
      let bounds := ringBounds ring start stop
      if ¬ onlyActive ∨ bounds.1 ≠ bounds.2 then
        let positions := linearPositions ringsize bounds.2 ringsize bounds.1
        ⟨bounds.1, bounds.2, positions, some (kind, positions.map ring.word)⟩
      else ⟨bounds.1, bounds.2, [], none⟩
  | _, _ => ⟨start, stop, [], none⟩

/-! ## The windows callers ask for -/

/-- The four forms of `start`/`stop`. -/
inductive RingRequest (n : Nat) where
  | fromRptr (k : Nat) (bound : k ≤ n)
  | beforeWptr (k : Nat) (bound : k ≤ n)
  | range (s e : Nat) (order : s ≤ e) (bound : e ≤ n)
  | active

def RingRequest.args {n : Nat} : RingRequest n → Int × Int
  | .fromRptr k _ => (-1, k)
  | .beforeWptr k _ => (k, -1)
  | .range s e _ _ => (s, e)
  | .active => (-1, -1)

def RingRequest.window {n : Nat} (rptr wptr : Nat) : RingRequest n → List Nat
  | .fromRptr k _ => circularWindow n (rptr % n) k
  | .beforeWptr k _ => circularWindow n (wptr % n + n - k) k
  | .range s e _ _ => (List.range (e - s)).map fun i => s + i
  | .active => circularWindow n (rptr % n) ((wptr % n + n - rptr % n) % n)

/-- The windows the copy loop gets right. -/
def RingRequest.Ok {n : Nat} (rptr : Nat) : RingRequest n → Prop
  | .fromRptr k _ => (k < n ∧ rptr % n + k ≠ n) ∨ (k = n ∧ rptr % n = 0)
  | .beforeWptr k _ => k < n
  | .range s e _ _ => e < n ∨ s = 0 ∨ s = n
  | .active => True

/-- The array handed to the stream decoder is the requested window, and only
positions on the ring are read.  An empty active window is not handed on. -/
def Linearises (ring : Ring) (outcome : RingDecode) (window : List Nat) : Prop :=
  (match outcome.handed with
    | some (_, words) => words
    | none => []) = window.map (fun position => ring.words.getD position 0) ∧
  ∀ position ∈ outcome.positions, 0 ≤ position ∧ position < ring.words.length

/-! ## The copy loop on the ring -/

theorem linearPositions_eq_walkUntil (n stop : Nat) (small : n < 2 ^ 31) :
    ∀ (left start : Nat), start < n →
      linearPositions n stop left start = (walkUntil n stop left start).map Nat.cast := by
  intro left
  induction left with
  | zero => intro start _; rfl
  | succ left ih =>
      intro start inside
      have next : toU32 ((start : Int) + 1) % n = ((start + 1) % n : Nat) := by
        have noWrap : toU32 ((start : Int) + 1) = (start + 1 : Nat) := by
          rw [toU32]
          omega
        rw [noWrap]
        norm_cast
      rw [linearPositions, walkUntil, next]
      by_cases met : start = stop
      · simp [met]
      · have different : ¬ (start : Int) = stop := by omega
        rw [if_neg met, if_neg different, ih _ (Nat.mod_lt _ (by omega))]
        rfl

theorem toInt32_natCast (n : Nat) (small : n < 2 ^ 31) : toInt32 n = n := by
  rw [toInt32, Int.bmod_def]
  omega

theorem toU32_natCast (n : Nat) (small : n < 2 ^ 32) : toU32 n = n := by
  rw [toU32]
  omega

theorem walkUntil_onRing (n stop left start : Nat) (inside : start < n) :
    ∀ position ∈ walkUntil n stop left start, position < n := by
  induction left generalizing start with
  | zero => intro position member; cases member
  | succ left ih =>
      intro position member
      rw [walkUntil] at member
      split at member
      · cases member
      · rcases List.mem_cons.mp member with rfl | rest
        · exact inside
        · exact ih _ (Nat.mod_lt _ (by omega)) position rest

section Outcome
variable {ring : Ring} {ringname : String} {rt kind : RingType} {start stop : Int}

/-- Once the window is known in ring coordinates, the request is served
correctly exactly if the copy loop sees the requested words. -/
theorem linearises_iff_walk (known : ringTypeOf rt ringname = some kind) {a b : Nat}
    (inside : a < ring.words.length)
    (unclamped : (stop ≠ -1 ∧ toU32 (stop * 4) ≥ 4 * ring.words.length) →
      stop = ring.words.length)
    (bounds : ringBounds ring start stop = ((a : Int), (b : Int)))
    (proceeds : ¬ (start = -1 ∧ stop = -1) ∨ a ≠ b) (window : List Nat) :
    Linearises ring (umrPacketDecodeRing ringname rt (some ring) start stop) window ↔
      ((walkUntil ring.words.length b ring.words.length a).map
          fun position => ring.words.getD position 0) =
        window.map fun position => ring.words.getD position 0 := by
  have small := ring.fits
  have clamp : (if stop ≠ -1 ∧ toU32 (stop * 4) ≥ 4 * ring.words.length then
      (ring.words.length : Int) else stop) = stop := by
    split
    · rename_i full
      exact (unclamped full).symm
    · rfl
  have go : ¬ (start = -1 ∧ stop = -1) ∨ (a : Int) ≠ (b : Int) := by
    rcases proceeds with asked | apart
    · exact Or.inl asked
    · exact Or.inr (by omega)
  have loop := linearPositions_eq_walkUntil ring.words.length b (by omega)
    ring.words.length a inside
  simp only [Linearises, umrPacketDecodeRing, known, clamp, bounds, if_pos go, loop,
    List.map_map]
  constructor
  · intro linear
    exact linear.1
  · intro same
    refine ⟨same, ?_⟩
    intro position member
    obtain ⟨index, indexMember, rfl⟩ := List.mem_map.mp member
    have := walkUntil_onRing _ _ _ _ inside index indexMember
    omega

theorem walk_wrong_length {walk window : List Nat} (lengths : walk.length ≠ window.length) :
    ¬ (walk.map fun position => ring.words.getD position 0) =
      window.map fun position => ring.words.getD position 0 := by
  intro same
  have counted := congrArg List.length same
  simp only [List.length_map] at counted
  exact lengths counted

end Outcome

/-! ## Each form of request -/

section Requests
variable {ring : Ring} {ringname : String} {rt kind : RingType}

theorem toU32_times_four (k : Nat) (small : 4 * k < 2 ^ 32) :
    toU32 ((k : Int) * 4) = (4 * k : Nat) := by
  rw [toU32]
  omega

theorem ringBounds_fromRptr (r k : Nat) (rptr : ring.rptr.toNat % ring.words.length = r)
    (inside : r < ring.words.length) (bound : k ≤ ring.words.length) :
    ringBounds ring (-1) k =
      ((r : Int), ((if ring.words.length < r + k then r + k - ring.words.length
        else r + k : Nat) : Int)) := by
  have small := ring.fits
  have asked : ∀ wptr, askedBounds r wptr (-1) k = ((r : Int), (r : Int) + k) := by
    intro wptr
    exact if_pos (by omega)
  have sum : toU32 ((r : Int) + k) = (r + k : Nat) := by
    rw [toU32]
    omega
  have notNegative : ¬ (r : Int) < 0 := by omega
  simp only [ringBounds, rptr, asked, sum, if_neg notNegative]
  by_cases beyond : ring.words.length < r + k
  · have beyond' : ((r + k : Nat) : Int) > ring.words.length := by omega
    have wrapped : (r : Int) + k - ring.words.length =
        ((r + k - ring.words.length : Nat) : Int) := by omega
    rw [if_pos beyond, if_pos beyond', wrapped, toInt32_natCast _ (by omega)]
  · have notBeyond : ¬ ((r + k : Nat) : Int) > ring.words.length := by omega
    rw [if_neg beyond, if_neg notBeyond]
    norm_cast

theorem fromRptr_linearises_iff (known : ringTypeOf rt ringname = some kind) (k : Nat)
    (bound : k ≤ ring.words.length) :
    Linearises ring (umrPacketDecodeRing ringname rt (some ring) (-1) k)
        (circularWindow ring.words.length (ring.rptr.toNat % ring.words.length) k) ↔
      (k < ring.words.length ∧
        ring.rptr.toNat % ring.words.length + k ≠ ring.words.length) ∨
      (k = ring.words.length ∧ ring.rptr.toNat % ring.words.length = 0) := by
  have small := ring.fits
  obtain ⟨r, rptr⟩ : ∃ r, ring.rptr.toNat % ring.words.length = r := ⟨_, rfl⟩
  have inside : r < ring.words.length := rptr ▸ Nat.mod_lt _ ring.nonempty
  have asked : ¬ ((-1 : Int) = -1 ∧ (k : Int) = -1) := by omega
  have unclamped : (k : Int) ≠ -1 ∧ toU32 ((k : Int) * 4) ≥ 4 * ring.words.length →
      (k : Int) = ring.words.length := by
    rw [toU32_times_four k (by omega)]
    omega
  rw [linearises_iff_walk known inside unclamped (ringBounds_fromRptr r k rptr inside bound)
    (Or.inl asked), rptr]
  -- the stop position is past the end, at the end, or met on the ring
  rcases Nat.lt_trichotomy (r + k) ring.words.length with below | atEnd | above
  · rw [if_neg (by omega), walkUntil_meets _ _ (by omega) _ _ inside
      (by unfold circularDistance; split <;> omega)]
    have distance : circularDistance ring.words.length r (r + k) = k := by
      unfold circularDistance
      split <;> omega
    rw [distance]
    exact ⟨fun _ => Or.inl ⟨by omega, by omega⟩, fun _ => rfl⟩
  · rw [if_neg (by omega), walkUntil_misses _ _ (by omega) _ _ inside]
    by_cases whole : k = ring.words.length
    · rw [← whole]
      exact ⟨fun _ => Or.inr ⟨rfl, by omega⟩, fun _ => rfl⟩
    · refine ⟨fun same => absurd same (walk_wrong_length ?_), fun ok => ?_⟩
      · simp only [circularWindow_length]
        omega
      · omega
  · rw [if_pos above]
    have stopInside : r + k - ring.words.length < ring.words.length := by omega
    have near : circularDistance ring.words.length r (r + k - ring.words.length) ≤
        ring.words.length := by
      unfold circularDistance
      split <;> omega
    rw [walkUntil_meets _ _ stopInside _ _ inside near]
    by_cases whole : k = ring.words.length
    · refine ⟨fun same => absurd same (walk_wrong_length ?_), fun ok => ?_⟩
      · simp only [circularWindow_length]
        unfold circularDistance
        split <;> omega
      · omega
    · have distance : circularDistance ring.words.length r (r + k - ring.words.length) = k := by
        unfold circularDistance
        split <;> omega
      rw [distance]
      exact ⟨fun _ => Or.inl ⟨by omega, by omega⟩, fun _ => rfl⟩

theorem ringBounds_beforeWptr (w k : Nat) (wptr : ring.wptr.toNat % ring.words.length = w)
    (inside : w < ring.words.length) (bound : k ≤ ring.words.length) :
    ringBounds ring k (-1) =
      (((if w < k then w + ring.words.length - k else w - k : Nat) : Int), (w : Int)) := by
  have small := ring.fits
  have asked : ∀ rptr, askedBounds rptr w k (-1) = ((w : Int) - k, (w : Int)) := by
    intro rptr
    rw [askedBounds, if_neg (by omega), if_pos (by omega)]
  have notBeyond : ¬ (w : Int) > ring.words.length := by omega
  simp only [ringBounds, wptr, asked,
    toU32_natCast w (by omega), if_neg notBeyond]
  by_cases negative : w < k
  · have negative' : (w : Int) - k < 0 := by omega
    have wrapped : (ring.words.length : Int) + ((w : Int) - k) =
        ((w + ring.words.length - k : Nat) : Int) := by omega
    rw [if_pos negative, if_pos negative', wrapped, toInt32_natCast _ (by omega)]
  · have notNegative : ¬ (w : Int) - k < 0 := by omega
    have exact_ : (w : Int) - k = ((w - k : Nat) : Int) := by omega
    rw [if_neg negative, if_neg notNegative, exact_]

theorem beforeWptr_linearises_iff (known : ringTypeOf rt ringname = some kind) (k : Nat)
    (bound : k ≤ ring.words.length) :
    Linearises ring (umrPacketDecodeRing ringname rt (some ring) k (-1))
        (circularWindow ring.words.length
          (ring.wptr.toNat % ring.words.length + ring.words.length - k) k) ↔
      k < ring.words.length := by
  have small := ring.fits
  obtain ⟨w, wptr⟩ : ∃ w, ring.wptr.toNat % ring.words.length = w := ⟨_, rfl⟩
  have inside : w < ring.words.length := wptr ▸ Nat.mod_lt _ ring.nonempty
  have asked : ¬ ((k : Int) = -1 ∧ (-1 : Int) = -1) := by omega
  have startInside : (if w < k then w + ring.words.length - k else w - k) <
      ring.words.length := by
    split <;> omega
  rw [linearises_iff_walk known startInside (fun clamped => absurd rfl clamped.1)
    (ringBounds_beforeWptr w k wptr inside bound) (Or.inl asked), wptr]
  have near : circularDistance ring.words.length
      (if w < k then w + ring.words.length - k else w - k) w ≤ ring.words.length := by
    unfold circularDistance
    split_ifs <;> omega
  rw [walkUntil_meets _ _ inside _ _ startInside near]
  by_cases whole : k = ring.words.length
  · refine ⟨fun same => absurd same (walk_wrong_length ?_), fun ok => by omega⟩
    simp only [circularWindow_length]
    unfold circularDistance
    split_ifs <;> omega
  · have distance : circularDistance ring.words.length
        (if w < k then w + ring.words.length - k else w - k) w = k := by
      unfold circularDistance
      split_ifs <;> omega
    have sameStart : (if w < k then w + ring.words.length - k else w - k) =
        (w + ring.words.length - k) % ring.words.length := by
      split
      · exact (Nat.mod_eq_of_lt (by omega)).symm
      · rw [show w + ring.words.length - k = w - k + ring.words.length by omega,
          Nat.add_mod_right, Nat.mod_eq_of_lt (by omega)]
    rw [distance, sameStart, circularWindow_mod]
    exact ⟨fun _ => by omega, fun _ => rfl⟩

theorem ringBounds_range (s e : Nat) (bound : e ≤ ring.words.length) :
    ringBounds ring s e = ((s : Int), (e : Int)) := by
  have small := ring.fits
  have asked : ∀ rptr wptr, askedBounds rptr wptr s e = ((s : Int), (e : Int)) := by
    intro rptr wptr
    rw [askedBounds, if_neg (by omega), if_neg (by omega), if_neg (by omega)]
  have notNegative : ¬ (s : Int) < 0 := by omega
  have notBeyond : ¬ (e : Int) > ring.words.length := by omega
  simp only [ringBounds, asked, if_neg notNegative,
    toU32_natCast e (by omega), if_neg notBeyond]

theorem range_linearises_iff (known : ringTypeOf rt ringname = some kind) (s e : Nat)
    (order : s ≤ e) (bound : e ≤ ring.words.length) :
    Linearises ring (umrPacketDecodeRing ringname rt (some ring) s e)
        ((List.range (e - s)).map fun i => s + i) ↔
      e < ring.words.length ∨ s = 0 ∨ s = ring.words.length := by
  have small := ring.fits
  have asked : ¬ ((s : Int) = -1 ∧ (e : Int) = -1) := by omega
  have unclamped : (e : Int) ≠ -1 ∧ toU32 ((e : Int) * 4) ≥ 4 * ring.words.length →
      (e : Int) = ring.words.length := by
    rw [toU32_times_four e (by omega)]
    omega
  by_cases full : s = ring.words.length
  · -- both bounds sit past the last word: nothing is read
    have ends : e = ring.words.length := by omega
    refine ⟨fun _ => Or.inr (Or.inr full), fun _ => ?_⟩
    have clamp : (if (e : Int) ≠ -1 ∧ toU32 ((e : Int) * 4) ≥ 4 * ring.words.length then
        (ring.words.length : Int) else e) = e := by
      rw [ends, ite_self]
    have same : (s : Int) = e := by omega
    have nothing : linearPositions ring.words.length (e : Int) ring.words.length s = [] := by
      cases ring.words.length with
      | zero => rfl
      | succ left => rw [linearPositions, if_pos same]
    simp only [Linearises, umrPacketDecodeRing, known, clamp,
      ringBounds_range s e bound, if_pos (Or.inl asked), nothing]
    simp [full, ends]
  · have inside : s < ring.words.length := by omega
    rw [linearises_iff_walk known inside unclamped (ringBounds_range s e bound)
      (Or.inl asked), ← circularWindow_eq_range ring.words.length s (e - s) (by omega)]
    by_cases onRing : e < ring.words.length
    · have distance : circularDistance ring.words.length s e = e - s := by
        unfold circularDistance
        rw [if_pos order]
      rw [walkUntil_meets _ _ onRing _ _ inside (by omega), distance]
      exact ⟨fun _ => Or.inl onRing, fun _ => rfl⟩
    · rw [walkUntil_misses _ _ (by omega) _ _ inside]
      by_cases fromZero : s = 0
      · have whole : e - s = ring.words.length := by omega
        rw [whole]
        exact ⟨fun _ => Or.inr (Or.inl fromZero), fun _ => rfl⟩
      · refine ⟨fun same => absurd same (walk_wrong_length ?_), fun ok => by omega⟩
        simp only [circularWindow_length]
        omega

theorem ringBounds_active (r w : Nat) (rptr : ring.rptr.toNat % ring.words.length = r)
    (wptr : ring.wptr.toNat % ring.words.length = w) (inside : r < ring.words.length)
    (wInside : w < ring.words.length) :
    ringBounds ring (-1) (-1) = ((r : Int), (w : Int)) := by
  have small := ring.fits
  have notNegative : ¬ (r : Int) < 0 := by omega
  have notBeyond : ¬ (w : Int) > ring.words.length := by omega
  have asked : askedBounds r w (-1) (-1) = ((r : Int), (w : Int)) := by
    rw [askedBounds, if_neg (by omega), if_neg (by omega), if_pos (by omega)]
  simp only [ringBounds, rptr, wptr, asked, if_neg notNegative,
    toU32_natCast w (by omega), if_neg notBeyond]

theorem active_linearises (known : ringTypeOf rt ringname = some kind) :
    Linearises ring (umrPacketDecodeRing ringname rt (some ring) (-1) (-1))
      (circularWindow ring.words.length (ring.rptr.toNat % ring.words.length)
        ((ring.wptr.toNat % ring.words.length + ring.words.length -
          ring.rptr.toNat % ring.words.length) % ring.words.length)) := by
  obtain ⟨r, rptr⟩ : ∃ r, ring.rptr.toNat % ring.words.length = r := ⟨_, rfl⟩
  obtain ⟨w, wptr⟩ : ∃ w, ring.wptr.toNat % ring.words.length = w := ⟨_, rfl⟩
  have inside : r < ring.words.length := rptr ▸ Nat.mod_lt _ ring.nonempty
  have wInside : w < ring.words.length := wptr ▸ Nat.mod_lt _ ring.nonempty
  have bounds := ringBounds_active r w rptr wptr inside wInside
  rw [rptr, wptr]
  by_cases idle : r = w
  · have none_ : (w + ring.words.length - r) % ring.words.length = 0 := by
      rw [idle, Nat.add_sub_cancel_left, Nat.mod_self]
    rw [none_]
    simp [Linearises, umrPacketDecodeRing, known, bounds, idle]
  · rw [linearises_iff_walk known inside (fun clamped => absurd rfl clamped.1) bounds
      (Or.inr idle), ← circularDistance_eq_mod _ _ _ inside wInside,
      walkUntil_meets _ _ wInside _ _ inside]
    unfold circularDistance
    split <;> omega

end Requests

/-- Every request on every ring: the array handed to the stream decoder is the
requested window exactly for the windows `RingRequest.Ok` describes. -/
theorem umrPacketDecodeRing_linearises_iff (ring : Ring) (ringname : String)
    (rt kind : RingType) (known : ringTypeOf rt ringname = some kind)
    (request : RingRequest ring.words.length) :
    Linearises ring
        (umrPacketDecodeRing ringname rt (some ring) request.args.1 request.args.2)
        (request.window ring.rptr.toNat ring.wptr.toNat) ↔
      request.Ok ring.rptr.toNat := by
  cases request with
  | fromRptr k bound => exact fromRptr_linearises_iff known k bound
  | beforeWptr k bound => exact beforeWptr_linearises_iff known k bound
  | range s e order bound => exact range_linearises_iff known s e order bound
  | active => exact ⟨fun _ => trivial, fun _ => active_linearises known⟩

def fourWordRing : Ring where
  rptr := 0
  wptr := 2
  dwptr := 2
  words := [10, 11, 12, 13]
  nonempty := by decide
  fits := by decide

theorem fourWordRing_linearises_iff :
    ringTypeOf .guess "gfx_0.0.0" = some .pm4 ∧
    (Linearises fourWordRing (umrPacketDecodeRing "gfx_0.0.0" .guess (some fourWordRing) (-1) 3)
        (circularWindow 4 0 3) ↔ (3 < 4 ∧ 0 + 3 ≠ 4) ∨ (3 = 4 ∧ 0 = 0)) :=
  ⟨by decide, umrPacketDecodeRing_linearises_iff fourWordRing "gfx_0.0.0" .guess .pm4
    (by decide) (.fromRptr 3 (by decide))⟩

/-- Words `1` to `3` of the ring are asked for; word `0` comes along. -/
theorem range_to_end_not_linearised :
    ¬ Linearises fourWordRing
        (umrPacketDecodeRing "gfx_0.0.0" .guess (some fourWordRing) 1 4)
        (RingRequest.window (n := 4) 0 2 (.range 1 4 (by decide) (by decide))) := by
  intro linear
  exact absurd linear.1 (by decide)

end Umr.Packet
