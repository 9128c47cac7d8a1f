import Umr.Gui.VmInfo

/-!
# Power features

`parse_pp_features_sysfs_file` of `commands.c` and the two texts it is for: the table
of the Vega cards with a mask in each line, and the numbered list of the later ones.
The place of a feature in the answer is its bit.
-/

set_option autoImplicit false

namespace Umr.Gui

open Umr.Lib Umr.Registers Umr.Gui.Trace

/-! ## The parser -/

/-- An element of `features`; `{}` has neither. -/
structure FeatureObject where
  name : Option (List Char)
  on : Option Bool
  deriving DecidableEq, Repr

def FeatureObject.empty : FeatureObject := ⟨none, none⟩

/-- `rawValue` is what is accumulated. -/
structure PpFeatures where
  features : List FeatureObject
  rawValue : UInt64
  deriving DecidableEq, Repr

def PpFeatures.number (out : PpFeatures) : Nat := toDouble out.rawValue.toNat

/-- What a line is taken for: where the name starts, its length, the bit and the state. -/
structure FeatureLine where
  nameStart : List Char
  nameLength : Nat
  bit : Int
  enabled : Bool
  deriving DecidableEq, Repr

def lowestBit (bitmask : UInt64) : Option Nat :=
  (List.range 64).find? fun b => bitmask &&& (1 <<< UInt64.ofNat b) ≠ 0

/-- `none` is a read behind the text, `some none` is -1. -/
def parsePpFeatureVegaLine (line : List Char) : Option (Option FeatureLine) :=
  match strchr ' ' line with
  | none => some none
  | some nameEnd =>
      let ptr := nameEnd.dropWhile (· = ' ')
      match (scanLiteral "0x".toList ptr).bind sscanfHex with
      | none => some none
      | some bitmask =>
          match lowestBit bitmask with
          | none => some none
          | some bit =>
              if ptr.length < 18 then none
              else
                let state := (ptr.drop 18).dropWhile (· = ' ')
                some (some ⟨line, line.length - nameEnd.length, bit, state.head? = some 'Y'⟩)

/-- `static char value[2048]`; `none` is a read behind the text or a store behind the buffer,
`some none` is `NULL`. -/
def lookupField (text field : List Char) (separator : Char) : Option (Option (List Char)) :=
  match strstr field text with
  | none => some none
  | some found =>
      match strchr separator (found.drop field.length) with
      | none => none
      | some behind =>
          let input := (behind.drop 1).dropWhile fun c => c = ' ' ∨ c = '\t'
          match strchr '\n' (input.drop 1) with
          | none => none
          | some ends =>
              let value := input.take (input.length - ends.length)
              if 2048 ≤ value.length then none else some (some value)

def featureLabel (i : Nat) : List Char :=
  List.replicate (2 - (printDec i).length) '0' ++ (printDec i ++ ['.'])

def parsePpFeatureLine (line : List Char) (i : Nat) : Option (Option FeatureLine) :=
  match lookupField line (featureLabel i) ' ' with
  | none => none
  | some none => some none
  | some (some feature) =>
      match strchr ' ' feature with
      | none => some none
      | some sp =>
          let enabled := (strstr "enabled".toList feature).isSome
          match (scanLiteral "(".toList (sp.dropWhile (· = ' '))).bind scanInt with
          | none => some none
          | some (bit, _) => some (some ⟨feature, feature.length - sp.length, bit, enabled⟩)

def PpFeatures.add (out : PpFeatures) (line : FeatureLine) : PpFeatures where
  features := out.features ++
    (List.replicate (line.bit - out.features.length).toNat FeatureObject.empty ++
      [⟨jsonStringWithLen line.nameStart line.nameLength, some line.enabled⟩])
  rawValue :=
    if line.enabled then out.rawValue ||| (1 <<< UInt64.ofInt line.bit) else out.rawValue

def featureLoop (parse : List Char → Nat → Option (Option FeatureLine)) :
    Nat → Nat → List Char → PpFeatures → Option PpFeatures
  | 0, _, _, out => some out
  | turns + 1, i, ptr, out => do
      match ← parse ptr i with
      | none => some out
      | some line =>
          let nextLine ← strchr '\n' ptr
          featureLoop parse turns (i + 1) (nextLine.drop 1) (out.add line)

/-- The first two lines are stripped. -/
def parsePpFeaturesSysfsFile (content : List Char) : Option PpFeatures := do
  let first ← strchr '\n' content
  let second ← strchr '\n' (first.drop 1)
  if "Current ppfeatures".toList <+: content then
    featureLoop (fun ptr _ => parsePpFeatureVegaLine ptr) 64 0 (second.drop 1) ⟨[], 0⟩
  else featureLoop parsePpFeatureLine 64 0 (second.drop 1) ⟨[], 0⟩

/-! ## The texts of the kernel -/

structure Feature where
  name : List Char
  noSpace : ∀ c ∈ name, isspace c = false ∧ c ≠ nul
  bit : Nat
  on : Bool
  deriving DecidableEq

structure FeatureList where
  features : List Feature
  distinct : (features.map Feature.name).Nodup
  increasing : (features.map Feature.bit).Pairwise (· < ·)
  below : ∀ feature ∈ features, feature.bit < 64

def alignLeft (width : Nat) (text : List Char) : List Char :=
  text ++ List.replicate (width - text.length) ' '

def Feature.vegaLine (feature : Feature) : List Char :=
  alignLeft 19 feature.name ++ (" 0x".toList ++ (printPadded 16 (2 ^ feature.bit) ++
    (' ' :: alignRight 6 [if feature.on then 'Y' else 'N'])))

def stateText (on : Bool) : List Char := if on then "enabled".toList else "disabled".toList

def Feature.listed (feature : Feature) : List Char :=
  alignLeft 20 feature.name ++ (" (".toList ++ (alignRight 2 (printDec feature.bit) ++
    (") : ".toList ++ stateText feature.on)))

def Feature.numberedLine (i : Nat) (feature : Feature) : List Char :=
  featureLabel i ++ (' ' :: feature.listed)

/-- The first lines show the raw value as well; no use is made of it. -/
inductive PpFormat where
  | vega (mask : UInt64)
  | numbered (high low : UInt32)
  deriving DecidableEq, Repr

def PpFormat.header : PpFormat → List Char
  | .vega mask => "Current ppfeatures: 0x".toList ++ (printPadded 16 mask.toNat ++
      "\nFEATURES            BITMASK                ENABLEMENT\n".toList)
  | .numbered high low => "features high: 0x".toList ++ (printPadded 8 high.toNat ++
      (" low: 0x".toList ++ (printPadded 8 low.toNat ++
        "\nNo. Feature               Bit : State\n".toList)))

def PpFormat.line : PpFormat → Nat → Feature → List Char
  | .vega _, _, feature => feature.vegaLine
  | .numbered _ _, i, feature => feature.numberedLine i

def PpFormat.linesFrom (format : PpFormat) : Nat → List Feature → List Char
  | _, [] => []
  | i, feature :: features => format.line i feature ++ '\n' :: format.linesFrom (i + 1) features

def PpFormat.text (format : PpFormat) (list : FeatureList) : List Char :=
  format.header ++ format.linesFrom 0 list.features

/-! ## What is to be returned -/

def Feature.object (feature : Feature) : FeatureObject := ⟨some feature.name, some feature.on⟩

/-- Every feature stands at its bit, `{}` everywhere else, and nothing behind the last. -/
structure FeaturesRight (features : List Feature) (out : PpFeatures) : Prop where
  listed : ∀ feature ∈ features, out.features[feature.bit]? = some feature.object
  gaps : ∀ i < out.features.length, (∀ feature ∈ features, feature.bit ≠ i) →
    out.features[i]? = some FeatureObject.empty
  ends : out.features.length = (features.getLast?.map fun feature => feature.bit + 1).getD 0
  mask : ∀ i < 64, out.rawValue.toNat.testBit i =
    features.any fun feature => feature.bit = i ∧ feature.on

def Feature.Utf8 (feature : Feature) : Prop :=
  isValidUtf8 (ascii feature.name ++ [0]) feature.name.length = true

def PpFormat.Readable : PpFormat → Feature → Prop
  | .vega _, feature => feature.Utf8
  | .numbered _ _, feature =>
      feature.Utf8 ∧ feature.name ≠ [] ∧ feature.listed.length < 2048 ∧
        (feature.on = false → ¬ "enabled".toList <:+: feature.name)

end Umr.Gui
