import PackagePolicy.Version.Parts

/-!
# Versions

A version such as `1.2.3b_beta2_p1-r3` has dotted components, an optional letter, suffixes and a
revision. Versions are compared part by part in that order; two versions are equal (`==`) when the
comparison says so, whatever their texts.

* The first components compare as numbers.
* Later components compare as numbers, unless one of them starts with `0`: then both compare as
  texts without their trailing zeros. Of two lists that agree, the longer one is greater.
* A letter is greater than none, and letters compare by the alphabet.
* Suffixes compare by kind, then by number. A further `_p` makes a version greater, any other
  further suffix makes it smaller.
* Revisions compare as numbers.
-/

namespace PackagePolicy

/-- A version: a text without blanks at its ends, and the parts of that text. -/
structure Version extends Version.Parts where
  text : Text
  /-- the parts are those that the text has -/
  reads : Version.parts? text = some toParts
deriving Repr

namespace Version
open Text

def components (v : Version) : List Text := v.first :: v.later

/-! ### Order -/

def withoutLeadingZeros (s : Text) : Text := s.dropWhile (· == '0')

def withoutTrailingZeros (s : Text) : Text := dropTail (· == '0') s

/-- Numerals compare as numbers: by length once leading zeros are gone, then digit by digit. -/
def compareNumerals (a b : Text) : Ordering :=
  let a := withoutLeadingZeros a
  let b := withoutLeadingZeros b
  (compare (utf8Length a) (utf8Length b)).then (compare a b)

/-- A later component that starts with `0` counts as a decimal fraction. -/
def isFraction (s : Text) : Bool := s.head? == some '0'

/-- Later components compare as fractions if either is one, else as numbers. -/
def compareComponent (a b : Text) : Ordering :=
  if isFraction a || isFraction b then compare (withoutTrailingZeros a) (withoutTrailingZeros b)
  else compareNumerals a b

def compareLater : List Text → List Text → Ordering
  | [], [] => .eq
  | [], _ :: _ => .lt
  | _ :: _, [] => .gt
  | a :: as, b :: bs => (compareComponent a b).then (compareLater as bs)

def compareSuffix (a b : Suffix) : Ordering :=
  (compare a.kind.rank b.kind.rank).then (compare a.number b.number)

/-- Lists of suffixes compare at their first difference; a further suffix counts as greater than
none if it is `_p`, and as smaller otherwise. -/
def compareSuffixes : List Suffix → List Suffix → Ordering
  | [], [] => .eq
  | [], b :: _ => if b.kind = .patch then .lt else .gt
  | a :: _, [] => if a.kind = .patch then .gt else .lt
  | a :: as, b :: bs => (compareSuffix a b).then (compareSuffixes as bs)

def compareBase (a b : Version) : Ordering :=
  (compareNumerals a.first b.first).then <|
  (compareLater a.later b.later).then <|
  (compare a.letter b.letter).then <|
  compareSuffixes a.suffixes b.suffixes

def order (a b : Version) : Ordering :=
  (compareBase a b).then (compare a.revision b.revision)

/-- Versions are equal when neither comes before the other. -/
instance : BEq Version := ⟨fun a b => order a b == .eq⟩

def sameBase (a b : Version) : Bool := compareBase a b == .eq

def textStartsWith (v start : Version) : Bool := start.text.isPrefixOf v.text

/-- A later component as it enters a key: fractions are marked and lose their trailing zeros. -/
def keyComponent (s : Text) : Bool × Text :=
  if isFraction s then (true, withoutTrailingZeros s) else (false, s)

structure Key where
  first : Text
  later : List (Bool × Text)
  letter : Option Char
  suffixes : List Suffix
  revision : Nat
deriving DecidableEq, Repr

def key (v : Version) : Key where
  first := withoutLeadingZeros v.first
  later := v.later.map keyComponent
  letter := v.letter
  suffixes := v.suffixes
  revision := v.revision

def sorted (versions : List Version) : List Version :=
  versions.mergeSort fun a b => (order a b).isLE

/-- Versions in ascending order without those that equal a later one. -/
def distinct (versions : List Version) : List Version := (sorted versions).reverse.eraseDups.reverse

end Version
end PackagePolicy
