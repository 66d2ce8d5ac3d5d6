import PackagePolicy.Text.Digit

/-!
# Parts of versions

A version such as `1.2.3b_beta2_p1-r3` has dotted components, an optional letter, suffixes and a
revision. This file holds the type of these parts and reads them off a text.
-/

namespace PackagePolicy

inductive SuffixKind where
  | alpha
  | beta
  | pre
  | rc
  | patch
deriving DecidableEq, Repr

namespace SuffixKind

def rank : SuffixKind → Nat
  | alpha => 0
  | beta => 1
  | pre => 2
  | rc => 3
  | patch => 4

def name : SuffixKind → Text
  | alpha => "alpha".toList
  | beta => "beta".toList
  | pre => "pre".toList
  | rc => "rc".toList
  | patch => "p".toList

/-- All kinds; a kind whose name begins another name comes after that other kind. -/
def all : List SuffixKind := [alpha, beta, pre, rc, patch]

end SuffixKind

/-- A suffix `_kindN`; the number is 0 when it is not written. -/
structure Suffix where
  kind : SuffixKind
  number : Nat
deriving DecidableEq, Repr

structure Version.Parts where
  first : Text
  later : List Text
  letter : Option Char
  suffixes : List Suffix
  /-- the number after `-r`, 0 when it is not written -/
  revision : Nat
deriving DecidableEq, Repr

namespace Version
open Text

def isComponentChar (c : Char) : Bool := isDigit c || c == '.'

def isLetter (c : Char) : Bool := 'a' ≤ c && c ≤ 'z'

def letter? : Text → Option Char × Text
  | [] => (none, [])
  | c :: s => if isLetter c then (some c, s) else (none, c :: s)

def suffixNumber? (s : Text) : Option Nat := if s.isEmpty then some 0 else decimal64 s

/-- A suffix without its underscore: the first kind that the text begins with, then a number. -/
def suffix? (s : Text) : Option Suffix :=
  (SuffixKind.all.findSome? fun kind => (after? kind.name s).map fun r => (kind, r)).bind
    fun (kind, r) => (suffixNumber? r).map fun n => ⟨kind, n⟩

def suffixes? : Text → Option (List Suffix)
  | [] => some []
  | '_' :: s => (s.splitOn '_').mapM suffix?
  | _ => none

def revision? : Text → Option Nat
  | [] => some 0
  | '-' :: 'r' :: s => decimal64 s
  | _ => none

def components? (s : Text) : Option (Text × List Text) :=
  match s.splitOn '.' with
  | [] => none
  | first :: later =>
    if (first :: later).any List.isEmpty then none else some (first, later)

def parts? (text : Text) : Option Parts := do
  let (first, later) ← components? (text.takeWhile isComponentChar)
  let (letter, rest) := letter? (text.dropWhile isComponentChar)
  let suffixes ← suffixes? (rest.takeWhile (· != '-'))
  let revision ← revision? (rest.dropWhile (· != '-'))
  return { first, later, letter, suffixes, revision }

theorem components?_of_parts? {text : Text} {p : Parts} (h : parts? text = some p) :
    components? (text.takeWhile isComponentChar) = some (p.first, p.later) := by
  obtain ⟨c, hc, h⟩ := Option.bind_eq_some_iff.mp h
  obtain ⟨suffixes, _, h⟩ := Option.bind_eq_some_iff.mp h
  obtain ⟨revision, _, h⟩ := Option.bind_eq_some_iff.mp h
  cases h
  exact hc

end Version
end PackagePolicy
