import PackagePolicy.Text.Blank
import PackagePolicy.Text.Digit

/-!
# Assignments

Files of a repository assign texts to variables, `KEY="value"`, one assignment at the start of a line. A
value in double or single quotes ends at the next quote of its kind, in whatever line that is; any other
value ends before a blank or `#`. The rest of a line after an assignment, and a line that does not start
with one, have no meaning.
-/

namespace PackagePolicy
namespace Assignment
open Text

def isKeyStart (c : Char) : Bool := ('a' ≤ c && c ≤ 'z') || ('A' ≤ c && c ≤ 'Z') || c == '_'

def isKeyChar (c : Char) : Bool := isKeyStart c || isAsciiDigit c

def isPlain (c : Char) : Bool := !isBlank c && c != '#'

def plainValue (s : Text) : Text × Text := (s.takeWhile isPlain, s.dropWhile isPlain)

/-- A value, and the text after it. A quote that is never closed is part of a value without quotes. -/
def value (s : Text) : Text × Text :=
  match s with
  | '"' :: r => (cut '"' r).getD (plainValue s)
  | '\'' :: r => (cut '\'' r).getD (plainValue s)
  | _ => plainValue s

def first? (s : Text) : Option ((Text × Text) × Text) :=
  let s := s.dropWhile fun c => c == ' ' || c == '\t'
  if (s.head?.map isKeyStart).getD false then
    match s.dropWhile isKeyChar with
    | '=' :: r => some ((s.takeWhile isKeyChar, (value r).1), (value r).2)
    | _ => none
  else none

theorem length_plainValue_le (s : Text) : (plainValue s).2.length ≤ s.length :=
  (List.dropWhile_sublist _).length_le

theorem length_value_le (s : Text) : (value s).2.length ≤ s.length := by
  have plain := length_plainValue_le s
  unfold value
  split
  · next r =>
    cases h : cut '"' r with
    | none => simpa [h] using plain
    | some p =>
      have := length_lt_of_cut (a := p.1) (b := p.2) h
      simp only [Option.getD_some, List.length_cons]
      omega
  · next r =>
    cases h : cut '\'' r with
    | none => simpa [h] using plain
    | some p =>
      have := length_lt_of_cut (a := p.1) (b := p.2) h
      simp only [Option.getD_some, List.length_cons]
      omega
  · exact plain

theorem length_le_of_first? {s rest : Text} {a : Text × Text} (h : first? s = some (a, rest)) :
    rest.length ≤ s.length := by
  simp only [first?] at h
  split at h
  · split at h
    · next r hr =>
      simp only [Option.some.injEq, Prod.mk.injEq] at h
      rw [← h.2]
      have h1 := length_value_le r
      have h2 : ('=' :: r).length ≤ s.length :=
        hr ▸ ((List.dropWhile_sublist _).trans (List.dropWhile_sublist _)).length_le
      simp only [List.length_cons] at h2
      omega
    · simp at h
  · simp at h

/-- The text after the first assignment, or the whole text if it does not start with one. -/
def afterFirst (s : Text) : Text :=
  match first? s with
  | some (_, rest) => rest
  | none => s

theorem length_afterFirst_le (s : Text) : (afterFirst s).length ≤ s.length := by
  unfold afterFirst
  split
  · next h => exact length_le_of_first? h
  · exact Nat.le_refl _

def all (s : Text) : List (Text × Text) :=
  ((first? s).map Prod.fst).toList ++
    match _h : cut '\n' (afterFirst s) with
    | some (_, rest) => all rest
    | none => []
termination_by s.length
decreasing_by exact Nat.lt_of_lt_of_le (length_lt_of_cut _h) (length_afterFirst_le s)

/-- The value of a variable: that of its last assignment, with one space for every run of blanks inside
it and none at its ends. -/
def value? (key : String) (s : Text) : Option Text :=
  ((all s).reverse.lookup key.toList).map collapse

end Assignment
end PackagePolicy
