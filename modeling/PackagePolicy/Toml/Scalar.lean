import PackagePolicy.Json.Parser

/-!
# TOML scalars

Readers of the strings, numbers, dates and times of TOML. Each takes the text at which the scalar starts
and gives what follows it; strings also give their content. The values of numbers, dates and times play
no part in settings, but they have to be well-formed and in range.
-/

namespace PackagePolicy
namespace Toml
open Text

/-! ### Characters -/

def isSpace (c : Char) : Bool := c == ' ' || c == '\t'

def isTextChar (c : Char) : Bool := c == '\t' || (0x20 ≤ c.toNat && c.toNat != 0x7f)

def skipSpace (s : Text) : Text := s.dropWhile isSpace

def lineEnd? : Text → Option Text
  | '\n' :: s => some s
  | '\r' :: '\n' :: s => some s
  | _ => none

def skipLines : Nat → Text → Text
  | 0, s => s
  | fuel + 1, s =>
    match lineEnd? (skipSpace s) with
    | some s => skipLines fuel s
    | none => skipSpace s

/-! ### Strings -/

def hexNumber? : Nat → Nat → Text → Option (Nat × Text)
  | 0, n, s => some (n, s)
  | _ + 1, _, [] => none
  | count + 1, n, c :: s => do
    let d ← Json.hexDigit? c
    hexNumber? count (16 * n + d) s

def charOf? (n : Nat) : Option Char :=
  if n < 0xd800 || (0xdfff < n && n < 0x110000) then some (Char.ofNat n) else none

def escape? : Text → Option (Char × Text)
  | '"' :: s => some ('"', s)
  | '\\' :: s => some ('\\', s)
  | 'b' :: s => some ('\x08', s)
  | 'f' :: s => some ('\x0c', s)
  | 'n' :: s => some ('\n', s)
  | 'r' :: s => some ('\r', s)
  | 't' :: s => some ('\t', s)
  | 'u' :: s => do
    let (n, s) ← hexNumber? 4 0 s
    return (← charOf? n, s)
  | 'U' :: s => do
    let (n, s) ← hexNumber? 8 0 s
    return (← charOf? n, s)
  | _ => none

def basic? : Nat → Text → Option (Text × Text)
  | 0, _ => none
  | _, [] => none
  | _ + 1, '"' :: s => some ([], s)
  | fuel + 1, '\\' :: s => do
    let (c, s) ← escape? s
    let (t, s) ← basic? fuel s
    return (c :: t, s)
  | fuel + 1, c :: s =>
    if isTextChar c then (basic? fuel s).map fun (t, s) => (c :: t, s) else none

def literal? : Text → Option (Text × Text)
  | [] => none
  | '\'' :: s => some ([], s)
  | c :: s => if isTextChar c then (literal? s).map fun (t, s) => (c :: t, s) else none

/-- The rest of a string of several lines that ends with three quotes, of which it may have up to two
more before the last three. Escapes count if `escapes` says so, and a backslash at a line end removes
the blanks and line ends after it. -/
def multiline? (quote : Char) (escapes : Bool) : Nat → Text → Option (Text × Text)
  | 0, _ => none
  | _, [] => none
  | fuel + 1, c :: s =>
    if c == quote then
      match s.span (· == quote) with
      | ([], _) => (multiline? quote escapes fuel s).map fun (t, s) => (c :: t, s)
      | ([_], _) => (multiline? quote escapes fuel s).map fun (t, s) => (c :: t, s)
      | (run, _) => some (run.drop 2 |>.take 2, s.drop (2 + min 2 (run.length - 2)))
    else if c == '\\' && escapes then
      match lineEnd? (skipSpace s) with
      | some s => multiline? quote escapes fuel (skipLines (s.length + 1) s)
      | none => do
        let (e, s) ← escape? s
        let (t, s) ← multiline? quote escapes fuel s
        return (e :: t, s)
    else
      match lineEnd? (c :: s) with
      | some s => (multiline? quote escapes fuel s).map fun (t, s) => ('\n' :: t, s)
      | none =>
        if isTextChar c then (multiline? quote escapes fuel s).map fun (t, s) => (c :: t, s)
        else none

def dropFirstLineEnd (s : Text) : Text := (lineEnd? s).getD s

def string? : Text → Option (Text × Text)
  | '"' :: '"' :: '"' :: s => multiline? '"' true (s.length + 1) (dropFirstLineEnd s)
  | '\'' :: '\'' :: '\'' :: s => multiline? '\'' false (s.length + 1) (dropFirstLineEnd s)
  | '"' :: s => basic? (s.length + 1) s
  | '\'' :: s => literal? s
  | _ => none

/-! ### Numbers -/

def digitsOf? (isDigit : Char → Bool) : Text → Option (Text × Text)
  | [] => none
  | c :: s =>
    if isDigit c then
      match s with
      | '_' :: r => (digitsOf? isDigit r).map fun (t, r) => (c :: t, r)
      | r =>
        if (r.head?.map isDigit).getD false then
          (digitsOf? isDigit r).map fun (t, r) => (c :: t, r)
        else some ([c], r)
    else none

def wholeBound (negative : Bool) : Nat := if negative then Nat.pow 2 63 + 1 else Nat.pow 2 63

def isDigitOf (base : Nat) (c : Char) : Bool :=
  match Json.hexDigit? c with
  | some d => d < base
  | none => false

def based? (base : Nat) (s : Text) : Option Text := do
  let (digits, s) ← digitsOf? (isDigitOf base) s
  let n := digits.foldl (fun n c => base * n + (Json.hexDigit? c).getD 0) 0
  if n < wholeBound false then return s else none

def fraction? : Text → Option (Text × Text)
  | '.' :: s => digitsOf? isAsciiDigit s
  | s => some ([], s)

def signedDigits? : Text → Option (Bool × Text × Text)
  | '-' :: s => (digitsOf? isAsciiDigit s).map (true, ·)
  | '+' :: s => (digitsOf? isAsciiDigit s).map (false, ·)
  | s => (digitsOf? isAsciiDigit s).map (false, ·)

def exponent? : Text → Option (Bool × Text × Text)
  | 'e' :: s => signedDigits? s
  | 'E' :: s => signedDigits? s
  | s => some (false, [], s)

def startsFloat (s : Text) : Bool :=
  match s with
  | c :: _ => c == '.' || c == 'e' || c == 'E'
  | [] => false

/-- A decimal number after its sign. A positive number too large for a double is refused. -/
def decimal? (negative : Bool) (s : Text) : Option Text := do
  let (whole, s) ← match s with
    | '0' :: s => some (['0'], s)
    | s => digitsOf? isAsciiDigit s
  if startsFloat s then
    let (fraction, s) ← fraction? s
    let (negativeExponent, exponent, s) ← exponent? s
    if !negative && (Numeral.mk whole fraction negativeExponent exponent).isTooLarge then none
    else return s
  else if decimalValue whole < wholeBound negative then return s
  else none

def unsigned? (negative : Bool) (s : Text) : Option Text :=
  (after? "inf".toList s).or ((after? "nan".toList s).or (decimal? negative s))

def number? : Text → Option Text
  | '-' :: s => unsigned? true s
  | '+' :: s => unsigned? false s
  | '0' :: 'x' :: s => based? 16 s
  | '0' :: 'o' :: s => based? 8 s
  | '0' :: 'b' :: s => based? 2 s
  | s => unsigned? false s

/-! ### Dates and times -/

def field? (count least most : Nat) (s : Text) : Option (Nat × Text) :=
  let digits := s.take count
  if digits.length == count && digits.all isAsciiDigit then
    let n := decimalValue digits
    if least ≤ n && n ≤ most then some (n, s.drop count) else none
  else none

def daysIn (year month : Nat) : Nat :=
  if month == 2 then
    if year % 4 == 0 && (year % 100 != 0 || year % 400 == 0) then 29 else 28
  else if month == 4 || month == 6 || month == 9 || month == 11 then 30
  else 31

def second? : Text → Option Text
  | '.' :: s => (Json.digits? s).map Prod.snd
  | s => some s

def time? (s : Text) : Option Text := do
  let (_, s) ← field? 2 0 23 s
  let s ← after? [':'] s
  let (_, s) ← field? 2 0 59 s
  let s ← after? [':'] s
  let (_, s) ← field? 2 0 60 s
  second? s

def offset? : Text → Option Text
  | 'Z' :: s => some s
  | 'z' :: s => some s
  | c :: s =>
    if c == '+' || c == '-' then do
      let (_, s) ← field? 2 0 23 s
      let s ← after? [':'] s
      let (_, s) ← field? 2 0 59 s
      return s
    else some (c :: s)
  | [] => some []

def startsTime (s : Text) : Bool :=
  (s.take 2).length == 2 && (s.take 2).all isAsciiDigit && (s.drop 2).head? == some ':'

def startsDate (s : Text) : Bool :=
  (s.take 4).length == 4 && (s.take 4).all isAsciiDigit && (s.drop 4).head? == some '-'

/-- A time after a date, if there is one: after `T` or a blank. -/
def timeAfterDate? : Text → Option Text
  | c :: s =>
    if (c == 'T' || c == 't' || c == ' ') && startsTime s then (time? s).bind offset?
    else some (c :: s)
  | [] => some []

def date? (s : Text) : Option Text := do
  let (year, s) ← field? 4 0 9999 s
  let s ← after? ['-'] s
  let (month, s) ← field? 2 1 12 s
  let s ← after? ['-'] s
  let (_, s) ← field? 2 1 (daysIn year month) s
  timeAfterDate? s

def numeric? (s : Text) : Option Text :=
  if startsDate s then date? s else if startsTime s then time? s else number? s

end Toml
end PackagePolicy
