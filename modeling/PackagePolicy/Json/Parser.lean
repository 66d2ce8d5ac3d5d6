import PackagePolicy.Json.Basic
import PackagePolicy.Text.Decimal

/-!
# Reading JSON

A reader of one JSON value. It is strict: no comments, no trailing commas, no bare control characters,
no lone surrogates, no numbers beyond the range of doubles, and at most 127 values around a value.
-/

namespace PackagePolicy
namespace Json
open Text

def isSpace (c : Char) : Bool := c == ' ' || c == '\n' || c == '\t' || c == '\r'

def skipSpace (s : Text) : Text := s.dropWhile isSpace

def hexDigit? (c : Char) : Option Nat :=
  if isAsciiDigit c then some (c.toNat - '0'.toNat)
  else if 'a' ≤ c && c ≤ 'f' then some (c.toNat - 'a'.toNat + 10)
  else if 'A' ≤ c && c ≤ 'F' then some (c.toNat - 'A'.toNat + 10)
  else none

def hex4? : Text → Option (Nat × Text)
  | a :: b :: c :: d :: s => do
    let a ← hexDigit? a
    let b ← hexDigit? b
    let c ← hexDigit? c
    let d ← hexDigit? d
    return (4096 * a + 256 * b + 16 * c + d, s)
  | _ => none

def isLeading (n : Nat) : Bool := 0xd800 ≤ n && n < 0xdc00

def isTrailing (n : Nat) : Bool := 0xdc00 ≤ n && n < 0xe000

/-- The character of a numbered escape whose `\u` has been read; characters beyond the first 65536 are
written as two escapes. -/
def numberedEscape? (s : Text) : Option (Char × Text) := do
  let (n, s) ← hex4? s
  if isTrailing n then none
  else if isLeading n then
    match s with
    | '\\' :: 'u' :: s =>
      let (k, s) ← hex4? s
      if isTrailing k then
        return (Char.ofNat (0x10000 + 0x400 * (n - 0xd800) + (k - 0xdc00)), s)
      else none
    | _ => none
  else return (Char.ofNat n, s)

def escape? : Text → Option (Char × Text)
  | '"' :: s => some ('"', s)
  | '\\' :: s => some ('\\', s)
  | '/' :: s => some ('/', s)
  | 'b' :: s => some ('\x08', s)
  | 'f' :: s => some ('\x0c', s)
  | 'n' :: s => some ('\n', s)
  | 'r' :: s => some ('\r', s)
  | 't' :: s => some ('\t', s)
  | 'u' :: s => numberedEscape? s
  | _ => none

/-- The rest of a text in quotes, and what follows the closing quote. `fuel` bounds the number of
characters. -/
def string? : Nat → Text → Option (Text × Text)
  | 0, _ => none
  | _, [] => none
  | _ + 1, '"' :: s => some ([], s)
  | fuel + 1, '\\' :: s => do
    let (c, s) ← escape? s
    let (t, s) ← string? fuel s
    return (c :: t, s)
  | fuel + 1, c :: s =>
    if c.toNat < 0x20 then none else (string? fuel s).map fun (t, s) => (c :: t, s)

def digits? (s : Text) : Option (Text × Text) :=
  let d := s.takeWhile isAsciiDigit
  if d.isEmpty then none else some (d, s.dropWhile isAsciiDigit)

def whole? : Text → Option (Text × Text)
  | '0' :: s => if (s.head?.map isAsciiDigit).getD false then none else some (['0'], s)
  | s => digits? s

def fraction? : Text → Option (Text × Text)
  | '.' :: s => digits? s
  | s => some ([], s)

def signedDigits? : Text → Option (Bool × Text × Text)
  | '-' :: s => (digits? s).map (true, ·)
  | '+' :: s => (digits? s).map (false, ·)
  | s => (digits? s).map (false, ·)

def exponent? : Text → Option (Bool × Text × Text)
  | 'e' :: s => signedDigits? s
  | 'E' :: s => signedDigits? s
  | s => some (false, [], s)

/-- A number and the text after it. It is refused if it is beyond the range of doubles, read as the
product of its digits and a power of ten. -/
def number? (s : Text) : Option (Json × Text) := do
  let unsigned := dropLead '-' s
  let (whole, r) ← whole? unsigned
  let (fraction, r) ← fraction? r
  let (negative, exponent, r) ← exponent? r
  if (Numeral.mk whole fraction negative exponent).productIsTooLarge then none
  else return (number (s.take (s.length - r.length)), r)

def word? (s : Text) : Option (Json × Text) :=
  match after? "null".toList s, after? "true".toList s, after? "false".toList s with
  | some r, _, _ => some (null, r)
  | _, some r, _ => some (bool true, r)
  | _, _, some r => some (bool false, r)
  | _, _, _ => none

mutual

/-- A value and the text after it. `depth` bounds the values within values, `fuel` the steps. -/
def value? (fuel depth : Nat) (s : Text) : Option (Json × Text) :=
  match fuel with
  | 0 => none
  | fuel + 1 =>
    match skipSpace s with
    | '"' :: s => (string? (s.length + 1) s).map fun (t, s) => (string t, s)
    | '[' :: s =>
      match depth with
      | 0 => none
      | depth + 1 =>
        match skipSpace s with
        | ']' :: s => some (array [], s)
        | s => (items? fuel depth s).map fun (items, s) => (array items, s)
    | '\x7b' :: s =>
      match depth with
      | 0 => none
      | depth + 1 =>
        match skipSpace s with
        | '\x7d' :: s => some (object [], s)
        | s => (fields? fuel depth s).map fun (fields, s) => (object fields, s)
    | s => (word? s).or (number? s)

def items? (fuel depth : Nat) (s : Text) : Option (List Json × Text) :=
  match fuel with
  | 0 => none
  | fuel + 1 => do
    let (v, s) ← value? fuel depth s
    match skipSpace s with
    | ']' :: s => return ([v], s)
    | ',' :: s =>
      let (items, s) ← items? fuel depth s
      return (v :: items, s)
    | _ => none

def fields? (fuel depth : Nat) (s : Text) : Option (List (Text × Json) × Text) :=
  match fuel with
  | 0 => none
  | fuel + 1 =>
    match skipSpace s with
    | '"' :: s => do
      let (name, s) ← string? (s.length + 1) s
      match skipSpace s with
      | ':' :: s =>
        let (v, s) ← value? fuel depth s
        match skipSpace s with
        | '\x7d' :: s => return ([(name, v)], s)
        | ',' :: s =>
          let (fields, s) ← fields? fuel depth s
          return ((name, v) :: fields, s)
        | _ => none
      | _ => none
    | _ => none

end

def parse? (s : Text) : Option Json := do
  let (v, s) ← value? (2 * s.length + 2) 127 s
  if (skipSpace s).isEmpty then return v else none

end Json
end PackagePolicy
