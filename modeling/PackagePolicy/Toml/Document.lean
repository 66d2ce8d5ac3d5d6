import PackagePolicy.Toml.Scalar

/-!
# TOML documents

A document is a tree of tables. Of the values only strings are kept, since settings are strings; all
others are checked and forgotten. A table may be opened once, a key defined once, and a dotted key must
not reach into a table that was opened by a header.
-/

namespace PackagePolicy
namespace Toml
open Text

inductive Value where
  | text (s : Text)
  | other
deriving DecidableEq, Repr

/-- How a table came to be. -/
inductive TableKind where
  /-- by a header of its own -/
  | opened
  /-- by the header of a table inside it -/
  | implied
  /-- by a dotted key -/
  | dotted
deriving DecidableEq, Repr

/-- What a key names: a value, a table, or an array of tables, of which only the last can still
change. -/
inductive Node where
  | value (v : Value)
  | table (kind : TableKind) (entries : List (Text × Node))
  | tables (last : List (Text × Node))
deriving Repr

abbrev Entries := List (Text × Node)

/-! ### Definitions -/

def replace (key : Text) (node : Node) (entries : Entries) : Entries :=
  entries.map fun e => if e.1 == key then (key, node) else e

/-- Defines a key, given by the dotted keys before it, in a table. A table reached by dotted keys has to
stem from dotted keys itself. -/
def define (key : Text) (v : Value) (reached : Option TableKind) :
    List Text → Entries → Option Entries
  | [], entries =>
    if reached.isSome && reached != some .dotted then none
    else if (entries.lookup key).isSome then none
    else some (entries ++ [(key, .value v)])
  | parent :: parents, entries =>
    match entries.lookup parent with
    | none =>
      (define key v (some .dotted) parents []).map fun inner =>
        entries ++ [(parent, .table .dotted inner)]
    | some (.value _) => none
    | some (.tables last) =>
      (define key v (some .opened) parents last).map fun inner =>
        replace parent (.tables inner) entries
    | some (.table kind inner) =>
      if kind = .opened then none
      else
        (define key v (some kind) parents inner).map fun inner =>
          replace parent (.table kind inner) entries

/-- Changes the table at the end of a path of headers, which must exist unless `create` is given for the
last key. -/
def change (create : Option Node → Option Node) : List Text → Entries → Option Entries
  | [], _ => none
  | [key], entries =>
    match entries.lookup key with
    | none => (create none).map fun node => entries ++ [(key, node)]
    | some node => (create (some node)).map fun node => replace key node entries
  | parent :: parents, entries =>
    match entries.lookup parent with
    | none => (change create parents []).map fun inner => entries ++ [(parent, .table .implied inner)]
    | some (.value _) => none
    | some (.tables last) =>
      (change create parents last).map fun inner => replace parent (.tables inner) entries
    | some (.table kind inner) =>
      (change create parents inner).map fun inner => replace parent (.table kind inner) entries

/-- Opens a table: a new one, or one that is implied by the headers of tables inside it. -/
def openTable : Option Node → Option Node
  | none => some (.table .opened [])
  | some (.table .implied entries) => some (.table .opened entries)
  | some _ => none

def openElement : Option Node → Option Node
  | none => some (.tables [])
  | some (.tables _) => some (.tables [])
  | some _ => none

def defineIn (parents : List Text) (key : Text) (v : Value) : Option Node → Option Node
  | some (.table kind entries) => (define key v none parents entries).map (.table kind ·)
  | some (.tables last) => (define key v none parents last).map .tables
  | _ => none

/-! ### Keys and values -/

def isKeyChar (c : Char) : Bool :=
  isAsciiDigit c || ('a' ≤ c && c ≤ 'z') || ('A' ≤ c && c ≤ 'Z') || c == '-' || c == '_'

def simpleKey? : Text → Option (Text × Text)
  | '"' :: s => basic? (s.length + 1) s
  | '\'' :: s => literal? s
  | s =>
    let key := s.takeWhile isKeyChar
    if key.isEmpty then none else some (key, s.dropWhile isKeyChar)

/-- The parts of a dotted key and the text after them. `fuel` bounds the number of parts. -/
def key? : Nat → Text → Option (List Text × Text)
  | 0, _ => none
  | fuel + 1, s => do
    let (part, s) ← simpleKey? (skipSpace s)
    match skipSpace s with
    | '.' :: s =>
      let (parts, s) ← key? fuel s
      return (part :: parts, s)
    | s => return ([part], s)

/-- The number of parts a key may have, and of values around a value. -/
def depthLimit : Nat := 79

def splitKey (parts : List Text) : List Text × Text := (parts.dropLast, parts.getLast?.getD [])

def skipComment : Text → Option Text
  | [] => some []
  | c :: s =>
    if c == '\n' || c == '\r' then some (c :: s)
    else if isTextChar c then skipComment s
    else none

def skipTrivia? : Nat → Text → Option Text
  | 0, s => some s
  | fuel + 1, s =>
    match skipSpace s with
    | '#' :: s => do
      let s ← skipComment s
      skipTrivia? fuel (← lineEnd? s)
    | s =>
      match lineEnd? s with
      | some s => skipTrivia? fuel s
      | none => some s

mutual

/-- A value and the text after it. `depth` bounds the values within values, `fuel` the steps. -/
def value? (fuel depth : Nat) (s : Text) : Option (Value × Text) :=
  match fuel with
  | 0 => none
  | fuel + 1 =>
    match s with
    | '"' :: _ => (string? s).map fun (t, s) => (.text t, s)
    | '\'' :: _ => (string? s).map fun (t, s) => (.text t, s)
    | '[' :: s =>
      match depth with
      | 0 => none
      | depth + 1 => do
        match ← skipTrivia? (s.length + 1) s with
        | ']' :: s => return (.other, s)
        | s => return (.other, ← items? fuel depth s)
    | '\x7b' :: s =>
      match depth with
      | 0 => none
      | depth + 1 =>
        match skipSpace s with
        | '\x7d' :: s => some (.other, s)
        | s => (fields? fuel depth [] s).map fun s => (.other, s)
    | 't' :: _ => (after? "true".toList s).map fun s => (.other, s)
    | 'f' :: _ => (after? "false".toList s).map fun s => (.other, s)
    | s => (numeric? s).map fun s => (.other, s)

def items? (fuel depth : Nat) (s : Text) : Option Text :=
  match fuel with
  | 0 => none
  | fuel + 1 => do
    let (_, s) ← value? fuel depth s
    match ← skipTrivia? (s.length + 1) s with
    | ']' :: s => return s
    | ',' :: s =>
      match ← skipTrivia? (s.length + 1) s with
      | ']' :: s => return s
      | s => items? fuel depth s
    | _ => none

def fields? (fuel depth : Nat) (entries : Entries) (s : Text) : Option Text :=
  match fuel with
  | 0 => none
  | fuel + 1 => do
    let (parts, s) ← key? depthLimit s
    let s ← after? ['='] s
    let (v, s) ← value? fuel depth (skipSpace s)
    let entries ← define (splitKey parts).2 v none (splitKey parts).1 entries
    match skipSpace s with
    | '\x7d' :: s => return s
    | ',' :: s => fields? fuel depth entries s
    | _ => none

end

/-! ### Documents -/

structure Draft where
  entries : Entries
  path : List Text
deriving Repr

def lineRest? (s : Text) : Option Text :=
  match skipSpace s with
  | '#' :: s => do
    match ← skipComment s with
    | [] => return []
    | s => lineEnd? s
  | [] => some []
  | s => lineEnd? s

def Draft.define (d : Draft) (parts : List Text) (v : Value) : Option Draft :=
  let (parents, key) := splitKey parts
  if d.path.isEmpty then
    (Toml.define key v none parents d.entries).map fun entries => { d with entries }
  else (change (defineIn parents key v) d.path d.entries).map fun entries => { d with entries }

def lines? : Nat → Draft → Text → Option Entries
  | 0, _, _ => none
  | fuel + 1, d, s =>
    match skipSpace s with
    | [] => some d.entries
    | '#' :: s => (lineRest? ('#' :: s)).bind (lines? fuel d)
    | '[' :: '[' :: s => do
      let (path, s) ← key? depthLimit s
      let s ← lineRest? (← after? "]]".toList s)
      lines? fuel ⟨← change openElement path d.entries, path⟩ s
    | '[' :: s => do
      let (path, s) ← key? depthLimit s
      let s ← lineRest? (← after? [']'] s)
      lines? fuel ⟨← change openTable path d.entries, path⟩ s
    | s =>
      match lineEnd? s with
      | some s => lines? fuel d s
      | none => do
        let (parts, s) ← key? depthLimit s
        let s ← after? ['='] s
        let (v, s) ← value? (2 * s.length + 2) depthLimit (skipSpace s)
        lines? fuel (← d.define parts v) (← lineRest? s)

def parse? (s : Text) : Option Entries :=
  let s := dropLead '\ufeff' s
  lines? (s.length + 1) ⟨[], []⟩ s

end Toml
end PackagePolicy
