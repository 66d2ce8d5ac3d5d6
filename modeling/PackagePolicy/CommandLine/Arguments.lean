import PackagePolicy.Text.Basic

/-!
# Command line arguments

A command line is a command with its operands, and options before and after the command. An argument that
starts with a dash is an option, unless it is a single dash or comes after `--`. `--no-config ROOT` may be
given once before the command and once after it, where the latter counts; the same holds of `-q`, and `-v`
may be given any number of times.
-/

namespace PackagePolicy

inductive Command where
  | use (flag : Text) (entry : Option Text)
  | keyword (keyword : Text) (entry : Option Text)
  | license (license : Text) (entry : Option Text)
  | masks (entry : Text)
  | set (name : Text) (json : Bool)
  | query (atom : Text)
  | repos
  | call (method : Text) (arguments : List Text)
deriving DecidableEq, Repr

structure CommandLine where
  /-- the directory of the only repository to use, without any configuration -/
  onlyRepository : Option Text
  command : Command
deriving DecidableEq, Repr

namespace CommandLine
open Text

inductive Verb where
  | use
  | keyword
  | license
  | masks
  | set
  | query
  | repos
  | call
deriving DecidableEq, Repr

def Verb.ofName? (s : Text) : Option Verb :=
  [("use", Verb.use), ("keyword", .keyword), ("license", .license), ("masks", .masks),
    ("set", .set), ("query", .query), ("repos", .repos), ("call", .call)].findSome?
    fun p => if p.1.toList == s then some p.2 else none

structure Part where
  root : Option Text
  quiet : Bool
  json : Bool
  operands : List Text
deriving DecidableEq, Repr

def Part.empty : Part := ⟨none, false, false, []⟩

def Part.setRoot? (root : Text) (p : Part) : Option Part :=
  if root.isEmpty || p.root.isSome then none else some { p with root := some root }

def Part.setQuiet? (p : Part) : Option Part := if p.quiet then none else some { p with quiet := true }

def Part.setJson? (p : Part) : Option Part := if p.json then none else some { p with json := true }

def Part.addLetters? (p : Part) : Text → Option Part
  | [] => some p
  | 'v' :: letters => p.addLetters? letters
  | 'q' :: letters => p.setQuiet?.bind fun p => p.addLetters? letters
  | _ :: _ => none

def isValue : Text → Bool
  | ['-'] => true
  | '-' :: _ => false
  | _ => true

/-- What an argument is. -/
inductive Kind where
  | separator
  /-- the name of a long option, and its value if there is one after `=` -/
  | long (name : Text) (value : Option Text)
  /-- the letters after a single dash -/
  | letters (s : Text)
  | operand (s : Text)
deriving DecidableEq, Repr

def Kind.ofText : Text → Kind
  | ['-'] => .operand ['-']
  | ['-', '-'] => .separator
  | '-' :: '-' :: s =>
    match cut '=' s with
    | some (name, value) => .long name (some value)
    | none => .long s none
  | '-' :: s => .letters s
  | s => .operand s

def Part.addFlag? (p : Part) (verb : Option Verb) (name : Text) : Option Part :=
  if name = "verbose".toList then some p
  else if name = "quiet".toList then p.setQuiet?
  else if name = "json".toList && verb = some .set then p.setJson?
  else none

def rootOption : Text := "no-config".toList

/-- Reads arguments up to the command, or all of them when it is known. The result has the part read, and
the command with the arguments after it if one was met. -/
def readPart? (verb : Option Verb) (p : Part) : List Text → Option (Part × Option (Verb × List Text))
  | [] => some (p, none)
  | [arg] =>
    match Kind.ofText arg with
    | .separator => some (p, none)
    | .letters s => (p.addLetters? s).map (·, none)
    | .long name (some value) =>
      if name = rootOption then (p.setRoot? value).map (·, none) else none
    | .long name none => if name = rootOption then none else (p.addFlag? verb name).map (·, none)
    | .operand s =>
      match verb with
      | some _ => some ({ p with operands := p.operands ++ [s] }, none)
      | none => (Verb.ofName? s).map fun v => (p, some (v, []))
  | arg :: next :: args =>
    match Kind.ofText arg with
    | .separator =>
      if verb.isSome then some ({ p with operands := p.operands ++ next :: args }, none) else none
    | .letters s => (p.addLetters? s).bind fun p => readPart? verb p (next :: args)
    | .long name (some value) =>
      if name = rootOption then (p.setRoot? value).bind fun p => readPart? verb p (next :: args)
      else none
    | .long name none =>
      if name = rootOption then
        if isValue next then (p.setRoot? next).bind fun p => readPart? verb p args else none
      else (p.addFlag? verb name).bind fun p => readPart? verb p (next :: args)
    | .operand s =>
      match verb with
      | some _ => readPart? verb { p with operands := p.operands ++ [s] } (next :: args)
      | none => (Verb.ofName? s).map fun v => (p, some (v, next :: args))

def command? : Verb → Part → Option Command
  | .use, ⟨_, _, _, [flag]⟩ => some (.use flag none)
  | .use, ⟨_, _, _, [flag, entry]⟩ => some (.use flag (some entry))
  | .keyword, ⟨_, _, _, [keyword]⟩ => some (.keyword keyword none)
  | .keyword, ⟨_, _, _, [keyword, entry]⟩ => some (.keyword keyword (some entry))
  | .license, ⟨_, _, _, [license]⟩ => some (.license license none)
  | .license, ⟨_, _, _, [license, entry]⟩ => some (.license license (some entry))
  | .masks, ⟨_, _, _, [entry]⟩ => some (.masks entry)
  | .set, ⟨_, _, json, [name]⟩ => some (.set name json)
  | .query, ⟨_, _, _, [atom]⟩ => some (.query atom)
  | .repos, ⟨_, _, _, []⟩ => some .repos
  | .call, ⟨_, _, _, method :: arguments⟩ => some (.call method arguments)
  | _, _ => none

/-- Reads a command line. `fallback` is the directory of the only repository where no option gives one;
it must not be empty. -/
def parse? (fallback : Option Text) (args : List Text) : Option CommandLine := do
  let (before, met) ← readPart? none .empty args
  let (verb, rest) ← met
  let (after, _) ← readPart? (some verb) .empty rest
  let command ← command? verb after
  if fallback == some [] then none
  else return ⟨after.root.or (before.root.or fallback), command⟩

end CommandLine
end PackagePolicy
