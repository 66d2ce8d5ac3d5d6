import PackagePolicy.CommandLine.Arguments
import PackagePolicy.Environment.Call
import PackagePolicy.Environment.Sources
import PackagePolicy.Json.Parser

/-!
# Running commands

Commands print their answers and end with 0 for yes, 1 for no and 2 for an error. An error ends a command
where it arises; what was printed before stays.
-/

namespace PackagePolicy

structure Outcome where
  stdout : Text
  exit : Nat
deriving DecidableEq, Repr

namespace Outcome

def failure : Outcome := ⟨[], 2⟩

def answer (stdout : Text) (yes : Bool) : Outcome := ⟨stdout, if yes then 0 else 1⟩

def after (stdout : Text) (o : Outcome) : Outcome := { o with stdout := stdout ++ o.stdout }

def ofExcept (o : Except Error Outcome) : Outcome :=
  match o with
  | .ok o => o
  | .error _ => failure

end Outcome

namespace CommandLine
open Text

def line (s : Text) : Text := s ++ ['\n']

def yesNo (yes : Bool) : Outcome := .answer (line (if yes then "yes".toList else "no".toList)) yes

def entryOperand (s : Option Text) : Except Error (Option Entry) :=
  match s with
  | some s => (Entry.parse s).map some
  | none => .ok none

def callArgument (s : Text) : Json := (Json.parse? s).getD (.string s)

def entryLine (e : Entry) (reasons : MaskReasons) : Text :=
  if reasons.isEmpty then line e.render
  else line (e.render ++ " masked by ".toList ++ reasons.render)

/-- Prints the lines of entries, up to the first whose mask reasons are in error. -/
def queryLines (env : Environment) (found : Bool) : List Entry → Outcome
  | [] => .answer [] found
  | e :: es =>
    match env.maskReasons e with
    | .error _ => .failure
    | .ok reasons => (queryLines env found es).after (entryLine e reasons)

def repositoryLine (r : Repository) : Text :=
  match r.location with
  | some location => line (r.name ++ ' ' :: location)
  | none => line r.name

def execute (env : Environment) : Command → Except Error Outcome
  | .use flag e => do return yesNo (← env.queryUse flag (← entryOperand e))
  | .keyword keyword e => do return yesNo (← env.acceptKeyword keyword (← entryOperand e))
  | .license license e => do return yesNo (← env.acceptLicense license (← entryOperand e))
  | .masks e => do
    let reasons ← env.maskReasons (← Entry.parse e)
    return .answer (reasons.toList.flatMap fun r => line r.name) reasons.isEmpty
  | .set name json => do
    let tree ← env.packageSet name
    if json then return .answer (line ((tree.toJson Atom.toJson).render 0)) true
    else return .answer (tree.leaves.flatMap fun a => line a.render) true
  | .query atom => do
    let a ← (Atom.parse atom).mapError Error.config
    let found := env.database.query a
    return queryLines env (!found.isEmpty) found
  | .repos => return .answer (env.database.repositories.flatMap repositoryLine) true
  | .call method args => do
    let value ← env.call method (args.map callArgument)
    return .answer (line (value.sortFields.render 0)) (match value with
      | .bool false => false
      | _ => true)

/-- The environment for a command: over the only repository, which has to be a directory, or from the
configuration. -/
def environment (d : Disk) (appointedHome userHome : Option Text) (c : CommandLine) :
    Except Error Environment :=
  match c.onlyRepository with
  | some root =>
    match d.canonical? root with
    | some path => do return (← BareEnvironment.load d path).environment
    | none => .error .unreadable
  | none => do return (← ConfiguredEnvironment.load d appointedHome userHome).environment

/-- The directories of the repositories that a command line leads to, so far as a snapshot tells. -/
def repositoryPaths (d : Disk) (appointedHome userHome : Option Text) (c : CommandLine) : List Text :=
  match c.onlyRepository with
  | some root => [root]
  | none =>
    match UserConfig.loadOrDefault d (UserConfig.directory d appointedHome userHome) true with
    | .ok config => config.repositories.sources.map (·.location)
    | .error _ => []

def run (d : Disk) (appointedHome userHome : Option Text) (c : CommandLine) : Outcome :=
  .ofExcept do execute (← environment d appointedHome userHome c) c.command

def runArguments (d : Disk) (appointedHome userHome fallback : Option Text) (args : List Text) :
    Outcome :=
  match parse? fallback args with
  | some c => run d appointedHome userHome c
  | none => .failure

end CommandLine
end PackagePolicy
