import PackagePolicy.Atom.Basic

/-!
# Reading and writing atoms

An atom is written `operator category/name-version*:slot/subslot::repository[use,use]`, of which only
category and name are required. It is read from the outside in: operator, USE dependencies,
repository, slot, the star of a text match, and then category, name and version.
-/

namespace PackagePolicy

def Operator.render : Operator → Text
  | .any => []
  | .equal => ['=']
  | .greater => ['>']
  | .greaterEqual => ">=".toList
  | .less => ['<']
  | .lessEqual => "<=".toList
  | .textStart => ['=']
  | .sameBase => ['~']

namespace Atom
open Text

def splitOperator : Text → Operator × Text
  | '>' :: '=' :: s => (.greaterEqual, s)
  | '<' :: '=' :: s => (.lessEqual, s)
  | '>' :: s => (.greater, s)
  | '<' :: s => (.less, s)
  | '~' :: s => (.sameBase, s)
  | '=' :: s => (.equal, s)
  | s => (.any, s)

/-- The USE dependencies of an atom, and the text before them. Text after the closing bracket has no
meaning. `whole` is the atom for error messages. -/
def splitUse (whole s : Text) : Except ConfigError (List UseDep × Text) :=
  match cut '[' s with
  | none => .ok ([], s)
  | some (before, after) =>
    if before.contains ']' then .error (.atom .malformedUse whole)
    else
      match cut ']' after with
      | none => .error (.atom .unclosedUse whole)
      | some (inside, _) => do
        let deps ← (inside.splitOn ',').mapM UseDep.parse
        return (deps, before)

def splitRepository (s : Text) : Option Text × Text :=
  match cutAt "::".toList s with
  | some (before, repository) => (some repository, before)
  | none => (none, s)

def splitSlot (s : Text) : Option Text × Option Text × Text :=
  match cut ':' s with
  | none => (none, none, s)
  | some (before, slot) =>
    match cut '/' slot with
    | some (slot, subslot) => (some slot, some subslot, before)
    | none => (some slot, none, before)

/-- A star at the end turns `=` into a match of texts. -/
def splitStar (operator : Operator) (s : Text) : Operator × Text :=
  match operator, before? ['*'] s with
  | .equal, some body => (.textStart, body)
  | _, _ => (operator, s)

/-- The name and the version of an atom whose category is cut off. A version is required exactly
when there is an operator, and without one the name must not end like a version. -/
def splitVersion (whole : Text) (operator : Operator) (s : Text) :
    Except ConfigError (Text × Option Version) :=
  if operator = .any then
    match splitNameVersion s with
    | some (_, version) =>
      if (Version.parse? version).isSome then .error (.atom .strayVersion whole) else .ok (s, none)
    | none => .ok (s, none)
  else
    match splitNameVersion s with
    | none => .error (.atom .missingVersion whole)
    | some (name, version) =>
      match Version.parse? version with
      | some v => .ok (name, some v)
      | none => .error (.version (trim version))

def parse (s : Text) : Except ConfigError Atom := do
  let whole := trim s
  if whole.isEmpty then throw (.atom .empty [])
  let (operator, rest) := splitOperator whole
  let (useDeps, rest) ← splitUse whole rest
  let (repository, rest) := splitRepository rest
  let (slot, subslot, rest) := splitSlot rest
  let (operator, rest) := splitStar operator rest
  match cut '/' rest with
  | none => throw (.atom .missingCategory whole)
  | some (category, rest) =>
    if rest.contains '/' then throw (.atom .extraSlash whole)
    let (name, version) ← splitVersion whole operator rest
    if category.isEmpty || name.isEmpty then throw (.atom .missingName whole)
    return { operator, category, name, version, slot, subslot, repository, useDeps }

/-- Reads an atom of a configuration file or mask list, which has no USE dependencies: they restrict
installed packages. -/
def parseRestriction (s : Text) : Except ConfigError Atom := do
  let a ← parse s
  if a.useDeps.isEmpty then return a else throw (.atom .useNotAllowed (trim s))

def renderPart (lead : Text) : Option Text → Text
  | some part => lead ++ part
  | none => []

def renderSlot (a : Atom) : Text :=
  match a.slot with
  | some slot => ':' :: slot ++ renderPart ['/'] a.subslot
  | none => []

def render (a : Atom) : Text :=
  a.operator.render ++ a.fullName ++ renderPart ['-'] (a.version.map Version.text)
    ++ (if a.operator = .textStart then ['*'] else [])
    ++ renderSlot a ++ renderPart "::".toList a.repository
    ++ (if a.useDeps.isEmpty then []
      else '[' :: join [','] (a.useDeps.map UseDep.render) ++ [']'])

end Atom
end PackagePolicy
