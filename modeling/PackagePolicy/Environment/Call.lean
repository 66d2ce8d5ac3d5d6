import PackagePolicy.Environment.Encoding

/-!
# Calls by name

A query may be called by the name of a method, with JSON values as arguments. The number of the arguments is
checked first, then their types from left to right, and then the query is made.
-/

namespace PackagePolicy
namespace Environment

inductive Method where
  | queryUse
  | acceptKeyword
  | acceptLicense
  | maskReasons
  | packageSet
  | fetchRepository
deriving DecidableEq, Repr

namespace Method

def all : List Method :=
  [queryUse, acceptKeyword, acceptLicense, maskReasons, packageSet, fetchRepository]

def name : Method → Text
  | queryUse => "query_use".toList
  | acceptKeyword => "accept_keyword".toList
  | acceptLicense => "accept_license".toList
  | maskReasons => "mask_reasons".toList
  | packageSet => "package_set".toList
  | fetchRepository => "fetch_repository".toList

def ofName? (s : Text) : Option Method := all.find? (·.name == s)

end Method

def textArgument (m : Method) : Json → Except Error Text
  | .string s => .ok s
  | other => .error (.type m.name .string other.typeName)

/-- The entry that an argument describes, as a text or as an object. -/
def entryArgument (m : Method) : Json → Except Error Entry
  | .string s => Entry.parse s
  | .object fields => Entry.ofFields fields
  | other => .error (.type m.name .entry other.typeName)

def onlyArgument (m : Method) : List Json → Except Error Json
  | [a] => .ok a
  | args => .error (.argument m.name 1 1 args.length)

def textAndEntry (m : Method) : List Json → Except Error (Text × Option Entry)
  | [a] => do return (← textArgument m a, none)
  | [a, b] => do
    let s ← textArgument m a
    return (s, some (← entryArgument m b))
  | args => .error (.argument m.name 1 2 args.length)

def repositoryJson (r : Repository) : Json :=
  .record [("name", .string r.name), ("location", .ofOption r.location)]

def callMethod (env : Environment) (m : Method) (args : List Json) : Except Error Json :=
  match m with
  | .queryUse => do
    let (flag, e) ← textAndEntry m args
    return .bool (← env.queryUse flag e)
  | .acceptKeyword => do
    let (keyword, e) ← textAndEntry m args
    return .bool (← env.acceptKeyword keyword e)
  | .acceptLicense => do
    let (license, e) ← textAndEntry m args
    return .bool (← env.acceptLicense license e)
  | .maskReasons => do
    let e ← entryArgument m (← onlyArgument m args)
    return (← env.maskReasons e).toJson
  | .packageSet => do
    let name ← textArgument m (← onlyArgument m args)
    return (← env.packageSet name).toJson Atom.toJson
  | .fetchRepository => do
    let name ← textArgument m (← onlyArgument m args)
    return repositoryJson (← env.database.fetch name)

def call (env : Environment) (method : Text) (args : List Json) : Except Error Json :=
  match Method.ofName? method with
  | some m => env.callMethod m args
  | none => .error (.noMethod method)

end Environment
end PackagePolicy
