import PackagePolicy.Error
import PackagePolicy.Json.Basic
import PackagePolicy.Version.Parser

/-!
# Package versions in repositories

An entry is one version of one package in one repository. It is written
`category/name-version::repository`, or as an object with the fields `name`, `version` and `repository`.
-/

namespace PackagePolicy

structure PackageId where
  category : Text
  name : Text
deriving DecidableEq, Repr

structure Entry where
  id : PackageId
  version : Version
  repository : Text
deriving BEq, Repr

namespace PackageId
open Text

def render (p : PackageId) : Text := p.category ++ '/' :: p.name

/-- Reads a package: two non-empty parts around the only slash. -/
def parse? (s : Text) : Option PackageId :=
  match cut '/' s with
  | some (category, name) =>
    if category.isEmpty || name.isEmpty || name.contains '/' then none else some ⟨category, name⟩
  | none => none

def order (a b : PackageId) : Ordering :=
  (compare a.category b.category).then (compare a.name b.name)

end PackageId

namespace Entry
open Text

def parse (s : Text) : Except Error Entry :=
  let text := trim s
  match cutAtLast "::".toList text with
  | none => .error (.package .missingRepository text)
  | some (cpv, repository) =>
    if repository.isEmpty then .error (.package .emptyRepository text)
    else
      match cut '/' cpv with
      | none => .error (.package .missingCategory text)
      | some (category, rest) =>
        match splitNameVersion rest with
        | none => .error (.package .missingVersion text)
        | some (name, version) =>
          match PackageId.parse? (category ++ '/' :: name) with
          | none => .error (.package .malformed text)
          | some id =>
            match Version.parse? version with
            | none => .error (.version version)
            | some v => .ok ⟨id, v, repository⟩

def render (e : Entry) : Text := e.id.render ++ '-' :: e.version.text ++ "::".toList ++ e.repository

def toJson (e : Entry) : Json :=
  .record [("name", .string e.id.render), ("version", .string e.version.text),
    ("repository", .string e.repository)]

/-- Reads an entry from the fields of an object; other fields do not count. -/
def ofFields (fields : List (Text × Json)) : Except Error Entry :=
  match Json.textField? "name" fields, Json.textField? "version" fields,
      Json.textField? "repository" fields with
  | some name, some version, some repository =>
    match PackageId.parse? name with
    | none => .error (.object (.name name))
    | some id =>
      match Version.parse? version with
      | none => .error (.object (.version version))
      | some v => .ok ⟨id, v, repository⟩
  | _, _, _ => .error (.object .fields)

end Entry
end PackagePolicy
