import PackagePolicy.Entry
import PackagePolicy.Mask
import PackagePolicy.PackageSet
import PackagePolicy.Repository.Metadata

/-!
# Repositories

A repository is a named source of package versions with what they declare, of masks and USE flag states
by profile, and of package sets. Its package versions are kept in the order of packages and versions, and
equal versions of a package are one: the first text stays, and the metadata that came last counts.
-/

namespace PackagePolicy

structure Release where
  id : PackageId
  version : Version
  metadata : Metadata
deriving Repr

structure Repository where
  name : Text
  location : Option Text
  arch : Option Text
  /-- the package versions, in strictly ascending order -/
  releases : List Release
  profileMasks : List Mask
  useMask : List Text
  useForce : List Text
  system : List Atom
  sets : SetTable
deriving Repr

namespace Release

def order (a b : Release) : Ordering := (a.id.order b.id).then (a.version.order b.version)

/-- Puts a release into its place; where there is an equal version of the package, only the metadata
changes. -/
def insert (r : Release) : List Release → List Release
  | [] => [r]
  | x :: xs =>
    match r.order x with
    | .lt => r :: x :: xs
    | .eq => { x with metadata := r.metadata } :: xs
    | .gt => x :: insert r xs

end Release

namespace Repository

def empty (name : Text) : Repository where
  name := name
  location := none
  arch := none
  releases := []
  profileMasks := []
  useMask := []
  useForce := []
  system := []
  sets := .empty

def packageIds (r : Repository) : List PackageId := (r.releases.map (·.id)).eraseDups

def versions (r : Repository) (id : PackageId) : List Version :=
  (r.releases.filter (·.id == id)).map (·.version)

def entryOf (r : Repository) (x : Release) : Entry := ⟨x.id, x.version, r.name⟩

def entries (r : Repository) : List Entry := r.releases.map r.entryOf

def metadata? (r : Repository) (e : Entry) : Option Metadata :=
  (r.releases.find? fun x => x.id == e.id && x.version == e.version).map (·.metadata)

def keywords (r : Repository) (e : Entry) : List Keyword :=
  match r.metadata? e with
  | some m => m.keywords
  | none => []

def license? (r : Repository) (e : Entry) : Option (SpecTree Text) :=
  (r.metadata? e).bind (·.license)

def candidate (r : Repository) (e : Entry) : Candidate where
  category := e.id.category
  name := e.id.name
  version := e.version
  slot := (r.metadata? e).map (·.slot)
  repository := some e.repository

/-- The entries that an atom matches. An atom of another repository matches none. -/
def query (r : Repository) (a : Atom) : List Entry :=
  match a.repository with
  | some name =>
    if name != r.name then [] else r.entries.filter fun e => a.isMatch (r.candidate e)
  | none => r.entries.filter fun e => a.isMatch (r.candidate e)

def profileMask? (r : Repository) (e : Entry) : Option Mask :=
  r.profileMasks.find? (·.atom.isMatch (r.candidate e))

def isUseMasked (r : Repository) (flag : Text) : Bool := r.useMask.contains flag

def isUseForced (r : Repository) (flag : Text) : Bool := r.useForce.contains flag

def insert (id : PackageId) (version : Version) (metadata : Metadata) (r : Repository) : Repository :=
  { r with releases := Release.insert ⟨id, version, metadata⟩ r.releases }

end Repository
end PackagePolicy
