import PackagePolicy.Atom.UseDep
import PackagePolicy.Text.Glob
import PackagePolicy.Version.Parser

/-!
# Atoms

An atom names packages: a category and a name, either of which may be a glob pattern in a
configuration file, and optionally a version with an operator, a slot, a repository and USE
dependencies. This file holds the type, the packages an atom is matched against, and matching.
-/

namespace PackagePolicy

inductive Operator where
  | any
  | equal
  | greater
  | greaterEqual
  | less
  | lessEqual
  /-- versions whose text begins with the text of the atom's version -/
  | textStart
  /-- the same version in any revision -/
  | sameBase
deriving DecidableEq, Repr

def Operator.holds (version wanted : Version) : Operator → Bool
  | .any => true
  | .equal => version == wanted
  | .greater => version.order wanted == .gt
  | .greaterEqual => (version.order wanted).isGE
  | .less => version.order wanted == .lt
  | .lessEqual => (version.order wanted).isLE
  | .textStart => version.textStartsWith wanted
  | .sameBase => version.sameBase wanted

structure Atom where
  operator : Operator
  category : Text
  name : Text
  version : Option Version
  slot : Option Text
  subslot : Option Text
  repository : Option Text
  useDeps : List UseDep
deriving BEq, Repr

/-- A package version as an atom sees it. -/
structure Candidate where
  category : Text
  name : Text
  version : Version
  /-- the declared slot with an optional `/subslot`, if it is known -/
  slot : Option Text
  repository : Option Text
deriving Repr

namespace Atom
open Text

def unversioned (category name : Text) : Atom where
  operator := .any
  category := category
  name := name
  version := none
  slot := none
  subslot := none
  repository := none
  useDeps := []

def fullName (a : Atom) : Text := a.category ++ '/' :: a.name

def isWildcard (a : Atom) : Bool := Glob.isPattern a.category || Glob.isPattern a.name

def isNamed (a : Atom) (category name : Text) : Bool :=
  Glob.isMatch a.category category && Glob.isMatch a.name name

/-- A slot and its subslot; a slot without one is its own subslot. -/
def slotParts (slot : Text) : Text × Text := (cut '/' slot).getD (slot, slot)

/-- The declared slot meets the slot restriction; an unknown slot meets none. -/
def slotMatches (a : Atom) (declared : Option Text) : Bool :=
  match a.slot with
  | none => true
  | some wanted =>
    match declared with
    | none => false
    | some declared =>
      (slotParts declared).1 == wanted
        && (match a.subslot with
          | none => true
          | some subslot => (slotParts declared).2 == subslot)

def versionMatches (a : Atom) (version : Version) : Bool :=
  match a.version with
  | none => true
  | some wanted => a.operator.holds version wanted

def repositoryMatches (a : Atom) (repository : Option Text) : Bool :=
  match a.repository with
  | none => true
  | some wanted => repository == some wanted

/-- The atom matches a package version. USE dependencies restrict installed packages and play no
part in it. -/
def isMatch (a : Atom) (p : Candidate) : Bool :=
  a.isNamed p.category p.name && a.repositoryMatches p.repository && a.slotMatches p.slot
    && a.versionMatches p.version

def key (a : Atom) : Operator × Text × Text × Option Version.Key × Option Text × Option Text
    × Option Text × List UseDep :=
  (a.operator, a.category, a.name, a.version.map Version.key, a.slot, a.subslot, a.repository,
    a.useDeps)

end Atom
end PackagePolicy
