import PackagePolicy.Repository.Basic

/-!
# Repositories in memory

The additions by which a repository is built without a directory.
-/

namespace PackagePolicy
namespace Repository
open Text

def splitSlot (s : Text) : Except Error (Text × Option Text) :=
  match cut ':' s with
  | none => .ok (s, none)
  | some (cpv, slot) =>
    if slot.isEmpty then .error (.package .malformed s) else .ok (cpv, some slot)

def parseCpv (cpv : Text) : Except Error (PackageId × Version) :=
  match cut '/' cpv with
  | none => .error (.package .malformed cpv)
  | some (category, rest) =>
    match splitNameVersion rest with
    | none => .error (.package .malformed cpv)
    | some (name, version) =>
      match Version.parse? version with
      | none => .error (.version version)
      | some v => .ok (⟨category, name⟩, v)

/-- Adds a package version `category/name-version:slot` with its keywords and license expression. -/
def addPackage (cpv keywords license : Text) (r : Repository) : Except Error Repository := do
  let (cpv, slot) ← splitSlot cpv
  let (id, version) ← parseCpv cpv
  let metadata ← Metadata.parse keywords license
  return r.insert id version { metadata with slot := slot.getD metadata.slot }

def setArch (arch : Text) (r : Repository) : Repository := { r with arch := some arch }

def addProfileMask (atom : Atom) (r : Repository) : Repository :=
  { r with profileMasks := r.profileMasks ++ [.ofAtom atom none] }

def maskUse (flag : Text) (r : Repository) : Repository := { r with useMask := r.useMask ++ [flag] }

def forceUse (flag : Text) (r : Repository) : Repository :=
  { r with useForce := r.useForce ++ [flag] }

def addSystem (atom : Atom) (r : Repository) : Repository := { r with system := r.system ++ [atom] }

def addSet (s : PackageSet) (r : Repository) : Repository := { r with sets := r.sets.insert s }

end Repository
end PackagePolicy
