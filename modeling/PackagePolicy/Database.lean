import PackagePolicy.Repository.Basic

/-!
# Databases

A database is a list of repositories of different names, those of higher rank first. The first is the
favourite.
-/

namespace PackagePolicy

structure Database where
  repositories : List Repository
deriving Repr

namespace Database

def empty : Database := ⟨[]⟩

def names (d : Database) : List Text := d.repositories.map (·.name)

def has (d : Database) (name : Text) : Bool := d.repositories.any (·.name == name)

def fetch (d : Database) (name : Text) : Except Error Repository :=
  match d.repositories.find? (·.name == name) with
  | some r => .ok r
  | none => .error (.noSuchRepository name)

def favourite? (d : Database) : Option Repository := d.repositories.head?

def add (r : Repository) (d : Database) : Except Error Database :=
  if d.has r.name then .error (.duplicateRepository r.name)
  else .ok ⟨d.repositories ++ [r]⟩

def entries (d : Database) : List Entry := d.repositories.flatMap (·.entries)

def query (d : Database) (a : Atom) : List Entry := d.repositories.flatMap (·.query a)

end Database
end PackagePolicy
