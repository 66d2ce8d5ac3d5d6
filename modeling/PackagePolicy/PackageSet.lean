import PackagePolicy.Atom.Parser

/-!
# Package sets

A named list of atoms and of references to other sets, and tables of such sets.
-/

namespace PackagePolicy

structure PackageSet where
  name : Text
  atoms : List Atom
  /-- the names of the sets it refers to, as written -/
  references : List Text
deriving BEq, Repr

namespace PackageSet
open Text

def empty (name : Text) : PackageSet := ⟨name, [], []⟩

def add (atom : Atom) (s : PackageSet) : PackageSet :=
  if s.atoms.contains atom then s else { s with atoms := s.atoms ++ [atom] }

/-- Takes in one trimmed line of a set file: a comment, a reference `@name`, or an atom. A line that
is none of them is left out. -/
def addLine (s : PackageSet) : Text → PackageSet
  | [] => s
  | '#' :: _ => s
  | '@' :: reference => { s with references := s.references ++ [reference] }
  | line =>
    match Atom.parse line with
    | .ok atom => s.add atom
    | .error _ => s

def parse (name content : Text) : PackageSet :=
  ((lines content).map trim).foldl addLine (empty name)

def size (s : PackageSet) : Nat := s.atoms.length

def isEmpty (s : PackageSet) : Bool := s.atoms.isEmpty && s.references.isEmpty

def isNamed (s : PackageSet) (category name : Text) : Bool :=
  s.atoms.any (·.isNamed category name)

end PackageSet

structure SetTable where
  sets : List PackageSet
deriving Repr

namespace SetTable

def empty : SetTable := ⟨[]⟩

def insertInto (s : PackageSet) : List PackageSet → List PackageSet
  | [] => [s]
  | t :: sets => if t.name = s.name then s :: sets else t :: insertInto s sets

/-- Puts a set into the table, in the place of a set of that name if there is one. -/
def insert (s : PackageSet) (t : SetTable) : SetTable := ⟨insertInto s t.sets⟩

def find? (t : SetTable) (name : Text) : Option PackageSet := t.sets.find? (·.name == name)

/-- The set of this name; one `@` before the name does not count. -/
def get? (t : SetTable) (name : Text) : Option PackageSet := t.find? (Text.dropLead '@' name)

def has (t : SetTable) (name : Text) : Bool := (t.get? name).isSome

def names (t : SetTable) : List Text := t.sets.map (·.name)

end SetTable
end PackagePolicy
