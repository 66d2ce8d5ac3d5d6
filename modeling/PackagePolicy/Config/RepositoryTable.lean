import PackagePolicy.Disk.ConfigFiles
import PackagePolicy.Text.Blank
import PackagePolicy.Text.Digit

/-!
# The repository table

The repositories of `repos.conf`. A section `[name]` defines one by its location and an optional
priority, and the section `[DEFAULT]` names the main repository. The main repository comes first,
then those of higher priority, then those defined earlier.
-/

namespace PackagePolicy

structure RepositorySource where
  name : Text
  location : Text
  priority : Int
deriving DecidableEq, Repr

structure RepositoryTable where
  mainRepository : Option Text
  sources : List RepositorySource
deriving DecidableEq, Repr

namespace RepositoryTable
open Text

def empty : RepositoryTable := ⟨none, []⟩

def find? (t : RepositoryTable) (name : Text) : Option RepositorySource :=
  t.sources.find? (·.name == name)

def has (t : RepositoryTable) (name : Text) : Bool := (t.find? name).isSome

def add (s : RepositorySource) (t : RepositoryTable) : Except ConfigError RepositoryTable :=
  if t.has s.name then .error (.repositoryTwice s.name)
  else .ok { t with sources := t.sources ++ [s] }

def isMain (t : RepositoryTable) (s : RepositorySource) : Bool := t.mainRepository == some s.name

def precedes (t : RepositoryTable) (a b : RepositorySource) : Bool :=
  if t.isMain a != t.isMain b then t.isMain a else b.priority ≤ a.priority

/-- The repositories by rank; those of equal rank in the order of their definitions. -/
def byPriority (t : RepositoryTable) : List RepositorySource := t.sources.mergeSort t.precedes

/-! ### Sections -/

/-- A section: its name and the assignments below its header, the last first. -/
structure Section where
  name : Text
  values : List (Text × Text)
deriving DecidableEq, Repr

def Section.value? (s : Section) (key : String) : Option Text := s.values.lookup key.toList

inductive Line where
  | header (name : Text)
  | assignment (key value : Text)
  | other
deriving DecidableEq, Repr

def headerName? : Text → Option Text
  | '[' :: s => (before? [']'] s).map trim
  | _ => none

def readLine (line : Text) : Line :=
  if line.isEmpty || line.head? == some '#' then .other
  else
    match headerName? line with
    | some name => .header name
    | none =>
      match cut '=' line with
      | some (key, value) => .assignment (trim key) (trim value)
      | none => .other

/-- The sections of a file; `current` is the one being read. Assignments before the first header
belong to none. -/
def sectionsOf (current : Option Section) : List Line → List Section
  | [] => current.toList
  | .header name :: lines => current.toList ++ sectionsOf (some ⟨name, []⟩) lines
  | .assignment key value :: lines =>
    sectionsOf (current.map fun s => { s with values := (key, value) :: s.values }) lines
  | .other :: lines => sectionsOf current lines

def sections (content : Text) : List Section :=
  sectionsOf none ((lines content).map fun line => readLine (trim line))

def source (base : Text) (s : Section) : Except ConfigError RepositorySource :=
  match s.value? "location" with
  | none => .error (.missingLocation s.name)
  | some location =>
    let location := Path.join base location
    match s.value? "priority" with
    | none => .ok ⟨s.name, location, 0⟩
    | some value =>
      match signed32 value with
      | some priority => .ok ⟨s.name, location, priority⟩
      | none => .error (.invalidPriority s.name value)

def save (base : Text) (s : Section) (t : RepositoryTable) : Except ConfigError RepositoryTable :=
  if s.name = "DEFAULT".toList then
    match s.value? "main-repo" with
    | some name => .ok { t with mainRepository := some name }
    | none => .ok t
  else do t.add (← source base s)

/-- Takes in sections in order, up to the first that is in error; the error comes with what was
reached by then. -/
def saveAll (base : Text) : RepositoryTable → List Section → RepositoryTable × Option ConfigError
  | t, [] => (t, none)
  | t, s :: ss =>
    match t.save base s with
    | .ok t => saveAll base t ss
    | .error e => (t, some e)

def addContent (base content : Text) (t : RepositoryTable) : RepositoryTable × Option ConfigError :=
  saveAll base t (sections content)

/-! ### Files -/

def isTableName (name : Text) : Bool := (Path.splitExtension name).2 == some "conf".toList

def addText (base content : Text) (t : RepositoryTable) : Except ConfigError RepositoryTable :=
  match t.addContent base content with
  | (t, none) => .ok t
  | (_, some e) => .error e

/-- Reads a repository table from a file or from the `.conf` files of a directory. Relative locations
are seen from the directory that holds the file or the directory. -/
def load (d : Disk) (path : Text) : Except ConfigError RepositoryTable :=
  let base := (Path.parent? path).getD ['.']
  match d.configEntries? path with
  | some entries =>
    (entries.filter fun e => isTableName e.1).foldlM
      (fun t e => do t.addText base (← Disk.entryText e)) empty
  | none => do empty.addText base (← d.readText path)

end RepositoryTable
end PackagePolicy
