import PackagePolicy.Disk.Path

/-!
# Files and directories

A snapshot of a file system: a tree of directories and files, and the directory from which relative
paths are seen. The content of a file is a text, or nothing if its bytes are no text.
-/

namespace PackagePolicy

inductive FileTree where
  | file (content : Option Text)
  | dir (entries : List (Text × FileTree))
deriving Repr

structure Disk where
  root : FileTree
  /-- the directory from which relative paths are seen -/
  here : Text
deriving Repr

namespace FileTree

def entries : FileTree → List (Text × FileTree)
  | .file _ => []
  | .dir entries => entries

def sortedEntries (t : FileTree) : List (Text × FileTree) :=
  t.entries.mergeSort fun a b => Text.le a.1 b.1

def replaceEntry (name : Text) (t : FileTree) :
    List (Text × FileTree) → List (Text × FileTree)
  | [] => [(name, t)]
  | e :: entries => if e.1 = name then (name, t) :: entries else e :: replaceEntry name t entries

/-- Changes what is at the end of a way of names, which becomes a way of directories. -/
def alter (change : FileTree → FileTree) : List Text → FileTree → FileTree
  | [], t => change t
  | name :: names, t =>
    .dir (replaceEntry name (alter change names ((t.entries.lookup name).getD (.dir [])))
      t.entries)

def addFile (names : List Text) (content : Option Text) (t : FileTree) : FileTree :=
  t.alter (fun _ => .file content) names

def addDir (names : List Text) (t : FileTree) : FileTree := t.alter (fun t => .dir t.entries) names

def isDir : FileTree → Bool
  | .dir _ => true
  | .file _ => false

def isFile : FileTree → Bool
  | .dir _ => false
  | .file _ => true

def text? : FileTree → Option Text
  | .file content => content
  | .dir _ => none

def atSteps (root : FileTree) (steps : List (Text × FileTree)) : FileTree :=
  (steps.head?.map Prod.snd).getD root

/-- Follows path parts. `steps` are the names followed so far with what they name, the innermost
first; above the root there is the root. -/
def follow (root : FileTree) (steps : List (Text × FileTree)) :
    List Text → Option (List (Text × FileTree))
  | [] => some steps
  | part :: parts =>
    match atSteps root steps with
    | .file _ => none
    | .dir entries =>
      if Path.isVoid part then follow root steps parts
      else if part = ['.', '.'] then follow root steps.tail parts
      else
        match entries.lookup part with
        | some t => follow root ((part, t) :: steps) parts
        | none => none

end FileTree

namespace Disk

def steps? (d : Disk) (path : Text) : Option (List (Text × FileTree)) :=
  if path.isEmpty then none
  else d.root.follow [] ((Path.join d.here path).splitOn '/')

def find? (d : Disk) (path : Text) : Option FileTree :=
  (d.steps? path).map (FileTree.atSteps d.root)

def holds (d : Disk) (path : Text) : Bool := (d.find? path).isSome

def isDir (d : Disk) (path : Text) : Bool := ((d.find? path).map FileTree.isDir).getD false

def isFile (d : Disk) (path : Text) : Bool := ((d.find? path).map FileTree.isFile).getD false

def text? (d : Disk) (path : Text) : Option Text := (d.find? path).bind FileTree.text?

/-- The absolute path without `.`, `..` and empty parts of what a path names. -/
def canonical? (d : Disk) (path : Text) : Option Text :=
  (d.steps? path).map fun steps => '/' :: Text.join ['/'] (steps.reverse.map Prod.fst)

end Disk
end PackagePolicy
