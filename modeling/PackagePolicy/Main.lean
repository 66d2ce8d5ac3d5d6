import PackagePolicy.CommandLine.Run

/-!
# The command

The outer layer of the command line: it takes a snapshot of the directories that a command needs, has the
command carried out on the snapshot, prints, and ends with its number.
-/

namespace PackagePolicy.Snapshot

/-- The depth to which configuration directories and repositories are read. -/
def depth : Nat := 3

def readText (path : String) : IO (Option Text) := do
  try
    return (String.fromUTF8? (← IO.FS.readBinFile path)).map String.toList
  catch _ => return none

def isLink (e : IO.FS.DirEntry) : IO Bool := do
  return (← e.path.symlinkMetadata).type == .symlink

/-- Adds what a path leads to. Only a walk through a repository comes to the greatest depth, and it does not follow
links: what stands there is left out if it is `linked`, that is, if there is a link on the way to it. -/
def addPath (depth : Nat) (linked : Bool) (path : String) (names : List Text) (t : FileTree) : IO FileTree := do
  let real ← IO.FS.realPath path
  if ← real.isDir then
    let t := t.addDir names
    match depth with
    | 0 => return t
    | depth + 1 =>
      (← real.readDir).foldlM (fun t e => do
        let linked := linked || (← isLink e)
        if depth = 0 && linked then return t
        else if ← e.path.pathExists then
          addPath depth linked (path ++ "/" ++ e.fileName) (names ++ [e.fileName.toList]) t
        else return t) t
  else if ← real.pathExists then
    return t.addFile names (← readText path)
  else return t

/-- Adds the directories on the way that an absolute path describes, and what it leads to. -/
def addWay (path : Text) (t : FileTree) : IO FileTree := do
  let mut t := t
  let mut way : Text := []
  for part in path.splitOn '/' do
    way := way ++ part ++ ['/']
    t ← addPath 0 false (String.ofList way) (Path.names way) t
  addPath depth false (String.ofList path) (Path.names path) t

def add (path : Text) (d : Disk) : IO Disk := do
  try
    return { d with root := ← addWay (Path.join d.here path) d.root }
  catch _ => return d

def addAll (paths : List Text) (d : Disk) : IO Disk := paths.foldlM (fun d path => add path d) d

end PackagePolicy.Snapshot

namespace PackagePolicy.CommandLine

def environmentValue (name : String) : IO (Option Text) := do
  return (← IO.getEnv name).map String.toList

def runHere (args : List String) : IO UInt32 := do
  let fallback ← environmentValue "PKGENV_NO_CONFIG"
  let appointedHome ← environmentValue "PKGENV_HOME"
  let userHome := (← environmentValue "HOME").filter fun home => !home.isEmpty
  match parse? fallback (args.map String.toList) with
  | none => return 2
  | some command =>
    let here := (← IO.currentDir).toString.toList
    let homes := (appointedHome.toList ++ userHome.toList).map fun home =>
      Path.child home UserConfig.directoryName
    let d ← Snapshot.addAll (UserConfig.systemDirectory :: homes) ⟨.dir [], here⟩
    let d ← Snapshot.addAll (repositoryPaths d appointedHome userHome command) d
    let outcome := run d appointedHome userHome command
    IO.print (String.ofList outcome.stdout)
    return outcome.exit.toUInt32

end PackagePolicy.CommandLine

def main (args : List String) : IO UInt32 := PackagePolicy.CommandLine.runHere args
