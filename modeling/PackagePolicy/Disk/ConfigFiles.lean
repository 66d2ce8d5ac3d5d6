import PackagePolicy.ConfigError
import PackagePolicy.Disk.Basic

/-!
# Configuration files

A part of the configuration is a file, or a directory whose files are read in the order of their
names. Hidden files and editor backups, whose names end with `~`, do not count.
-/

namespace PackagePolicy
namespace Disk

/-- The name is neither hidden nor that of an editor backup. -/
def isConfigName (name : Text) : Bool :=
  name.head? != some '.' && name.getLast? != some '~'

def configEntries? (d : Disk) (path : Text) : Option (List (Text × FileTree)) :=
  match d.find? path with
  | some (.dir entries) =>
    some ((FileTree.dir entries).sortedEntries.filter fun e => isConfigName e.1 && e.2.isFile)
  | _ => none

def configFiles (d : Disk) (path : Text) : Except ConfigError (List Text) :=
  match d.configEntries? path with
  | some entries => .ok (entries.map fun e => Path.join path e.1)
  | none => .error .unreadable

def readText (d : Disk) (path : Text) : Except ConfigError Text :=
  match d.text? path with
  | some text => .ok text
  | none => .error .unreadable

def entryText (e : Text × FileTree) : Except ConfigError Text :=
  match e.2.text? with
  | some text => .ok text
  | none => .error .unreadable

/-- The text of a file, or the texts of the files of a directory with a line feed after each. -/
def readConfig (d : Disk) (path : Text) : Except ConfigError Text :=
  match d.configEntries? path with
  | some entries => do
    let texts ← entries.mapM entryText
    return texts.flatMap (· ++ ['\n'])
  | none => d.readText path

end Disk
end PackagePolicy
