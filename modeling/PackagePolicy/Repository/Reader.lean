import PackagePolicy.Config.User
import PackagePolicy.Disk.Walk
import PackagePolicy.Repository.Assignments
import PackagePolicy.Repository.Basic

/-!
# Repositories on disk

A repository directory holds a directory `profiles` with its name, its architecture, its masks and the
atoms of the set `system`, a directory `sets`, and package versions as files
`<category>/<name>/<name>-<version>.ebuild` whose assignments to `KEYWORDS`, `LICENSE` and `SLOT` declare
what they are. A file of that depth that cannot be read as a package version is left out.
-/

namespace PackagePolicy
namespace Repository
open Text

/-! ### Profile -/

def readOptional (d : Disk) (path : Text) : Except Error (Option Text) :=
  match d.find? path with
  | some (.file (some content)) => .ok (some content)
  | some (.file none) => .error .unreadable
  | _ => .ok none

/-- Takes in one trimmed line of a list of flags: `-flag` removes a flag, `flag` adds it. -/
def applyFlagLine (flags : List Text) : Text → List Text
  | [] => flags
  | '#' :: _ => flags
  | '-' :: flag => flags.filter (· != flag)
  | flag => if flags.contains flag then flags else flags ++ [flag]

def parseFlags (content : Text) : List Text := ((lines content).map trim).foldl applyFlagLine []

/-- The atoms of the set `system`: those after a star at the start of a line. -/
def parseSystem (content : Text) : List Atom :=
  ((lines content).map trim).filterMap fun line =>
    match line with
    | '*' :: s => (Atom.parse s).toOption
    | _ => none

def declaredName (content : Option Text) : Text :=
  match content with
  | some content => trim ((lines content).head?.getD [])
  | none => []

/-- The name of a repository: as configured, else as declared, else that of its directory. -/
def chooseName (path declared : Text) (configured : Option Text) : Except Error Text :=
  match configured with
  | some name => .ok name
  | none =>
    if declared.isEmpty then
      match Path.name? path with
      | some name => .ok name
      | none => .error (.package .unnamedRepository path)
    else .ok declared

/-! ### Package versions -/

/-- What a package version declares in its file. Keywords that are malformed do not count, nor does a
malformed license expression. -/
def parseEbuild (content : Text) : Metadata where
  keywords := Keyword.ofWords (words ((Assignment.value? "KEYWORDS" content).getD []))
  keywords_read := fun _ hk => Keyword.isRead_of_mem_ofWords hk
  license :=
    match (Assignment.value? "LICENSE" content).getD [] with
    | [] => none
    | license => (SpecTree.parseLicense license).toOption
  slot :=
    match (Assignment.value? "SLOT" content).getD [] with
    | [] => Metadata.defaultSlot
    | slot => slot

/-- The version in the name of a file of a package, if it is that of a package version. -/
def fileVersion? (name file : Text) : Option Version :=
  match Path.splitExtension file with
  | (stem, some extension) =>
    if extension = "ebuild".toList then
      ((after? name stem).bind (after? ['-'])).bind Version.parse?
    else none
  | (_, none) => none

def readRelease (id : PackageId) (e : Text × FileTree) : Option Release :=
  match fileVersion? id.name e.1, e.2.text? with
  | some version, some content => some ⟨id, version, parseEbuild content⟩
  | _, _ => none

/-- The names of directories that stand beside those of the categories. -/
def nonCategoryNames : List Text :=
  ["profiles".toList, "sets".toList, "metadata".toList, "eclass".toList, "licenses".toList]

def isCategoryName (name : Text) : Bool := name.head? != some '.' && !nonCategoryNames.contains name

/-- The test of the walk to the package versions: at the first depth only names of categories pass. -/
def isKept (x : WalkItem) : Bool :=
  x.depth != 1 || (x.names.getLast?.map isCategoryName).getD false

def readItem (x : WalkItem) : Option Release :=
  match x.names with
  | [category, name, file] => readRelease ⟨category, name⟩ (file, x.tree)
  | _ => none

/-- The package versions below a directory, in the order of categories, names and files. -/
def readReleases (t : FileTree) : List Release :=
  (WalkItem.walk isKept 3 3 ⟨[], t⟩).filterMap readItem

/-! ### Loading -/

def load (d : Disk) (path : Text) (configured : Option Text) : Except Error Repository :=
  if d.isDir path then do
    let profile name := readOptional d (Path.child (Path.child path "profiles") name)
    let declared ← profile "repo_name"
    let name ← chooseName path (declaredName declared) configured
    let defaults ← profile "make.defaults"
    let masks ← profile "package.mask"
    let useMask ← profile "use.mask"
    let useForce ← profile "use.force"
    let system ← profile "packages"
    let sets ← (UserConfig.loadSets d (Path.child path "sets")).mapError Error.config
    let releases := ((d.find? path).map readReleases).getD []
    return {
      name
      location := some path
      arch := defaults.bind (Assignment.value? "ARCH")
      releases := releases.foldl (fun rs r => Release.insert r rs) []
      profileMasks := Mask.parseFile (masks.getD [])
      useMask := parseFlags (useMask.getD [])
      useForce := parseFlags (useForce.getD [])
      system := parseSystem (system.getD [])
      sets
    }
  else throw (.config (.notFound path))

end Repository
end PackagePolicy
