import PackagePolicy.Config.RepositoryTable
import PackagePolicy.Config.Settings
import PackagePolicy.Mask
import PackagePolicy.PackageSet

/-!
# The configuration of a user

All that a configuration directory holds: global settings, the repository table, rules by package for
USE flags, keywords and licenses, masks, and package sets.
-/

namespace PackagePolicy

structure UserConfig where
  settings : Settings
  repositories : RepositoryTable
  packageUse : List PackageUse
  /-- an entry without keywords stands for the testing keyword of the architecture -/
  packageKeywords : List PackageKeywords
  packageLicenses : List PackageLicenses
  masks : MaskRules
  sets : SetTable
  root : Text
deriving Repr

namespace UserConfig
open Text

def default (root : Text) : UserConfig where
  settings := .default
  repositories := .empty
  packageUse := []
  packageKeywords := []
  packageLicenses := []
  masks := .none
  sets := .empty
  root := root

/-! ### Entries by package -/

def ruleLines (content : Text) : List Text :=
  ((lines content).map trim).filter fun line => !line.isEmpty && line.head? != some '#'

def atomLine? (line : Text) : Option (Atom × List Text) :=
  match words line with
  | [] => none
  | w :: ws =>
    match Atom.parseRestriction w with
    | .ok atom => some (atom, ws)
    | .error _ => none

def useEntry? (line : Text) : Option PackageUse :=
  match atomLine? line with
  | some (_, []) => none
  | some (atom, ws) => some ⟨atom, ws.map UseFlag.parse⟩
  | none => none

/-- An entry with keywords, all of which have to be well-formed. -/
def keywordEntry? (line : Text) : Option PackageKeywords :=
  match atomLine? line with
  | some (atom, ws) =>
    match ws.mapM Keyword.parse with
    | .ok keywords => some ⟨atom, keywords⟩
    | .error _ => none
  | none => none

def licenseEntry? (line : Text) : Option PackageLicenses :=
  match atomLine? line with
  | some (_, []) => none
  | some (atom, ws) => some ⟨atom, ws⟩
  | none => none

def parseUse (content : Text) : List PackageUse := (ruleLines content).filterMap useEntry?

def parseKeywords (content : Text) : List PackageKeywords :=
  (ruleLines content).filterMap keywordEntry?

def parseLicenses (content : Text) : List PackageLicenses :=
  (ruleLines content).filterMap licenseEntry?

/-! ### Loading -/

def part {α : Type} (d : Disk) (root : Text) (name : String) (absent : α)
    (read : Text → Except ConfigError α) : Except ConfigError α :=
  if d.holds (Path.child root name) then read (Path.child root name) else .ok absent

def contentPart {α : Type} (d : Disk) (root : Text) (name : String) (parse : Text → List α) :
    Except ConfigError (List α) :=
  part d root name [] fun path => (d.readConfig path).map parse

/-- The name of the set in a file: that of the file, where `.conf` at its end does not count. -/
def setNameOfFile (name : Text) : Text := (before? ".conf".toList name).getD name

/-- The sets of a directory. What is no directory holds no sets. -/
def loadSets (d : Disk) (path : Text) : Except ConfigError SetTable :=
  match d.configEntries? path with
  | none => .ok .empty
  | some entries =>
    entries.foldlM (fun table e => do
      let content ← Disk.entryText e
      return table.insert (.parse (setNameOfFile e.1) content)) SetTable.empty

def load (d : Disk) (root : Text) : Except ConfigError UserConfig := do
  let settings ← part d root "make.conf" Settings.default fun path => do
    Settings.parse (← d.readText path)
  let repositories ← part d root "repos.conf" .empty (RepositoryTable.load d)
  let packageUse ← contentPart d root "package.use" parseUse
  let packageKeywords ← contentPart d root "package.accept_keywords" parseKeywords
  let packageLicenses ← contentPart d root "package.license" parseLicenses
  let masked ← contentPart d root "package.mask" Mask.parseFile
  let unmasked ← contentPart d root "package.unmask" Mask.parseFile
  let sets ← part d root "sets" .empty (loadSets d)
  let sets ← part d root "world" sets fun path => do
    return sets.insert (.parse "world".toList (← d.readText path))
  return {
    settings, repositories, packageUse, packageKeywords, packageLicenses, sets, root
    masks := ⟨masked, unmasked⟩
  }

/-- Reads the configuration of a directory. One that does not exist is empty or, without
`useDefaults`, an error. -/
def loadOrDefault (d : Disk) (root : Text) (useDefaults : Bool) : Except ConfigError UserConfig :=
  if d.holds root then load d root
  else if useDefaults then .ok (default root)
  else .error (.notFound root)

/-! ### Rules in effect -/

def useRules (c : UserConfig) : UseRules :=
  let rules := c.settings.useRules
  { rules with package := rules.package ++ c.packageUse }

def effectiveKeywords (arch : Text) (e : PackageKeywords) : PackageKeywords :=
  if e.keywords.isEmpty then { e with keywords := [⟨arch, .testing⟩] } else e

def keywordRules (c : UserConfig) (arch : Text) : Except ConfigError KeywordRules := do
  let rules ← c.settings.keywordRules arch
  return { rules with package := rules.package ++ c.packageKeywords.map (effectiveKeywords arch) }

def licenseRules (c : UserConfig) : LicenseRules :=
  let rules := c.settings.licenseRules
  { rules with package := rules.package ++ c.packageLicenses }

/-! ### Location -/

def directoryName : String := ".pkgenv"

def systemDirectory : Text := "/etc/pkgenv".toList

/-- The configuration directory: that of the appointed home directory; else that of the user's home
directory, if it exists; else that of the system. -/
def directory (d : Disk) (appointedHome userHome : Option Text) : Text :=
  match appointedHome with
  | some home => Path.child home directoryName
  | none =>
    match userHome with
    | some home =>
      if d.isDir (Path.child home directoryName) then Path.child home directoryName
      else systemDirectory
    | none => systemDirectory

end UserConfig
end PackagePolicy
