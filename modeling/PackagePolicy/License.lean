import PackagePolicy.Atom.Basic
import PackagePolicy.Text.Upper

/-!
# Accepted licenses

A list of rules decides about a license: `*` is for every license, a name for one, `@GROUP` for the
members of a group, and a leading `-` turns a rule into a refusal. The last rule that applies decides.
Rules for the packages that an atom matches come before the rules for all packages, and among them a
refusal wins.
-/

namespace PackagePolicy

structure LicenseGroup where
  name : Text
  members : List Text
deriving DecidableEq, Repr

structure PackageLicenses where
  atom : Atom
  rules : List Text
deriving Repr

structure LicenseRules where
  accepted : List Text
  package : List PackageLicenses
  /-- the groups, each name once and in upper case -/
  groups : List LicenseGroup
deriving Repr

namespace LicenseGroup
open Text

def named (name : String) (members : List String) : LicenseGroup :=
  ⟨name.toList, members.map String.toList⟩

def freeSoftware : List String :=
  ["GPL-2", "GPL-2+", "GPL-3", "GPL-3+", "LGPL-2", "LGPL-2.1", "LGPL-2.1+", "LGPL-3", "AGPL-3",
   "Apache-2.0", "BSD", "BSD-2", "BSD-3", "MIT", "ISC", "MPL-2.0", "Artistic-2", "Zlib", "WTFPL",
   "Unlicense", "CC0-1.0", "public-domain", "HPND", "PSF-2", "Ruby", "PHP-3.01"]

def freeDocuments : List String :=
  ["FDL-1.2", "FDL-1.3", "CC-BY-4.0", "CC-BY-SA-4.0", "OFL-1.1"]

def builtin : List LicenseGroup :=
  [named "FREE-SOFTWARE" freeSoftware,
   named "FSF-APPROVED" freeSoftware,
   named "FREE-DOCUMENTS" freeDocuments,
   named "FREE" (freeSoftware ++ freeDocuments),
   named "OSI-APPROVED"
     ["MIT", "Apache-2.0", "GPL-2", "GPL-3", "LGPL-2.1", "LGPL-3", "BSD-2", "BSD-3", "MPL-2.0",
      "ISC", "Artistic-2", "Zlib", "EPL-1.0", "EPL-2.0", "CDDL"],
   named "COPYLEFT"
     ["GPL-2", "GPL-2+", "GPL-3", "GPL-3+", "LGPL-2", "LGPL-2.1", "LGPL-3", "AGPL-3", "MPL-2.0"],
   named "GPL-COMPATIBLE"
     ["MIT", "BSD", "BSD-2", "BSD-3", "ISC", "LGPL-2", "LGPL-2.1", "Apache-2.0", "MPL-2.0", "Zlib",
      "public-domain"],
   named "BINARY-REDISTRIBUTABLE" (freeSoftware ++ freeDocuments)]

end LicenseGroup

namespace LicenseRules
open Text

def ofText (s : Text) : LicenseRules := ⟨words s, [], LicenseGroup.builtin⟩

def all : LicenseRules := ofText ['*']

def free : LicenseRules := ofText "@FREE".toList

def addPackage (atom : Atom) (rules : List Text) (r : LicenseRules) : LicenseRules :=
  { r with package := r.package ++ [⟨atom, rules⟩] }

/-- Defines a group, in place of any group of that name. -/
def defineGroup (name : Text) (members : List Text) (r : LicenseRules) : LicenseRules :=
  { r with groups := (r.groups.filter (·.name != upper name)) ++ [⟨upper name, members⟩] }

def inGroup (r : LicenseRules) (name license : Text) : Bool :=
  match r.groups.find? (·.name == upper name) with
  | some group => group.members.contains license
  | none => false

def splitRule : Text → Bool × Text
  | '-' :: s => (false, s)
  | s => (true, s)

def isAbout (r : LicenseRules) (pattern license : Text) : Bool :=
  if pattern = ['*'] then true
  else
    match pattern with
    | '@' :: group => r.inGroup group license
    | name => name == license

def verdict (r : LicenseRules) (license rule : Text) : Option Bool :=
  if r.isAbout (splitRule rule).2 license then some (splitRule rule).1 else none

/-- The verdict of a list of rules: that of the last rule that applies. -/
def evaluate (r : LicenseRules) (rules : List Text) (license : Text) : Option Bool :=
  rules.foldl (fun decided rule => (r.verdict license rule).or decided) none

def acceptsGlobally (r : LicenseRules) (license : Text) : Bool :=
  (r.evaluate r.accepted license).getD false

def packageVerdicts (r : LicenseRules) (license : Text) (p : Candidate) : List Bool :=
  (r.package.filter fun e => e.atom.isMatch p).filterMap fun e => r.evaluate e.rules license

/-- The verdict of the rules for a package version: a refusal by any list, else an acceptance. -/
def packageDecision (r : LicenseRules) (license : Text) (p : Candidate) : Option Bool :=
  let verdicts := r.packageVerdicts license p
  if verdicts.contains false then some false
  else if verdicts.contains true then some true
  else none

def acceptsFor (r : LicenseRules) (license : Text) (p : Candidate) : Bool :=
  (r.packageDecision license p).getD (r.acceptsGlobally license)

end LicenseRules
end PackagePolicy
