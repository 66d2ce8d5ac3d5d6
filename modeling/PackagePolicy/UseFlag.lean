import PackagePolicy.Atom.Basic

/-!
# USE flags

The states of USE flags: everywhere, and for the packages that an atom matches.
-/

namespace PackagePolicy

structure UseFlag where
  name : Text
  enabled : Bool
deriving DecidableEq, Repr

structure PackageUse where
  atom : Atom
  flags : List UseFlag
deriving Repr

structure UseRules where
  /-- states for all packages, each flag once, in the order in which the flags were first set -/
  global : List UseFlag
  package : List PackageUse
deriving Repr

namespace UseFlag
open Text

/-- Reads a flag: `-` before the name unsets it, a `+` before the name may be written. -/
def parse (s : Text) : UseFlag :=
  match trim s with
  | '-' :: name => ⟨name, false⟩
  | text => ⟨dropLead '+' text, true⟩

def parseList (s : Text) : List UseFlag := (words s).map parse

def render (f : UseFlag) : Text := if f.enabled then f.name else '-' :: f.name

end UseFlag

namespace UseRules

def none : UseRules := ⟨[], []⟩

def set (f : UseFlag) : List UseFlag → List UseFlag
  | [] => [f]
  | g :: flags => if g.name = f.name then f :: flags else g :: set f flags

/-- Applies one flag of a text to the states for all packages; `-*` takes every state away. -/
def applyFlag (flags : List UseFlag) (f : UseFlag) : List UseFlag :=
  if f.name = ['*'] && !f.enabled then [] else set f flags

def applyText (s : Text) (r : UseRules) : UseRules :=
  { r with global := (UseFlag.parseList s).foldl applyFlag r.global }

def addPackage (atom : Atom) (flags : List UseFlag) (r : UseRules) : UseRules :=
  { r with package := r.package ++ [⟨atom, flags⟩] }

def lastState (name : Text) (flags : List UseFlag) : Option Bool :=
  ((flags.filter (·.name == name)).getLast?).map (·.enabled)

def globalState (r : UseRules) (name : Text) : Option Bool :=
  (r.global.find? (·.name == name)).map (·.enabled)

/-- The state of a flag for a package version: from the entries that name its package exactly, or
from those with a glob pattern. The last mention decides. -/
def packageState (r : UseRules) (name : Text) (p : Candidate) (wildcard : Bool) : Option Bool :=
  lastState name
    ((r.package.filter fun e => e.atom.isWildcard == wildcard && e.atom.isMatch p).flatMap (·.flags))

end UseRules
end PackagePolicy
