import PackagePolicy.ConfigError
import PackagePolicy.Text.Digit

/-!
# Errors of queries

What can be wrong with a package version, a specification tree, a set, a repository or a call by
name, and how each is reported. `message` is the only place with the wording.
-/

namespace PackagePolicy

/-- Why a text names no package version, or a directory no repository. -/
inductive PackageFault where
  | missingRepository
  | emptyRepository
  | missingCategory
  | missingVersion
  | malformed
  | unnamedRepository
deriving DecidableEq, Repr

inductive SpecFault where
  /-- a closing parenthesis that closes nothing -/
  | unbalanced
  /-- a condition without a flag -/
  | emptyCondition
  /-- a group without its opening parenthesis -/
  | expectedOpen
  /-- a group without its closing parenthesis -/
  | missingClose
deriving DecidableEq, Repr

inductive ObjectFault where
  /-- a field is missing or is no text -/
  | fields
  | name (text : Text)
  | version (text : Text)
deriving DecidableEq, Repr

inductive Expected where
  | string
  | entry
  | directory
deriving DecidableEq, Repr

inductive Error where
  /-- a call with too few or too many arguments -/
  | argument (method : Text) (least most got : Nat)
  /-- a call with an argument of the wrong type -/
  | type (method : Text) (expected : Expected) (got : Text)
  | noSuchRepository (name : Text)
  /-- a set name that is malformed or names no set -/
  | setName (name : Text)
  /-- a set that refers to itself by way of the sets of `path` -/
  | setCycle (name : Text) (path : List Text)
  | noMethod (name : Text)
  | duplicateRepository (name : Text)
  | version (text : Text)
  | package (fault : PackageFault) (text : Text)
  | spec (fault : SpecFault) (text : Text)
  | object (fault : ObjectFault)
  | config (error : ConfigError)
  /-- a repository file that cannot be read -/
  | unreadable
deriving DecidableEq, Repr

def PackageFault.message (text : Text) : PackageFault → Text
  | missingRepository => "missing ::repository: ".toList ++ text
  | emptyRepository => "empty repository: ".toList ++ text
  | missingCategory => "missing category: ".toList ++ text
  | missingVersion => "missing version: ".toList ++ text
  | malformed => text
  | unnamedRepository => "unnamed repository at ".toList ++ text

def SpecFault.message (text : Text) : SpecFault → Text
  | unbalanced => "unbalanced ')' in '".toList ++ text ++ ['\'']
  | emptyCondition => "empty USE condition in '".toList ++ text ++ ['\'']
  | expectedOpen => "expected '(' in '".toList ++ text ++ ['\'']
  | missingClose => "missing ')' in '".toList ++ text ++ ['\'']

def Expected.message : Expected → Text
  | string => "string".toList
  | entry => "package database entry".toList
  | directory => "directory".toList

def argumentRange (least most : Nat) : Text :=
  if least = most then Text.ofNat least else Text.ofNat least ++ "..".toList ++ Text.ofNat most

def Error.message : Error → Text
  | argument method least most got =>
    "Wrong number of arguments for ".toList ++ method ++ ": expected ".toList
      ++ argumentRange least most ++ ", got ".toList ++ Text.ofNat got
  | type method expected got =>
    "Wrong argument type for ".toList ++ method ++ ": expected ".toList ++ expected.message
      ++ ", got ".toList ++ got
  | noSuchRepository name => "No such repository: ".toList ++ name
  | setName name => "Invalid or unknown package set: ".toList ++ name
  | setCycle name path =>
    "Invalid or unknown package set: ".toList ++ name ++ " (cycle: ".toList
      ++ Text.join " -> ".toList (path ++ [name]) ++ [')']
  | noMethod name => "No such method: ".toList ++ name
  | duplicateRepository name => "Repository registered twice: ".toList ++ name
  | version text => "Invalid version: ".toList ++ text
  | package fault text => "Invalid package specification: ".toList ++ fault.message text
  | spec fault text => "Invalid dependency specification: ".toList ++ fault.message text
  | object .fields => "Serialization error".toList
  | object (.name text) =>
    "Serialization error: Invalid package specification: ".toList ++ text
  | object (.version text) => "Serialization error: Invalid version: ".toList ++ text
  | config error => "Configuration error: ".toList ++ error.message
  | unreadable => "IO error".toList

end PackagePolicy
