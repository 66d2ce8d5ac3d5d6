import PackagePolicy.Text.Basic

/-!
# Errors of configuration

What can be wrong with an atom, a version, a keyword, a USE flag, a repository section or a
configuration file, and how each is reported. `message` is the only place with the wording.
-/

namespace PackagePolicy

inductive AtomFault where
  | empty
  | unclosedUse
  | malformedUse
  | missingCategory
  | extraSlash
  | missingVersion
  | strayVersion
  | missingName
  | useNotAllowed
deriving DecidableEq, Repr

inductive ConfigError where
  /-- a file or directory that cannot be read -/
  | unreadable
  /-- settings that are not well-formed TOML or have a value of another type -/
  | malformedSettings
  /-- a repository section without a location -/
  | missingLocation (repository : Text)
  /-- a repository section whose priority is no number -/
  | invalidPriority (repository value : Text)
  /-- two repository sections of one name -/
  | repositoryTwice (repository : Text)
  /-- a directory that does not exist -/
  | notFound (path : Text)
  | atom (fault : AtomFault) (text : Text)
  | version (text : Text)
  | emptyUseFlag
  | useFlag (text : Text)
  | keyword (text : Text)
deriving DecidableEq, Repr

def AtomFault.message (text : Text) : AtomFault → Text
  | empty => "empty atom".toList
  | unclosedUse => "unclosed USE deps: ".toList ++ text
  | malformedUse => "malformed USE deps: ".toList ++ text
  | missingCategory => "missing category: ".toList ++ text
  | extraSlash => "too many '/': ".toList ++ text
  | missingVersion => "missing version: ".toList ++ text
  | strayVersion => "version without an operator: ".toList ++ text
  | missingName => "invalid atom: ".toList ++ text
  | useNotAllowed => "USE dependencies are not allowed here: ".toList ++ text

/-- The text by which an error is reported; what the system says about an unreadable file and about
malformed settings is not part of it. -/
def ConfigError.message : ConfigError → Text
  | unreadable => "IO error".toList
  | malformedSettings => "TOML parse error".toList
  | missingLocation repository =>
    "Invalid configuration: repository '".toList ++ repository ++ "' has no location".toList
  | invalidPriority repository value =>
    "Invalid configuration: repository '".toList ++ repository
      ++ "' has invalid priority '".toList ++ value ++ "'".toList
  | repositoryTwice repository =>
    "Invalid configuration: repository '".toList ++ repository ++ "' defined twice".toList
  | notFound path => "Configuration directory not found: ".toList ++ path
  | atom fault text => "Invalid package atom: ".toList ++ fault.message text
  | version text => "Invalid version: ".toList ++ text
  | emptyUseFlag => "Invalid USE flag: empty USE dep".toList
  | useFlag text => "Invalid USE flag: ".toList ++ text
  | keyword text => "Invalid keyword: ".toList ++ text

end PackagePolicy
