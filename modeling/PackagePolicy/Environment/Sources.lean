import PackagePolicy.Environment.Basic
import PackagePolicy.Repository.Reader

/-!
# Where environments come from

An environment is built from the configuration of a user, or from the directory of a single repository
without any configuration.
-/

namespace PackagePolicy
open Text

def hostArch : Text := "amd64".toList

/-! ### From a configuration -/

structure ConfiguredEnvironment where
  configRoot : Text
  arch : Text
  environment : Environment
deriving Repr

def Database.load (d : Disk) (sources : List RepositorySource) : Except Error Database :=
  sources.foldlM (fun db source => do
    db.add (← Repository.load d source.location (some source.name))) .empty

/-- The architecture in effect: as set, else that of the favourite repository, else that of the host. -/
def chooseArch (configured : Option Text) (db : Database) : Text :=
  (configured.or (db.favourite?.bind (·.arch))).getD hostArch

def ConfiguredEnvironment.ofConfig (d : Disk) (c : UserConfig) :
    Except Error ConfiguredEnvironment := do
  let database ← Database.load d c.repositories.byPriority
  let arch := chooseArch c.settings.arch database
  let keywords ← (c.keywordRules arch).mapError Error.config
  return {
    configRoot := c.root
    arch
    environment := {
      database
      use := c.useRules
      keywords
      licenses := c.licenseRules
      masks := c.masks
      userSets := some c.sets
    }
  }

def ConfiguredEnvironment.load (d : Disk) (appointedHome userHome : Option Text) :
    Except Error ConfiguredEnvironment := do
  let root := UserConfig.directory d appointedHome userHome
  let config ← (UserConfig.loadOrDefault d root true).mapError Error.config
  ofConfig d config

/-! ### From a single repository -/

structure BareEnvironment where
  root : Text
  repository : Repository
deriving Repr

namespace BareEnvironment

def load (d : Disk) (root : Text) : Except Error BareEnvironment := do
  return ⟨root, ← Repository.load d root none⟩

def ofJson (d : Disk) : Json → Except Error BareEnvironment
  | .string path => load d path
  | other => .error (.type "new".toList .string other.typeName)

def ofDirectoryEntry (d : Disk) (path : Text) : Except Error BareEnvironment :=
  if d.isDir path then load d path else .error (.type "new".toList .directory path)

/-- The environment: flags are on where the profile forces them, the stable keyword of the architecture
and every license are accepted, and only the profile masks. -/
def environment (b : BareEnvironment) : Environment where
  database := ⟨[b.repository]⟩
  use := .none
  keywords := .ofArch (b.repository.arch.getD hostArch)
  licenses := .all
  masks := .none
  userSets := none

end BareEnvironment
end PackagePolicy
