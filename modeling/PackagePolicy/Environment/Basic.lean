import PackagePolicy.Keyword.Acceptance
import PackagePolicy.License
import PackagePolicy.MaskReason
import PackagePolicy.SetExpansion
import PackagePolicy.UseFlag

/-!
# Environments

An environment answers what a package manager asks before it considers a package version: which USE
flags are on, which keywords and licenses are accepted, why a version is masked, and what a package set
stands for. A query about an entry fails if the repository of the entry is not registered, and only then.
-/

namespace PackagePolicy

structure Environment where
  database : Database
  use : UseRules
  keywords : KeywordRules
  licenses : LicenseRules
  masks : MaskRules
  /-- the sets of the user, if there can be any -/
  userSets : Option SetTable
deriving Repr

namespace Environment

def candidate? (env : Environment) : Option Entry → Except Error (Option Candidate)
  | none => .ok none
  | some e => do return some ((← env.database.fetch e.repository).candidate e)

/-! ### USE flags -/

/-- The state of a flag for an entry of a repository. The profile decides first, by turning the flag off
or else on; then the entries that name the package exactly, those with a pattern, and the state for all
packages. -/
def useFor (env : Environment) (flag : Text) (r : Repository) (e : Entry) : Bool :=
  if r.isUseMasked flag then false
  else if r.isUseForced flag then true
  else
    let p := r.candidate e
    (((env.use.packageState flag p false).or (env.use.packageState flag p true)).or
      (env.use.globalState flag)).getD false

def queryUse (env : Environment) (flag : Text) : Option Entry → Except Error Bool
  | none => .ok ((env.use.globalState flag).getD false)
  | some e => do return env.useFor flag (← env.database.fetch e.repository) e

/-! ### Keywords and licenses -/

def keywordAccepted (env : Environment) (k : Keyword) (p : Option Candidate) : Bool :=
  env.keywords.acceptsGlobally k || (p.map (env.keywords.acceptsFor k)).getD false

/-- What is written as a keyword is accepted; a malformed one never is. -/
def acceptKeyword (env : Environment) (keyword : Text) (e : Option Entry) : Except Error Bool := do
  let p ← env.candidate? e
  match Keyword.parse keyword with
  | .ok k => return env.keywordAccepted k p
  | .error _ => return false

def licenseAccepted (env : Environment) (license : Text) : Option Candidate → Bool
  | none => env.licenses.acceptsGlobally license
  | some p => env.licenses.acceptsFor license p

def acceptLicense (env : Environment) (license : Text) (e : Option Entry) : Except Error Bool := do
  return env.licenseAccepted license (← env.candidate? e)

/-! ### Masks -/

def anyKeywordAccepted (env : Environment) (r : Repository) (e : Entry) : Except Error Bool :=
  (r.keywords e).anyM fun k => env.acceptKeyword k.render (some e)

def licenseSatisfied (env : Environment) (r : Repository) (e : Entry) : Except Error Bool :=
  match r.license? e with
  | none => .ok true
  | some tree =>
    tree.evaluate (fun license => env.acceptLicense license (some e))
      (fun flag => env.queryUse flag (some e))

/-- Why an entry is masked. Entries that lift masks lift those of the profile and of the user. -/
def maskReasons (env : Environment) (e : Entry) : Except Error MaskReasons := do
  let r ← env.database.fetch e.repository
  let keywordOk ← env.anyKeywordAccepted r e
  let licenseOk ← env.licenseSatisfied r e
  let p := r.candidate e
  let unmasked := env.masks.isUnmasked p
  return {
    keyword := !keywordOk
    license := !licenseOk
    profile := (r.profileMask? e).isSome && !unmasked
    user := (env.masks.find? p).isSome && !unmasked
  }

/-! ### Sets -/

def scope (env : Environment) : SetScope := ⟨env.database, env.userSets⟩

def packageSet (env : Environment) (name : Text) : Except Error (SpecTree Atom) :=
  env.scope.resolve name

end Environment
end PackagePolicy
