import PackagePolicy.Proofs.Entry.Spelling
import PackagePolicy.Proofs.Environment.Queries
import PackagePolicy.Proofs.Lists
import PackagePolicy.Repository.Builder

/-!
# Equal entries

Two entries are equal when they differ at most in the spelling of the version. An environment sees an
entry through its atoms, so equal entries get the same answers unless an atom asks for the start of the
version text. Main statements: `answers_eq_of_beq`, and `maskReasons_ne_of_spelling` on such an atom.
-/

namespace PackagePolicy

/-! ### Rules see a package version through their atoms -/

section
variable {p q : Candidate}

theorem UseRules.packageState_congr {rules : UseRules}
    (h : ∀ entry ∈ rules.package, entry.atom.isMatch p = entry.atom.isMatch q) (name : Text)
    (wildcard : Bool) : rules.packageState name p wildcard = rules.packageState name q wildcard := by
  rw [packageState, packageState, List.filter_congr fun entry hentry => by rw [h entry hentry]]

theorem KeywordRules.acceptsFor_congr {rules : KeywordRules}
    (h : ∀ entry ∈ rules.package, entry.atom.isMatch p = entry.atom.isMatch q) (k : Keyword) :
    rules.acceptsFor k p = rules.acceptsFor k q := by
  rw [acceptsFor, acceptsFor, List.filter_congr h]

theorem LicenseRules.acceptsFor_congr {rules : LicenseRules}
    (h : ∀ entry ∈ rules.package, entry.atom.isMatch p = entry.atom.isMatch q) (license : Text) :
    rules.acceptsFor license p = rules.acceptsFor license q := by
  rw [acceptsFor, acceptsFor, packageDecision, packageDecision, packageVerdicts, packageVerdicts,
    List.filter_congr h]

end

/-! ### Equal entries -/

namespace Repository
variable {r : Repository} {p q : Entry}

theorem metadata?_congr (h : (p == q) = true) : r.metadata? p = r.metadata? q := by
  obtain ⟨hid, hversion, _⟩ := Entry.beq_iff.mp h
  rw [metadata?, metadata?, hid]
  refine congrArg _ (find?_congr fun x _ => ?_)
  rw [Version.beq_congr_right hversion]

theorem isMatch_candidate_congr (h : (p == q) = true) {a : Atom}
    (ha : (a.isNamed p.id.category p.id.name && a.distinguishes p.version q.version) = false) :
    a.isMatch (r.candidate p) = a.isMatch (r.candidate q) := by
  obtain ⟨hid, hversion, hrepository⟩ := Entry.beq_iff.mp h
  simp only [Atom.isMatch, candidate, ← hid, ← hrepository, metadata?_congr h]
  cases hnamed : a.isNamed p.id.category p.id.name with
  | false => simp only [Bool.false_and]
  | true =>
    rw [hnamed, Bool.true_and] at ha
    rw [Atom.versionMatches_congr hversion ha]

theorem keywords_congr (h : (p == q) = true) : r.keywords p = r.keywords q := by
  rw [keywords, keywords, metadata?_congr h]

theorem license?_congr (h : (p == q) = true) : r.license? p = r.license? q := by
  rw [license?, license?, metadata?_congr h]

end Repository

theorem Database.mem_of_fetch_eq_ok {d : Database} {name : Text} {r : Repository}
    (h : d.fetch name = .ok r) : r ∈ d.repositories := by
  unfold fetch at h
  split at h
  next r' hfind =>
    cases h
    exact List.mem_of_find?_eq_some hfind
  next => cases h

namespace Environment

/-- The atoms by which the rules of the environment and the profiles of its repositories tell package
versions apart. -/
def atoms (env : Environment) : List Atom :=
  env.use.package.map (·.atom) ++ env.keywords.package.map (·.atom) ++
    env.licenses.package.map (·.atom) ++ env.masks.masked.map (·.atom) ++
    env.masks.unmasked.map (·.atom) ++
    env.database.repositories.flatMap fun r => r.profileMasks.map (·.atom)

/-- Some atom for the package asks for the start of a version text that only one of two entries has. -/
def distinguishes (env : Environment) (p q : Entry) : Bool :=
  env.atoms.any fun a => a.isNamed p.id.category p.id.name && a.distinguishes p.version q.version

/-- All atoms of the environment match both of two entries of a repository or neither. -/
structure MatchesAlike (env : Environment) (r : Repository) (p q : Entry) : Prop where
  use : ∀ entry ∈ env.use.package,
    entry.atom.isMatch (r.candidate p) = entry.atom.isMatch (r.candidate q)
  keywords : ∀ entry ∈ env.keywords.package,
    entry.atom.isMatch (r.candidate p) = entry.atom.isMatch (r.candidate q)
  licenses : ∀ entry ∈ env.licenses.package,
    entry.atom.isMatch (r.candidate p) = entry.atom.isMatch (r.candidate q)
  masked : ∀ mask ∈ env.masks.masked,
    mask.atom.isMatch (r.candidate p) = mask.atom.isMatch (r.candidate q)
  unmasked : ∀ mask ∈ env.masks.unmasked,
    mask.atom.isMatch (r.candidate p) = mask.atom.isMatch (r.candidate q)
  profile : ∀ mask ∈ r.profileMasks,
    mask.atom.isMatch (r.candidate p) = mask.atom.isMatch (r.candidate q)

variable {env : Environment} {r : Repository} {p q : Entry}

theorem matchesAlike (h : (p == q) = true) (hspelling : env.distinguishes p q = false)
    (hr : r ∈ env.database.repositories) : env.MatchesAlike r p q := by
  have hatoms : ∀ a ∈ env.atoms, a.isMatch (r.candidate p) = a.isMatch (r.candidate q) := by
    intro a ha
    refine Repository.isMatch_candidate_congr h ?_
    exact Bool.eq_false_iff.mpr (List.any_eq_false.mp hspelling a ha)
  simp only [atoms, List.forall_mem_append, List.forall_mem_map, List.forall_mem_flatMap] at hatoms
  obtain ⟨⟨⟨⟨⟨huse, hkeywords⟩, hlicenses⟩, hmasked⟩, hunmasked⟩, hprofile⟩ := hatoms
  exact ⟨huse, hkeywords, hlicenses, hmasked, hunmasked, hprofile r hr⟩

/-! ### Answers -/

section
variable (h : (p == q) = true) (hspelling : env.distinguishes p q = false)
include h hspelling

/- What is fetched for two equal entries: the same repository, which cannot tell them apart, or the
same error. -/
theorem fetch_cases :
    (∃ r, env.database.fetch p.repository = .ok r ∧ env.database.fetch q.repository = .ok r ∧
        env.MatchesAlike r p q) ∨
      ∃ error, env.database.fetch p.repository = .error error ∧
        env.database.fetch q.repository = .error error := by
  have hrepository : p.repository = q.repository := (Entry.beq_iff.mp h).2.2
  rw [hrepository]
  cases hfetch : env.database.fetch q.repository with
  | error error => exact .inr ⟨error, rfl, rfl⟩
  | ok r => exact .inl ⟨r, rfl, rfl, matchesAlike h hspelling (Database.mem_of_fetch_eq_ok hfetch)⟩

theorem queryUse_congr (flag : Text) :
    env.queryUse flag (some p) = env.queryUse flag (some q) := by
  rcases fetch_cases h hspelling with ⟨r, hp, hq, halike⟩ | ⟨error, hp, hq⟩
  · rw [queryUse_eq hp, queryUse_eq hq]
    simp only [useFor, UseRules.packageState_congr halike.use]
  · rw [queryUse, queryUse, hp, hq]
    rfl

theorem acceptKeyword_congr (keyword : Text) :
    env.acceptKeyword keyword (some p) = env.acceptKeyword keyword (some q) := by
  rcases fetch_cases h hspelling with ⟨r, hp, hq, halike⟩ | ⟨error, hp, hq⟩
  · rw [acceptKeyword_eq hp, acceptKeyword_eq hq]
    simp only [keywordAccepted, Option.map_some, KeywordRules.acceptsFor_congr halike.keywords]
  · rw [acceptKeyword, acceptKeyword, candidate?, candidate?, hp, hq]
    rfl

theorem acceptLicense_congr (license : Text) :
    env.acceptLicense license (some p) = env.acceptLicense license (some q) := by
  rcases fetch_cases h hspelling with ⟨r, hp, hq, halike⟩ | ⟨error, hp, hq⟩
  · rw [acceptLicense_eq hp, acceptLicense_eq hq]
    simp only [licenseAccepted, LicenseRules.acceptsFor_congr halike.licenses]
  · rw [acceptLicense, acceptLicense, candidate?, candidate?, hp, hq]
    rfl

theorem anyKeywordAccepted_congr : env.anyKeywordAccepted r p = env.anyKeywordAccepted r q := by
  rw [anyKeywordAccepted, anyKeywordAccepted, Repository.keywords_congr h]
  simp only [acceptKeyword_congr h hspelling]

theorem licenseSatisfied_congr : env.licenseSatisfied r p = env.licenseSatisfied r q := by
  rw [licenseSatisfied, licenseSatisfied, Repository.license?_congr h]
  simp only [acceptLicense_congr h hspelling, queryUse_congr h hspelling]

theorem maskReasons_congr : env.maskReasons p = env.maskReasons q := by
  rcases fetch_cases h hspelling with ⟨r, hp, hq, halike⟩ | ⟨error, hp, hq⟩
  · have hprofile : r.profileMask? p = r.profileMask? q := find?_congr halike.profile
    have huser : env.masks.find? (r.candidate p) = env.masks.find? (r.candidate q) :=
      find?_congr halike.masked
    have hunmasked : env.masks.isUnmasked (r.candidate p) = env.masks.isUnmasked (r.candidate q) :=
      any_congr halike.unmasked
    rw [maskReasons, maskReasons, hp, hq]
    show (env.anyKeywordAccepted r p >>= _) = (env.anyKeywordAccepted r q >>= _)
    simp only [anyKeywordAccepted_congr h hspelling, licenseSatisfied_congr h hspelling, hprofile,
      huser, hunmasked]
  · rw [maskReasons, maskReasons, hp, hq]
    rfl

end

/- Whatever atoms there are, as long as none of those for the package asks for the start of a version
text that only one of the two spellings has. -/
theorem answers_eq_of_beq (env : Environment) (p q : Entry) (h : (p == q) = true)
    (hspelling : env.distinguishes p q = false) :
    (∀ flag, env.queryUse flag (some p) = env.queryUse flag (some q)) ∧
      (∀ keyword, env.acceptKeyword keyword (some p) = env.acceptKeyword keyword (some q)) ∧
      (∀ license, env.acceptLicense license (some p) = env.acceptLicense license (some q)) ∧
      env.maskReasons p = env.maskReasons q :=
  ⟨queryUse_congr h hspelling, acceptKeyword_congr h hspelling, acceptLicense_congr h hspelling,
    maskReasons_congr h hspelling⟩

/-- A stable version, and one user mask. -/
def spellingEnvironment (mask : Atom) : Environment where
  database := ⟨[resultOf ((Repository.empty "main".toList).addPackage
    "cat/pkg-1.0".toList "amd64".toList []) rfl]⟩
  use := .none
  keywords := .ofArch "amd64".toList
  licenses := .all
  masks := ⟨[.ofAtom mask none], []⟩
  userSets := none

def shortEntry : Entry := resultOf (Entry.parse "cat/pkg-1.0::main".toList) rfl

/-- The version in another spelling. -/
def longEntry : Entry := resultOf (Entry.parse "cat/pkg-1.00::main".toList) rfl

theorem answers_eq_of_beq_shortEntry_longEntry :
    (shortEntry == longEntry) = true ∧
      ∃ mask, Atom.parse "=cat/pkg-1*".toList = .ok mask ∧
        (spellingEnvironment mask).distinguishes shortEntry longEntry = false ∧
        (spellingEnvironment mask).maskReasons shortEntry =
          (spellingEnvironment mask).maskReasons longEntry := by
  have hbeq : (shortEntry == longEntry) = true := by decide +kernel
  have hspelling : (spellingEnvironment (resultOf (Atom.parse "=cat/pkg-1*".toList) rfl)).distinguishes
      shortEntry longEntry = false := by decide +kernel
  exact ⟨hbeq, _, rfl, hspelling, (answers_eq_of_beq _ _ _ hbeq hspelling).2.2.2⟩

/- The repository knows the version by either spelling, but only one of them starts with `1.00`. -/
theorem maskReasons_ne_of_spelling :
    ∃ mask, Atom.parse "=cat/pkg-1.00*".toList = .ok mask ∧ (shortEntry == longEntry) = true ∧
      (spellingEnvironment mask).maskReasons shortEntry = .ok ⟨false, false, false, false⟩ ∧
      (spellingEnvironment mask).maskReasons longEntry = .ok ⟨false, false, false, true⟩ :=
  ⟨resultOf (Atom.parse "=cat/pkg-1.00*".toList) rfl, rfl, by decide +kernel,
    eq_ok_of_toOption (by decide +kernel), eq_ok_of_toOption (by decide +kernel)⟩

end Environment
end PackagePolicy
