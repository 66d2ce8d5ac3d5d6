import PackagePolicy.Proofs.Environment.Failures
import PackagePolicy.Proofs.Environment.UseFlags
import PackagePolicy.Proofs.PackageSet.Names
import PackagePolicy.Proofs.Repository.Profile

/-!
# Environments over a single repository

Without a configuration all answers but those about keywords are told by the files of the repository directory: only
the profile masks, only it turns flags on, every license is accepted, and there are no sets but those of the
repository. Main statement: `answers_areByProfile`.
-/

namespace PackagePolicy

/-! ### Rules of no configuration -/

theorem LicenseRules.acceptsGlobally_all (license : Text) : all.acceptsGlobally license = true := rfl

theorem LicenseRules.acceptsFor_all (license : Text) (p : Candidate) : all.acceptsFor license p = true := rfl

namespace Environment
variable {env : Environment} {r : Repository} {e : Entry}

theorem licenseAccepted_of_all (h : env.licenses = .all) (license : Text) (p : Option Candidate) :
    env.licenseAccepted license p = true := by
  cases p with
  | none => rw [licenseAccepted, h, LicenseRules.acceptsGlobally_all]
  | some p => rw [licenseAccepted, h, LicenseRules.acceptsFor_all]

/- No expression is beyond its leaves: where every license is accepted, no combination of them is refused. -/
theorem licenseHolds_of_all (h : env.licenses = .all) : env.licenseHolds r e = true := by
  unfold licenseHolds
  split
  · rfl
  · exact SpecTree.satisfied_of_forall_leaves fun license _ => licenseAccepted_of_all h license _

theorem useFor_of_none (h : env.use = .none) (flag : Text) :
    env.useFor flag r e = true ↔ r.isUseForced flag = true ∧ ¬ r.isUseMasked flag = true := by
  have hstate : env.useFor flag r e = (!r.isUseMasked flag && r.isUseForced flag) := by
    rw [useFor_eq_or, h]
    cases r.isUseMasked flag <;> cases r.isUseForced flag <;> rfl
  rw [hstate, Bool.and_eq_true, Bool.not_eq_true', Bool.not_eq_true, and_comm]

end Environment

namespace BareEnvironment
open Repository Text
variable {d : Disk} {root : Text} {b : BareEnvironment} {e : Entry}

theorem load_repository (h : load d root = .ok b) : Repository.load d root none = .ok b.repository := by
  obtain ⟨r, hr, h⟩ := exists_of_bind_eq_ok h
  cases h
  exact hr

theorem fetch_environment (he : e.repository = b.repository.name) :
    b.environment.database.fetch e.repository = .ok b.repository := by
  rw [he, environment, Database.fetch, List.find?_cons, beq_self_eq_true]

/-! ### Entries -/

/-- What is answered about an entry, told by the profile in the repository directory. -/
structure AnswersByProfile (d : Disk) (root : Text) (b : BareEnvironment) (e : Entry) : Prop where
  maskReasons : ∃ m, b.environment.maskReasons e = .ok m ∧
    (∀ reason, m.contains reason = true → reason = .keyword ∨ reason = .profile) ∧
    (m.contains .profile = true ↔ ProfileMasks d root (b.repository.candidate e))
  acceptLicense : ∀ license, b.environment.acceptLicense license (some e) = .ok true
  queryUse : ∀ flag, ∃ on, b.environment.queryUse flag (some e) = .ok on ∧
    (on = true ↔ ProfileLists d root "use.force" flag ∧ ¬ ProfileLists d root "use.mask" flag)

theorem contains_reasonsFor {reason : MaskReason}
    (h : (b.environment.reasonsFor b.repository e).contains reason = true) :
    reason = .keyword ∨ reason = .profile := by
  have hlicense : b.environment.licenseHolds b.repository e = true := Environment.licenseHolds_of_all rfl
  cases reason with
  | keyword => exact .inl rfl
  | profile => exact .inr rfl
  | license =>
    rw [MaskReasons.contains, Environment.reasonsFor, hlicense] at h
    cases h
  | user => cases h

theorem contains_profile_reasonsFor_iff (h : load d root = .ok b) :
    (b.environment.reasonsFor b.repository e).contains .profile = true ↔
      ProfileMasks d root (b.repository.candidate e) := by
  have hunmasked : b.environment.masks.isUnmasked (b.repository.candidate e) = false := rfl
  rw [MaskReasons.contains, Environment.reasonsFor, hunmasked, Bool.not_false, Bool.and_true, profileMask?,
    Mask.isSome_find?_iff, anyMatches_profileMasks_iff (load_repository h)]

theorem answersByProfile_of_load (h : load d root = .ok b) (he : e.repository = b.repository.name) :
    b.AnswersByProfile d root e where
  maskReasons := by
    refine ⟨b.environment.reasonsFor b.repository e, ?_, fun _ => contains_reasonsFor,
      contains_profile_reasonsFor_iff h⟩
    rw [Environment.maskReasons_eq_map, fetch_environment he]
    rfl
  acceptLicense license := by
    rw [Environment.acceptLicense_eq (fetch_environment he), Environment.licenseAccepted_of_all rfl]
  queryUse flag := by
    refine ⟨_, Environment.queryUse_eq (fetch_environment he) flag, ?_⟩
    rw [Environment.useFor_of_none rfl, isUseForced_iff (load_repository h), isUseMasked_iff (load_repository h)]

/-! ### Sets -/

theorem mem_names_scope_iff (h : load d root = .ok b) {n : Text} (hn : n ≠ SetScope.everythingName)
    (hn' : n ≠ SetScope.systemName) : n ∈ b.environment.scope.names ↔ DefinesSet d root n := by
  have hsets : b.environment.scope.sets = b.repository.sets.sets := List.flatMap_singleton _ _
  rw [SetScope.mem_names_iff, or_iff_right hn, or_iff_right hn', hsets, ← mem_names_sets_iff (load_repository h),
    SetTable.names, List.mem_map]

/- Apart from the sets that every scope has, there are only those of the repository. -/
theorem packageSet_of_not_definesSet (h : load d root = .ok b) {n : Text} (hn : n ≠ SetScope.everythingName)
    (hn' : n ≠ SetScope.systemName) (hat : n.head? ≠ some '@') (hnot : ¬ DefinesSet d root n) :
    b.environment.packageSet n = .error (.setName n) := by
  have hlead : dropLead '@' n = n := dropLead_of_head?_ne hat
  have hclosed : ¬ b.environment.scope.Opens n := by
    rw [SetScope.opens_iff, hlead, mem_names_scope_iff h hn hn']
    exact fun hopens => hnot hopens.2
  rw [Environment.packageSet, SetScope.resolve_eq_of_not_opens hclosed, hlead]

def worldName : Text := "world".toList

/- An entry counts as one of the repository by the name in it, whether it is listed or not. -/
theorem answers_areByProfile (h : load d root = .ok b) :
    (∀ e ∈ b.repository.entries, e.repository = b.repository.name) ∧
      (∀ e, e.repository = b.repository.name → b.AnswersByProfile d root e) ∧
      (∀ license, b.environment.acceptLicense license none = .ok true) ∧
      (∀ flag, b.environment.queryUse flag none = .ok false) ∧
      (∀ tree, b.environment.packageSet worldName = .ok tree → DefinesSet d root worldName) ∧
      (¬ DefinesSet d root worldName → b.environment.packageSet worldName = .error (.setName worldName)) := by
  have hworld := packageSet_of_not_definesSet h (n := worldName) (by decide) (by decide) (by decide)
  refine ⟨fun e => repository_of_mem_entries, fun e => answersByProfile_of_load h, fun license => rfl,
    fun flag => rfl, fun tree htree => ?_, hworld⟩
  by_contra hnot
  rw [hworld hnot] at htree
  cases htree

/-- A repository with these files of sets, whose profile masks a version and forces three flags, one of which it takes
back and one of which it masks. -/
def strictDisk (sets : List (Text × FileTree)) : Disk where
  root := .dir [("repo".toList, .dir [
    ("profiles".toList, .dir [
      ("repo_name".toList, .file (some "main".toList)),
      ("package.mask".toList, .file (some "# unstable\n>=cat/pkg-2".toList)),
      ("use.force".toList, .file (some "doc\nssl\ngtk\n-doc".toList)),
      ("use.mask".toList, .file (some "gtk".toList))]),
    ("sets".toList, .dir sets),
    ("cat".toList, .dir [("pkg".toList, .dir [
      ("pkg-2.0.ebuild".toList, .file (some "KEYWORDS=\"amd64\"\nLICENSE=\"EVIL\"".toList))])])])]
  here := "/".toList

def strictEntry : Entry := resultOf (Entry.parse "cat/pkg-2.0::main".toList) rfl

def worldFile : Text × FileTree := ("world.conf".toList, .file (some "cat/pkg".toList))

def worldlessEnvironment : BareEnvironment := resultOf (load (strictDisk []) "repo".toList) (by decide +kernel)

def worldEnvironment : BareEnvironment := resultOf (load (strictDisk [worldFile]) "repo".toList) (by decide +kernel)

theorem answers_areByProfile_strictDisk :
    (load (strictDisk []) "repo".toList = .ok worldlessEnvironment ∧
      strictEntry.repository = worldlessEnvironment.repository.name ∧
      (∃ m, worldlessEnvironment.environment.maskReasons strictEntry = .ok m ∧ m.contains .profile = true) ∧
      worldlessEnvironment.environment.queryUse "ssl".toList (some strictEntry) = .ok true ∧
      worldlessEnvironment.environment.queryUse "gtk".toList (some strictEntry) = .ok false ∧
      worldlessEnvironment.environment.packageSet worldName = .error (.setName worldName)) ∧
    load (strictDisk [worldFile]) "repo".toList = .ok worldEnvironment ∧
      DefinesSet (strictDisk [worldFile]) "repo".toList worldName := by
  have hload : load (strictDisk []) "repo".toList = .ok worldlessEnvironment := eq_ok_resultOf _
  have hload' : load (strictDisk [worldFile]) "repo".toList = .ok worldEnvironment := eq_ok_resultOf _
  have hname : strictEntry.repository = worldlessEnvironment.repository.name := by decide +kernel
  obtain ⟨_, hentries, _, _, _, hworldless⟩ := answers_areByProfile hload
  obtain ⟨_, _, _, _, hworld, _⟩ := answers_areByProfile hload'
  obtain ⟨⟨m, hm, _, hprofile⟩, _, huse⟩ := hentries strictEntry hname
  obtain ⟨ssl, hssl, hon⟩ := huse "ssl".toList
  obtain ⟨gtk, hgtk, hoff⟩ := huse "gtk".toList
  have hmasks : ProfileMasks (strictDisk []) "repo".toList (worldlessEnvironment.repository.candidate strictEntry) :=
    ⟨">=cat/pkg-2".toList, by decide +kernel, resultOf (Atom.parse ">=cat/pkg-2".toList) rfl, rfl, by decide +kernel⟩
  have hnone : ¬ DefinesSet (strictDisk []) "repo".toList worldName := by
    rintro ⟨entries, hdir, e, he, _⟩
    cases hdir
    cases he
  have hsome : (worldEnvironment.environment.packageSet worldName).toOption.isSome = true := by decide +kernel
  rw [← isUseForced_iff (load_repository hload), ← isUseMasked_iff (load_repository hload)] at hon hoff
  rw [hon.mpr (by decide +kernel)] at hssl
  rw [Bool.eq_false_iff.mpr (mt hoff.mp (by decide +kernel))] at hgtk
  exact ⟨⟨hload, hname, ⟨m, hm, hprofile.mpr hmasks⟩, hssl, hgtk, hworldless hnone⟩, hload',
    hworld _ (eq_ok_resultOf hsome)⟩

end BareEnvironment
end PackagePolicy
