import PackagePolicy.Proofs.Environment.MaskReasons
import PackagePolicy.Proofs.License.Decisions

/-!
# Accepted keywords and licenses

Which rules decide about a license for a package version, and that the entries for package versions may stand in any
order. Main statement: `licenseAccepted_iff_decides`.
-/

namespace PackagePolicy

theorem KeywordRules.acceptsFor_perm {r : KeywordRules} {entries : List PackageKeywords}
    (h : entries.Perm r.package) (declared : Keyword) (p : Candidate) :
    { r with package := entries }.acceptsFor declared p = r.acceptsFor declared p :=
  ((h.filter _).flatMap_right _).any_eq

namespace Environment

/-- The environment with other entries for package versions. -/
def withEntries (keywords : List PackageKeywords) (licenses : List PackageLicenses) (env : Environment) :
    Environment :=
  { env with
    keywords := { env.keywords with package := keywords }
    licenses := { env.licenses with package := licenses } }

/-- Two environments accept the same keywords and licenses, or fail with the same error. -/
structure AcceptsLike (env env' : Environment) : Prop where
  keywordAccepted : ∀ k p, env.keywordAccepted k p = env'.keywordAccepted k p
  acceptKeyword : ∀ keyword e, env.acceptKeyword keyword e = env'.acceptKeyword keyword e
  licenseAccepted : ∀ license p, env.licenseAccepted license p = env'.licenseAccepted license p
  acceptLicense : ∀ license e, env.acceptLicense license e = env'.acceptLicense license e

/- A query reaches the rules only through the candidate of its entry. -/
theorem acceptsLike_of_accepted {env env' : Environment} (hdatabase : env.database = env'.database)
    (hkeyword : ∀ k p, env.keywordAccepted k p = env'.keywordAccepted k p)
    (hlicense : ∀ license p, env.licenseAccepted license p = env'.licenseAccepted license p) :
    env.AcceptsLike env' where
  keywordAccepted := hkeyword
  acceptKeyword keyword e := by
    simp only [acceptKeyword, candidate?, hdatabase, hkeyword]
  licenseAccepted := hlicense
  acceptLicense license e := by
    simp only [acceptLicense, candidate?, hdatabase, hlicense]

theorem withEntries_acceptsLike {env : Environment} {keywords : List PackageKeywords}
    {licenses : List PackageLicenses} (hkeywords : keywords.Perm env.keywords.package)
    (hlicenses : licenses.Perm env.licenses.package) :
    (env.withEntries keywords licenses).AcceptsLike env := by
  refine acceptsLike_of_accepted rfl (fun k p => ?_) (fun license p => ?_)
  · cases p with
    | none => rfl
    | some p => exact congrArg _ (KeywordRules.acceptsFor_perm hkeywords k p)
  · cases p with
    | none => rfl
    | some p => exact LicenseRules.acceptsFor_perm hlicenses

/- Within a list of rules the order counts, between the entries it does not. -/
theorem licenseAccepted_iff_decides (env : Environment) :
    (∀ license p b, env.licenseAccepted license (some p) = b ↔
        Decides (env.licenses.layers license p) b) ∧
      (∀ license first second, env.licenses.evaluate (first ++ second) license =
        (env.licenses.evaluate second license).or (env.licenses.evaluate first license)) ∧
      ∀ keywords licenses, keywords.Perm env.keywords.package → licenses.Perm env.licenses.package →
        (env.withEntries keywords licenses).AcceptsLike env :=
  ⟨fun _ _ _ => LicenseRules.acceptsFor_iff_decides, fun _ => LicenseRules.evaluate_append,
    fun _ _ => withEntries_acceptsLike⟩

/-- One list of rules accepts the license in the end, another refuses it. -/
def disputedEnvironment : Environment :=
  slottedEnvironment.withEntries
    [⟨resultOf (Atom.parse "=cat/pkg-2".toList) rfl, [⟨['*'], .any⟩]⟩,
      ⟨resultOf (Atom.parse "=cat/pkg-1.0".toList) rfl, [⟨"amd64".toList, .testing⟩]⟩]
    [⟨resultOf (Atom.parse ">=cat/pkg-1".toList) rfl, ["-*".toList, "EVIL".toList]⟩,
      ⟨resultOf (Atom.parse "c*/pkg".toList) rfl, ["EVIL".toList, "-EVIL".toList, "@FREE".toList]⟩]

theorem licenseAccepted_iff_decides_disputedEnvironment :
    disputedEnvironment.keywords.package.reverse.Perm disputedEnvironment.keywords.package ∧
      disputedEnvironment.licenses.package.reverse.Perm disputedEnvironment.licenses.package ∧
      disputedEnvironment.acceptLicense "EVIL".toList (some slottedEntry) = .ok false ∧
      (disputedEnvironment.withEntries disputedEnvironment.keywords.package.reverse
        disputedEnvironment.licenses.package.reverse).acceptLicense "EVIL".toList (some slottedEntry) =
          .ok false := by
  have hkeywords := List.reverse_perm disputedEnvironment.keywords.package
  have hlicenses := List.reverse_perm disputedEnvironment.licenses.package
  have hrefused : disputedEnvironment.acceptLicense "EVIL".toList (some slottedEntry) = .ok false :=
    eq_ok_of_toOption (by decide +kernel)
  obtain ⟨_, _, hperm⟩ := licenseAccepted_iff_decides disputedEnvironment
  exact ⟨hkeywords, hlicenses, hrefused, ((hperm _ _ hkeywords hlicenses).acceptLicense _ _).trans hrefused⟩

end Environment
end PackagePolicy
