import PackagePolicy.Proofs.Environment.Independence
import PackagePolicy.Proofs.License.Decisions
import PackagePolicy.SpecTree.Token

/-!
# Accepting more licenses

A tree that is satisfied stays satisfied when more of its leaves are accepted. A rule that accepts, put behind
the rules for all packages, therefore never makes the license a reason to mask a package version: the lists for
package versions decide as before, and where they are silent the rule can only accept. Main statement:
`maskReasons_acceptingRule`.
-/

namespace PackagePolicy

namespace LicenseRules
variable {r : LicenseRules} {rule license : Text} {p : Candidate}

/-- The rules with one more behind those for all packages. -/
def acceptingRule (rule : Text) (r : LicenseRules) : LicenseRules :=
  { r with accepted := r.accepted ++ [rule] }

theorem acceptsGlobally_acceptingRule (hplain : rule.head? ≠ some '-')
    (h : r.acceptsGlobally license = true) : (r.acceptingRule rule).acceptsGlobally license = true := by
  have hrules : (r.acceptingRule rule).evaluate (r.acceptingRule rule).accepted license =
      (r.verdict license rule).or (r.evaluate r.accepted license) := evaluate_concat r.accepted rule
  rw [acceptsGlobally, hrules]
  cases hverdict : r.verdict license rule with
  | none => exact h
  | some b => exact ((gives_plain_iff hplain).mp (verdict_eq_some_iff.mp hverdict)).1

theorem packageDecision_acceptingRule :
    (r.acceptingRule rule).packageDecision license p = r.packageDecision license p := rfl

theorem acceptsFor_acceptingRule (hplain : rule.head? ≠ some '-') (h : r.acceptsFor license p = true) :
    (r.acceptingRule rule).acceptsFor license p = true := by
  rw [acceptsFor] at h
  rw [acceptsFor, packageDecision_acceptingRule]
  cases hdecision : r.packageDecision license p with
  | some b => rwa [hdecision] at h
  | none =>
    rw [hdecision] at h
    exact acceptsGlobally_acceptingRule hplain h

end LicenseRules

namespace Environment
open MaskReasons
variable {env : Environment} {r : Repository} {e : Entry} {rule : Text}

def acceptingRule (rule : Text) (env : Environment) : Environment :=
  { env with licenses := env.licenses.acceptingRule rule }

theorem licenseHolds_acceptingRule (hplain : rule.head? ≠ some '-') (h : env.licenseHolds r e = true) :
    (env.acceptingRule rule).licenseHolds r e = true := by
  unfold licenseHolds at h ⊢
  cases htree : r.license? e with
  | none => rfl
  | some tree =>
    rw [htree] at h
    exact SpecTree.satisfied_mono (fun _ _ => LicenseRules.acceptsFor_acceptingRule hplain) h

theorem reasonsFor_acceptingRule (hplain : rule.head? ≠ some '-') :
    ((env.acceptingRule rule).reasonsFor r e).IsSubset (env.reasonsFor r e) := by
  intro reason hreason
  cases reason with
  | keyword => exact hreason
  | license =>
    -- the license is a reason exactly where the expression does not hold
    change (!(env.acceptingRule rule).licenseHolds r e) = true at hreason
    change (!env.licenseHolds r e) = true
    rw [Bool.not_eq_true', Bool.eq_false_iff] at hreason ⊢
    exact mt (licenseHolds_acceptingRule hplain) hreason
  | profile => exact hreason
  | user => exact hreason

theorem equalOutside_reasonsFor_acceptingRule :
    EqualOutside [.license] ((env.acceptingRule rule).reasonsFor r e) (env.reasonsFor r e) := by
  refine equalOutside_reasonsFor (fun _ => rfl) (fun hlicense => ?_) (fun _ => rfl) fun _ => ⟨rfl, rfl⟩
  exact absurd (List.mem_singleton.mpr rfl) hlicense

theorem license_notMem_of_forall_accepted {m : MaskReasons}
    (h : ∀ license, env.acceptLicense license (some e) = .ok true) (hm : env.maskReasons e = .ok m) :
    m.contains .license = false := by
  rw [maskReasons_eq_map] at hm
  cases hfetch : env.database.fetch e.repository with
  | error error =>
    rw [hfetch] at hm
    cases hm
  | ok r =>
    rw [hfetch] at hm
    cases hm
    have hholds : env.licenseHolds r e = true := by
      unfold licenseHolds
      cases r.license? e with
      | none => rfl
      | some tree =>
        refine SpecTree.satisfied_of_forall_leaves fun license _ => ?_
        have hlicense := h license
        rw [acceptLicense_eq hfetch] at hlicense
        exact Except.ok.inj hlicense
    change (!env.licenseHolds r e) = false
    rw [hholds, Bool.not_true]

/- A group asks for no leaf to be refused, so neither does an expression; the rule reaches it through its leaves
only. -/
theorem maskReasons_acceptingRule {α : Type} (env : Environment) (e : Entry) :
    (∀ (t : SpecTree α) (leaf leaf' : α → Bool) (use : Text → Bool),
        (∀ a ∈ t.leaves, leaf a = true → leaf' a = true) →
          t.evaluate (Except.ok ∘ leaf) (Except.ok ∘ use) = (Except.ok true : Except Error Bool) →
            t.evaluate (Except.ok ∘ leaf') (Except.ok ∘ use) = (Except.ok true : Except Error Bool)) ∧
      (∀ rule : Text, rule.head? ≠ some '-' →
        AgreeUpTo (fun m m' => m'.IsSubset m ∧ EqualOutside [.license] m' m) (env.maskReasons e)
          ((env.acceptingRule rule).maskReasons e)) ∧
      (∀ (t : SpecTree α) (leaf : α → Bool) (use : Text → Bool), (∀ a ∈ t.leaves, leaf a = true) →
        t.evaluate (Except.ok ∘ leaf) (Except.ok ∘ use) = (Except.ok true : Except Error Bool)) ∧
      ((∀ license, env.acceptLicense license (some e) = .ok true) →
        ∀ m, env.maskReasons e = .ok m → m.contains .license = false) := by
  have hevaluate (t : SpecTree α) (leaf : α → Bool) (use : Text → Bool) :
      t.evaluate (Except.ok ∘ leaf) (Except.ok ∘ use) =
        (Except.ok (t.satisfied leaf use) : Except Error Bool) := SpecTree.evaluate_pure leaf use t
  simp only [hevaluate, Except.ok.injEq]
  refine ⟨fun t leaf leaf' use => SpecTree.satisfied_mono, fun rule hplain => ?_,
    fun t leaf use => SpecTree.satisfied_of_forall_leaves, fun h m => license_notMem_of_forall_accepted h⟩
  exact agreeUpTo_maskReasons rfl fun r =>
    ⟨reasonsFor_acceptingRule hplain, equalOutside_reasonsFor_acceptingRule⟩

/-- Either license will do, and another one with `doc`. -/
def disputedTree : SpecTree Text :=
  resultOf (SpecTree.parseLicense "|| ( EVIL MIT ) doc? ( EVIL )".toList) (by decide +kernel)

theorem maskReasons_acceptingRule_slottedEnvironment :
    (∀ a ∈ disputedTree.leaves, (a == "MIT".toList) = true → (a != "BSD".toList) = true) ∧
      disputedTree.evaluate (Except.ok ∘ (· == "MIT".toList)) (Except.ok ∘ fun _ => false) =
        (Except.ok true : Except Error Bool) ∧
      disputedTree.evaluate (Except.ok ∘ (· != "BSD".toList)) (Except.ok ∘ fun _ => false) =
        (Except.ok true : Except Error Bool) ∧
      slottedEnvironment.maskReasons slottedEntry = .ok ⟨false, true, true, true⟩ ∧
      "EVIL".toList.head? ≠ some '-' ∧
      (slottedEnvironment.acceptingRule "EVIL".toList).maskReasons slottedEntry =
        .ok ⟨false, false, true, true⟩ ∧
      AgreeUpTo (fun m m' => m'.IsSubset m ∧ EqualOutside [.license] m' m)
        (slottedEnvironment.maskReasons slottedEntry)
        ((slottedEnvironment.acceptingRule "EVIL".toList).maskReasons slottedEntry) ∧
      (∀ a ∈ disputedTree.leaves, (a != "BSD".toList) = true) ∧
      disputedTree.evaluate (Except.ok ∘ (· != "BSD".toList)) (Except.ok ∘ fun _ => true) =
        (Except.ok true : Except Error Bool) ∧
      (∀ license, (slottedEnvironment.acceptingRule ['*']).acceptLicense license (some slottedEntry) =
        .ok true) ∧
      ∀ m, (slottedEnvironment.acceptingRule ['*']).maskReasons slottedEntry = .ok m →
        m.contains .license = false := by
  have hmore : ∀ a ∈ disputedTree.leaves, (a == "MIT".toList) = true → (a != "BSD".toList) = true := by
    decide +kernel
  have htree : disputedTree.evaluate (Except.ok ∘ (· == "MIT".toList)) (Except.ok ∘ fun _ => false) =
      (Except.ok true : Except Error Bool) := by decide +kernel
  have hplain : "EVIL".toList.head? ≠ some '-' := by decide
  have hleaves : ∀ a ∈ disputedTree.leaves, (a != "BSD".toList) = true := by decide +kernel
  have haccepted : ∀ license,
      (slottedEnvironment.acceptingRule ['*']).acceptLicense license (some slottedEntry) = .ok true :=
    fun _ => rfl
  obtain ⟨hmono, hrule, hnone, _⟩ := maskReasons_acceptingRule (α := Text) slottedEnvironment slottedEntry
  obtain ⟨_, _, _, hall⟩ :=
    maskReasons_acceptingRule (α := Text) (slottedEnvironment.acceptingRule ['*']) slottedEntry
  exact ⟨hmore, htree, hmono _ _ _ _ hmore htree, eq_ok_of_toOption (by decide +kernel), hplain,
    eq_ok_of_toOption (by decide +kernel), hrule _ hplain, hleaves, hnone _ _ _ hleaves, haccepted,
    hall haccepted⟩

end Environment
end PackagePolicy
