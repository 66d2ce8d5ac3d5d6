import PackagePolicy.License
import PackagePolicy.Proofs.Precedence

/-!
# Decisions about licenses

Within one list of rules the last that is about a license decides, so that a list put behind another one has
precedence over it (`evaluate_append`). Between the lists for a package version no order counts: any refusal decides,
then any acceptance, and then the rules for all packages.
-/

namespace PackagePolicy
namespace LicenseRules
open Text
variable {r : LicenseRules} {license rule : Text} {rules : List Text} {p : Candidate} {b : Bool}

/-! ### Single rules -/

/-- What follows the sign of a rule is about the license. -/
inductive Covers (r : LicenseRules) (license : Text) : Text → Prop
  | all : Covers r license ['*']
  | group {name : Text} (h : r.inGroup name license = true) : Covers r license ('@' :: name)
  | name (hname : license.head? ≠ some '@') : Covers r license license

/-- The rule accepts or refuses the license. -/
inductive Gives (r : LicenseRules) (license : Text) : Text → Bool → Prop
  | accept {pattern : Text} (hplain : pattern.head? ≠ some '-') (h : r.Covers license pattern) :
      Gives r license pattern true
  | refuse {pattern : Text} (h : r.Covers license pattern) : Gives r license ('-' :: pattern) false

theorem covers_group_iff {name : Text} : r.Covers license ('@' :: name) ↔ r.inGroup name license = true := by
  constructor
  · intro h
    cases h with
    | group h => exact h
    | name hname => exact absurd rfl hname
  · exact .group

theorem isAbout_iff {pattern : Text} : r.isAbout pattern license = true ↔ r.Covers license pattern := by
  unfold isAbout
  split
  next hall => exact iff_of_true rfl (hall ▸ .all)
  next hall =>
    split
    next name => exact covers_group_iff.symm
    next hname =>
      rw [beq_iff_eq]
      constructor
      · rintro rfl
        refine .name fun hat => ?_
        obtain ⟨name, heq⟩ := List.head?_eq_some_iff.mp hat
        exact hname name heq
      · intro h
        cases h with
        | all => exact absurd rfl hall
        | group => exact absurd rfl (hname _)
        | name => rfl

theorem gives_dash_iff {pattern : Text} :
    r.Gives license ('-' :: pattern) b ↔ b = false ∧ r.Covers license pattern := by
  constructor
  · intro h
    cases h with
    | accept hplain => exact absurd rfl hplain
    | refuse h => exact ⟨rfl, h⟩
  · rintro ⟨rfl, h⟩
    exact .refuse h

theorem gives_plain_iff (hplain : rule.head? ≠ some '-') :
    r.Gives license rule b ↔ b = true ∧ r.Covers license rule := by
  constructor
  · intro h
    cases h with
    | accept _ h => exact ⟨rfl, h⟩
    | refuse => exact absurd rfl hplain
  · rintro ⟨rfl, h⟩
    exact .accept hplain h

theorem splitRule_plain (hplain : rule.head? ≠ some '-') : splitRule rule = (true, rule) := by
  unfold splitRule
  split
  · exact absurd rfl hplain
  · rfl

theorem verdict_eq_some_iff : r.verdict license rule = some b ↔ r.Gives license rule b := by
  rw [verdict, Option.ite_none_right_eq_some, Option.some.injEq, isAbout_iff, and_comm, eq_comm]
  by_cases hdash : rule.head? = some '-'
  · obtain ⟨pattern, rfl⟩ := List.head?_eq_some_iff.mp hdash
    exact gives_dash_iff.symm
  · rw [splitRule_plain hdash, gives_plain_iff hdash]

/-! ### Lists of rules -/

/-- The last rule that accepts or refuses the license gives the verdict. -/
def LastGives (r : LicenseRules) (license : Text) (rules : List Text) (b : Bool) : Prop :=
  Stands (r.Gives license · b) (fun rule => ∃ b, r.Gives license rule b) rules

theorem evaluate_eq_some_iff : r.evaluate rules license = some b ↔ r.LastGives license rules b := by
  have hnone : ¬ (none : Option Bool) = some b := nofun
  refine foldl_iff_stands (fun decided rule => (r.verdict license rule).or decided)
    (fun decided => decided = some b) hnone (fun decided rule => ?_) rules
  rw [Option.or_eq_some_iff, verdict_eq_some_iff, and_comm (b := decided = some b), Option.eq_none_iff_forall_ne_some,
    not_exists]
  simp only [ne_eq, verdict_eq_some_iff]

theorem evaluate_concat (rules : List Text) (rule : Text) :
    r.evaluate (rules ++ [rule]) license = (r.verdict license rule).or (r.evaluate rules license) :=
  List.foldl_concat _ _ _ _

theorem evaluate_append (first second : List Text) :
    r.evaluate (first ++ second) license = (r.evaluate second license).or (r.evaluate first license) := by
  induction second using List.reverseRecOn with
  | nil => rw [List.append_nil]; rfl
  | append_singleton second rule ih =>
    rw [← List.append_assoc, evaluate_concat, evaluate_concat, ih, Option.or_assoc]

/-! ### Lists for a package version -/

/-- The last rule of some list for the package version gives the verdict. -/
def SomeEntryGives (r : LicenseRules) (license : Text) (p : Candidate) (b : Bool) : Prop :=
  ∃ entry ∈ r.package, entry.atom.isMatch p = true ∧ r.LastGives license entry.rules b

theorem contains_packageVerdicts_iff :
    (r.packageVerdicts license p).contains b = true ↔ r.SomeEntryGives license p b := by
  rw [List.contains_iff_mem, packageVerdicts, List.mem_filterMap]
  simp only [List.mem_filter, evaluate_eq_some_iff, and_assoc, SomeEntryGives]

/-- What decides about a license for a package version, from what comes first to what comes last. -/
def layers (r : LicenseRules) (license : Text) (p : Candidate) : List (Bool → Prop) :=
  [fun b => b = false ∧ r.SomeEntryGives license p false,
   fun b => b = true ∧ r.SomeEntryGives license p true,
   r.LastGives license r.accepted]

theorem packageDecision_eq_or : r.packageDecision license p =
    (if (r.packageVerdicts license p).contains false then some false else none).or
      (if (r.packageVerdicts license p).contains true then some true else none) := by
  unfold packageDecision
  dsimp only
  split <;> rfl

theorem acceptsFor_iff_decides : r.acceptsFor license p = b ↔ Decides (r.layers license p) b := by
  have hentries (b c : Bool) : (if (r.packageVerdicts license p).contains c then some c else none) = some b ↔
      b = c ∧ r.SomeEntryGives license p c := by
    rw [ite_eq_some_iff, contains_packageVerdicts_iff]
  rw [acceptsFor, acceptsGlobally, ← Option.getD_or, packageDecision_eq_or, Option.or_assoc]
  exact getD_or_iff_decides (fun b => hentries b false)
    (getD_or_iff_decides (fun b => hentries b true)
      (getD_iff_decides fun b => evaluate_eq_some_iff)) b

/-! ### The order of the lists -/

theorem packageVerdicts_perm {entries : List PackageLicenses} (h : entries.Perm r.package) (license : Text)
    (p : Candidate) :
    ({ r with package := entries }.packageVerdicts license p).Perm (r.packageVerdicts license p) :=
  (h.filter _).filterMap _

theorem acceptsFor_perm {entries : List PackageLicenses} (h : entries.Perm r.package) :
    { r with package := entries }.acceptsFor license p = r.acceptsFor license p := by
  have hverdicts := packageVerdicts_perm h license p
  rw [acceptsFor, acceptsFor, packageDecision, packageDecision, hverdicts.contains_eq, hverdicts.contains_eq]
  rfl

end LicenseRules
end PackagePolicy
