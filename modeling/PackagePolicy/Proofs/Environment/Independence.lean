import PackagePolicy.Proofs.Environment.MaskReasons

/-!
# Mask reasons do not depend on each other

Two environments over one database are compared. Each part of the configuration has a say in one or two of
the four reasons only, and masks and lifted masks act in one direction. Main statement:
`maskReasons_independent`.
-/

namespace PackagePolicy
variable {ε α : Type}

/-! ### Two runs -/

/-- Both computations fail with the same error, or both have results, which are related. -/
inductive AgreeUpTo (rel : α → α → Prop) : Except ε α → Except ε α → Prop
  | error (e : ε) : AgreeUpTo rel (.error e) (.error e)
  | ok {a b : α} (h : rel a b) : AgreeUpTo rel (.ok a) (.ok b)

theorem AgreeUpTo.map {β : Type} {rel : β → β → Prop} {f g : α → β} (h : ∀ a, rel (f a) (g a))
    (x : Except ε α) : AgreeUpTo rel (x.map f) (x.map g) := by
  cases x with
  | error e => exact .error e
  | ok a => exact .ok (h a)

namespace MaskReasons

/-- The sets have the same members, except perhaps for those of the list. -/
def EqualOutside (reasons : List MaskReason) (m m' : MaskReasons) : Prop :=
  ∀ reason, reason ∉ reasons → m.contains reason = m'.contains reason

def IsSubset (m m' : MaskReasons) : Prop := ∀ reason, m.contains reason = true → m'.contains reason = true

end MaskReasons

theorem Mask.AnyMatches.mono {masks masks' : List Mask} {p : Candidate} (h : AnyMatches masks p)
    (hsub : masks ⊆ masks') : AnyMatches masks' p := by
  obtain ⟨mask, hmask, hmatch⟩ := h
  exact ⟨mask, hsub hmask, hmatch⟩

namespace Environment
open MaskReasons
variable {r : Repository} {e : Entry} {env env' : Environment}

/-! ### What each reason depends on -/

theorem keyword_reasonsFor_congr (h : env.keywords = env'.keywords) :
    (env.reasonsFor r e).keyword = (env'.reasonsFor r e).keyword := by
  simp only [reasonsFor, keywordAccepted, h]

theorem license_reasonsFor_congr (hlicenses : env.licenses = env'.licenses) (huse : env.use = env'.use) :
    (env.reasonsFor r e).license = (env'.reasonsFor r e).license := by
  have hleaf : ∀ license p, env.licenseAccepted license p = env'.licenseAccepted license p := by
    intro license p
    cases p with
    | none => rw [licenseAccepted, licenseAccepted, hlicenses]
    | some p => rw [licenseAccepted, licenseAccepted, hlicenses]
  have hcondition : ∀ flag, env.useFor flag r e = env'.useFor flag r e := by
    intro flag
    rw [useFor, useFor, huse]
  simp only [reasonsFor, licenseHolds, hleaf, hcondition]

theorem profile_reasonsFor_congr (h : env.masks.unmasked = env'.masks.unmasked) :
    (env.reasonsFor r e).profile = (env'.reasonsFor r e).profile := by
  simp only [reasonsFor, MaskRules.isUnmasked, h]

theorem user_reasonsFor_congr (hmasked : env.masks.masked = env'.masks.masked)
    (hunmasked : env.masks.unmasked = env'.masks.unmasked) :
    (env.reasonsFor r e).user = (env'.reasonsFor r e).user := by
  simp only [reasonsFor, MaskRules.find?, MaskRules.isUnmasked, hmasked, hunmasked]

/- A reason is the same on both sides if all that it depends on is. -/
theorem equalOutside_reasonsFor {reasons : List MaskReason}
    (hkeyword : .keyword ∉ reasons → env.keywords = env'.keywords)
    (hlicense : .license ∉ reasons → env.licenses = env'.licenses ∧ env.use = env'.use)
    (hprofile : .profile ∉ reasons → env.masks.unmasked = env'.masks.unmasked)
    (huser : .user ∉ reasons →
      env.masks.masked = env'.masks.masked ∧ env.masks.unmasked = env'.masks.unmasked) :
    EqualOutside reasons (env.reasonsFor r e) (env'.reasonsFor r e) := by
  intro reason hreason
  cases reason with
  | keyword => exact keyword_reasonsFor_congr (hkeyword hreason)
  | license => exact license_reasonsFor_congr (hlicense hreason).1 (hlicense hreason).2
  | profile => exact profile_reasonsFor_congr (hprofile hreason)
  | user => exact user_reasonsFor_congr (huser hreason).1 (huser hreason).2

/-! ### More masks, more lifted masks -/

theorem reasonsFor_subset_of_masked {masked : List Mask} (h : env.masks.masked ⊆ masked) :
    (env.reasonsFor r e).IsSubset
      ({ env with masks := { env.masks with masked } }.reasonsFor r e) := by
  intro reason hreason
  cases reason with
  | keyword => exact hreason
  | license => exact hreason
  | profile => exact hreason
  | user =>
    obtain ⟨hmasked, hlifted⟩ := masked_and_not_unmasked_iff.mp hreason
    exact masked_and_not_unmasked_iff.mpr ⟨hmasked.mono h, hlifted⟩

theorem reasonsFor_subset_of_unmasked {unmasked : List Mask} (h : env.masks.unmasked ⊆ unmasked) :
    ({ env with masks := { env.masks with unmasked } }.reasonsFor r e).IsSubset (env.reasonsFor r e) := by
  have hless : ¬ Mask.AnyMatches unmasked (r.candidate e) →
      ¬ Mask.AnyMatches env.masks.unmasked (r.candidate e) := mt fun hlifted => hlifted.mono h
  intro reason hreason
  cases reason with
  | keyword => exact hreason
  | license => exact hreason
  | profile =>
    obtain ⟨hmasked, hlifted⟩ := masked_and_not_unmasked_iff.mp hreason
    exact masked_and_not_unmasked_iff.mpr ⟨hmasked, hless hlifted⟩
  | user =>
    obtain ⟨hmasked, hlifted⟩ := masked_and_not_unmasked_iff.mp hreason
    exact masked_and_not_unmasked_iff.mpr ⟨hmasked, hless hlifted⟩

/-! ### Both runs of a query -/

theorem agreeUpTo_maskReasons {rel : MaskReasons → MaskReasons → Prop}
    (hdatabase : env'.database = env.database)
    (h : ∀ r, rel (env.reasonsFor r e) (env'.reasonsFor r e)) :
    AgreeUpTo rel (env.maskReasons e) (env'.maskReasons e) := by
  rw [maskReasons_eq_map, maskReasons_eq_map, hdatabase]
  exact AgreeUpTo.map h _

/- The parts of a configuration that are not mentioned are the same on both sides. -/
theorem maskReasons_independent (env : Environment) (e : Entry) :
    (∀ keywords,
      AgreeUpTo (EqualOutside [.keyword]) (env.maskReasons e) ({ env with keywords }.maskReasons e)) ∧
    (∀ licenses use,
      AgreeUpTo (EqualOutside [.license]) (env.maskReasons e) ({ env with licenses, use }.maskReasons e)) ∧
    (∀ masked,
      AgreeUpTo (EqualOutside [.user]) (env.maskReasons e)
        ({ env with masks := { env.masks with masked } }.maskReasons e)) ∧
    (∀ unmasked,
      AgreeUpTo (EqualOutside [.profile, .user]) (env.maskReasons e)
        ({ env with masks := { env.masks with unmasked } }.maskReasons e)) ∧
    (∀ masked, env.masks.masked ⊆ masked →
      AgreeUpTo IsSubset (env.maskReasons e)
        ({ env with masks := { env.masks with masked } }.maskReasons e)) ∧
    ∀ unmasked, env.masks.unmasked ⊆ unmasked →
      AgreeUpTo (fun m m' => m'.IsSubset m ∧ m.keyword = m'.keyword ∧ m.license = m'.license)
        (env.maskReasons e) ({ env with masks := { env.masks with unmasked } }.maskReasons e) := by
  refine ⟨?_, ?_, ?_, ?_, ?_, ?_⟩
  · intro keywords
    refine agreeUpTo_maskReasons rfl fun r => equalOutside_reasonsFor ?_ ?_ ?_ ?_ <;> simp
  · intro licenses use
    refine agreeUpTo_maskReasons rfl fun r => equalOutside_reasonsFor ?_ ?_ ?_ ?_ <;> simp
  · intro masked
    refine agreeUpTo_maskReasons rfl fun r => equalOutside_reasonsFor ?_ ?_ ?_ ?_ <;> simp
  · intro unmasked
    refine agreeUpTo_maskReasons rfl fun r => equalOutside_reasonsFor ?_ ?_ ?_ ?_ <;> simp
  · intro masked h
    exact agreeUpTo_maskReasons rfl fun r => reasonsFor_subset_of_masked h
  · intro unmasked h
    exact agreeUpTo_maskReasons rfl fun r => ⟨reasonsFor_subset_of_unmasked h, rfl, rfl⟩

/-- The masks are lifted for the package in every slot. -/
def liftedMasks : List Mask :=
  .ofAtom (resultOf (Atom.parse "cat/*".toList) (by decide +kernel)) none :: slottedEnvironment.masks.unmasked

def liftedEnvironment : Environment :=
  { slottedEnvironment with masks := { slottedEnvironment.masks with unmasked := liftedMasks } }

theorem maskReasons_independent_liftedEnvironment :
    slottedEnvironment.masks.unmasked ⊆ liftedMasks ∧
      slottedEnvironment.maskReasons slottedEntry = .ok ⟨false, true, true, true⟩ ∧
      liftedEnvironment.maskReasons slottedEntry = .ok ⟨false, true, false, false⟩ ∧
      AgreeUpTo (fun m m' => m'.IsSubset m ∧ m.keyword = m'.keyword ∧ m.license = m'.license)
        (slottedEnvironment.maskReasons slottedEntry) (liftedEnvironment.maskReasons slottedEntry) ∧
      [] ⊆ slottedEnvironment.masks.masked ∧
      AgreeUpTo IsSubset ({ slottedEnvironment with masks := ⟨[], liftedMasks⟩ }.maskReasons slottedEntry)
        (liftedEnvironment.maskReasons slottedEntry) := by
  have hlifted : slottedEnvironment.masks.unmasked ⊆ liftedMasks := List.subset_cons_self _ _
  have hmasked : [] ⊆ slottedEnvironment.masks.masked := List.nil_subset _
  obtain ⟨_, _, _, _, _, hunmasked⟩ := maskReasons_independent slottedEnvironment slottedEntry
  obtain ⟨_, _, _, _, hmore, _⟩ :=
    maskReasons_independent { slottedEnvironment with masks := ⟨[], liftedMasks⟩ } slottedEntry
  exact ⟨hlifted, eq_ok_of_toOption (by decide +kernel), eq_ok_of_toOption (by decide +kernel),
    hunmasked liftedMasks hlifted, hmasked, hmore slottedEnvironment.masks.masked hmasked⟩

end Environment
end PackagePolicy
