import PackagePolicy.Proofs.Environment.Queries
import PackagePolicy.Repository.Builder

/-!
# Why an entry is masked

The four mask reasons of an entry of a registered repository, each told by the rules and declarations
that decide it. Main statement: `maskReasons_areReasonsFor`.
-/

namespace PackagePolicy

/-! ### Rules -/

/-- The rule is in force for a package version: everywhere, or by an entry whose atom matches. -/
def KeywordRules.InForce (rules : KeywordRules) (p : Candidate) (k : Keyword) : Prop :=
  k ∈ rules.accepted ∨ ∃ entry ∈ rules.package, entry.atom.isMatch p = true ∧ k ∈ entry.keywords

def Mask.AnyMatches (masks : List Mask) (p : Candidate) : Prop :=
  ∃ mask ∈ masks, mask.atom.isMatch p = true

theorem Mask.isSome_find?_iff {masks : List Mask} {p : Candidate} :
    (masks.find? (·.atom.isMatch p)).isSome = true ↔ AnyMatches masks p :=
  List.find?_isSome

theorem Mask.any_iff {masks : List Mask} {p : Candidate} :
    masks.any (·.atom.isMatch p) = true ↔ AnyMatches masks p :=
  List.any_eq_true

theorem KeywordRules.acceptsFor_iff {rules : KeywordRules} {declared : Keyword} {p : Candidate} :
    rules.acceptsFor declared p = true ↔
      ∃ k, (∃ entry ∈ rules.package, entry.atom.isMatch p = true ∧ k ∈ entry.keywords) ∧
        k.accepts declared = true := by
  rw [acceptsFor, List.any_eq_true]
  refine exists_congr fun k => and_congr_left fun _ => ?_
  simp only [List.mem_flatMap, List.mem_filter, and_assoc]

theorem Environment.keywordAccepted_iff {env : Environment} {declared : Keyword} {p : Candidate} :
    env.keywordAccepted declared (some p) = true ↔
      ∃ k, env.keywords.InForce p k ∧ k.accepts declared = true := by
  rw [keywordAccepted, Bool.or_eq_true, Option.map_some, Option.getD_some,
    KeywordRules.acceptsGlobally, List.any_eq_true, KeywordRules.acceptsFor_iff, ← exists_or]
  exact exists_congr fun k => or_and_right.symm

/-! ### Entries that the repository does not have -/

/-- The repository has no version of the package that equals the version of the entry. -/
def Repository.Lacks (r : Repository) (e : Entry) : Prop :=
  ∀ x ∈ r.releases, ¬ (x.id = e.id ∧ (x.version == e.version) = true)

theorem Repository.metadata?_of_lacks {r : Repository} {e : Entry} (h : r.Lacks e) :
    r.metadata? e = none := by
  rw [metadata?, Option.map_eq_none_iff, List.find?_eq_none]
  intro x hx hfound
  rw [Bool.and_eq_true, beq_iff_eq] at hfound
  exact h x hx hfound

theorem Atom.isMatch_of_slot_unknown {a : Atom} {p : Candidate} (ha : a.slot.isSome = true)
    (hp : p.slot = none) : a.isMatch p = false := by
  obtain ⟨slot, hslot⟩ := Option.isSome_iff_exists.mp ha
  have hno : a.slotMatches p.slot = false := by
    rw [slotMatches, hslot, hp]
  rw [isMatch, hno, Bool.and_false, Bool.false_and]

namespace Environment

/-- The reasons of a set are those for which the entry of the repository is masked. -/
structure AreReasonsFor (env : Environment) (r : Repository) (e : Entry) (m : MaskReasons) : Prop where
  keyword : m.contains .keyword = true ↔
    ¬ ∃ declared ∈ r.keywords e, ∃ k, env.keywords.InForce (r.candidate e) k ∧
      k.accepts declared = true
  license : m.contains .license = true ↔
    ∃ tree, r.license? e = some tree ∧
      tree.evaluate (fun license => env.acceptLicense license (some e))
        (fun flag => env.queryUse flag (some e)) = .ok false
  profile : m.contains .profile = true ↔
    Mask.AnyMatches r.profileMasks (r.candidate e) ∧
      ¬ Mask.AnyMatches env.masks.unmasked (r.candidate e)
  user : m.contains .user = true ↔
    Mask.AnyMatches env.masks.masked (r.candidate e) ∧
      ¬ Mask.AnyMatches env.masks.unmasked (r.candidate e)

variable {env : Environment} {e : Entry} {r : Repository}

theorem no_keywordAccepted_iff :
    (!(r.keywords e).any fun k => env.keywordAccepted k (some (r.candidate e))) = true ↔
      ¬ ∃ declared ∈ r.keywords e, ∃ k, env.keywords.InForce (r.candidate e) k ∧
        k.accepts declared = true := by
  rw [Bool.not_eq_true', Bool.eq_false_iff, ne_eq, List.any_eq_true]
  simp only [keywordAccepted_iff]

theorem not_licenseSatisfied_iff {b : Bool} (hlicense : env.licenseSatisfied r e = .ok b) :
    (!b) = true ↔ ∃ tree, r.license? e = some tree ∧
      tree.evaluate (fun license => env.acceptLicense license (some e))
        (fun flag => env.queryUse flag (some e)) = .ok false := by
  unfold licenseSatisfied at hlicense
  cases h : r.license? e with
  | none =>
    rw [h] at hlicense
    cases hlicense
    simp
  | some tree =>
    rw [h] at hlicense
    simp only at hlicense
    simp [hlicense]

theorem masked_and_not_unmasked_iff {masks : List Mask} {p : Candidate} :
    ((masks.find? (·.atom.isMatch p)).isSome && !env.masks.isUnmasked p) = true ↔
      Mask.AnyMatches masks p ∧ ¬ Mask.AnyMatches env.masks.unmasked p := by
  rw [Bool.and_eq_true, Bool.not_eq_true', Bool.eq_false_iff, ne_eq, Mask.isSome_find?_iff,
    MaskRules.isUnmasked, Mask.any_iff]

theorem AreReasonsFor.of_lacks {m : MaskReasons} (h : env.AreReasonsFor r e m) (hlacks : r.Lacks e) :
    m.contains .keyword = true ∧ m.contains .license = false := by
  have hnone := Repository.metadata?_of_lacks hlacks
  have hkeywords : r.keywords e = [] := by rw [Repository.keywords, hnone]
  have hlicense : r.license? e = none := by
    rw [Repository.license?, hnone]
    rfl
  constructor
  · rw [h.keyword, hkeywords]
    rintro ⟨_, hmem, _⟩
    cases hmem
  · rw [Bool.eq_false_iff, ne_eq, h.license, hlicense]
    rintro ⟨_, hsome, _⟩
    cases hsome

theorem exists_areReasonsFor (h : env.database.fetch e.repository = .ok r) :
    ∃ m, env.maskReasons e = .ok m ∧ env.AreReasonsFor r e m := by
  obtain ⟨b, hb⟩ := @exists_licenseSatisfied env e r h
  exact ⟨_, maskReasons_eq h hb, no_keywordAccepted_iff, not_licenseSatisfied_iff hb,
    masked_and_not_unmasked_iff, masked_and_not_unmasked_iff⟩

/- Every entry of a registered repository has mask reasons, and exactly those that the rules and its
declarations give; an entry that the repository lacks declares nothing. -/
theorem maskReasons_areReasonsFor (env : Environment) (e : Entry)
    (h : env.database.has e.repository = true) :
    ∃ r m, env.database.fetch e.repository = .ok r ∧ env.maskReasons e = .ok m ∧
      env.AreReasonsFor r e m ∧
      (r.Lacks e → m.contains .keyword = true ∧ m.contains .license = false ∧
        ∀ a : Atom, a.slot.isSome = true → a.isMatch (r.candidate e) = false) := by
  obtain ⟨r, hr⟩ := Database.exists_fetch_of_has h
  obtain ⟨m, hm, hreasons⟩ := @exists_areReasonsFor env e r hr
  refine ⟨r, m, hr, hm, hreasons, fun hlacks => ?_⟩
  obtain ⟨hkeyword, hlicense⟩ := hreasons.of_lacks hlacks
  refine ⟨hkeyword, hlicense, fun a ha => Atom.isMatch_of_slot_unknown ha ?_⟩
  rw [Repository.candidate, Repository.metadata?_of_lacks hlacks]
  rfl

def slottedRepository : Repository :=
  resultOf (((Repository.empty "main".toList).addProfileMask
    (resultOf (Atom.parse "<cat/pkg-2".toList) rfl)).addPackage
      "cat/pkg-1.0:2".toList "~amd64".toList "|| ( EVIL !doc? ( MIT ) ) EVIL".toList) rfl

/-- Rules that reach the version by its slot, and masks that are lifted in another slot only. -/
def slottedEnvironment : Environment where
  database := ⟨[slottedRepository]⟩
  use := .none
  keywords := (KeywordRules.ofArch "amd64".toList).addPackage
    (resultOf (Atom.parse "cat/pkg:2".toList) rfl) [⟨"amd64".toList, .testing⟩]
  licenses := .ofText "* -EVIL".toList
  masks := ⟨[.ofAtom (resultOf (Atom.parse "~cat/pkg-1.0-r5".toList) rfl) none],
    [.ofAtom (resultOf (Atom.parse "cat/pkg:0".toList) rfl) none]⟩
  userSets := none

def slottedEntry : Entry := resultOf (Entry.parse "cat/pkg-1.0-r0::main".toList) rfl

theorem maskReasons_areReasonsFor_slottedEntry :
    slottedEnvironment.database.has slottedEntry.repository = true ∧
      ∃ r, slottedEnvironment.database.fetch slottedEntry.repository = .ok r ∧
        slottedEnvironment.maskReasons slottedEntry = .ok ⟨false, true, true, true⟩ ∧
        slottedEnvironment.AreReasonsFor r slottedEntry ⟨false, true, true, true⟩ := by
  have hhas : slottedEnvironment.database.has slottedEntry.repository = true := by decide +kernel
  have hmask : slottedEnvironment.maskReasons slottedEntry = .ok ⟨false, true, true, true⟩ :=
    eq_ok_of_toOption (by decide +kernel)
  obtain ⟨r, m, hr, hm, hreasons, _⟩ :=
    maskReasons_areReasonsFor slottedEnvironment slottedEntry hhas
  cases hmask.symm.trans hm
  exact ⟨hhas, r, hr, hm, hreasons⟩

end Environment
end PackagePolicy
