import PackagePolicy.Entry
import PackagePolicy.Proofs.Atom.EqualVersions
import PackagePolicy.Proofs.Version.Text

/-!
# Spellings of entries

An entry is read from its written form, with blanks around it and behind the version, and from nothing
else (`parse_eq_ok_iff`). So the text that is written for an entry names the entry again exactly if the
entry is legible (`exists_parse_render_iff`).
-/

namespace PackagePolicy
open Text

/-! ### Packages -/

namespace PackageId

/-- The slash between category and name is the only one, and neither is empty. -/
structure IsReadable (p : PackageId) : Prop where
  category_ne : p.category ≠ []
  name_ne : p.name ≠ []
  category : '/' ∉ p.category
  name : '/' ∉ p.name

theorem parse?_eq_some_iff {s : Text} {p : PackageId} :
    parse? s = some p ↔ s = p.render ∧ p.IsReadable := by
  unfold parse?
  constructor
  · intro h
    split at h
    next category name hcut =>
      obtain ⟨rfl, hcategory⟩ := cut_eq_some_iff.mp hcut
      split at h
      · cases h
      next hparts =>
        cases h
        simp only [Bool.or_eq_true, not_or, List.isEmpty_iff, List.contains_iff_mem] at hparts
        exact ⟨rfl, hparts.1.1, hparts.1.2, hcategory, hparts.2⟩
    · cases h
  · intro h
    obtain ⟨rfl, hcategory_ne, hname_ne, hcategory, hname⟩ := h
    have hparts : (p.category.isEmpty || p.name.isEmpty || p.name.contains '/') = false := by
      simp only [Bool.or_eq_false_iff, List.isEmpty_eq_false_iff, List.contains_eq_mem,
        decide_eq_false_iff_not]
      exact ⟨⟨hcategory_ne, hname_ne⟩, hname⟩
    simp only [render, cut_append_cons hcategory, hparts, Bool.false_eq_true, if_false]

end PackageId

/-! ### Entries -/

namespace Entry

theorem beq_iff {p q : Entry} :
    (p == q) = true ↔ p.id = q.id ∧ p.version.order q.version = .eq ∧ p.repository = q.repository := by
  show (p.id == q.id && (p.version == q.version && p.repository == q.repository)) = true ↔ _
  rw [Bool.and_eq_true, Bool.and_eq_true, Version.beq_iff, beq_iff_eq, beq_iff_eq]

theorem beq_self (p : Entry) : (p == p) = true := beq_iff.mpr ⟨rfl, Std.ReflCmp.compare_self, rfl⟩

theorem beq_symm {p q : Entry} (h : (p == q) = true) : (q == p) = true := by
  obtain ⟨hid, hversion, hrepository⟩ := beq_iff.mp h
  exact beq_iff.mpr ⟨hid.symm, Std.OrientedCmp.eq_symm hversion, hrepository.symm⟩

/-- The name of a repository is found again behind the last double colon of an entry. -/
structure IsRepositoryName (name : Text) : Prop where
  ne : name ≠ []
  last : ∀ c ∈ name.getLast?, isBlank c = false
  colons : ¬ [':', ':'] <:+: ':' :: name

/-- No part of the entry is cut in another place than where it ends. -/
structure IsLegible (e : Entry) : Prop where
  id : e.id.IsReadable
  lead : ∀ c ∈ e.id.category.head?, isBlank c = false
  version : startsWithDigit e.version.text = true
  repository : IsRepositoryName e.repository

/-- The written form with blanks behind the version. -/
def spelling (e : Entry) (gap : Text) : Text :=
  e.id.render ++ '-' :: (e.version.text ++ gap) ++ ':' :: ([':'] ++ e.repository)

variable {s gap : Text} {e : Entry}

theorem render_eq_spelling (e : Entry) : e.render = e.spelling [] := by
  rw [spelling, List.append_nil]
  exact List.append_assoc _ _ _

theorem head?_spelling (h : e.id.category ≠ []) (gap : Text) :
    (e.spelling gap).head? = e.id.category.head? := by
  rw [spelling, PackageId.render]
  simp only [List.append_assoc]
  exact List.head?_append_of_ne_nil _ h

theorem getLast?_spelling (h : e.repository ≠ []) (gap : Text) :
    (e.spelling gap).getLast? = e.repository.getLast? := by
  have hsplit : e.spelling gap =
      e.id.render ++ '-' :: (e.version.text ++ gap) ++ [':', ':'] ++ e.repository := by
    rw [spelling, List.append_assoc _ [':', ':']]
    rfl
  rw [hsplit, List.getLast?_append_of_ne_nil _ h]

theorem parse_of_legible (he : e.IsLegible) (hgap : IsBlanks gap) (hs : trim s = e.spelling gap) :
    parse s = .ok e := by
  have hrepository : cutAtLast "::".toList (trim s) =
      some (e.id.render ++ '-' :: (e.version.text ++ gap), e.repository) :=
    toList_doubleColon ▸ cutAtLast_eq_some_iff.mpr ⟨hs, he.repository.colons⟩
  have hcategory : cut '/' (e.id.render ++ '-' :: (e.version.text ++ gap)) =
      some (e.id.category, e.id.name ++ '-' :: (e.version.text ++ gap)) := by
    rw [PackageId.render, List.append_assoc, List.cons_append]
    exact cut_append_cons he.id.category _
  have hname : splitNameVersion (e.id.name ++ '-' :: (e.version.text ++ gap)) =
      some (e.id.name, e.version.text ++ gap) :=
    (splitNameVersion_text_iff hgap).mpr ⟨he.id.name_ne, he.version⟩
  have hid : PackageId.parse? (e.id.category ++ '/' :: e.id.name) = some e.id :=
    PackageId.parse?_eq_some_iff.mpr ⟨rfl, he.id⟩
  have hempty : e.repository.isEmpty = false := List.isEmpty_eq_false_iff.mpr he.repository.ne
  simp only [parse, hrepository, hcategory, hname, hid, e.version.parse?_text_append hgap, hempty,
    Bool.false_eq_true, if_false]

theorem exists_cuts_of_parse (h : parse s = .ok e) :
    ∃ cpv rest version, cutAtLast "::".toList (trim s) = some (cpv, e.repository) ∧
      e.repository ≠ [] ∧ cut '/' cpv = some (e.id.category, rest) ∧
      splitNameVersion rest = some (e.id.name, version) ∧ e.id.IsReadable ∧
      Version.parse? version = some e.version := by
  simp only [parse] at h
  split at h
  · cases h
  next cpv repository hrepository =>
    split at h
    · cases h
    next hempty =>
      split at h
      · cases h
      next category rest hcategory =>
        split at h
        · cases h
        next name version hname =>
          split at h
          · cases h
          next id hid =>
            obtain ⟨hrender, hreadable⟩ := PackageId.parse?_eq_some_iff.mp hid
            -- the category has no slash of its own, so the package is cut where its text was cut
            have hcut := cut_append_cons (cut_eq_some_iff.mp hcategory).2 name
            rw [hrender, PackageId.render, cut_append_cons hreadable.category] at hcut
            split at h
            · cases h
            next v hv =>
              cases h
              cases hcut
              exact ⟨cpv, rest, version, hrepository, mt List.isEmpty_iff.mpr hempty, hcategory, hname,
                hreadable, hv⟩

theorem legible_of_parse (h : parse s = .ok e) :
    e.IsLegible ∧ ∃ gap, IsBlanks gap ∧ trim s = e.spelling gap := by
  obtain ⟨cpv, rest, version, hrepository, hne, hcategory, hname, hreadable, hversion⟩ :=
    exists_cuts_of_parse h
  rw [toList_doubleColon] at hrepository
  obtain ⟨hs, hcolons⟩ := cutAtLast_eq_some_iff.mp hrepository
  obtain ⟨rfl, _⟩ := cut_eq_some_iff.mp hcategory
  obtain ⟨gap, hgap, rfl, _, hdigit⟩ := splitNameVersion_parse?_text hname hversion
  have hspelling : trim s = e.spelling gap := by
    rw [hs, spelling, PackageId.render]
    simp only [List.append_assoc, List.cons_append]
  have htrimmed := isTrimmed_trim s
  rw [hspelling] at htrimmed
  refine ⟨{
    id := hreadable
    lead := fun c hc => htrimmed.head c (head?_spelling hreadable.category_ne gap ▸ hc)
    version := hdigit
    repository :=
      ⟨hne, fun c hc => htrimmed.last c (getLast?_spelling hne gap ▸ hc), hcolons⟩ }, gap, hgap, hspelling⟩

theorem parse_eq_ok_iff :
    parse s = .ok e ↔ e.IsLegible ∧ ∃ gap, IsBlanks gap ∧ trim s = e.spelling gap :=
  ⟨legible_of_parse, fun ⟨he, _, hgap, hs⟩ => parse_of_legible he hgap hs⟩

theorem isTrimmed_render (hid : e.id.IsReadable) (lead : ∀ c ∈ e.id.category.head?, isBlank c = false)
    (hrepository : IsRepositoryName e.repository) : IsTrimmed e.render where
  head c hc := by
    rw [render_eq_spelling, head?_spelling hid.category_ne] at hc
    exact lead c hc
  last c hc := by
    rw [render_eq_spelling, getLast?_spelling hrepository.ne] at hc
    exact hrepository.last c hc

theorem parse_render (he : e.IsLegible) : parse e.render = .ok e := by
  refine parse_of_legible he isBlanks_nil ?_
  rw [trim_of_isTrimmed (isTrimmed_render he.id he.lead he.repository), render_eq_spelling]

theorem parse_render_iff : parse e.render = .ok e ↔ e.IsLegible :=
  ⟨fun h => (legible_of_parse h).1, parse_render⟩

/- What is read differs from the entry at most in the spelling of the version, and even there it does
not if it is equal to the entry. -/
theorem exists_parse_render_iff :
    (∃ q, parse e.render = .ok q ∧ (q == e) = true) ↔ e.IsLegible := by
  constructor
  · intro h
    obtain ⟨q, hq, hbeq⟩ := h
    obtain ⟨hid, _, hrepository⟩ := beq_iff.mp hbeq
    obtain ⟨hlegible, gap, hgap, hs⟩ := legible_of_parse hq
    obtain ⟨hreadable, lead, hversion, hname⟩ := hlegible
    rw [hid] at hreadable lead
    rw [hrepository] at hname
    rw [trim_of_isTrimmed (isTrimmed_render hreadable lead hname), render_eq_spelling, spelling, spelling,
      hid, hrepository, List.append_nil, List.append_left_inj, List.append_right_inj,
      List.cons.injEq] at hs
    exact ⟨hreadable, lead, hs.2 ▸ startsWithDigit_append hversion gap, hname⟩
  · intro h
    refine ⟨e, parse_render h, beq_self e⟩

end Entry
end PackagePolicy
