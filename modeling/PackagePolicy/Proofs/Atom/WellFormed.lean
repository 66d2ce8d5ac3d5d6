import PackagePolicy.Proofs.Atom.Spelling

/-!
# Well-formed atoms

What is told of an atom by its having been read at all. A version comes with an operator and never without, so
that matching passes over a missing version only where none is compared, and no part of the atom has a mark in it at
which a text would be cut. Main statement: `parse_isWellFormed`.
-/

namespace PackagePolicy.Atom
open Text
variable {a : Atom} {s : Text}

structure IsWellFormed (a : Atom) : Prop where
  category_ne : a.category ≠ []
  name_ne : a.name ≠ []
  slash : '/' ∉ a.category ∧ '/' ∉ a.name
  marks : ∀ c ∈ [':', '['], c ∉ a.category ∧ c ∉ a.name ∧ ∀ v ∈ a.version, c ∉ v.text
  version : a.version.isSome = true ↔ a.operator ≠ .any
  compared : a.operator ≠ .any →
    ∃ wanted, a.version = some wanted ∧ ∀ v, a.versionMatches v = a.operator.holds v wanted
  /-- without an operator the name ends like a version only where nothing else is before that -/
  unversioned : a.operator = .any → ∀ name w, a.name = name ++ '-' :: w → name ≠ [] →
    startsWithDigit w = true → Version.parse? w = none
  subslot : a.subslot.isSome = true → a.slot.isSome = true
  doubleColon : ∀ part, part ∈ a.slot ∨ part ∈ a.subslot → ¬ "::".toList <:+: part

/-! ### Parts of atoms that are read -/

theorem VersionIsRead.isSome_iff {operator : Operator} {name : Text} {version : Option Version}
    (h : VersionIsRead operator name version) : version.isSome = true ↔ operator ≠ .any := by
  cases version with
  | none => exact iff_of_false nofun fun hne => hne h.1
  | some v => exact iff_of_true rfl h.1

theorem VersionIsRead.parse?_eq_none {name w : Text} (h : VersionIsRead .any (name ++ '-' :: w) none)
    (hname : name ≠ []) (hdigit : startsWithDigit w = true) : Version.parse? w = none := by
  cases hv : Version.parse? w with
  | none => rfl
  | some v =>
    have hnone := h.2 _ (splitNameVersion_of_parse? hname hdigit hv)
    cases hv.symm.trans hnone

theorem isSome_slot_of_isSome_subslot (h : a.slot = none → a.subslot = none)
    (hsubslot : a.subslot.isSome = true) : a.slot.isSome = true := by
  cases hslot : a.slot with
  | some slot => rfl
  | none =>
    rw [h hslot] at hsubslot
    cases hsubslot

theorem isInfix_renderSlot (h : a.slot = none → a.subslot = none) {part : Text}
    (hpart : part ∈ a.slot ∨ part ∈ a.subslot) : part <:+: a.renderSlot := by
  unfold renderSlot
  cases hslot : a.slot with
  | none =>
    rw [hslot, h hslot] at hpart
    rcases hpart with hpart | hpart <;> cases hpart
  | some slot =>
    rw [hslot] at hpart
    show part <:+: ':' :: slot ++ renderPart ['/'] a.subslot
    rcases hpart with hpart | hpart
    · rw [Option.mem_some_iff.mp hpart]
      exact ⟨[':'], renderPart ['/'] a.subslot, rfl⟩
    · rw [Option.mem_def.mp hpart]
      exact ⟨':' :: slot ++ ['/'], [], by rw [List.append_nil, List.append_assoc, renderPart]⟩

theorem IsRead.isWellFormed (h : a.IsRead) : a.IsWellFormed where
  category_ne := h.category_ne
  name_ne := h.name_ne
  slash := ⟨h.category '/' (by decide), h.name '/' (by decide)⟩
  marks c hc := by
    have hmark : c ∈ ['/', ':', '['] := List.mem_cons_of_mem _ hc
    have hversion : Version.isVersionChar c = false := by
      rcases List.mem_pair.mp hc with rfl | rfl <;> decide
    exact ⟨h.category c hmark, h.name c hmark, fun v _ => Version.notMem_text hversion v⟩
  version := h.version.isSome_iff
  compared hoperator := by
    obtain ⟨wanted, hwanted⟩ := Option.isSome_iff_exists.mp (h.version.isSome_iff.mpr hoperator)
    refine ⟨wanted, hwanted, fun v => ?_⟩
    rw [versionMatches, hwanted]
  unversioned hoperator name w hname hne hdigit := by
    have hversion := h.version
    have hnone : a.version = none :=
      Option.not_isSome_iff_eq_none.mp fun hsome => h.version.isSome_iff.mp hsome hoperator
    rw [hoperator, hnone, hname] at hversion
    exact hversion.parse?_eq_none hne hdigit
  subslot := isSome_slot_of_isSome_subslot h.subslot
  doubleColon part hpart hcolons := by
    rw [toList_doubleColon] at hcolons
    have hslot := hcolons.trans (isInfix_renderSlot h.subslot hpart)
    exact h.repository (hslot.trans (List.prefix_append _ _).isInfix)

/-! ### Restrictions -/

theorem parseRestriction_of_parse (h : parse s = .ok a) :
    parseRestriction s = if a.useDeps.isEmpty then .ok a else .error (.atom .useNotAllowed (trim s)) := by
  rw [parseRestriction, h]
  rfl

theorem parseRestriction_of_parse_error {e : ConfigError} (h : parse s = .error e) :
    parseRestriction s = .error e := by
  rw [parseRestriction, h]
  rfl

theorem parseRestriction_eq_ok_iff : parseRestriction s = .ok a ↔ parse s = .ok a ∧ a.useDeps = [] := by
  cases hparse : parse s with
  | error e =>
    rw [parseRestriction_of_parse_error hparse]
    exact iff_of_false nofun fun h => nomatch h.1
  | ok b =>
    rw [parseRestriction_of_parse hparse]
    by_cases huse : b.useDeps = []
    · rw [if_pos (List.isEmpty_iff.mpr huse)]
      refine ⟨fun h => ?_, And.left⟩
      cases h
      exact ⟨rfl, huse⟩
    · rw [if_neg (mt List.isEmpty_iff.mp huse)]
      refine iff_of_false nofun fun h => ?_
      cases h.1
      exact huse h.2

theorem parse_isWellFormed (s : Text) :
    (∀ a, parse s = .ok a → a.IsWellFormed) ∧
      ∀ a, parseRestriction s = .ok a ↔ parse s = .ok a ∧ a.useDeps = [] :=
  ⟨fun _ h => (isRead_of_parse h).isWellFormed, fun _ => parseRestriction_eq_ok_iff⟩

def dashedText : Text := "cat/-1.0:0/1:::r".toList

/-- An atom whose name is a version behind a dash. -/
def dashedAtom : Atom := resultOf (parse dashedText) (by decide +kernel)

theorem parse_isWellFormed_dashedAtom :
    parse dashedText = .ok dashedAtom ∧ dashedAtom.name = "-1.0".toList ∧
      dashedAtom.slot = some "0".toList ∧ dashedAtom.subslot = some "1".toList ∧
      dashedAtom.IsWellFormed ∧ parseRestriction dashedText = .ok dashedAtom := by
  obtain ⟨hwellFormed, hrestriction⟩ := parse_isWellFormed dashedText
  have hparse : parse dashedText = .ok dashedAtom := eq_ok_resultOf _
  exact ⟨hparse, by decide +kernel, by decide +kernel, by decide +kernel, hwellFormed _ hparse,
    (hrestriction _).mpr ⟨hparse, by decide +kernel⟩⟩

end PackagePolicy.Atom
