import PackagePolicy.Proofs.Lists
import PackagePolicy.Proofs.Version.Layout
import PackagePolicy.Version.Parser

/-!
# Texts of versions

The characters of which a version is written, and what is read from such a text: the version itself, and
the version after the name of a package. Main statement: `splitNameVersion_cutsBeforeVersion`.
-/

namespace PackagePolicy

/-! ### Blanks -/

namespace Text

theorem isBlank_iff {c : Char} :
    isBlank c = true ↔ ∃ r ∈ blankRanges, r.1 ≤ c.toNat ∧ c.toNat ≤ r.2 := by
  simp only [isBlank, List.any_eq_true, Bool.and_eq_true, decide_eq_true_eq]

theorem isBlank_of_isDigit {c : Char} (h : isDigit c = true) : isBlank c = false := by
  have hapart : ∀ z ∈ zeroDigits, ∀ r ∈ blankRanges, z + 9 < r.1 ∨ r.2 < z := by decide +kernel
  obtain ⟨z, hz, hleast, hmost⟩ := isDigit_iff.mp h
  apply Bool.eq_false_iff.mpr
  intro hblank
  obtain ⟨r, hr, hlow, hhigh⟩ := isBlank_iff.mp hblank
  have := hapart z hz r hr
  omega

end Text

namespace Version
open Text

theorem isBlank_of_isLetter {c : Char} (h : isLetter c = true) : isBlank c = false := by
  have hapart : ∀ r ∈ blankRanges, r.2 < 0x61 ∨ 0x7a < r.1 := by decide
  obtain ⟨hleast, hmost⟩ := isLetter_iff.mp h
  apply Bool.eq_false_iff.mpr
  intro hblank
  obtain ⟨r, hr, hlow, hhigh⟩ := isBlank_iff.mp hblank
  have := hapart r hr
  omega

/-! ### Characters -/

def isVersionChar (c : Char) : Bool :=
  isDigit c || isLetter c || c == '.' || c == '_' || c == '-'

theorem isVersionChar_of_isDigit {c : Char} (h : isDigit c = true) : isVersionChar c = true := by
  simp [isVersionChar, h]

theorem isVersionChar_of_isLetter {c : Char} (h : isLetter c = true) : isVersionChar c = true := by
  simp [isVersionChar, h]

theorem isBlank_of_isVersionChar {c : Char} (h : isVersionChar c = true) : isBlank c = false := by
  simp only [isVersionChar, Bool.or_eq_true, beq_iff_eq] at h
  rcases h with (((h | h) | rfl) | rfl) | rfl
  · exact isBlank_of_isDigit h
  · exact isBlank_of_isLetter h
  · decide
  · decide
  · decide

theorem isVersionChar_of_optionalNumber {lead s : Text} {n : Nat}
    (hlead : ∀ c ∈ lead, isVersionChar c = true) (h : OptionalNumber lead s n) :
    ∀ c ∈ s, isVersionChar c = true := by
  intro c hc
  rcases h.mem c hc with hc | hdigit
  · exact hlead c hc
  · exact isVersionChar_of_isDigit (isDigit_of_isAsciiDigit hdigit)

theorem isVersionChar_of_suffix? {s : Text} {x : Suffix} (h : suffix? s = some x) :
    ∀ c ∈ s, isVersionChar c = true := by
  obtain ⟨number, rfl, hnumber⟩ := suffix?_eq_some_iff.mp h
  have hname : x.kind.name.all isVersionChar = true := by
    cases x.kind <;> decide
  exact List.forall_mem_append.mpr
    ⟨List.all_eq_true.mp hname, isVersionChar_of_optionalNumber (List.forall_mem_nil _) hnumber⟩

theorem isVersionChar_of_suffixes? {s : Text} {xs : List Suffix} (h : suffixes? s = some xs) :
    ∀ c ∈ s, isVersionChar c = true := by
  unfold suffixes? at h
  split at h
  · nofun
  next s =>
    rw [List.forall_mem_cons]
    refine ⟨by decide, fun c hc => ?_⟩
    rw [← join_splitOn '_' s] at hc
    rcases mem_of_mem_join hc with hc | ⟨w, hw, hc⟩
    · rw [List.mem_singleton.mp hc]
      decide
    · obtain ⟨x, hx⟩ := exists_of_mem_of_mapM h w hw
      exact isVersionChar_of_suffix? hx c hc
  · cases h

theorem isVersionChar_of_parts? {text : Text} {p : Parts} (h : parts? text = some p) :
    ∀ c ∈ text, isVersionChar c = true := by
  obtain ⟨front, marks, tail, hspells, rfl⟩ := exists_spells_of_parts? h
  have hlead : "-r".toList.all isVersionChar = true := by decide
  intro c hc
  simp only [List.mem_append] at hc
  rcases hc with hc | hc | hc | hc
  · rcases Bool.or_eq_true_iff.mp (hspells.componentChars c hc) with hdigit | hdot
    · exact isVersionChar_of_isDigit hdigit
    · rw [beq_iff_eq.mp hdot]
      decide
  · exact isVersionChar_of_isLetter (hspells.letter c (Option.mem_toList.mp hc))
  · exact isVersionChar_of_suffixes? hspells.suffixes c hc
  · exact isVersionChar_of_optionalNumber (List.all_eq_true.mp hlead)
      (revision?_eq_some_iff.mp hspells.revision) c hc

theorem isVersionChar_of_mem_text (v : Version) : ∀ c ∈ v.text, isVersionChar c = true :=
  isVersionChar_of_parts? v.reads

theorem notMem_text {c : Char} (h : isVersionChar c = false) (v : Version) : c ∉ v.text :=
  fun hc => Bool.eq_false_iff.mp h (isVersionChar_of_mem_text v c hc)

theorem isTrimmed_text (v : Version) : IsTrimmed v.text where
  head c hc := isBlank_of_isVersionChar (isVersionChar_of_mem_text v c (List.mem_of_head? hc))
  last c hc := isBlank_of_isVersionChar (isVersionChar_of_mem_text v c (List.mem_of_getLast? hc))

/-! ### Reading -/

theorem parse?_eq_some_iff {s : Text} {v : Version} : parse? s = some v ↔ trim s = v.text := by
  constructor
  · intro h
    simp only [parse?] at h
    split at h
    · cases h
      rfl
    · cases h
  · intro h
    simp only [parse?]
    split
    next p hp =>
      obtain ⟨parts, text, reads⟩ := v
      cases h
      cases hp.symm.trans reads
      rfl
    next hp =>
      rw [h, v.reads] at hp
      cases hp

theorem parse?_text_append (v : Version) {gap : Text} (hgap : IsBlanks gap) :
    parse? (v.text ++ gap) = some v :=
  parse?_eq_some_iff.mpr (trim_blanks_append isBlanks_nil hgap v.isTrimmed_text)

end Version

/-! ### The version after a name -/

namespace Text

/-- The text begins with an ASCII digit. -/
def startsWithDigit (s : Text) : Bool := (s.head?.map isAsciiDigit).getD false

theorem startsWithDigit_append {s : Text} (h : startsWithDigit s = true) (rest : Text) :
    startsWithDigit (s ++ rest) = true := by
  cases s with
  | nil => cases h
  | cons c s => exact h

theorem isBlank_head?_of_startsWithDigit {s : Text} (h : startsWithDigit s = true) :
    ∀ c ∈ s.head?, isBlank c = false := by
  intro c hc
  rw [startsWithDigit, hc] at h
  exact isBlank_of_isDigit (isDigit_of_isAsciiDigit h)

/-- A dash in the text stands before an ASCII digit. -/
def HasVersionDash (s : Text) : Prop := ∃ a b, s = a ++ '-' :: b ∧ startsWithDigit b = true

theorem hasVersionDash_cons_iff {c : Char} {s : Text} :
    HasVersionDash (c :: s) ↔ (c = '-' ∧ startsWithDigit s = true) ∨ HasVersionDash s := by
  constructor
  · intro h
    obtain ⟨a, b, hs, hdigit⟩ := h
    cases a with
    | nil =>
      cases hs
      exact .inl ⟨rfl, hdigit⟩
    | cons d a =>
      cases hs
      exact .inr ⟨a, b, rfl, hdigit⟩
  · intro h
    rcases h with ⟨rfl, hdigit⟩ | ⟨a, b, rfl, hdigit⟩
    · exact ⟨[], s, rfl, hdigit⟩
    · exact ⟨c :: a, b, rfl, hdigit⟩

theorem mem_dash_of_hasVersionDash {s : Text} (h : HasVersionDash s) : '-' ∈ s := by
  obtain ⟨a, b, rfl, _⟩ := h
  exact List.mem_append_right a List.mem_cons_self

theorem cutLastVersionDash_cons (c : Char) (s : Text) :
    cutLastVersionDash (c :: s) =
      match cutLastVersionDash s with
      | some p => some (c :: p.1, p.2)
      | none => if c = '-' ∧ startsWithDigit s = true then some ([], s) else none := by
  rw [cutLastVersionDash]
  cases cutLastVersionDash s with
  | some p => rfl
  | none =>
    simp only [Bool.and_eq_true, beq_iff_eq, startsWithDigit]
    rfl

theorem cutLastVersionDash_eq_none_iff {s : Text} :
    cutLastVersionDash s = none ↔ ¬ HasVersionDash s := by
  induction s with
  | nil => exact iff_of_true rfl fun h => nomatch mem_dash_of_hasVersionDash h
  | cons c s ih =>
    rw [cutLastVersionDash_cons, hasVersionDash_cons_iff, not_or]
    cases hcut : cutLastVersionDash s with
    | some p =>
      rw [hcut] at ih
      exact iff_of_false nofun fun h => nomatch ih.mpr h.2
    | none =>
      rw [and_iff_left (ih.mp hcut)]
      exact ite_eq_right_iff.trans (forall_congr' fun _ => iff_of_false nofun id)

/- The dash that is found is the last one before a digit. -/
theorem cutLastVersionDash_eq_some_iff {s a b : Text} :
    cutLastVersionDash s = some (a, b) ↔
      s = a ++ '-' :: b ∧ startsWithDigit b = true ∧ ¬ HasVersionDash b := by
  constructor
  · intro h
    induction s generalizing a with
    | nil => cases h
    | cons c s ih =>
      rw [cutLastVersionDash_cons] at h
      split at h
      next p hp =>
        cases h
        obtain ⟨hs, hb⟩ := ih hp
        exact ⟨by rw [List.cons_append, ← hs], hb⟩
      next hnone =>
        obtain ⟨hdash, hsome⟩ := Option.ite_none_right_eq_some.mp h
        cases hsome
        exact ⟨by rw [hdash.1, List.nil_append], hdash.2, cutLastVersionDash_eq_none_iff.mp hnone⟩
  · intro h
    obtain ⟨rfl, hdigit, hlast⟩ := h
    induction a with
    | nil =>
      rw [List.nil_append, cutLastVersionDash_cons, cutLastVersionDash_eq_none_iff.mpr hlast]
      exact if_pos ⟨rfl, hdigit⟩
    | cons c a ih => rw [List.cons_append, cutLastVersionDash_cons, ih]

theorem startsWithDigit_of_cutLastVersionDash {s a b : Text}
    (h : cutLastVersionDash s = some (a, b)) : startsWithDigit b = true :=
  (cutLastVersionDash_eq_some_iff.mp h).2.1

theorem cutLastVersionDash_eq_none {s : Text} (h : '-' ∉ s) : cutLastVersionDash s = none :=
  cutLastVersionDash_eq_none_iff.mpr (mt mem_dash_of_hasVersionDash h)

/- Blanks at the end go with the version. -/
theorem cutLastVersionDash_append_blanks {gap : Text} (hgap : IsBlanks gap) (s : Text) :
    cutLastVersionDash (s ++ gap) = (cutLastVersionDash s).map fun p => (p.1, p.2 ++ gap) := by
  have hstart : startsWithDigit gap = false := by
    cases gap with
    | nil => rfl
    | cons c gap =>
      refine Bool.eq_false_iff.mpr fun hdigit => ?_
      have hblank := hgap c List.mem_cons_self
      rw [isBlank_of_isDigit (isDigit_of_isAsciiDigit hdigit)] at hblank
      cases hblank
  have hnone : cutLastVersionDash gap = none := cutLastVersionDash_eq_none fun h => nomatch hgap '-' h
  induction s with
  | nil => exact hnone
  | cons c s ih =>
    have hdigit : startsWithDigit (s ++ gap) = startsWithDigit s := by
      cases s with
      | nil => exact hstart
      | cons d s => rfl
    rw [List.cons_append, cutLastVersionDash_cons, cutLastVersionDash_cons, ih, hdigit]
    cases cutLastVersionDash s with
    | some p => rfl
    | none =>
      simp only [Option.map_none]
      split <;> rfl

theorem splitNameVersion_eq_some_iff {s a b : Text} :
    splitNameVersion s = some (a, b) ↔ cutLastVersionDash s = some (a, b) ∧ a ≠ [] := by
  rw [splitNameVersion, Option.filter_eq_some_iff, Bool.not_eq_true', List.isEmpty_eq_false_iff]

theorem splitNameVersion_append_blanks {gap : Text} (hgap : IsBlanks gap) {s a b : Text} :
    splitNameVersion (s ++ gap) = some (a, b ++ gap) ↔ splitNameVersion s = some (a, b) := by
  rw [splitNameVersion_eq_some_iff, splitNameVersion_eq_some_iff,
    cutLastVersionDash_append_blanks hgap, Option.map_eq_some_iff]
  refine and_congr_left fun _ => ⟨?_, fun h => ⟨(a, b), h, rfl⟩⟩
  intro h
  obtain ⟨⟨a', b'⟩, h, heq⟩ := h
  rw [Prod.mk.injEq, List.append_left_inj] at heq
  obtain ⟨rfl, rfl⟩ := heq
  exact h

/- A name before a version and the version with blanks after it. -/
theorem splitNameVersion_parse? {s name w : Text} {v : Version}
    (hsplit : splitNameVersion s = some (name, w)) (hv : Version.parse? w = some v) :
    ∃ gap, IsBlanks gap ∧ s = name ++ '-' :: v.text ++ gap ∧
      splitNameVersion (name ++ '-' :: v.text) = some (name, v.text) := by
  obtain ⟨hcut, hname⟩ := splitNameVersion_eq_some_iff.mp hsplit
  obtain ⟨gap, hgap, hw⟩ :=
    exists_trim_append_of_head (isBlank_head?_of_startsWithDigit (startsWithDigit_of_cutLastVersionDash hcut))
  rw [Version.parse?_eq_some_iff.mp hv] at hw
  have hs : s = name ++ '-' :: v.text ++ gap := by
    rw [(cutLastVersionDash_eq_some_iff.mp hcut).1, hw, List.append_assoc, List.cons_append]
  refine ⟨gap, hgap, hs, ?_⟩
  rw [hs, hw] at hsplit
  exact (splitNameVersion_append_blanks hgap).mp hsplit

theorem cutLastVersionDash_of_front {front : Text} (hfront : '-' ∉ front) {s : Text}
    (hs : cutLastVersionDash s = none) : cutLastVersionDash (front ++ s) = none := by
  induction front with
  | nil => exact hs
  | cons c front ih =>
    rw [List.mem_cons, not_or] at hfront
    rw [List.cons_append, cutLastVersionDash_cons, ih hfront.2]
    exact if_neg fun h => hfront.1 h.1.symm

end Text

namespace Version
open Text

/- The only dash of a version stands before the letter of its revision. -/
theorem cutLastVersionDash_of_revision? {s : Text} {n : Nat} (h : revision? s = some n) :
    cutLastVersionDash s = none := by
  unfold revision? at h
  split at h
  · rfl
  next digits =>
    have hdash : '-' ∉ 'r' :: digits := by
      rw [List.mem_cons, not_or]
      exact ⟨by decide, fun hc => nomatch (decimal64_eq_some_iff.mp h).digits '-' hc⟩
    rw [cutLastVersionDash, cutLastVersionDash_eq_none hdash]
    rfl
  · cases h

theorem cutLastVersionDash_text (v : Version) : cutLastVersionDash v.text = none := by
  obtain ⟨front, marks, tail, h, htext⟩ := exists_spells_of_parts? v.reads
  rw [htext, ← List.append_assoc v.letter.toList, ← List.append_assoc]
  exact cutLastVersionDash_of_front h.notMem_dash_base (cutLastVersionDash_of_revision? h.revision)

end Version

namespace Text

/- A name and a version behind a dash are told apart again if the version begins with an ASCII digit. -/
theorem splitNameVersion_text_iff {name gap : Text} {v : Version} (hgap : IsBlanks gap) :
    splitNameVersion (name ++ '-' :: (v.text ++ gap)) = some (name, v.text ++ gap) ↔
      name ≠ [] ∧ startsWithDigit v.text = true := by
  rw [← List.cons_append, ← List.append_assoc, splitNameVersion_append_blanks hgap,
    splitNameVersion_eq_some_iff, and_comm]
  refine and_congr_right fun _ => ⟨startsWithDigit_of_cutLastVersionDash, fun h => ?_⟩
  exact cutLastVersionDash_eq_some_iff.mpr
    ⟨rfl, h, cutLastVersionDash_eq_none_iff.mp v.cutLastVersionDash_text⟩

/- A name before a version that is read is told apart from it by its text, too. -/
theorem splitNameVersion_parse?_text {s name w : Text} {v : Version}
    (hsplit : splitNameVersion s = some (name, w)) (hv : Version.parse? w = some v) :
    ∃ gap, IsBlanks gap ∧ s = name ++ '-' :: (v.text ++ gap) ∧ name ≠ [] ∧
      startsWithDigit v.text = true := by
  obtain ⟨gap, hgap, hs, htext⟩ := splitNameVersion_parse? hsplit hv
  rw [List.append_assoc, List.cons_append] at hs
  rw [← List.append_nil v.text] at htext
  exact ⟨gap, hgap, hs, (splitNameVersion_text_iff isBlanks_nil).mp htext⟩

/- The dash of a revision is before a letter, so that the last dash before a digit is in front of the version. -/
theorem splitNameVersion_of_parse? {name w : Text} {v : Version} (hname : name ≠ [])
    (hdigit : startsWithDigit w = true) (hv : Version.parse? w = some v) :
    splitNameVersion (name ++ '-' :: w) = some (name, w) := by
  obtain ⟨gap, hgap, hw⟩ := exists_trim_append_of_head (isBlank_head?_of_startsWithDigit hdigit)
  rw [Version.parse?_eq_some_iff.mp hv] at hw
  have hnone : cutLastVersionDash w = none := by
    rw [hw, cutLastVersionDash_append_blanks hgap, v.cutLastVersionDash_text]
    rfl
  have hlast := cutLastVersionDash_eq_none_iff.mp hnone
  exact splitNameVersion_eq_some_iff.mpr ⟨cutLastVersionDash_eq_some_iff.mpr ⟨rfl, hdigit, hlast⟩, hname⟩

theorem splitNameVersion_cutsBeforeVersion :
    (∀ name w v, name ≠ [] → startsWithDigit w = true → Version.parse? w = some v →
      splitNameVersion (name ++ '-' :: w) = some (name, w)) ∧
    ∀ s name w, splitNameVersion s = some (name, w) ↔
      s = name ++ '-' :: w ∧ name ≠ [] ∧ startsWithDigit w = true ∧ ¬ HasVersionDash w := by
  refine ⟨fun name w v => splitNameVersion_of_parse?, fun s name w => ?_⟩
  rw [splitNameVersion_eq_some_iff, cutLastVersionDash_eq_some_iff, and_assoc, and_assoc]
  exact and_congr_right fun _ => by rw [← and_assoc, and_comm]

theorem splitNameVersion_cutsBeforeVersion_numberedName :
    "lib-2".toList ≠ [] ∧ startsWithDigit "1.0_rc1-r2 ".toList = true ∧
      (∃ v, Version.parse? "1.0_rc1-r2 ".toList = some v) ∧
      splitNameVersion "lib-2-1.0_rc1-r2 ".toList = some ("lib-2".toList, "1.0_rc1-r2 ".toList) ∧
      ¬ HasVersionDash "1.0_rc1-r2 ".toList := by
  obtain ⟨hversion, hcut⟩ := splitNameVersion_cutsBeforeVersion
  have hread : (Version.parse? "1.0_rc1-r2 ".toList).isSome = true := by decide +kernel
  obtain ⟨v, hv⟩ := Option.isSome_iff_exists.mp hread
  have hsplit := hversion "lib-2".toList _ v (by decide) (by decide) hv
  exact ⟨by decide, by decide, ⟨v, hv⟩, hsplit, ((hcut _ _ _).mp hsplit).2.2.2⟩

end Text
end PackagePolicy
