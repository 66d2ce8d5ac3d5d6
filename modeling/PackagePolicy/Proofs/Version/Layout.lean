import PackagePolicy.Proofs.Text.Cuts
import PackagePolicy.Proofs.Text.Decimal
import PackagePolicy.Version.Parts

/-!
# The layout of versions

The text of a version is its components, a letter, the suffixes and a revision, one behind the other, and
the first character of each part shows where the part before it ends (`parts?_eq_some_iff`). So a part is
read alone, whatever stands around it.
-/

namespace PackagePolicy
namespace Version
open Text

/-! ### Numbers -/

theorem suffixNumber?_eq_some_iff {s : Text} {n : Nat} :
    suffixNumber? s = some n ↔ OptionalNumber [] s n := by
  constructor
  · intro h
    cases s with
    | nil =>
      cases h
      exact .absent
    | cons c s => exact .written (decimal64_eq_some_iff.mp h)
  · intro h
    cases h with
    | absent => rfl
    | written h =>
      rw [suffixNumber?, List.nil_append, List.isEmpty_eq_false_iff.mpr h.ne_nil]
      exact decimal64_eq_some_iff.mpr h

theorem revision?_eq_some_iff {s : Text} {n : Nat} :
    revision? s = some n ↔ OptionalNumber "-r".toList s n := by
  constructor
  · intro h
    unfold revision? at h
    split at h
    · cases h
      exact .absent
    · exact .written (decimal64_eq_some_iff.mp h)
    · cases h
  · intro h
    cases h with
    | absent => rfl
    | written h => exact decimal64_eq_some_iff.mpr h

theorem after?_pre_of_patch {number : Text} {n : Nat} (h : OptionalNumber [] number n) :
    after? SuffixKind.pre.name (SuffixKind.patch.name ++ number) = none := by
  cases hafter : after? SuffixKind.pre.name (SuffixKind.patch.name ++ number) with
  | none => rfl
  | some body =>
    have hnumber : number = 'r' :: 'e' :: body := (List.cons.inj (after?_eq_some_iff.mp hafter)).2
    rcases h.mem 'r' (hnumber ▸ List.mem_cons_self) with hmem | hdigit
    · cases hmem
    · cases hdigit

/- The kinds are tried in a fixed order; `p`, which begins `pre`, is taken last. -/
theorem suffix?_eq_some_iff {s : Text} {x : Suffix} :
    suffix? s = some x ↔ ∃ number, s = x.kind.name ++ number ∧ OptionalNumber [] number x.number := by
  constructor
  · intro h
    obtain ⟨⟨kind, r⟩, hkind, hnumber⟩ := Option.bind_eq_some_iff.mp h
    obtain ⟨kind', _, hafter⟩ := List.exists_of_findSome?_eq_some hkind
    obtain ⟨r', hr', heq⟩ := Option.map_eq_some_iff.mp hafter
    cases heq
    obtain ⟨n, hn, rfl⟩ := Option.map_eq_some_iff.mp hnumber
    exact ⟨r, after?_eq_some_iff.mp hr', suffixNumber?_eq_some_iff.mp hn⟩
  · intro h
    obtain ⟨number, rfl, hnumber⟩ := h
    obtain ⟨kind, n⟩ := x
    have hkind : (SuffixKind.all.findSome? fun k =>
        (after? k.name (kind.name ++ number)).map fun r => (k, r)) = some (kind, number) := by
      cases kind with
      | alpha => rfl
      | beta => rfl
      | pre => rfl
      | rc => rfl
      | patch =>
        have hpre := congrArg (Option.map fun r => (SuffixKind.pre, r)) (after?_pre_of_patch hnumber)
        refine List.findSome?_eq_some_iff.mpr ⟨[.alpha, .beta, .pre, .rc], .patch, [], rfl, rfl, ?_⟩
        simp only [List.forall_mem_cons]
        exact ⟨rfl, rfl, hpre, rfl, nofun⟩
    rw [suffix?, hkind]
    show (suffixNumber? number).map _ = _
    rw [suffixNumber?_eq_some_iff.mpr hnumber]
    rfl

/-! ### The characters at the joints -/

theorem isLetter_iff {c : Char} : isLetter c = true ↔ 0x61 ≤ c.toNat ∧ c.toNat ≤ 0x7a := by
  rw [isLetter, Bool.and_eq_true, decide_eq_true_eq, decide_eq_true_eq, Char.le_def, Char.le_def,
    UInt32.le_iff_toNat_le, UInt32.le_iff_toNat_le]
  rfl

theorem isDigit_of_isLetter {c : Char} (h : isLetter c = true) : isDigit c = false := by
  have hapart : ∀ z ∈ zeroDigits, z + 9 < 0x61 ∨ 0x7a < z := by decide
  obtain ⟨hlow, hhigh⟩ := isLetter_iff.mp h
  apply Bool.eq_false_iff.mpr
  intro hdigit
  obtain ⟨z, hz, hleast, hmost⟩ := isDigit_iff.mp hdigit
  have := hapart z hz
  omega

theorem isComponentChar_of_isLetter {c : Char} (h : isLetter c = true) : isComponentChar c = false := by
  have hdot : c ≠ '.' := by
    rintro rfl
    cases h
  rw [isComponentChar, isDigit_of_isLetter h, beq_eq_false_iff_ne.mpr hdot]
  rfl

theorem head?_of_suffixes? {s : Text} {xs : List Suffix} (h : suffixes? s = some xs) :
    ∀ c ∈ s.head?, c = '_' := by
  unfold suffixes? at h
  split at h
  · nofun
  · intro c hc
    cases hc
    rfl
  · cases h

theorem head?_of_revision? {s : Text} {n : Nat} (h : revision? s = some n) :
    ∀ c ∈ s.head?, c = '-' := by
  unfold revision? at h
  split at h
  · nofun
  · intro c hc
    cases hc
    rfl
  · cases h

theorem bne_dash_of_head? {s : Text} (h : ∀ c ∈ s.head?, c = '-') : ∀ c ∈ s.head?, (c != '-') = false := by
  intro c hc
  rw [h c hc]
  rfl

theorem notMem_takeWhile {p : Char → Bool} {c : Char} (hc : p c = false) (s : Text) :
    c ∉ s.takeWhile p := by
  intro h
  rw [List.all_eq_true.mp List.all_takeWhile c h] at hc
  cases hc

theorem letter?_append {letter : Option Char} {rest : Text}
    (hletter : ∀ c ∈ letter, isLetter c = true) (hrest : ∀ c ∈ rest.head?, isLetter c = false) :
    letter? (letter.toList ++ rest) = (letter, rest) := by
  cases letter with
  | some c => exact if_pos (hletter c rfl)
  | none =>
    cases rest with
    | nil => rfl
    | cons c rest => exact if_neg (Bool.eq_false_iff.mp (hrest c rfl))

theorem eq_append_of_letter? {s rest : Text} {letter : Option Char} (h : letter? s = (letter, rest)) :
    s = letter.toList ++ rest ∧ ∀ c ∈ letter, isLetter c = true := by
  cases s with
  | nil =>
    cases h
    exact ⟨rfl, nofun⟩
  | cons c s =>
    by_cases hc : isLetter c = true
    · rw [letter?, if_pos hc] at h
      cases h
      refine ⟨rfl, ?_⟩
      intro d hd
      cases hd
      exact hc
    · rw [letter?, if_neg hc] at h
      cases h
      exact ⟨rfl, nofun⟩

/-! ### The parts of a text -/

/- Each part is read alone, whether or not the others can be read. -/
theorem parts?_append {front marks tail : Text} {letter : Option Char}
    (hfront : ∀ c ∈ front, isComponentChar c = true) (hletter : ∀ c ∈ letter, isLetter c = true)
    (hmarks : ∀ c ∈ marks.head?, c = '_') (hdash : '-' ∉ marks) (htail : ∀ c ∈ tail.head?, c = '-') :
    parts? (front ++ (letter.toList ++ (marks ++ tail))) = (do
      let (first, later) ← components? front
      let suffixes ← suffixes? marks
      let revision ← revision? tail
      return { first, later, letter, suffixes, revision }) := by
  have hjoint : ∀ c ∈ (marks ++ tail).head?, c = '_' ∨ c = '-' := by
    intro c hc
    cases marks with
    | nil => exact .inr (htail c hc)
    | cons d marks => exact .inl (hmarks c hc)
  have hend : ∀ c ∈ (letter.toList ++ (marks ++ tail)).head?, isComponentChar c = false := by
    intro c hc
    cases letter with
    | none => rcases hjoint c hc with rfl | rfl <;> decide
    | some d =>
      cases hc
      exact isComponentChar_of_isLetter (hletter c rfl)
  have hcut : letter? (letter.toList ++ (marks ++ tail)) = (letter, marks ++ tail) := by
    refine letter?_append hletter fun c hc => ?_
    rcases hjoint c hc with rfl | rfl <;> rfl
  have hchars : ∀ c ∈ marks, (c != '-') = true := by
    intro c hc
    rw [bne_iff_ne]
    rintro rfl
    exact hdash hc
  have hrest := bne_dash_of_head? htail
  rw [parts?, takeWhile_append_of_head hfront hend, dropWhile_append_of_head hfront hend, hcut]
  simp only [takeWhile_append_of_head hchars hrest, dropWhile_append_of_head hchars hrest]

/-- Texts that are read as the parts of a version. -/
structure Spells (front marks tail : Text) (p : Parts) : Prop where
  componentChars : ∀ c ∈ front, isComponentChar c = true
  components : components? front = some (p.first, p.later)
  letter : ∀ c ∈ p.letter, isLetter c = true
  notMem_dash : '-' ∉ marks
  suffixes : suffixes? marks = some p.suffixes
  revision : revision? tail = some p.revision

section
variable {text front marks tail : Text} {p : Parts}

theorem Spells.parts?_eq (h : Spells front marks tail p) :
    parts? (front ++ (p.letter.toList ++ (marks ++ tail))) = some p := by
  rw [parts?_append h.componentChars h.letter (head?_of_suffixes? h.suffixes) h.notMem_dash
    (head?_of_revision? h.revision), h.components, h.suffixes, h.revision]
  rfl

/- The only dash is that of the revision. -/
theorem Spells.notMem_dash_base (h : Spells front marks tail p) :
    '-' ∉ front ++ (p.letter.toList ++ marks) := by
  have hfront : '-' ∉ front := fun hdash => nomatch h.componentChars '-' hdash
  have hletter : '-' ∉ p.letter.toList := fun hdash => nomatch h.letter '-' (Option.mem_toList.mp hdash)
  simp only [List.mem_append, hfront, hletter, h.notMem_dash, or_self, not_false_eq_true]

theorem exists_spells_of_parts? (h : parts? text = some p) :
    ∃ front marks tail, Spells front marks tail p ∧
      text = front ++ (p.letter.toList ++ (marks ++ tail)) := by
  obtain ⟨components, hcomponents, h⟩ := Option.bind_eq_some_iff.mp h
  cases hletter : letter? (text.dropWhile isComponentChar) with
  | mk letter rest =>
    simp only [hletter] at h
    obtain ⟨suffixes, hsuffixes, h⟩ := Option.bind_eq_some_iff.mp h
    obtain ⟨revision, hrevision, h⟩ := Option.bind_eq_some_iff.mp h
    cases h
    obtain ⟨hrest, hisLetter⟩ := eq_append_of_letter? hletter
    refine ⟨text.takeWhile isComponentChar, rest.takeWhile (· != '-'), rest.dropWhile (· != '-'),
      ⟨List.all_eq_true.mp List.all_takeWhile, hcomponents, hisLetter, notMem_takeWhile rfl rest,
        hsuffixes, hrevision⟩, ?_⟩
    rw [List.takeWhile_append_dropWhile, ← hrest, List.takeWhile_append_dropWhile]

theorem parts?_eq_some_iff : parts? text = some p ↔ ∃ front marks tail, Spells front marks tail p ∧
    text = front ++ (p.letter.toList ++ (marks ++ tail)) := by
  refine ⟨exists_spells_of_parts?, ?_⟩
  intro h
  obtain ⟨front, marks, tail, h, rfl⟩ := h
  exact h.parts?_eq

end
end Version
end PackagePolicy
