import PackagePolicy.Proofs.Version.Order
import PackagePolicy.Proofs.Version.Text

/-!
# Written parts of versions

A version is written as numerals with dots between them, a letter, suffixes and a revision. A text of this form is
read as what is written in it, whatever zeros its numbers begin with, and it is refused only for a number that is no
number of 64 bits. Main statement: `parse?_accountsForText`.
-/

namespace PackagePolicy.Version
open Text

/-! ### Numbers -/

/-- What is written for a number; nothing, if the number is left out. -/
structure Digits where
  text : Text
  isDigit : ∀ c ∈ text, isDigit c = true

def IsNumber64 (s : Text) : Prop := (∀ c ∈ s, isAsciiDigit c = true) ∧ decimalValue s < 2 ^ 64

/-- A number is written with any zeros before it, and may be left out if it is 0. -/
inductive SpellsNumber : Text → Nat → Prop
  | omitted : SpellsNumber [] 0
  | written (zeros : Nat) {n : Nat} (h : n < 2 ^ 64) : SpellsNumber (List.replicate zeros '0' ++ ofNat n) n

theorem spellsNumber_of_suffixNumber? {s : Text} {n : Nat} (h : suffixNumber? s = some n) : SpellsNumber s n := by
  cases suffixNumber?_eq_some_iff.mp h with
  | absent => exact .omitted
  | @written t _ ht =>
    obtain ⟨zeros, hzeros⟩ := exists_eq_replicate_append_ofNat ht.ne_nil ht.digits
    rw [List.nil_append, hzeros, ht.value]
    exact .written zeros ht.lt

theorem exists_suffixNumber?_iff {s : Text} : (∃ n, suffixNumber? s = some n) ↔ IsNumber64 s := by
  cases s with
  | nil => exact iff_of_true ⟨0, rfl⟩ ⟨nofun, by decide⟩
  | cons c s =>
    have hnone := decimal64_eq_none_iff (List.cons_ne_nil c s)
    rw [← not_iff_not, not_exists, ← Option.eq_none_iff_forall_ne_some]
    exact hnone

/-! ### Suffixes -/

structure WrittenSuffix where
  kind : SuffixKind
  number : Digits

namespace WrittenSuffix

def body (m : WrittenSuffix) : Text := m.kind.name ++ m.number.text

theorem isLetter_of_mem_name (kind : SuffixKind) : ∀ c ∈ kind.name, isLetter c = true := by
  have h : kind.name.all isLetter = true := by cases kind <;> decide
  exact List.all_eq_true.mp h

theorem name_inj {k k' : SuffixKind} (h : k.name = k'.name) : k = k' := by
  revert h
  cases k <;> cases k' <;> decide

/- Where the digits begin, the name of the kind ends. -/
theorem eq_of_name_append_eq {k k' : SuffixKind} {s s' : Text} (hs : ∀ c ∈ s, isDigit c = true)
    (hs' : ∀ c ∈ s', isDigit c = true) (h : k.name ++ s = k'.name ++ s') : k = k' ∧ s = s' := by
  have hletter {s : Text} (hs : ∀ c ∈ s, isDigit c = true) : ∀ c ∈ s.head?, isLetter c = false := by
    intro c hc
    apply Bool.eq_false_iff.mpr
    intro hletter
    have hdigit := hs c (List.mem_of_mem_head? hc)
    rw [isDigit_of_isLetter hletter] at hdigit
    cases hdigit
  have hname := congrArg (List.takeWhile isLetter) h
  rw [takeWhile_append_of_head (isLetter_of_mem_name k) (hletter hs),
    takeWhile_append_of_head (isLetter_of_mem_name k') (hletter hs')] at hname
  cases name_inj hname
  exact ⟨rfl, List.append_cancel_left h⟩

theorem suffix?_body_eq_some_iff {m : WrittenSuffix} {x : Suffix} :
    suffix? m.body = some x ↔ m.kind = x.kind ∧ suffixNumber? m.number.text = some x.number := by
  rw [suffix?_eq_some_iff, body, suffixNumber?_eq_some_iff]
  constructor
  · intro h
    obtain ⟨number, hbody, hnumber⟩ := h
    have hdigits : ∀ c ∈ number, isDigit c = true := by
      intro c hc
      exact isDigit_of_isAsciiDigit ((hnumber.mem c hc).resolve_left List.not_mem_nil)
    obtain ⟨hkind, htext⟩ := eq_of_name_append_eq m.number.isDigit hdigits hbody
    exact ⟨hkind, htext ▸ hnumber⟩
  · intro h
    obtain ⟨hkind, hnumber⟩ := h
    exact ⟨m.number.text, by rw [hkind], hnumber⟩

theorem exists_body_eq {s : Text} {x : Suffix} (h : suffix? s = some x) : ∃ m : WrittenSuffix, s = m.body := by
  obtain ⟨number, rfl, hnumber⟩ := suffix?_eq_some_iff.mp h
  refine ⟨⟨x.kind, number, fun c hc => ?_⟩, rfl⟩
  exact isDigit_of_isAsciiDigit ((hnumber.mem c hc).resolve_left List.not_mem_nil)

theorem notMem_body {c : Char} (hletter : isLetter c = false) (hdigit : isDigit c = false) (m : WrittenSuffix) :
    c ∉ m.body := by
  rw [body, List.mem_append]
  intro h
  rcases h with hc | hc
  · rw [isLetter_of_mem_name m.kind c hc] at hletter
    cases hletter
  · rw [m.number.isDigit c hc] at hdigit
    cases hdigit

def textOf (ms : List WrittenSuffix) : Text := ms.flatMap fun m => '_' :: m.body

theorem textOf_cons (m : WrittenSuffix) (ms : List WrittenSuffix) :
    textOf (m :: ms) = '_' :: join ['_'] ((m :: ms).map body) := by
  rw [List.map_cons, cons_join, ← List.map_cons, List.flatMap_map, textOf]

theorem suffixes?_textOf (ms : List WrittenSuffix) : suffixes? (textOf ms) = ms.mapM fun m => suffix? m.body := by
  cases ms with
  | nil => rfl
  | cons m ms =>
    have hmark : ∀ w ∈ (m :: ms).map body, '_' ∉ w := by
      rw [List.forall_mem_map]
      exact fun m _ => notMem_body (by decide) (by decide) m
    have hsplit := splitOn_join hmark (List.cons_ne_nil _ _)
    rw [textOf_cons, suffixes?, hsplit, List.mapM_map]
    rfl

theorem head?_textOf (ms : List WrittenSuffix) : ∀ c ∈ (textOf ms).head?, c = '_' := by
  cases ms with
  | nil => nofun
  | cons m ms => rintro c ⟨⟩; rfl

theorem notMem_dash_textOf (ms : List WrittenSuffix) : '-' ∉ textOf ms := by
  rw [textOf, List.mem_flatMap]
  intro h
  obtain ⟨m, _, hdash⟩ := h
  rcases List.mem_cons.mp hdash with hdash | hdash
  · cases hdash
  · exact notMem_body (by decide) (by decide) m hdash

theorem exists_textOf_eq {s : Text} {xs : List Suffix} (h : suffixes? s = some xs) : ∃ ms, s = textOf ms := by
  unfold suffixes? at h
  split at h
  · exact ⟨[], rfl⟩
  next s =>
    have hpieces : ∀ piece ∈ s.splitOn '_', ∃ m : WrittenSuffix, piece = m.body := by
      intro piece hpiece
      obtain ⟨x, hx⟩ := exists_of_mem_of_mapM h piece hpiece
      exact exists_body_eq hx
    obtain ⟨ms, hms⟩ := exists_forall₂_iff.mpr hpieces
    rw [← List.forall₂_map_right_iff, List.forall₂_eq_eq_eq] at hms
    cases ms with
    | nil => exact absurd hms (List.splitOn_ne_nil '_' s)
    | cons m ms => exact ⟨m :: ms, by rw [textOf_cons, ← hms, join_splitOn]⟩
  · cases h

end WrittenSuffix

/-! ### Revisions -/

namespace Digits

def revisionText (d : Digits) : Text := if d.text.isEmpty then [] else "-r".toList ++ d.text

theorem revision?_revisionText (d : Digits) : revision? d.revisionText = suffixNumber? d.text := by
  unfold revisionText suffixNumber?
  split <;> rfl

theorem head?_revisionText (d : Digits) : ∀ c ∈ d.revisionText.head?, c = '-' := by
  unfold revisionText
  split
  · nofun
  · rintro c ⟨⟩
    rfl

theorem exists_revisionText_eq {s : Text} {n : Nat} (h : revision? s = some n) :
    ∃ d : Digits, s = d.revisionText := by
  cases revision?_eq_some_iff.mp h with
  | absent => exact ⟨⟨[], nofun⟩, rfl⟩
  | @written t _ ht =>
    refine ⟨⟨t, fun c hc => isDigit_of_isAsciiDigit (ht.digits c hc)⟩, ?_⟩
    rw [revisionText, List.isEmpty_eq_false_iff.mpr ht.ne_nil]
    rfl

end Digits

/-! ### Components -/

theorem components?_join {first : Text} {later : List Text} (h : ∀ w ∈ first :: later, IsNumeral w) :
    components? (join ['.'] (first :: later)) = some (first, later) := by
  have hdot : ∀ w ∈ first :: later, '.' ∉ w := fun w hw hmem => absurd ((h w hw).2 '.' hmem) (by decide)
  have hempty : ((first :: later).any List.isEmpty) = false := by
    rw [List.any_eq_false]
    exact fun w hw => mt List.isEmpty_iff.mp (h w hw).1
  rw [components?, splitOn_join hdot (List.cons_ne_nil _ _)]
  exact if_neg (Bool.eq_false_iff.mp hempty)

theorem eq_join_of_components? {s first : Text} {later : List Text} (h : components? s = some (first, later)) :
    s = join ['.'] (first :: later) := by
  unfold components? at h
  split at h
  · cases h
  next hsplit =>
    split at h
    · cases h
    · cases h
      rw [← hsplit, join_splitOn]

theorem isComponentChar_of_mem_join {parts : List Text} (h : ∀ w ∈ parts, IsNumeral w) :
    ∀ c ∈ join ['.'] parts, isComponentChar c = true := by
  intro c hc
  rcases mem_of_mem_join hc with hc | ⟨w, hw, hc⟩
  · rw [List.mem_singleton.mp hc]
    decide
  · exact Bool.or_eq_true_iff.mpr (.inl ((h w hw).2 c hc))

/-! ### Whole versions -/

/-- What is written for the parts of a version. -/
structure WrittenParts where
  first : Text
  later : List Text
  letter : Option Char
  suffixes : List WrittenSuffix
  revision : Digits
  isNumeral : ∀ w ∈ first :: later, IsNumeral w
  isLetter : ∀ c ∈ letter, isLetter c = true

namespace WrittenParts

def text (w : WrittenParts) : Text :=
  join ['.'] (w.first :: w.later) ++
    (w.letter.toList ++ (WrittenSuffix.textOf w.suffixes ++ w.revision.revisionText))

def numbers (w : WrittenParts) : List Text := w.suffixes.map (·.number.text) ++ [w.revision.text]

/-- The parts are those of the version, and its numbers are the values of what is written for them. -/
structure Spells (w : WrittenParts) (v : Version) : Prop where
  components : w.first :: w.later = v.components
  letter : w.letter = v.letter
  suffixes : List.Forall₂ (fun m x => m.kind = x.kind ∧ SpellsNumber m.number.text x.number) w.suffixes v.suffixes
  revision : SpellsNumber w.revision.text v.revision

variable {w : WrittenParts}

theorem parts?_text (w : WrittenParts) :
    parts? w.text = (do
      let suffixes ← w.suffixes.mapM fun m => suffix? m.body
      let revision ← suffixNumber? w.revision.text
      return { first := w.first, later := w.later, letter := w.letter, suffixes, revision }) := by
  rw [text, parts?_append (isComponentChar_of_mem_join w.isNumeral) w.isLetter
    (WrittenSuffix.head?_textOf w.suffixes) (WrittenSuffix.notMem_dash_textOf w.suffixes)
    w.revision.head?_revisionText, components?_join w.isNumeral, WrittenSuffix.suffixes?_textOf,
    w.revision.revision?_revisionText]
  rfl

theorem parts?_text_eq_some_iff {p : Parts} :
    parts? w.text = some p ↔ w.first = p.first ∧ w.later = p.later ∧ w.letter = p.letter ∧
      List.Forall₂ (fun m x => suffix? m.body = some x) w.suffixes p.suffixes ∧
      suffixNumber? w.revision.text = some p.revision := by
  rw [parts?_text, ← mapM_eq_some_iff]
  constructor
  · intro h
    obtain ⟨xs, hxs, h⟩ := Option.bind_eq_some_iff.mp h
    obtain ⟨n, hn, h⟩ := Option.bind_eq_some_iff.mp h
    cases h
    exact ⟨rfl, rfl, rfl, hxs, hn⟩
  · intro h
    obtain ⟨hfirst, hlater, hletter, hsuffixes, hrevision⟩ := h
    rw [hfirst, hlater, hletter, hsuffixes, hrevision]
    rfl

theorem exists_parts?_text_iff : (∃ p, parts? w.text = some p) ↔ ∀ t ∈ w.numbers, IsNumber64 t := by
  have hsuffix (m : WrittenSuffix) : (∃ x, suffix? m.body = some x) ↔ IsNumber64 m.number.text := by
    rw [← exists_suffixNumber?_iff]
    simp only [WrittenSuffix.suffix?_body_eq_some_iff]
    exact ⟨fun ⟨x, hx⟩ => ⟨x.number, hx.2⟩, fun ⟨n, hn⟩ => ⟨⟨m.kind, n⟩, rfl, hn⟩⟩
  have hsuffixes : (∃ xs, List.Forall₂ (fun m x => suffix? (WrittenSuffix.body m) = some x) w.suffixes xs) ↔
      ∀ m ∈ w.suffixes, IsNumber64 m.number.text := by
    simp only [exists_forall₂_iff, hsuffix]
  rw [numbers, List.forall_mem_append, List.forall_mem_map, List.forall_mem_singleton, ← hsuffixes,
    ← exists_suffixNumber?_iff]
  simp only [parts?_text_eq_some_iff]
  constructor
  · intro h
    obtain ⟨p, _, _, _, hxs, hn⟩ := h
    exact ⟨⟨p.suffixes, hxs⟩, ⟨p.revision, hn⟩⟩
  · intro h
    obtain ⟨⟨xs, hxs⟩, ⟨n, hn⟩⟩ := h
    exact ⟨⟨w.first, w.later, w.letter, xs, n⟩, rfl, rfl, rfl, hxs, hn⟩

theorem spells_of_text_eq {v : Version} (h : w.text = v.text) : w.Spells v := by
  have hreads := v.reads
  rw [← h, parts?_text_eq_some_iff] at hreads
  obtain ⟨hfirst, hlater, hletter, hsuffixes, hrevision⟩ := hreads
  refine ⟨congrArg₂ _ hfirst hlater, hletter, hsuffixes.imp fun m x hx => ?_,
    spellsNumber_of_suffixNumber? hrevision⟩
  obtain ⟨hkind, hnumber⟩ := WrittenSuffix.suffix?_body_eq_some_iff.mp hx
  exact ⟨hkind, spellsNumber_of_suffixNumber? hnumber⟩

theorem exists_text_eq (v : Version) : ∃ w : WrittenParts, w.text = v.text := by
  obtain ⟨front, marks, tail, h, htext⟩ := exists_spells_of_parts? v.reads
  obtain ⟨ms, rfl⟩ := WrittenSuffix.exists_textOf_eq h.suffixes
  obtain ⟨d, rfl⟩ := Digits.exists_revisionText_eq h.revision
  obtain rfl := eq_join_of_components? h.components
  exact ⟨⟨v.first, v.later, v.letter, ms, d, v.isNumeral_of_mem_components, h.letter⟩, htext.symm⟩

end WrittenParts

theorem parse?_eq_none_iff {s : Text} : parse? s = none ↔ parts? (trim s) = none := by
  rw [Option.eq_none_iff_forall_ne_some, Option.eq_none_iff_forall_ne_some]
  constructor
  · intro h p hp
    exact h ⟨p, trim s, hp⟩ (parse?_eq_some_iff.mpr rfl)
  · intro h v hv
    exact h v.toParts (by rw [parse?_eq_some_iff.mp hv, v.reads])

theorem parse?_accountsForText (s : Text) :
    (∀ v, parse? s = some v →
      (v.components ≠ [] ∧ ∀ c ∈ v.components, IsNumeral c) ∧
      (∃ w : WrittenParts, w.text = trim s) ∧ ∀ w : WrittenParts, w.text = trim s → w.Spells v) ∧
    ∀ w : WrittenParts, w.text = trim s → (parse? s = none ↔ ∃ t ∈ w.numbers, ¬ IsNumber64 t) := by
  constructor
  · intro v hv
    rw [parse?_eq_some_iff.mp hv]
    exact ⟨⟨List.cons_ne_nil _ _, v.isNumeral_of_mem_components⟩, WrittenParts.exists_text_eq v,
      fun w => WrittenParts.spells_of_text_eq⟩
  · intro w hw
    rw [parse?_eq_none_iff, ← hw, ← not_iff_not, ← ne_eq, Option.ne_none_iff_exists',
      WrittenParts.exists_parts?_text_iff]
    simp only [not_exists, not_and, not_not]

instance (s : Text) : Decidable (IsNumeral s) :=
  decidable_of_iff (s ≠ [] ∧ s.all isDigit = true) (and_congr_right' List.all_eq_true)

def patchedText : Text := " 01.20b_pre007_p-r00\n".toList

def patchedVersion : Version := (parse? patchedText).get (by decide +kernel)

def patchedParts : WrittenParts where
  first := "01".toList
  later := ["20".toList]
  letter := some 'b'
  suffixes := [⟨.pre, "007".toList, List.all_eq_true.mp (by decide)⟩, ⟨.patch, [], nofun⟩]
  revision := ⟨"00".toList, List.all_eq_true.mp (by decide)⟩
  isNumeral := by decide
  isLetter := by rintro c ⟨⟩; decide

/-- A patch level of more than 64 bits. -/
def overlongParts : WrittenParts where
  first := "1".toList
  later := []
  letter := none
  suffixes := [⟨.patch, "18446744073709551616".toList, List.all_eq_true.mp (by decide)⟩]
  revision := ⟨"1".toList, List.all_eq_true.mp (by decide)⟩
  isNumeral := by decide
  isLetter := nofun

theorem parse?_accountsForText_patchedParts_overlongParts :
    parse? patchedText = some patchedVersion ∧ patchedParts.text = trim patchedText ∧
      patchedParts.Spells patchedVersion ∧
      patchedVersion.suffixes = [⟨.pre, 7⟩, ⟨.patch, 0⟩] ∧ patchedVersion.revision = 0 ∧
      overlongParts.text = "1_p18446744073709551616-r1".toList ∧ parse? overlongParts.text = none := by
  have hread : parse? patchedText = some patchedVersion := (Option.some_get _).symm
  have hpatched : patchedParts.text = trim patchedText := by decide +kernel
  have hoverlong : overlongParts.text = trim overlongParts.text := by decide +kernel
  have hnumber : ¬ IsNumber64 "18446744073709551616".toList := fun h => absurd h.2 (by decide +kernel)
  have hspells := ((parse?_accountsForText patchedText).1 _ hread).2.2 _ hpatched
  have hrefused := (parse?_accountsForText overlongParts.text).2 _ hoverlong
  exact ⟨hread, hpatched, hspells, by decide +kernel, by decide +kernel, by decide +kernel,
    hrefused.mpr ⟨_, List.mem_cons_self, hnumber⟩⟩

end PackagePolicy.Version
