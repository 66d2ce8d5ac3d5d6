import PackagePolicy.Environment.Call
import PackagePolicy.Proofs.Entry.Spelling
import PackagePolicy.Result

/-!
# Entries as arguments of calls

A call takes an entry as a text or as an object. An object is read field by field, so that it can hold
fields that no text holds in one piece: an entry that is given as an object can be given as its text if
and only if nothing in its fields moves the cuts of the text (`entryArgument_render_iff`). An object
without the name of a repository is the least one that is lost (`entryArgument_unnamedRepository`).
-/

namespace PackagePolicy
open Text

theorem Entry.isReadable_of_ofFields {fields : List (Text × Json)} {p : Entry}
    (h : ofFields fields = .ok p) : p.id.IsReadable := by
  unfold ofFields at h
  split at h
  next name version repository _ _ _ =>
    split at h
    · cases h
    next id hid =>
      split at h
      · cases h
      next v hv =>
        cases h
        exact (PackageId.parse?_eq_some_iff.mp hid).2
  · cases h

namespace Environment

/- What the object form does not ask for: no blank at the front of the category, an ASCII digit at the
front of the version, and a name of the repository that is not empty, does not end with a blank and has
no double colon in it or across its front. -/
theorem entryArgument_render_iff {m : Method} {fields : List (Text × Json)} {p : Entry}
    (h : entryArgument m (.object fields) = .ok p) :
    (∃ q, entryArgument m (.string p.render) = .ok q ∧ (q == p) = true) ↔
      (∀ c ∈ p.id.category.head?, isBlank c = false) ∧ startsWithDigit p.version.text = true ∧
        p.repository ≠ [] ∧ (∀ c ∈ p.repository.getLast?, isBlank c = false) ∧
        ¬ [':', ':'] <:+: ':' :: p.repository := by
  have hreadable : p.id.IsReadable := Entry.isReadable_of_ofFields h
  have hlegible : (∃ q, entryArgument m (.string p.render) = .ok q ∧ (q == p) = true) ↔ p.IsLegible :=
    Entry.exists_parse_render_iff
  rw [hlegible]
  constructor
  · intro he
    exact ⟨he.lead, he.version, he.repository.ne, he.repository.last, he.repository.colons⟩
  · intro he
    obtain ⟨lead, version, ne, last, colons⟩ := he
    exact ⟨hreadable, lead, version, ne, last, colons⟩

/-- The fields of an entry. -/
def entryFields (name version repository : String) : List (Text × Json) :=
  [("name".toList, .string name.toList), ("version".toList, .string version.toList),
    ("repository".toList, .string repository.toList)]

def colonEntry : Entry :=
  resultOf (entryArgument .maskReasons (.object (entryFields "cat/a::b-2" " 1.0-r1" " x:"))) (by decide +kernel)

theorem entryArgument_render_colonEntry :
    entryArgument .maskReasons (.object (entryFields "cat/a::b-2" " 1.0-r1" " x:")) = .ok colonEntry ∧
      colonEntry.render = "cat/a::b-2-1.0-r1:: x:".toList ∧
      ∃ q, entryArgument .maskReasons (.string colonEntry.render) = .ok q ∧ (q == colonEntry) = true := by
  have hargument : entryArgument .maskReasons (.object (entryFields "cat/a::b-2" " 1.0-r1" " x:")) =
      .ok colonEntry := eq_ok_resultOf _
  have hlead : colonEntry.id.category.head? = some 'c' := by decide +kernel
  have hlast : colonEntry.repository.getLast? = some ':' := by decide +kernel
  have hcolons : cutAtLast [':', ':'] (':' :: colonEntry.repository) = none := by decide +kernel
  refine ⟨hargument, by decide +kernel, (entryArgument_render_iff hargument).mpr ?_⟩
  rw [hlead, hlast, ← cutAtLast_eq_none_iff (by decide)]
  refine ⟨?_, by decide +kernel, by decide +kernel, ?_, hcolons⟩
  · rintro c ⟨⟩
    rfl
  · rintro c ⟨⟩
    rfl

def unnamedEntry : Entry :=
  resultOf (entryArgument .maskReasons (.object (entryFields "cat/pkg" "1.0" ""))) (by decide +kernel)

/- The text of an object without the name of a repository is refused. -/
theorem entryArgument_unnamedRepository :
    entryArgument .maskReasons (.object (entryFields "cat/pkg" "1.0" "")) = .ok unnamedEntry ∧
      entryArgument .maskReasons (.string unnamedEntry.render) =
        .error (.package .emptyRepository "cat/pkg-1.0::".toList) := by
  have hrender : unnamedEntry.render = "cat/pkg-1.0::".toList := by decide +kernel
  rw [hrender]
  exact ⟨eq_ok_resultOf _, rfl⟩

end Environment
end PackagePolicy
