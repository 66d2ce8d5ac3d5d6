import PackagePolicy.Proofs.Entry.Spelling
import PackagePolicy.Proofs.Json.Records

/-!
# The two written forms of an entry

An entry that was read from a text is read back from its text and from its object, and the object from
its own text. Main statement: `Entry.writtenForms_readBack`.
-/

namespace PackagePolicy
namespace Entry
open Text

variable {s : Text} {p : Entry}

/-- The fields of the object of an entry. -/
def jsonFields (p : Entry) : List (Text × Json) :=
  Json.textFields [("name".toList, p.id.render), ("version".toList, p.version.text),
    ("repository".toList, p.repository)]

theorem toJson_eq (p : Entry) : p.toJson = .object p.jsonFields := rfl

theorem ofFields_jsonFields (h : p.id.IsReadable) : ofFields p.jsonFields = .ok p := by
  have hname : Json.textField? "name" p.jsonFields = some p.id.render := rfl
  have hversion : Json.textField? "version" p.jsonFields = some p.version.text := rfl
  have hrepository : Json.textField? "repository" p.jsonFields = some p.repository := rfl
  have hid : PackageId.parse? p.id.render = some p.id := PackageId.parse?_eq_some_iff.mpr ⟨rfl, h⟩
  have hparts : Version.parse? p.version.text = some p.version := by
    have happend := p.version.parse?_text_append isBlanks_nil
    rwa [List.append_nil] at happend
  simp only [ofFields, hname, hversion, hrepository, hid, hparts]

/- The entry comes back as it is, so with the text of its version, not only up to equal versions. -/
theorem writtenForms_readBack (h : parse s = .ok p) :
    parse p.render = .ok p ∧
      (∃ fields, p.toJson = .object fields ∧ ofFields fields = .ok p) ∧
      ∀ depth, Json.parse? (p.toJson.render depth) = some p.toJson := by
  have hlegible : p.IsLegible := (legible_of_parse h).1
  refine ⟨parse_render hlegible, ⟨_, toJson_eq p, ofFields_jsonFields hlegible.id⟩, ?_⟩
  intro depth
  rw [toJson_eq]
  exact Json.parse?_render_texts _ _ depth

def quotedEntry : Entry := resultOf (parse " c/a::2-1.0-r01 ::\t\"".toList) (by decide +kernel)

theorem writtenForms_readBack_quotedEntry :
    parse " c/a::2-1.0-r01 ::\t\"".toList = .ok quotedEntry ∧
      quotedEntry.version.text = "1.0-r01".toList ∧
      parse "c/a::2-1.0-r01::\t\"".toList = .ok quotedEntry ∧
      (∃ fields, quotedEntry.toJson = .object fields ∧ ofFields fields = .ok quotedEntry) ∧
      quotedEntry.toJson.render 0 = "\x7b\n  \"name\": \"c/a::2\",\n  \"version\": \"1.0-r01\",".toList ++
        "\n  \"repository\": \"\\t\\\"\"\n\x7d".toList ∧
      Json.parse? (quotedEntry.toJson.render 0) = some quotedEntry.toJson := by
  have hread : parse " c/a::2-1.0-r01 ::\t\"".toList = .ok quotedEntry := eq_ok_resultOf _
  have hrender : quotedEntry.render = "c/a::2-1.0-r01::\t\"".toList := by decide +kernel
  obtain ⟨htext, hobject, hjson⟩ := writtenForms_readBack hread
  rw [hrender] at htext
  exact ⟨hread, by decide +kernel, htext, hobject, by decide +kernel, hjson 0⟩

end Entry
end PackagePolicy
