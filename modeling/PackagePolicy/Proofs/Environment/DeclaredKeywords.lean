import PackagePolicy.Proofs.Environment.Queries
import PackagePolicy.Proofs.Repository.Declarations

/-!
# Declared keywords in print

An entry is tested by the texts of the keywords that it declares, as if a caller had asked about them. Nothing is
lost by that: the texts are read back, so that the rules give the answer that they give about the keywords
themselves. Main statement: `declaredKeywords_areJudgedByParts`.
-/

namespace PackagePolicy.Environment
open Text
variable {env : Environment} {e : Entry} {r : Repository}

theorem acceptKeyword_of_parse {s : Text} {k : Keyword} (h : Keyword.parse s = .ok k) (asked : Option Entry) :
    env.acceptKeyword s asked = (env.candidate? asked).map fun p =>
      env.keywords.acceptsGlobally k || p.any (env.keywords.acceptsFor k) := by
  rw [acceptKeyword, h]
  cases env.candidate? asked with
  | error error => rfl
  | ok p => cases p <;> rfl

theorem contains_keyword_maskReasons (h : env.database.fetch e.repository = .ok r) :
    (env.maskReasons e).map (·.contains .keyword) = .ok (!(r.keywords e).any fun k =>
      env.keywords.acceptsGlobally k || env.keywords.acceptsFor k (r.candidate e)) := by
  rw [maskReasons_eq_map, h]
  rfl

/- The words are those of one declaration even where equal versions were declared by several. The test of a text may
be about any entry, or about none. -/
theorem declaredKeywords_areJudgedByParts :
    (∀ s k, Keyword.parse s = .ok k → Keyword.parse k.render = .ok k) ∧
      ∀ r : Repository, r.IsMade →
        (∀ e m, r.metadata? e = some m → ∃ ws, m.IsDeclaredBy ws ∧ m.keywords.map Keyword.render = ws) ∧
        ∀ (env : Environment) (e : Entry),
          (∀ k ∈ r.keywords e, ∀ asked, env.acceptKeyword k.render asked = (env.candidate? asked).map fun p =>
            env.keywords.acceptsGlobally k || p.any (env.keywords.acceptsFor k)) ∧
          (env.database.fetch e.repository = .ok r →
            (env.maskReasons e).map (·.contains .keyword) = .ok (!(r.keywords e).any fun k =>
              env.keywords.acceptsGlobally k || env.keywords.acceptsFor k (r.candidate e))) := by
  refine ⟨fun s k h => Keyword.parse_render ⟨s, h⟩, fun r hr => ⟨fun e m hm => ?_, fun env e => ⟨?_, ?_⟩⟩⟩
  · obtain ⟨ws, hws⟩ := hr.isDeclared_of_metadata? hm
    exact ⟨ws, hws, hws.map_render⟩
  · intro k hk asked
    exact acceptKeyword_of_parse (Keyword.parse_render (Repository.isRead_of_mem_keywords hk)) asked
  · exact contains_keyword_maskReasons

/-- A version that is broken everywhere, and has architectures of stars. -/
def starredRepository : Repository :=
  resultOf ((Repository.empty "main".toList).addPackage "cat/pkg-1.0".toList "-* ***\t~**".toList [])
    (by decide +kernel)

/-- Every testing keyword is accepted for the package. -/
def starredEnvironment : Environment where
  database := ⟨[starredRepository]⟩
  use := .none
  keywords := (KeywordRules.ofArch "amd64".toList).addPackage (resultOf (Atom.parse "cat/pkg".toList) rfl)
    [⟨['*'], .testing⟩]
  licenses := .all
  masks := .none
  userSets := none

def starredEntry : Entry := resultOf (Entry.parse "cat/pkg-1.00::main".toList) (by decide +kernel)

theorem declaredKeywords_areJudgedByParts_starredEntry :
    Keyword.parse " ~** ".toList = .ok ⟨"**".toList, .testing⟩ ∧
      Keyword.parse "~**".toList = .ok ⟨"**".toList, .testing⟩ ∧
      starredRepository.IsMade ∧
      (∃ m, starredRepository.metadata? starredEntry = some m ∧
        m.IsDeclaredBy ["-*".toList, "***".toList, "~**".toList]) ∧
      ⟨"**".toList, .testing⟩ ∈ starredRepository.keywords starredEntry ∧
      starredEnvironment.acceptKeyword "~**".toList (some starredEntry) = .ok true ∧
      starredEnvironment.database.fetch starredEntry.repository = .ok starredRepository ∧
      (starredEnvironment.maskReasons starredEntry).map (·.contains .keyword) = .ok false := by
  have hread : Keyword.parse " ~** ".toList = .ok ⟨"**".toList, .testing⟩ := eq_ok_of_toOption (by decide)
  have hmade : starredRepository.IsMade :=
    .built ⟨_, Relation.ReflTransGen.single (.package (eq_ok_resultOf _))⟩
  have hfound : (starredRepository.metadata? starredEntry).isSome = true := by decide +kernel
  have hmem : ⟨"**".toList, .testing⟩ ∈ starredRepository.keywords starredEntry := by decide +kernel
  have hfetch : starredEnvironment.database.fetch starredEntry.repository = .ok starredRepository := rfl
  obtain ⟨hback, hrepository⟩ := declaredKeywords_areJudgedByParts
  obtain ⟨hdeclared, henvironment⟩ := hrepository starredRepository hmade
  obtain ⟨hjudged, hmasked⟩ := henvironment starredEnvironment starredEntry
  obtain ⟨m, hm⟩ := Option.isSome_iff_exists.mp hfound
  obtain ⟨ws, hws, hprinted⟩ := hdeclared starredEntry m hm
  have hkeywords : ((starredRepository.metadata? starredEntry).map fun m => m.keywords.map Keyword.render) =
      some ["-*".toList, "***".toList, "~**".toList] := by decide +kernel
  rw [hm, Option.map_some, hprinted] at hkeywords
  cases hkeywords
  refine ⟨hread, hback _ _ hread, hmade, ⟨m, hm, hws⟩, hmem, ?_, hfetch, ?_⟩
  · exact (hjudged _ hmem (some starredEntry)).trans (eq_ok_of_toOption (by decide +kernel))
  · exact (hmasked hfetch).trans (eq_ok_of_toOption (by decide +kernel))

end PackagePolicy.Environment
