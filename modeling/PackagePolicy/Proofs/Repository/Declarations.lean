import PackagePolicy.Proofs.Keyword.Rendering
import PackagePolicy.Proofs.Repository.Histories

/-!
# Declared keywords

What a repository knows of a package version was declared by one addition or by one file, also where equal versions
were added. Its keywords are written as they are in that declaration (`IsDeclaredBy.map_render`), and this holds
however the repository was made (`IsMade.isDeclared_of_mem`).
-/

namespace PackagePolicy
open Text

namespace Metadata

/-- The metadata are those of an addition or of a file, in which the words declare their keywords. Of the words in a
file only those count that are keywords. -/
inductive IsDeclaredBy : Metadata → List Text → Prop
  | addition {keywords license : Text} {m : Metadata} (h : parse keywords license = .ok m) (slot : Text) :
      IsDeclaredBy { m with slot } (words keywords)
  | file (content : Text) : IsDeclaredBy (Repository.parseEbuild content)
      ((words ((Assignment.value? "KEYWORDS" content).getD [])).filter Keyword.isLegible)

theorem IsDeclaredBy.map_render {m : Metadata} {ws : List Text} (h : m.IsDeclaredBy ws) :
    m.keywords.map Keyword.render = ws := by
  cases h with
  | addition h => exact Keyword.map_render_of_parseList (parse_eq_ok_iff.mp h).1
  | file content => exact Keyword.map_render_ofWords fun _ => isWord_of_mem_words

/-- The metadata are those of some addition or file. -/
def IsDeclared (m : Metadata) : Prop := ∃ ws, m.IsDeclaredBy ws

end Metadata

namespace Repository
variable {r r' : Repository}

theorem Adds.isDeclared_of_mem (h : r.Adds r') (hr : ∀ x ∈ r.releases, x.metadata.IsDeclared) :
    ∀ x ∈ r'.releases, x.metadata.IsDeclared := by
  cases h with
  | package h =>
    obtain ⟨body, slot, id, version, metadata, _, _, hmetadata, rfl⟩ := addPackage_eq_ok_iff.mp h
    have hadded : Metadata.IsDeclared { metadata with slot := slot.getD metadata.slot } :=
      ⟨_, .addition hmetadata _⟩
    exact Release.forall_metadata_insert hadded hr
  | arch | profileMask | useMask | useForce | system | set => exact hr

theorem isDeclared_of_mem_readReleases {t : FileTree} : ∀ x ∈ readReleases t, x.metadata.IsDeclared := by
  intro x hx
  obtain ⟨_, _, _, _, _, _, hread⟩ := mem_readReleases_iff.mp hx
  obtain ⟨_, content, _, _, rfl⟩ := readRelease_eq_some_iff.mp hread
  exact ⟨_, .file content⟩

theorem IsMade.isDeclared_of_mem (h : r.IsMade) : ∀ x ∈ r.releases, x.metadata.IsDeclared := by
  cases h with
  | built h => exact h.keeps (fun _ => nofun) fun _ _ hadds => hadds.isDeclared_of_mem
  | @loaded d path _ h =>
    rw [releases_of_load h]
    refine Release.forall_metadata_foldl_insert ?_ (fun _ hx => nomatch hx)
    cases d.find? path with
    | none => exact fun _ hx => nomatch hx
    | some t => exact isDeclared_of_mem_readReleases

theorem IsMade.isDeclared_of_metadata? (h : r.IsMade) {e : Entry} {m : Metadata} (hm : r.metadata? e = some m) :
    m.IsDeclared := by
  obtain ⟨x, hx, rfl⟩ := Option.map_eq_some_iff.mp hm
  exact h.isDeclared_of_mem x (List.mem_of_find?_eq_some hx)

end Repository
end PackagePolicy
