import PackagePolicy.Environment.Basic
import PackagePolicy.Proofs.Atom.Spelling
import PackagePolicy.Proofs.Disk.Lookup
import PackagePolicy.Proofs.PackageSet.BuiltIn
import PackagePolicy.Proofs.Repository.Additions
import PackagePolicy.Proofs.Repository.Releases

/-!
# What a database hands out as texts

Entries and the packages of the set `everything` are written out and read again. The readers of entries
and atoms ask more of a name than those of repositories, so that some of what a repository holds is not
read back from its text. Main statements: `Environment.printed_isReadBack_iff` on what is,
and `Repository.entries_not_all_isReadBack` on a package with a second slash.
-/

namespace PackagePolicy
open Text

/-! ### Packages as atoms -/

namespace Atom
variable {category name : Text}

theorem render_unversioned (category name : Text) :
    (unversioned category name).render = category ++ '/' :: name := by
  simp [render, unversioned, fullName, Operator.render, renderPart, renderSlot]

theorem spells_unversioned_iff {w : Text} :
    (unversioned category name).Spells w ↔ w = (unversioned category name).render := by
  constructor
  · intro h
    obtain ⟨gap, use, _, huse, rfl⟩ := h
    cases huse with
    | absent => rw [render_eq]; rfl
    | listed hne => exact absurd rfl hne
  · intro h
    refine ⟨[], [], isBlanks_nil, .absent, ?_⟩
    rw [h, render_eq]
    rfl

theorem isRead_unversioned_iff :
    (unversioned category name).IsRead ↔
      category ≠ [] ∧ name ≠ [] ∧ (∀ c ∈ ['/', ':', '['], c ∉ category ∧ c ∉ name) ∧
        (∀ c ∈ category.head?, c ∉ ['<', '>', '~', '=']) ∧
        ∀ p ∈ splitNameVersion name, Version.parse? p.2 = none := by
  have hoperator (c : Char) : Operator.any.mayPrecede c = true ↔ c ∉ ['<', '>', '~', '='] := by
    rw [Operator.mayPrecede, Bool.not_eq_true', List.contains_eq_mem, decide_eq_false_iff_not]
  constructor
  · intro h
    exact ⟨h.category_ne, h.name_ne, fun c hc => ⟨h.category c hc, h.name c hc⟩,
      fun c hc => (hoperator c).mp (h.operator c hc), h.version.2⟩
  · intro h
    obtain ⟨hcategory_ne, hname_ne, hmarks, hhead, hversion⟩ := h
    exact {
      category_ne := hcategory_ne
      name_ne := hname_ne
      category := fun c hc => (hmarks c hc).1
      name := fun c hc => (hmarks c hc).2
      operator := fun c hc => (hoperator c).mpr (hhead c hc)
      version := ⟨rfl, hversion⟩
      slot := fun _ h => absurd h (Option.not_mem_none _)
      subslot := fun _ => rfl
      repository := show ¬ [':', ':'] <:+: ([] : Text) by decide
      limits := List.not_mem_nil
      useDeps := fun _ h => absurd h List.not_mem_nil
      bracket := fun hne => absurd rfl hne }

theorem isTrimmed_render_unversioned_iff (hcategory : category ≠ []) (hname : name ≠ []) :
    IsTrimmed (unversioned category name).render ↔
      (∀ c ∈ category.head?, isBlank c = false) ∧ ∀ c ∈ name.getLast?, isBlank c = false := by
  have hhead : (unversioned category name).render.head? = category.head? := by
    rw [render_unversioned, List.head?_append_of_ne_nil _ hcategory]
  have hlast : (unversioned category name).render.getLast? = name.getLast? := by
    rw [render_unversioned, List.append_cons, List.getLast?_append_of_ne_nil _ hname]
  exact ⟨fun h => ⟨hhead ▸ h.head, hlast ▸ h.last⟩, fun h => ⟨hhead ▸ h.1, hlast ▸ h.2⟩⟩

theorem parse_render_unversioned_iff :
    parse (unversioned category name).render = .ok (unversioned category name) ↔
      (unversioned category name).IsRead ∧ IsTrimmed (unversioned category name).render := by
  rw [parse_eq_ok_iff_spells]
  refine and_congr_right fun _ => ?_
  constructor
  · intro h
    obtain ⟨w, tail, htrim, hspells, htail⟩ := h
    rw [htail rfl, List.append_nil, spells_unversioned_iff.mp hspells] at htrim
    exact htrim ▸ isTrimmed_trim _
  · intro h
    exact ⟨_, [], (trim_of_isTrimmed h).trans (List.append_nil _).symm, spells_unversioned_iff.mpr rfl,
      fun _ => rfl⟩

end Atom

/-! ### Repositories from directories -/

/-- Everything in the tree has the name of a file. -/
inductive FileTree.HasFileNames : FileTree → Prop
  | file (content : Option Text) : HasFileNames (.file content)
  | dir {entries : List (Text × FileTree)} (hnames : ∀ e ∈ entries, Path.IsFileName e.1)
      (hbelow : ∀ e ∈ entries, HasFileNames e.2) : HasFileNames (.dir entries)

theorem FileTree.HasFileNames.entry {t : FileTree} (h : t.HasFileNames) {e : Text × FileTree}
    (he : e ∈ t.entries) : Path.IsFileName e.1 ∧ e.2.HasFileNames := by
  cases h with
  | file => cases he
  | dir hnames hbelow => exact ⟨hnames e he, hbelow e he⟩

namespace Repository
variable {r : Repository}

/-- The repository is read from a directory. -/
def IsLoaded (r : Repository) : Prop :=
  ∃ d path configured, load d path configured = .ok r ∧ ∀ t ∈ d.find? path, t.HasFileNames

theorem isFileName_of_mem_readReleases {t : FileTree} (ht : t.HasFileNames) {x : Release}
    (hx : x ∈ readReleases t) : Path.IsFileName x.id.category ∧ Path.IsFileName x.id.name := by
  obtain ⟨category, hcategory, name, hname, file, hfile, hread⟩ := mem_readReleases_iff.mp hx
  obtain ⟨v, content, _, _, rfl⟩ := readRelease_eq_some_iff.mp hread
  obtain ⟨hcategoryName, hcategoryTree⟩ := ht.entry hcategory
  exact ⟨hcategoryName, (hcategoryTree.entry hname).1⟩

theorem IsLoaded.isFileName_of_mem (h : r.IsLoaded) :
    ∀ x ∈ r.releases, Path.IsFileName x.id.category ∧ Path.IsFileName x.id.name := by
  obtain ⟨d, path, configured, hload, hnames⟩ := h
  rw [releases_of_load hload]
  refine Release.forall_mem_foldl_insert
    (P := fun id _ => Path.IsFileName id.category ∧ Path.IsFileName id.name) ?_ nofun
  intro x hx
  cases hfind : d.find? path with
  | none =>
    rw [hfind] at hx
    cases hx
  | some t =>
    rw [hfind] at hx
    exact isFileName_of_mem_readReleases (hnames t hfind) hx

/-! ### Entries -/

theorem exists_release_of_mem_entries {e : Entry} (he : e ∈ r.entries) :
    ∃ x ∈ r.releases, e.id = x.id ∧ e.version = x.version ∧ e.repository = r.name := by
  obtain ⟨x, hx, rfl⟩ := List.mem_map.mp he
  exact ⟨x, hx, rfl, rfl, rfl⟩

/- A text of additions has a slash at least and an ASCII digit in front of its version. -/
theorem IsBuilt.parse_render_iff (h : r.IsBuilt) {e : Entry} (he : e ∈ r.entries) :
    Entry.parse e.render = .ok e ↔
      e.id.category ≠ [] ∧ '/' ∉ e.id.name ∧ (∀ c ∈ e.id.category.head?, isBlank c = false) ∧
        Entry.IsRepositoryName r.name := by
  obtain ⟨x, hx, hid, hversion, hrepository⟩ := exists_release_of_mem_entries he
  obtain ⟨hcategory, hname, hdigit⟩ := h.isSpoken_of_mem x hx
  rw [← hid] at hcategory hname
  rw [← hversion] at hdigit
  rw [Entry.parse_render_iff, ← hrepository]
  constructor
  · intro hlegible
    exact ⟨hlegible.id.category_ne, hlegible.id.name, hlegible.lead, hlegible.repository⟩
  · intro h
    exact ⟨⟨h.1, hname, hcategory, h.2.1⟩, h.2.2.1, hdigit, h.2.2.2⟩

/- The names of directories are neither empty nor have they slashes. -/
theorem IsLoaded.parse_render_iff (h : r.IsLoaded) {e : Entry} (he : e ∈ r.entries) :
    Entry.parse e.render = .ok e ↔
      (∀ c ∈ e.id.category.head?, isBlank c = false) ∧ startsWithDigit e.version.text = true ∧
        Entry.IsRepositoryName r.name := by
  obtain ⟨x, hx, hid, _, hrepository⟩ := exists_release_of_mem_entries he
  obtain ⟨hcategory, hname⟩ := h.isFileName_of_mem x hx
  rw [← hid] at hcategory hname
  rw [Entry.parse_render_iff, ← hrepository]
  constructor
  · intro hlegible
    exact ⟨hlegible.lead, hlegible.version, hlegible.repository⟩
  · intro h
    exact ⟨⟨hcategory.ne, hname.ne, hcategory.slash, hname.slash⟩, h.1, h.2.1, h.2.2⟩

end Repository

/-! ### The set of everything -/

namespace Repository
variable {r : Repository}

theorem readable_of_mem_releases (h : r.IsBuilt ∨ r.IsLoaded) {x : Release} (hx : x ∈ r.releases) :
    '/' ∉ x.id.category ∧ x.id.name ≠ [] := by
  rcases h with hbuilt | hloaded
  · have hspoken := hbuilt.isSpoken_of_mem x hx
    exact ⟨hspoken.category, hspoken.name_ne⟩
  · obtain ⟨hcategory, hname⟩ := hloaded.isFileName_of_mem x hx
    exact ⟨hcategory.slash, hname.ne⟩

end Repository

theorem Atom.parse_render_leaf_iff {category name : Text} (hcategory : '/' ∉ category) (hname : name ≠ []) :
    parse (unversioned category name).render = .ok (unversioned category name) ↔
      category ≠ [] ∧ '/' ∉ name ∧ (∀ c ∈ [':', '['], c ∉ category ∧ c ∉ name) ∧
        (∀ c ∈ category.head?, c ∉ ['<', '>', '~', '='] ∧ isBlank c = false) ∧
        (∀ c ∈ name.getLast?, isBlank c = false) ∧
        ∀ p ∈ splitNameVersion name, Version.parse? p.2 = none := by
  rw [parse_render_unversioned_iff, isRead_unversioned_iff, List.forall_mem_cons]
  constructor
  · intro h
    obtain ⟨⟨hne, _, ⟨hslash, hmarks⟩, hoperator, hversion⟩, htrimmed⟩ := h
    obtain ⟨hlead, hlast⟩ := (isTrimmed_render_unversioned_iff hne hname).mp htrimmed
    exact ⟨hne, hslash.2, hmarks, fun c hc => ⟨hoperator c hc, hlead c hc⟩, hlast, hversion⟩
  · intro h
    obtain ⟨hne, hslash, hmarks, hhead, hlast, hversion⟩ := h
    have htrimmed := (isTrimmed_render_unversioned_iff hne hname).mpr ⟨fun c hc => (hhead c hc).2, hlast⟩
    exact ⟨⟨hne, hname, ⟨⟨hcategory, hslash⟩, hmarks⟩, fun c hc => (hhead c hc).1, hversion⟩, htrimmed⟩

/- Each condition is one that a name in a repository can fail: the reader of entries asks for two parts
around one slash, trims, and cuts at the last double colon and before an ASCII digit; the reader of atoms
moreover takes marks at its front and in it, and a version at its end, for parts of an atom. -/
theorem Environment.printed_isReadBack_iff {env : Environment}
    (h : ∀ r ∈ env.database.repositories, r.IsBuilt ∨ r.IsLoaded) :
    (∀ r ∈ env.database.repositories, ∀ e ∈ r.entries,
      (r.IsBuilt → (Entry.parse e.render = .ok e ↔
        e.id.category ≠ [] ∧ '/' ∉ e.id.name ∧ (∀ c ∈ e.id.category.head?, isBlank c = false) ∧
          Entry.IsRepositoryName r.name)) ∧
      (r.IsLoaded → (Entry.parse e.render = .ok e ↔
        (∀ c ∈ e.id.category.head?, isBlank c = false) ∧ startsWithDigit e.version.text = true ∧
          Entry.IsRepositoryName r.name))) ∧
    ∃ tree, env.packageSet "everything".toList = .ok tree ∧ ∀ a ∈ tree.leaves,
      (Atom.parse a.render = .ok a ↔
        a.category ≠ [] ∧ '/' ∉ a.name ∧ (∀ c ∈ [':', '['], c ∉ a.category ∧ c ∉ a.name) ∧
          (∀ c ∈ a.category.head?, c ∉ ['<', '>', '~', '='] ∧ isBlank c = false) ∧
          (∀ c ∈ a.name.getLast?, isBlank c = false) ∧
          ∀ p ∈ splitNameVersion a.name, Version.parse? p.2 = none) := by
  constructor
  · intro r _ e he
    exact ⟨fun hbuilt => hbuilt.parse_render_iff he, fun hloaded => hloaded.parse_render_iff he⟩
  · refine ⟨_, SetScope.resolve_everything, fun a ha => ?_⟩
    obtain ⟨r, hr, x, hx, rfl⟩ := SetScope.exists_release_of_mem_leaves ha
    obtain ⟨hcategory, hname⟩ := Repository.readable_of_mem_releases (h r hr) hx
    exact Atom.parse_render_leaf_iff hcategory hname

/-- Two releases, the second with a slash in its name. -/
def slashAdditions : Except Error Repository := do
  let r ← (Repository.empty "main".toList).addPackage "cat/pkg-1.0:2".toList "test".toList []
  r.addPackage "cat/a/b-1.0".toList "test".toList []

def slashRepository : Repository := resultOf slashAdditions (by decide +kernel)

theorem isBuilt_slashRepository : slashRepository.IsBuilt := by
  have h : slashAdditions = .ok slashRepository := eq_ok_resultOf _
  obtain ⟨r, hfirst, hsecond⟩ := exists_of_bind_eq_ok h
  exact ⟨_, (Relation.ReflTransGen.single (.package hfirst)).tail (.package hsecond)⟩

theorem isLoaded_profileRepository : Repository.profileRepository.IsLoaded := by
  have hnames : Repository.profileDisk.root.HasFileNames :=
    .dir (by decide) (List.forall_mem_singleton.mpr (.dir (by decide)
      (List.forall_mem_singleton.mpr (.dir (by decide) (List.forall_mem_singleton.mpr (.file _))))))
  refine ⟨_, _, _, Repository.load_profileDisk, fun t ht => ?_⟩
  cases ht
  exact hnames

/-- A repository that is built beside one that is read. -/
def mixedEnvironment : Environment where
  database := ⟨[slashRepository, Repository.profileRepository]⟩
  use := .none
  keywords := .ofArch "amd64".toList
  licenses := .all
  masks := ⟨[], []⟩
  userSets := none

theorem Environment.printed_isReadBack_mixedEnvironment :
    (∀ r ∈ mixedEnvironment.database.repositories, r.IsBuilt ∨ r.IsLoaded) ∧
      (∃ e ∈ slashRepository.entries, e.render = "cat/pkg-1.0::main".toList ∧ Entry.parse e.render = .ok e) ∧
      ∃ tree, mixedEnvironment.packageSet "everything".toList = .ok tree ∧
        ∀ a ∈ tree.leaves, Atom.parse a.render = .ok a ↔ '/' ∉ a.name := by
  have hrepositories : ∀ r ∈ mixedEnvironment.database.repositories, r.IsBuilt ∨ r.IsLoaded := by
    rw [mixedEnvironment, List.forall_mem_cons, List.forall_mem_singleton]
    exact ⟨.inl isBuilt_slashRepository, .inr isLoaded_profileRepository⟩
  obtain ⟨hentries, tree, htree, hleaves⟩ := Environment.printed_isReadBack_iff hrepositories
  refine ⟨hrepositories, ?_, tree, htree, fun a ha => ?_⟩
  · have hlegible : ∃ e ∈ slashRepository.entries, e.render = "cat/pkg-1.0::main".toList ∧
        e.id.category ≠ [] ∧ '/' ∉ e.id.name ∧ e.id.category.head?.all (isBlank · = false) = true := by
      decide +kernel
    have hrepository : Entry.IsRepositoryName "main".toList := by
      refine ⟨by decide, ?_, (cutAtLast_eq_none_iff (by decide)).mp (by decide)⟩
      rintro c ⟨⟩
      rfl
    simp only [Option.all_eq_true, decide_eq_true_eq] at hlegible
    obtain ⟨e, he, hrender, hcategory, hname, hlead⟩ := hlegible
    exact ⟨e, he, hrender, ((hentries _ List.mem_cons_self e he).1 isBuilt_slashRepository).mpr
      ⟨hcategory, hname, hlead, hrepository⟩⟩
  · cases SetScope.resolve_everything.symm.trans htree
    have hplain : ∀ r ∈ mixedEnvironment.database.repositories, ∀ x ∈ r.releases,
        x.id.category ≠ [] ∧ [':', '['].all (fun c => c ∉ x.id.category ∧ c ∉ x.id.name) = true ∧
          x.id.category.head?.all (fun c => c ∉ ['<', '>', '~', '='] ∧ isBlank c = false) = true ∧
          x.id.name.getLast?.all (isBlank · = false) = true ∧
          (splitNameVersion x.id.name).all (Version.parse? ·.2 = none) = true := by decide +kernel
    simp only [List.all_eq_true, Option.all_eq_true, decide_eq_true_eq] at hplain
    rw [hleaves a ha]
    obtain ⟨r, hr, x, hx, rfl⟩ := SetScope.exists_release_of_mem_leaves ha
    obtain ⟨hcategory, hmarks⟩ := hplain r hr x hx
    exact ⟨fun h => h.2.1, fun h => ⟨hcategory, h, hmarks⟩⟩

/- The name takes the second slash in, and the text of the entry is refused for it. -/
theorem Repository.entries_not_all_isReadBack :
    slashAdditions = .ok slashRepository ∧ ∃ e ∈ slashRepository.entries,
      Entry.parse e.render = .error (.package .malformed "cat/a/b-1.0::main".toList) := by
  have hentry : ∃ e ∈ slashRepository.entries, e.render = "cat/a/b-1.0::main".toList := by decide +kernel
  obtain ⟨e, he, hrender⟩ := hentry
  refine ⟨eq_ok_resultOf _, e, he, ?_⟩
  rw [hrender]
  rfl

end PackagePolicy
