import PackagePolicy.Proofs.Disk.Walk
import PackagePolicy.Proofs.Environment.EqualEntries
import PackagePolicy.Proofs.Repository.Loading

/-!
# The package versions of a directory

The test on names of categories is about items of the first depth, and the walk to the package versions
reports no such item, so that every directory counts as a category. Main statements:
`exists_mem_entries_iff_of_load`, and `entries_not_all_isCategoryName` on a directory of profiles.
-/

namespace PackagePolicy
open Text

theorem PackageId.order_eq_eq_iff {a b : PackageId} : a.order b = .eq ↔ a = b := by
  rw [PackageId.order, Ordering.then_eq_eq, Std.LawfulEqCmp.compare_eq_iff_eq,
    Std.LawfulEqCmp.compare_eq_iff_eq]
  cases a
  cases b
  simp

/-! ### Insertion -/

namespace Release
variable {id : PackageId} {version : Version} {r x : Release}

/-- The release is of this package and of an equal version. -/
def IsOf (id : PackageId) (version : Version) (r : Release) : Prop :=
  r.id = id ∧ r.version.order version = .eq

theorem isOf_congr (h : r.order x = .eq) : r.IsOf id version ↔ x.IsOf id version := by
  obtain ⟨hid, hversion⟩ := Ordering.then_eq_eq.mp h
  rw [IsOf, IsOf, PackageId.order_eq_eq_iff.mp hid, Std.TransCmp.congr_left hversion]

theorem exists_mem_insert_iff {rs : List Release} :
    (∃ x ∈ insert r rs, x.IsOf id version) ↔ r.IsOf id version ∨ ∃ x ∈ rs, x.IsOf id version := by
  induction rs with
  | nil => simp [insert]
  | cons x xs ih =>
    unfold insert
    split
    · simp only [List.exists_mem_cons_iff]
    next heq =>
      have hsame : IsOf id version { x with metadata := r.metadata } ↔ x.IsOf id version := Iff.rfl
      rw [List.exists_mem_cons_iff, List.exists_mem_cons_iff, hsame, isOf_congr heq, ← or_assoc, or_self]
    · rw [List.exists_mem_cons_iff, List.exists_mem_cons_iff, ih, or_left_comm]

theorem exists_mem_foldl_insert_iff {added rs : List Release} :
    (∃ x ∈ added.foldl (fun rs r => insert r rs) rs, x.IsOf id version) ↔
      (∃ x ∈ added, x.IsOf id version) ∨ ∃ x ∈ rs, x.IsOf id version := by
  induction added generalizing rs with
  | nil => simp
  | cons r added ih =>
    rw [List.foldl_cons, ih, exists_mem_insert_iff, List.exists_mem_cons_iff, or_left_comm, or_assoc]

end Release

/-! ### Reading -/

/-- A readable file of the version is in the directory of the package. -/
def FileTree.HoldsRelease (t : FileTree) (id : PackageId) (version : Version) : Prop :=
  ∃ category name file, (id.category, category) ∈ t.entries ∧ (id.name, name) ∈ category.entries ∧
    file ∈ name.entries ∧ file.2.text?.isSome = true ∧
      ∃ v, Repository.fileVersion? id.name file.1 = some v ∧ v.order version = .eq

namespace Repository

theorem isKept_of_depth {x : WalkItem} (h : 3 ≤ x.depth) : isKept x = true := by
  have hdepth : x.depth ≠ 1 := by omega
  rw [isKept, bne_iff_ne.mpr hdepth, Bool.true_or]

theorem mem_readReleases_iff {t : FileTree} {r : Release} :
    r ∈ readReleases t ↔ ∃ category ∈ t.entries, ∃ name ∈ category.2.entries,
      ∃ file ∈ name.2.entries, readRelease ⟨category.1, name.1⟩ file = some r := by
  rw [readReleases, WalkItem.walk_congr fun x => isKept_of_depth, List.mem_filterMap]
  simp only [WalkItem.mem_walk_iff]
  constructor
  · intro h
    obtain ⟨x, ⟨hx, hleast, hmost⟩, hread⟩ := h
    have hfirst : 0 < x.depth := by omega
    have hsecond : 1 < x.depth := by omega
    obtain ⟨category, hcategory, hx⟩ := WalkItem.exists_entry_of_contains hx hfirst
    obtain ⟨name, hname, hx⟩ := WalkItem.exists_entry_of_contains hx hsecond
    obtain ⟨file, hfile, hx⟩ := WalkItem.exists_entry_of_contains hx hleast
    cases WalkItem.eq_of_contains hx hmost
    exact ⟨category, hcategory, name, hname, file, hfile, hread⟩
  · intro h
    obtain ⟨category, hcategory, name, hname, file, hfile, hread⟩ := h
    refine ⟨⟨[category.1, name.1, file.1], file.2⟩, ⟨?_, Nat.le_refl 3, Nat.le_refl 3⟩, hread⟩
    refine WalkItem.contains_of_mem_entries hcategory ?_
    refine WalkItem.contains_of_mem_entries hname ?_
    exact WalkItem.contains_of_mem_entries hfile .refl

theorem readRelease_eq_some_iff {id : PackageId} {file : Text × FileTree} {r : Release} :
    readRelease id file = some r ↔ ∃ v content, fileVersion? id.name file.1 = some v ∧
      file.2.text? = some content ∧ r = ⟨id, v, parseEbuild content⟩ := by
  unfold readRelease
  cases fileVersion? id.name file.1 with
  | none => simp
  | some v =>
    cases file.2.text? with
    | none => simp
    | some content => simp [eq_comm]

theorem exists_mem_readReleases_iff {t : FileTree} {id : PackageId} {version : Version} :
    (∃ r ∈ readReleases t, r.IsOf id version) ↔ t.HoldsRelease id version := by
  simp only [mem_readReleases_iff, readRelease_eq_some_iff]
  constructor
  · intro h
    obtain ⟨r, ⟨category, hcategory, name, hname, file, hfile, hread⟩, hid, hversion⟩ := h
    obtain ⟨v, content, hv, hcontent, rfl⟩ := hread
    cases hid
    have htext : file.2.text?.isSome = true := by
      rw [hcontent]
      rfl
    exact ⟨category.2, name.2, file, hcategory, hname, hfile, htext, v, hv, hversion⟩
  · intro h
    obtain ⟨category, name, file, hcategory, hname, hfile, hcontent, v, hv, hversion⟩ := h
    obtain ⟨content, hcontent⟩ := Option.isSome_iff_exists.mp hcontent
    exact ⟨_, ⟨_, hcategory, _, hname, file, hfile, v, content, hv, hcontent, rfl⟩, rfl, hversion⟩

/-! ### Loading -/

theorem releases_of_load {d : Disk} {path : Text} {configured : Option Text} {r : Repository}
    (h : load d path configured = .ok r) :
    r.releases = (((d.find? path).map readReleases).getD []).foldl (fun rs r => Release.insert r rs) [] :=
  (isReadFrom_of_load h).releases

/- There is no condition on the name of the category. -/
theorem exists_mem_entries_iff_of_load {d : Disk} {path : Text} {configured : Option Text} {r : Repository}
    (h : load d path configured = .ok r) (e : Entry) :
    (∃ e' ∈ r.entries, (e' == e) = true) ↔
      e.repository = r.name ∧ ∃ t, d.find? path = some t ∧ t.HoldsRelease e.id e.version := by
  have hentries : (∃ e' ∈ r.entries, (e' == e) = true) ↔
      e.repository = r.name ∧ ∃ x ∈ r.releases, x.IsOf e.id e.version := by
    simp only [entries, List.mem_map, Entry.beq_iff]
    constructor
    · intro h
      obtain ⟨_, ⟨x, hx, rfl⟩, hid, hversion, hrepository⟩ := h
      exact ⟨hrepository.symm, x, hx, hid, hversion⟩
    · intro h
      obtain ⟨hrepository, x, hx, hid, hversion⟩ := h
      exact ⟨_, ⟨x, hx, rfl⟩, hid, hversion, hrepository.symm⟩
  rw [hentries, releases_of_load h, Release.exists_mem_foldl_insert_iff]
  refine and_congr_right fun _ => ?_
  cases d.find? path with
  | none => simp
  | some t => simp [exists_mem_readReleases_iff]

/-- A directory whose only package version is among its profiles. -/
def profileDisk : Disk where
  root := .dir [("profiles".toList, .dir [("pkg".toList, .dir [("pkg-1.0.ebuild".toList,
    .file (some []))])])]
  here := []

def profileRepository : Repository :=
  resultOf (load profileDisk "/".toList (some "repo".toList)) (by decide +kernel)

theorem load_profileDisk : load profileDisk "/".toList (some "repo".toList) = .ok profileRepository :=
  eq_ok_resultOf _

def profileEntry : Entry := resultOf (Entry.parse "profiles/pkg-1.0-r0::repo".toList) rfl

theorem exists_mem_entries_of_load_profileDisk :
    load profileDisk "/".toList (some "repo".toList) = .ok profileRepository ∧
      ∃ e ∈ profileRepository.entries, (e == profileEntry) = true := by
  have hversion : ((fileVersion? "pkg".toList "pkg-1.0.ebuild".toList).any fun v =>
      v.order profileEntry.version == .eq) = true := by decide +kernel
  obtain ⟨v, hv, hequal⟩ := (Option.any_eq_true _ _).mp hversion
  have hholds : profileDisk.root.HoldsRelease profileEntry.id profileEntry.version :=
    ⟨_, _, _, List.mem_cons_self, List.mem_cons_self, List.mem_cons_self, rfl, v, hv,
      beq_iff_eq.mp hequal⟩
  have hname : profileEntry.repository = profileRepository.name := by decide +kernel
  exact ⟨load_profileDisk, (exists_mem_entries_iff_of_load load_profileDisk profileEntry).mpr
    ⟨hname, _, rfl, hholds⟩⟩

theorem entries_not_all_isCategoryName :
    ∃ r, load profileDisk "/".toList (some "repo".toList) = .ok r ∧
      r.entries.all (fun e => isCategoryName e.id.category) = false :=
  ⟨profileRepository, load_profileDisk, by decide +kernel⟩

end Repository
end PackagePolicy
