import PackagePolicy.Proofs.Disk.Files
import PackagePolicy.Proofs.Disk.Lookup
import PackagePolicy.Proofs.Repository.Additions
import PackagePolicy.Proofs.Repository.Assignments
import PackagePolicy.Proofs.Repository.Releases
import PackagePolicy.Proofs.SpecTree.Grammar
import PackagePolicy.Proofs.Text.Words

/-!
# Directories and additions

Descriptions of package versions can be written into a directory, one file for each of them, or be added to
a repository in memory. A reader of the directory takes names and files apart, an addition takes one text
apart; both make the same repository if the additions are in the order of a walk (`load_eq_build`).
-/

namespace PackagePolicy
open Text

/-! ### Metadata -/

theorem Keyword.ofWords_of_forall₂ {ws : List Text} {ks : List Keyword}
    (h : List.Forall₂ (fun w k => parse w = .ok k) ws ks) : ofWords ws = ks := by
  unfold ofWords
  induction h with
  | nil => rfl
  | cons hk _ ih =>
    rw [List.filterMap_cons, hk, ih]
    rfl

theorem SpecTree.parseLicense_collapse {s : Text} {t : SpecTree Text} :
    parseLicense (collapse s) = .ok t ↔ parseLicense s = .ok t := by
  rw [parseLicense, parseLicense, parse_eq_ok_iff, parse_eq_ok_iff, words_collapse]

theorem Metadata.parse_eq {keywords : Text} {ks : List Keyword} (h : Keyword.parseList keywords = .ok ks)
    (license : Text) : parse keywords license =
      (if (trim license).isEmpty then .ok none else (SpecTree.parseLicense license).map some).map
        fun license => ⟨ks, Keyword.isRead_of_parseList h, license, defaultSlot⟩ := by
  unfold parse
  split
  next e he =>
    rw [h] at he
    cases he
  next ks' hks =>
    cases h.symm.trans hks
    split
    · rfl
    · cases SpecTree.parseLicense license <;> rfl

theorem Metadata.eq_of_fields {m m' : Metadata} (hkeywords : m.keywords = m'.keywords)
    (hlicense : m.license = m'.license) (hslot : m.slot = m'.slot) : m = m' := by
  cases m
  cases m'
  cases hkeywords
  cases hlicense
  cases hslot
  rfl

/-! ### Descriptions -/

/-- A package version and what it declares, as texts. -/
structure Description where
  category : Text
  name : Text
  version : Text
  slot : Text
  keywords : Text
  license : Text

namespace Description

def id (x : Description) : PackageId := ⟨x.category, x.name⟩

def fileName (x : Description) : Text := x.name ++ '-' :: x.version ++ '.' :: "ebuild".toList

/-- The names that lead to the file of the package version. -/
def names (x : Description) : List Text := [x.category, x.name, x.fileName]

def assignments (x : Description) : List (Text × Text) :=
  [("KEYWORDS".toList, x.keywords), ("LICENSE".toList, x.license), ("SLOT".toList, x.slot)]

def content (x : Description) : Text := x.assignments.flatMap fun a => Assignment.line a.1 a.2

/-- The package version with its slot, as it is added. -/
def spec (x : Description) : Text := x.category ++ '/' :: x.name ++ '-' :: x.version ++ ':' :: x.slot

/-- The descriptions in the order in which a walk comes upon their files. -/
def inWalkOrder (ds : List Description) : List Description :=
  ds.mergeSort fun a b => (compare a.names b.names).isLE

/-- The directory that holds a file for each description. -/
def tree (ds : List Description) : FileTree := .ofFiles (ds.map fun x => (x.names, x.content))

/-- The repository to which the descriptions are added one by one. -/
def build (name : Text) (ds : List Description) : Except Error Repository :=
  (inWalkOrder ds).foldlM (fun r x => r.addPackage x.spec x.keywords x.license) (.empty name)

/-- The description can be written and added. -/
structure IsPlain (x : Description) : Prop where
  category : Path.IsFileName x.category
  name : Path.IsFileName x.name
  colon : ':' ∉ x.category ∧ ':' ∉ x.name
  kept : Repository.isCategoryName x.category = true
  version : ∃ v, Version.parse? x.version = some v
  trimmed : IsTrimmed x.version
  digit : startsWithDigit x.version = true
  keywords : ∃ ks, Keyword.parseList x.keywords = .ok ks
  license : IsBlanks x.license ∨ ∃ t, SpecTree.parseLicense x.license = .ok t
  slot : IsWord x.slot
  quote : '"' ∉ x.keywords ∧ '"' ∉ x.license ∧ '"' ∉ x.slot

variable {x : Description}

theorem IsPlain.value?_content (h : x.IsPlain) :
    Assignment.value? "KEYWORDS" x.content = some (collapse x.keywords) ∧
      Assignment.value? "LICENSE" x.content = some (collapse x.license) ∧
      Assignment.value? "SLOT" x.content = some (collapse x.slot) := by
  have hall : Assignment.all x.content = x.assignments := by
    refine Assignment.all_flatMap_line ?_
    simp only [assignments, List.forall_mem_cons]
    exact ⟨⟨⟨by decide, by decide⟩, h.quote.1⟩, ⟨⟨by decide, by decide⟩, h.quote.2.1⟩,
      ⟨⟨by decide, by decide⟩, h.quote.2.2⟩, nofun⟩
  simp only [Assignment.value?, hall]
  exact ⟨rfl, rfl, rfl⟩

theorem IsPlain.keywords_parseEbuild (h : x.IsPlain) {ks : List Keyword}
    (hks : Keyword.parseList x.keywords = .ok ks) : (Repository.parseEbuild x.content).keywords = ks := by
  simp only [Repository.parseEbuild, h.value?_content.1, Option.getD_some, words_collapse]
  exact Keyword.ofWords_of_forall₂ (mapM_eq_ok_iff.mp hks)

theorem IsPlain.slot_parseEbuild (h : x.IsPlain) : (Repository.parseEbuild x.content).slot = x.slot := by
  simp only [Repository.parseEbuild, h.value?_content.2.2, Option.getD_some, collapse_of_isWord h.slot]
  split
  next hempty => exact absurd hempty h.slot.ne
  · rfl

/- Blanks do not matter to a license, but whether there is anything else does. -/
theorem IsPlain.license_parseEbuild (h : x.IsPlain) :
    (if (trim x.license).isEmpty then .ok none else (SpecTree.parseLicense x.license).map some) =
      Except.ok (Repository.parseEbuild x.content).license := by
  simp only [Repository.parseEbuild, h.value?_content.2.1, Option.getD_some]
  by_cases hblanks : IsBlanks x.license
  · rw [if_pos (List.isEmpty_iff.mpr (trim_eq_nil_iff.mpr hblanks)), collapse_eq_nil_iff.mpr hblanks]
  · obtain ⟨t, ht⟩ := h.license.resolve_left hblanks
    rw [if_neg (mt List.isEmpty_iff.mp (mt trim_eq_nil_iff.mp hblanks)), ht]
    split
    next hempty => exact absurd (collapse_eq_nil_iff.mp hempty) hblanks
    · rw [SpecTree.parseLicense_collapse.mpr ht]
      rfl

theorem IsPlain.exists_metadata (h : x.IsPlain) :
    ∃ m, Metadata.parse x.keywords x.license = .ok m ∧
      Repository.parseEbuild x.content = { m with slot := x.slot } := by
  obtain ⟨ks, hks⟩ := h.keywords
  rw [Metadata.parse_eq hks, h.license_parseEbuild]
  exact ⟨_, rfl, Metadata.eq_of_fields (h.keywords_parseEbuild hks) rfl h.slot_parseEbuild⟩

/-! ### One description -/

theorem splitExtension_fileName (x : Description) :
    Path.splitExtension x.fileName = (x.name ++ '-' :: x.version, some "ebuild".toList) := by
  have hdots : (x.fileName == ['.', '.']) = false := by
    rw [beq_eq_false_iff_ne]
    intro hfile
    have hdash : '-' ∈ x.fileName := List.mem_append_left _ (List.mem_append_right _ List.mem_cons_self)
    rw [hfile] at hdash
    exact absurd hdash (by decide)
  have hcut : cutAtLast ['.'] x.fileName = some (x.name ++ '-' :: x.version, "ebuild".toList) :=
    cutAtLast_eq_some_iff.mpr ⟨rfl, by decide⟩
  have hstem : (x.name ++ '-' :: x.version).isEmpty = false :=
    List.isEmpty_eq_false_iff.mpr (List.append_ne_nil_of_right_ne_nil _ (List.cons_ne_nil _ _))
  simp only [Path.splitExtension, hdots, hcut, hstem, Bool.false_eq_true, if_false]

theorem fileVersion?_fileName (x : Description) :
    Repository.fileVersion? x.name x.fileName = Version.parse? x.version := by
  have hname : after? x.name (x.name ++ '-' :: x.version) = some ('-' :: x.version) :=
    after?_eq_some_iff.mpr rfl
  have hdash : after? ['-'] ('-' :: x.version) = some x.version := after?_eq_some_iff.mpr rfl
  rw [Repository.fileVersion?, splitExtension_fileName]
  simp only [if_true, hname, Option.bind_some, hdash]

theorem IsPlain.text_eq (h : x.IsPlain) {v : Version} (hv : Version.parse? x.version = some v) :
    x.version = v.text := by
  rw [← Version.parse?_eq_some_iff.mp hv, trim_of_isTrimmed h.trimmed]

/- The file is read as the release that is added. -/
theorem IsPlain.exists_release (h : x.IsPlain) :
    ∃ v m, Repository.readRelease x.id (x.fileName, .file (some x.content)) = some ⟨x.id, v, m⟩ ∧
      ∀ r : Repository, r.addPackage x.spec x.keywords x.license = .ok (r.insert x.id v m) := by
  obtain ⟨v, hv⟩ := h.version
  obtain ⟨m, hm, hcontent⟩ := h.exists_metadata
  have htext := h.text_eq hv
  have hcolon : ':' ∉ x.category ++ '/' :: x.name ++ '-' :: x.version := by
    simp only [List.mem_append, List.mem_cons, not_or, htext]
    exact ⟨⟨h.colon.1, by decide, h.colon.2⟩, by decide, v.notMem_text rfl⟩
  have hslot : some x.slot ≠ some [] := fun heq => h.slot.ne (Option.some.inj heq)
  have hspoken : Repository.IsSpoken x.id v := ⟨h.category.slash, h.name.ne, htext ▸ h.digit⟩
  have hspec : x.category ++ '/' :: x.name ++ '-' :: x.version = x.id.render ++ '-' :: (v.text ++ []) := by
    rw [htext, List.append_nil]
    rfl
  refine ⟨v, { m with slot := x.slot }, ?_, fun r => ?_⟩
  · refine Repository.readRelease_eq_some_iff.mpr ⟨v, x.content, ?_, rfl, by rw [hcontent]⟩
    exact (fileVersion?_fileName x).trans hv
  · exact Repository.addPackage_eq_ok_iff.mpr ⟨_, some x.slot, x.id, v, m,
      Repository.splitSlot_eq_ok_iff.mpr ⟨hcolon, rfl, hslot⟩,
      Repository.parseCpv_eq_ok_iff.mpr ⟨hspoken, [], isBlanks_nil, hspec⟩, hm, rfl⟩

/-! ### All descriptions -/

/-- The release that is read from the file of a description. -/
def release? (x : Description) : Option Release :=
  Repository.readRelease x.id (x.fileName, .file (some x.content))

theorem foldlM_addPackage {ds : List Description} (h : ∀ x ∈ ds, x.IsPlain) (r : Repository) :
    ds.foldlM (fun r x => r.addPackage x.spec x.keywords x.license) r =
      .ok { r with releases := (ds.filterMap release?).foldl (fun rs r => Release.insert r rs) r.releases } := by
  induction ds generalizing r with
  | nil => rfl
  | cons x ds ih =>
    rw [List.forall_mem_cons] at h
    obtain ⟨v, m, hread, hadd⟩ := h.1.exists_release
    have hrelease : release? x = some ⟨x.id, v, m⟩ := hread
    rw [List.foldlM_cons, hadd, ok_bind, ih h.2, List.filterMap_cons, hrelease]
    rfl

/-- What a walk comes upon at the file of a description. -/
def item (x : Description) : WalkItem := ⟨x.names, .file (some x.content)⟩

theorem descend?_tree {ds : List Description} (hdistinct : (ds.map names).Nodup) {names : List Text}
    (hlength : names.length = 3) {t : FileTree} :
    (tree ds).descend? names = some t ↔ ∃ x ∈ ds, names = x.names ∧ t = .file (some x.content) := by
  have hne : names ≠ [] := by
    rintro rfl
    cases hlength
  have hpaths : ((ds.map fun x => (x.names, x.content)).map Prod.fst).Nodup := by rwa [List.map_map]
  rw [tree, FileTree.descend?_ofFiles hne hpaths]
  · simp only [List.mem_map, exists_exists_and_eq_and]
  · intro f hf
    obtain ⟨x, _, rfl⟩ := List.mem_map.mp hf
    exact hlength

theorem walk_tree {ds : List Description} (hdistinct : (ds.map names).Nodup) :
    WalkItem.walk (fun _ => true) 3 3 ⟨[], tree ds⟩ = (inWalkOrder ds).map item := by
  have htree : (tree ds).HasDistinctNames := FileTree.hasDistinctNames_ofFiles _
  have hwalk : Ascends WalkItem.names (WalkItem.walk (fun _ => true) 3 3 ⟨[], tree ds⟩) :=
    WalkItem.ascends_walk (x := ⟨[], tree ds⟩) htree 3
  have hitems : Ascends WalkItem.names ((inWalkOrder ds).map item) :=
    List.pairwise_map.mpr (ascends_mergeSort hdistinct)
  refine hwalk.eq_of_mem_iff hitems fun y => ?_
  rw [WalkItem.mem_walk_iff_descend? htree, List.mem_map]
  constructor
  · intro h
    obtain ⟨hdepth, hdescend⟩ := h
    obtain ⟨x, hx, hnames, hfile⟩ := (descend?_tree hdistinct hdepth).mp hdescend
    refine ⟨x, List.mem_mergeSort.mpr hx, ?_⟩
    rw [item, ← hnames, ← hfile]
  · intro h
    obtain ⟨x, hx, rfl⟩ := h
    exact ⟨rfl, (descend?_tree hdistinct rfl).mpr ⟨x, List.mem_mergeSort.mp hx, rfl, rfl⟩⟩

theorem readReleases_tree {ds : List Description} (hdistinct : (ds.map names).Nodup) :
    Repository.readReleases (tree ds) = (inWalkOrder ds).filterMap release? := by
  rw [Repository.readReleases, WalkItem.walk_congr fun x => Repository.isKept_of_depth, walk_tree hdistinct,
    List.filterMap_map]
  rfl

/-! ### Loading -/

section
variable {ds : List Description} {d : Disk} {path : Text}

/- The names that stand beside those of the categories are free. -/
theorem find?_child_tree (hpath : d.find? path = some (tree ds))
    (hkept : ∀ x ∈ ds, Repository.isCategoryName x.category = true) {name : String}
    (hname : Path.IsFileName name.toList) (hother : Repository.isCategoryName name.toList = false) :
    d.find? (Path.child path name) = none := by
  have hne : path ≠ [] := by
    rintro rfl
    cases hpath
  rw [Path.child, Disk.find?_join hne hname, hpath, Option.bind_some]
  refine FileTree.lookup_ofFiles_eq_none fun f hf => ⟨?_, fun hhead => ?_⟩
  · obtain ⟨x, _, rfl⟩ := List.mem_map.mp hf
    exact List.cons_ne_nil _ _
  · obtain ⟨x, hx, rfl⟩ := List.mem_map.mp hf
    have hcategory := hkept x hx
    rw [Option.some.inj hhead, hother] at hcategory
    cases hcategory

theorem readOptional_child_of_find? (hpath : path ≠ []) {below file : String}
    (hbelow : Path.IsFileName below.toList) (hnone : d.find? (Path.child path below) = none)
    (hfile : Path.IsFileName file.toList) :
    Repository.readOptional d (Path.child (Path.child path below) file) = .ok none := by
  have hchild : Path.child path below ≠ [] := Path.join_name_ne_nil hpath hbelow
  have hlookup : d.find? (Path.child (Path.child path below) file) = none := by
    rw [Path.child, Disk.find?_join hchild hfile, hnone, Option.bind_none]
  rw [Repository.readOptional, hlookup]

theorem load_tree (hpath : d.find? path = some (tree ds))
    (hkept : ∀ x ∈ ds, Repository.isCategoryName x.category = true) (name : Text) :
    Repository.load d path (some name) = .ok
      { Repository.empty name with
        location := some path
        releases := (Repository.readReleases (tree ds)).foldl (fun rs r => Release.insert r rs) [] } := by
  have hne : path ≠ [] := by
    rintro rfl
    cases hpath
  have hdir : d.isDir path = true := by
    rw [Disk.isDir, hpath]
    refine FileTree.isDir_ofFiles fun f hf => ?_
    obtain ⟨x, _, rfl⟩ := List.mem_map.mp hf
    exact List.cons_ne_nil _ _
  have hprofile (file : String) (hfile : Path.IsFileName file.toList) :
      Repository.readOptional d (Path.child (Path.child path "profiles") file) = .ok none :=
    readOptional_child_of_find? hne (by decide) (find?_child_tree hpath hkept (by decide) (by decide)) hfile
  have hsets : UserConfig.loadSets d (Path.child path "sets") = .ok .empty := by
    rw [UserConfig.loadSets, Disk.configEntries?, find?_child_tree hpath hkept (by decide) (by decide)]
  rw [Repository.load, if_pos hdir]
  simp only [hprofile "repo_name" (by decide), hprofile "make.defaults" (by decide),
    hprofile "package.mask" (by decide), hprofile "use.mask" (by decide), hprofile "use.force" (by decide),
    hprofile "packages" (by decide), hsets, hpath]
  rfl

/-! ### Both ways -/

theorem nodup_names (h : (ds.map fun x => (x.category, x.name, x.version)).Nodup) :
    (ds.map names).Nodup := by
  refine List.pairwise_map.mpr ((List.pairwise_map.mp h).imp ?_)
  intro x y hne hnames
  simp only [names, List.cons.injEq, and_true] at hnames
  obtain ⟨hcategory, hname, hfile⟩ := hnames
  rw [fileName, fileName, hname] at hfile
  have hversion := (List.cons.inj (List.append_cancel_left (List.append_cancel_right hfile))).2
  exact hne (by rw [hcategory, hname, hversion])

/- Two spellings of one version are two files and two additions, of which the first keeps its text and the
last its metadata. -/
theorem load_eq_build (hplain : ∀ x ∈ ds, x.IsPlain)
    (hdistinct : (ds.map fun x => (x.category, x.name, x.version)).Nodup)
    (hpath : d.find? path = some (tree ds)) (name : Text) :
    ∃ r, build name ds = .ok r ∧ Repository.load d path (some name) = .ok { r with location := some path } := by
  have hwalk : ∀ x ∈ inWalkOrder ds, x.IsPlain := fun x hx => hplain x (List.mem_mergeSort.mp hx)
  refine ⟨_, foldlM_addPackage hwalk (.empty name), ?_⟩
  rw [load_tree hpath (fun x hx => (hplain x hx).kept), readReleases_tree (nodup_names hdistinct)]
  rfl

end

/-- Two spellings of one version, the first of a package without a license. -/
def twoSpellings : List Description :=
  [⟨"cat".toList, "a-1b".toList, "1.0".toList, "2/3:x".toList, "amd64\n\t~x86".toList, " ".toList⟩,
    ⟨"cat".toList, "a-1b".toList, "1.00".toList, "0".toList, "amd64".toList, "|| ( MIT\tBSD )".toList⟩]

def twoSpellingsDisk : Disk where
  root := .dir [("repo".toList, tree twoSpellings)]
  here := []

theorem isPlain_twoSpellings : ∀ x ∈ twoSpellings, x.IsPlain := by
  have htrimmed {s : Text} (hhead : s.head?.all (!isBlank ·) = true)
      (hlast : s.getLast?.all (!isBlank ·) = true) : IsTrimmed s :=
    ⟨fun c hc => (Bool.not_eq_true' _).mp ((Option.all_eq_true _ _).mp hhead c hc),
      fun c hc => (Bool.not_eq_true' _).mp ((Option.all_eq_true _ _).mp hlast c hc)⟩
  have hword {s : Text} (hne : s ≠ []) (hblank : s.all (!isBlank ·) = true) : IsWord s :=
    ⟨hne, fun c hc => (Bool.not_eq_true' _).mp (List.all_eq_true.mp hblank c hc)⟩
  rw [twoSpellings, List.forall_mem_cons, List.forall_mem_singleton]
  constructor
  · exact {
      category := by decide
      name := by decide
      colon := by decide
      kept := by decide
      version := Option.isSome_iff_exists.mp (by decide +kernel)
      trimmed := htrimmed (by decide) (by decide)
      digit := by decide
      keywords := ⟨_, eq_ok_resultOf (by decide +kernel)⟩
      license := .inl (List.all_eq_true.mp rfl)
      slot := hword (by decide) (by decide)
      quote := by decide }
  · exact {
      category := by decide
      name := by decide
      colon := by decide
      kept := by decide
      version := Option.isSome_iff_exists.mp (by decide +kernel)
      trimmed := htrimmed (by decide) (by decide)
      digit := by decide
      keywords := ⟨_, eq_ok_resultOf (by decide +kernel)⟩
      license := .inr ⟨_, eq_ok_resultOf (by decide +kernel)⟩
      slot := hword (by decide) (by decide)
      quote := by decide }

/- The one release has the text of the first description and the metadata of the second. -/
theorem load_eq_build_twoSpellings :
    (∀ x ∈ twoSpellings, x.IsPlain) ∧
      (twoSpellings.map fun x => (x.category, x.name, x.version)).Nodup ∧
      twoSpellingsDisk.find? "/repo/".toList = some (tree twoSpellings) ∧
      ∃ r, build "r".toList twoSpellings = .ok r ∧
        Repository.load twoSpellingsDisk "/repo/".toList (some "r".toList) =
          .ok { r with location := some "/repo/".toList } ∧
        r.releases.map (fun x => (x.id, x.version.text, x.metadata.keywords, x.metadata.slot)) =
          [(⟨"cat".toList, "a-1b".toList⟩, "1.0".toList, [⟨"amd64".toList, .stable⟩], "0".toList)] := by
  have hdistinct : (twoSpellings.map fun x => (x.category, x.name, x.version)).Nodup := by decide +kernel
  have hpath : twoSpellingsDisk.find? "/repo/".toList = some (tree twoSpellings) := rfl
  have hreleases : (build "r".toList twoSpellings).toOption.map (fun r => r.releases.map fun x =>
      (x.id, x.version.text, x.metadata.keywords, x.metadata.slot)) =
      some [(⟨"cat".toList, "a-1b".toList⟩, "1.0".toList, [⟨"amd64".toList, .stable⟩], "0".toList)] := by
    have hwalk : inWalkOrder twoSpellings = twoSpellings := List.mergeSort_of_pairwise (by decide +kernel)
    rw [build, hwalk]
    decide +kernel
  obtain ⟨r, hbuild, hload⟩ := load_eq_build isPlain_twoSpellings hdistinct hpath "r".toList
  rw [hbuild] at hreleases
  exact ⟨isPlain_twoSpellings, hdistinct, hpath, r, hbuild, hload, Option.some.inj hreleases⟩

end Description
end PackagePolicy
