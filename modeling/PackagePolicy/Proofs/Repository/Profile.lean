import PackagePolicy.Proofs.Disk.ConfigFiles
import PackagePolicy.Proofs.Environment.MaskReasons
import PackagePolicy.Proofs.Mask.Blocks
import PackagePolicy.Proofs.PackageSet.Tables
import PackagePolicy.Proofs.Repository.Loading

/-!
# What a repository directory says

Which package versions are masked, which flags are forced or masked, and which sets there are, told by the lines and
files of the directory that a repository is loaded from.
-/

namespace PackagePolicy

/-! ### Files of sets -/

/- Each file of a directory is a set, and a later file takes the place of an earlier one of its name. -/
theorem UserConfig.exists_ofInsertions_of_loadSets {d : Disk} {path : Text} {t : SetTable}
    {entries : List (Text × FileTree)} (hdir : d.find? path = some (.dir entries)) (h : loadSets d path = .ok t) :
    ∃ files, Disk.AreConfigFiles entries files ∧
      t = .ofInsertions (files.map fun f => .parse (setNameOfFile f.1) f.2) := by
  obtain ⟨counted, hcounted⟩ := Disk.exists_configEntries?_of_isDir hdir
  rw [loadSets, hcounted] at h
  obtain ⟨files, hfiles, hfold⟩ := Disk.exists_files_of_foldlM_entryText
    (fun (table : SetTable) name content => pure (table.insert (.parse (setNameOfFile name) content))) h
  rw [List.foldlM_pure] at hfold
  cases hfold
  refine ⟨files, Disk.areConfigFiles_of_map_eq hdir hcounted hfiles, ?_⟩
  rw [SetTable.ofInsertions, List.foldl_map]

theorem UserConfig.loadSets_eq_empty {d : Disk} {path : Text}
    (h : ∀ entries, d.find? path ≠ some (.dir entries)) : loadSets d path = .ok .empty := by
  have hnone : d.configEntries? path = none := by
    unfold Disk.configEntries?
    split
    next entries hentries => exact absurd hentries (h entries)
    · rfl
  rw [loadSets, hnone]

theorem UserConfig.mem_names_of_loadSets {d : Disk} {path name : Text} {t : SetTable}
    {entries : List (Text × FileTree)} (hdir : d.find? path = some (.dir entries)) (h : loadSets d path = .ok t) :
    name ∈ t.names ↔
      ∃ e ∈ entries, Disk.isConfigName e.1 = true ∧ e.2.isFile = true ∧ setNameOfFile e.1 = name := by
  obtain ⟨files, hfiles, rfl⟩ := exists_ofInsertions_of_loadSets hdir h
  rw [SetTable.mem_names_ofInsertions, ← hfiles.exists_mem_iff (p := fun file => setNameOfFile file = name)]
  simp only [List.map_map, List.mem_map, Function.comp_def, PackageSet.name_parse]

namespace Repository
open Text
variable {d : Disk} {path : Text} {configured : Option Text} {r : Repository}

/-! ### Profile files -/

/-- The trimmed lines of a file of the profile; none if there is no such file. -/
def profileLines (d : Disk) (path : Text) (name : String) : List Text :=
  match d.find? (Path.child (Path.child path "profiles") name) with
  | some (.file (some content)) => trimmedLines content
  | _ => []

theorem profileLines_eq {name : String} {content : Option Text} (h : profileText d path name = .ok content) :
    trimmedLines (content.getD []) = profileLines d path name := by
  unfold profileText readOptional at h
  unfold profileLines
  split at h
  next content hcontent =>
    cases h
    rw [hcontent]
    rfl
  · cases h
  next hnone hfile =>
    cases h
    split
    next content hcontent => exact absurd hcontent (hnone content)
    · rfl

/-! ### Masks -/

/-- An atom in the mask file of the profile matches the package version. -/
def ProfileMasks (d : Disk) (path : Text) (p : Candidate) : Prop :=
  ∃ line ∈ profileLines d path "package.mask", ∃ a, Mask.Line.read line = .mask a ∧ a.isMatch p = true

theorem anyMatches_profileMasks_iff (h : load d path configured = .ok r) {p : Candidate} :
    Mask.AnyMatches r.profileMasks p ↔ ProfileMasks d path p := by
  obtain ⟨content, hcontent, hmasks⟩ := (isReadFrom_of_load h).profileMasks
  rw [hmasks, ProfileMasks, ← profileLines_eq hcontent]
  exact Mask.exists_mem_ofLines_iff (p := fun a => a.isMatch p = true)

/-! ### Flags -/

/-- The line is neither blank nor a comment nor the removal of a flag. -/
def IsFlagLine (line : Text) : Prop := line.head? ∉ [none, some '#', some '-']

/-- The file lists the flag, and no line behind that removes it again. -/
def ProfileLists (d : Disk) (path : Text) (name : String) (flag : Text) : Prop :=
  Stands (fun line => line = flag ∧ IsFlagLine line) (fun line => line = '-' :: flag) (profileLines d path name)

theorem mem_applyFlagLine_iff {flags : List Text} {line flag : Text} :
    flag ∈ applyFlagLine flags line ↔ (line = flag ∧ IsFlagLine line) ∨ flag ∈ flags ∧ ¬ line = '-' :: flag := by
  unfold applyFlagLine
  split
  · simp [IsFlagLine]
  · simp [IsFlagLine]
  next removed =>
    have hline : ¬ IsFlagLine ('-' :: removed) := fun h => h (by simp)
    rw [List.mem_filter, bne_iff_ne, List.cons.injEq, eq_self, true_and, or_iff_right fun h => hline h.2, ne_comm]
  next hblank hcomment hremoval =>
    have hline : IsFlagLine line := by
      cases line with
      | nil => exact absurd rfl hblank
      | cons c line =>
        simp only [IsFlagLine, List.head?_cons, List.mem_cons, Option.some.injEq, not_or]
        exact ⟨nofun, fun h => hcomment line (h ▸ rfl), fun h => hremoval line (h ▸ rfl), List.not_mem_nil⟩
    rw [mem_addNew_iff, and_iff_left hline, and_iff_left (hremoval flag)]

theorem mem_parseFlags_iff {name : String} {content : Option Text} (h : profileText d path name = .ok content)
    {flag : Text} : flag ∈ parseFlags (content.getD []) ↔ ProfileLists d path name flag := by
  rw [ProfileLists, ← profileLines_eq h]
  exact foldl_iff_stands applyFlagLine (fun flags => flag ∈ flags) List.not_mem_nil
    (fun _ _ => mem_applyFlagLine_iff) _

theorem isUseForced_iff (h : load d path configured = .ok r) {flag : Text} :
    r.isUseForced flag = true ↔ ProfileLists d path "use.force" flag := by
  obtain ⟨content, hcontent, hforce⟩ := (isReadFrom_of_load h).useForce
  rw [isUseForced, List.contains_iff_mem, hforce, mem_parseFlags_iff hcontent]

theorem isUseMasked_iff (h : load d path configured = .ok r) {flag : Text} :
    r.isUseMasked flag = true ↔ ProfileLists d path "use.mask" flag := by
  obtain ⟨content, hcontent, hmask⟩ := (isReadFrom_of_load h).useMask
  rw [isUseMasked, List.contains_iff_mem, hmask, mem_parseFlags_iff hcontent]

/-! ### Sets -/

/-- The directory has a file for the set of this name. -/
def DefinesSet (d : Disk) (path name : Text) : Prop :=
  ∃ entries, d.find? (Path.child path "sets") = some (.dir entries) ∧
    ∃ e ∈ entries, Disk.isConfigName e.1 = true ∧ e.2.isFile = true ∧ UserConfig.setNameOfFile e.1 = name

theorem mem_names_sets_iff (h : load d path configured = .ok r) {name : Text} :
    name ∈ r.sets.names ↔ DefinesSet d path name := by
  have hload := eq_ok_of_mapError_eq_ok (isReadFrom_of_load h).sets
  rw [DefinesSet]
  by_cases hdir : ∃ entries, d.find? (Path.child path "sets") = some (.dir entries)
  · obtain ⟨entries, hdir⟩ := hdir
    rw [UserConfig.mem_names_of_loadSets hdir hload, hdir]
    simp only [Option.some.injEq, FileTree.dir.injEq, exists_eq_left']
  · rw [UserConfig.loadSets_eq_empty (not_exists.mp hdir)] at hload
    rw [← Except.ok.inj hload]
    exact iff_of_false List.not_mem_nil fun hdefined => hdir (hdefined.imp fun _ => And.left)

end Repository
end PackagePolicy
