import PackagePolicy.Disk.ConfigFiles
import PackagePolicy.Proofs.Lists

/-!
# Files of a configuration directory

The text that is read for a directory is that of its files in the order of their names, with a line feed
after each (`exists_areConfigFiles_of_readConfig`). What is read from one file after the other is read from
these files, too (`exists_files_of_foldlM_entryText`).
-/

namespace PackagePolicy.Disk
open Text
variable {entries : List (Text × FileTree)}

/-- The files of a directory that count, with their texts, in the order of their names. -/
structure AreConfigFiles (entries : List (Text × FileTree)) (files : List (Text × Text)) : Prop where
  perm : (files.map fun f => (f.1, FileTree.file (some f.2))).Perm
    (entries.filter fun e => isConfigName e.1 && e.2.isFile)
  ordered : files.Pairwise fun a b => Text.le a.1 b.1 = true

theorem pairwise_sortedEntries (t : FileTree) :
    t.sortedEntries.Pairwise fun a b => Text.le a.1 b.1 = true :=
  pairwise_mergeSort_key t.entries

theorem eq_file_of_entryText {e : Text × FileTree} {s : Text} (h : entryText e = .ok s) :
    e = (e.1, FileTree.file (some s)) := by
  obtain ⟨name, t⟩ := e
  cases t with
  | dir => cases h
  | file content =>
    cases content with
    | none => cases h
    | some text =>
      cases h
      rfl

theorem exists_files_of_mapM_entryText {texts : List Text} (h : entries.mapM entryText = .ok texts) :
    ∃ files : List (Text × Text), files.map Prod.snd = texts ∧
      (files.map fun f => (f.1, FileTree.file (some f.2))) = entries := by
  rw [mapM_eq_ok_iff] at h
  induction h with
  | nil => exact ⟨[], rfl, rfl⟩
  | @cons e s entries texts hentry _ ih =>
    obtain ⟨files, htexts, hentries⟩ := ih
    refine ⟨(e.1, s) :: files, ?_, ?_⟩
    · rw [List.map_cons, htexts]
    · rw [List.map_cons, hentries, ← eq_file_of_entryText hentry]

/- A fold over the entries that reads each of them is one over the files. -/
theorem exists_files_of_foldlM_entryText {σ : Type} (step : σ → Text → Text → Except ConfigError σ) {s s' : σ}
    (h : (entries.foldlM (fun s e => do step s e.1 (← entryText e)) s) = .ok s') :
    ∃ files : List (Text × Text), (files.map fun f => (f.1, FileTree.file (some f.2))) = entries ∧
      files.foldlM (fun s f => step s f.1 f.2) s = .ok s' := by
  induction entries generalizing s with
  | nil => exact ⟨[], rfl, h⟩
  | cons e entries ih =>
    rw [List.foldlM_cons] at h
    obtain ⟨s₁, hstep, h⟩ := exists_of_bind_eq_ok h
    obtain ⟨content, hcontent, hstep⟩ := exists_of_bind_eq_ok hstep
    obtain ⟨files, hfiles, hrest⟩ := ih h
    refine ⟨(e.1, content) :: files, ?_, ?_⟩
    · rw [List.map_cons, hfiles, ← eq_file_of_entryText hcontent]
    · rw [List.foldlM_cons, hstep]
      exact hrest

theorem areConfigFiles_of_map_eq {d : Disk} {path : Text} {counted : List (Text × FileTree)}
    {files : List (Text × Text)} (hdir : d.find? path = some (.dir entries))
    (hcounted : d.configEntries? path = some counted)
    (h : (files.map fun f => (f.1, FileTree.file (some f.2))) = counted) : AreConfigFiles entries files := by
  rw [configEntries?, hdir] at hcounted
  cases hcounted
  constructor
  · rw [h]
    exact (List.mergeSort_perm entries _).filter _
  · have hordered := (pairwise_sortedEntries (.dir entries)).filter
      fun e => isConfigName e.1 && e.2.isFile
    rw [← h] at hordered
    exact List.pairwise_map.mp hordered

theorem exists_configEntries?_of_isDir {d : Disk} {path : Text} (hdir : d.find? path = some (.dir entries)) :
    ∃ counted, d.configEntries? path = some counted := by
  rw [configEntries?, hdir]
  exact ⟨_, rfl⟩

theorem exists_areConfigFiles_of_readConfig {d : Disk} {path content : Text}
    (hdir : d.find? path = some (.dir entries)) (h : d.readConfig path = .ok content) :
    ∃ files, AreConfigFiles entries files ∧
      content = (files.map Prod.snd).flatMap (· ++ ['\n']) := by
  obtain ⟨counted, hcounted⟩ := exists_configEntries?_of_isDir hdir
  rw [readConfig, hcounted] at h
  obtain ⟨texts, htexts, h⟩ := exists_of_bind_eq_ok h
  obtain ⟨files, rfl, hfiles⟩ := exists_files_of_mapM_entryText htexts
  cases h
  exact ⟨files, areConfigFiles_of_map_eq hdir hcounted hfiles, rfl⟩

theorem exists_entryText_iff {e : Text × FileTree} : (∃ s, entryText e = .ok s) ↔ ∃ s, e.2 = .file (some s) := by
  refine exists_congr fun s => ⟨fun h => congrArg Prod.snd (eq_file_of_entryText h), fun h => ?_⟩
  rw [entryText, h]
  rfl

theorem mem_configEntries?_iff {d : Disk} {path : Text} {counted : List (Text × FileTree)} {e : Text × FileTree}
    (hdir : d.find? path = some (.dir entries)) (hcounted : d.configEntries? path = some counted) :
    e ∈ counted ↔ e ∈ entries ∧ isConfigName e.1 = true ∧ e.2.isFile = true := by
  rw [configEntries?, hdir] at hcounted
  cases hcounted
  rw [List.mem_filter, Bool.and_eq_true, FileTree.sortedEntries, List.mem_mergeSort]
  rfl

theorem exists_readConfig_iff {d : Disk} {path : Text} (hdir : d.find? path = some (.dir entries)) :
    (∃ content, d.readConfig path = .ok content) ↔
      ∀ e ∈ entries, isConfigName e.1 = true → e.2.isFile = true → ∃ s, e.2 = .file (some s) := by
  obtain ⟨counted, hcounted⟩ := exists_configEntries?_of_isDir hdir
  have hread : (∃ content, d.readConfig path = .ok content) ↔ ∃ texts, counted.mapM entryText = .ok texts := by
    rw [readConfig, hcounted]
    constructor
    · intro h
      obtain ⟨_, h⟩ := h
      obtain ⟨texts, htexts, _⟩ := exists_of_bind_eq_ok h
      exact ⟨texts, htexts⟩
    · intro h
      obtain ⟨texts, htexts⟩ := h
      exact ⟨_, congrArg (· >>= _) htexts⟩
  rw [hread, exists_mapM_eq_ok_iff]
  simp only [mem_configEntries?_iff hdir hcounted, exists_entryText_iff, and_imp]

theorem readConfig_of_pairwise {d : Disk} {path : Text} (hdir : d.find? path = some (.dir entries))
    (h : entries.Pairwise fun a b => Text.le a.1 b.1 = true) :
    d.readConfig path = (do
      let texts ← (entries.filter fun e => isConfigName e.1 && e.2.isFile).mapM entryText
      return texts.flatMap (· ++ ['\n'])) := by
  have hsorted : (FileTree.dir entries).sortedEntries = entries := List.mergeSort_of_pairwise h
  rw [readConfig, configEntries?, hdir]
  simp only [hsorted]

/- The names of the files that count are told by the directory alone. -/
theorem AreConfigFiles.exists_mem_iff {files : List (Text × Text)} (h : AreConfigFiles entries files) {p : Text → Prop} :
    (∃ f ∈ files, p f.1) ↔ ∃ e ∈ entries, isConfigName e.1 = true ∧ e.2.isFile = true ∧ p e.1 := by
  have hnames : (∃ f ∈ files, p f.1) ↔ ∃ e ∈ files.map fun f => (f.1, FileTree.file (some f.2)), p e.1 := by
    simp only [List.mem_map, exists_exists_and_eq_and]
  rw [hnames]
  simp only [h.perm.mem_iff, List.mem_filter, Bool.and_eq_true, and_assoc]

end PackagePolicy.Disk
