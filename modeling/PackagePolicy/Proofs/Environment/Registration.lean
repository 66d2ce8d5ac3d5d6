import Mathlib.Data.List.Nodup
import PackagePolicy.Environment.Sources
import PackagePolicy.Proofs.Config.RepositoryTable
import PackagePolicy.Proofs.Environment.Failures
import PackagePolicy.Proofs.Repository.Loading

/-!
# Registered repositories

The database of a configured environment holds the repositories of the configuration, each under the name
of its section, whatever name the repository itself declares. Since no two sections have one name, none is
refused as a duplicate. Main statement: `ofConfig_registers`.
-/

namespace PackagePolicy

/-! ### Databases of different names -/

namespace Database

theorem has_eq_false_iff {db : Database} {name : Text} : db.has name = false ↔ name ∉ db.names := by
  rw [has, List.any_eq_false, names, List.mem_map]
  simp

theorem add_eq_ok_iff {db db' : Database} {r : Repository} :
    db.add r = .ok db' ↔ r.name ∉ db.names ∧ db' = ⟨db.repositories ++ [r]⟩ := by
  rw [← has_eq_false_iff, add]
  cases db.has r.name <;> simp [eq_comm]

theorem fetch_eq_ok_iff {db : Database} (hnodup : db.names.Nodup) {name : Text} {r : Repository} :
    db.fetch name = .ok r ↔ r ∈ db.repositories ∧ r.name = name := by
  cases hfind : db.repositories.find? (·.name == name) with
  | none =>
    rw [fetch, hfind]
    constructor
    · intro h
      cases h
    · intro h
      obtain ⟨hr, rfl⟩ := h
      exact absurd (beq_self_eq_true _) (List.find?_eq_none.mp hfind r hr)
  | some r' =>
    have hmem := List.mem_of_find?_eq_some hfind
    have hname : r'.name = name := by
      have h := List.find?_some hfind
      exact beq_iff_eq.mp h
    rw [fetch, hfind, Except.ok.injEq]
    constructor
    · intro h
      exact ⟨h ▸ hmem, h ▸ hname⟩
    · intro h
      exact List.inj_on_of_nodup_map hnodup hmem h.1 (hname.trans h.2.symm)

section
variable {d : Disk} {sources : List RepositorySource}

/-- Reads a repository under the name of its source. -/
def loadSource (d : Disk) (s : RepositorySource) : Except Error Repository :=
  Repository.load d s.location (some s.name)

/- Every repository gets the name of its source, so that it is none of the database already. -/
theorem foldlM_add_eq_map (hnodup : (sources.map (·.name)).Nodup) {db : Database}
    (hnew : ∀ s ∈ sources, s.name ∉ db.names) :
    (sources.foldlM (fun db s => do db.add (← loadSource d s)) db) =
      (sources.mapM (loadSource d)).map fun rs => ⟨db.repositories ++ rs⟩ := by
  induction sources generalizing db with
  | nil =>
    rw [List.mapM_nil]
    exact congrArg Except.ok (congrArg Database.mk (List.append_nil _).symm)
  | cons s sources ih =>
    rw [List.map_cons, List.nodup_cons] at hnodup
    rw [List.forall_mem_cons] at hnew
    rw [List.foldlM_cons, List.mapM_cons]
    cases hload : loadSource d s with
    | error e => rfl
    | ok r =>
      have hname : r.name = s.name := Repository.name_of_load hload
      have hadd : db.add r = .ok ⟨db.repositories ++ [r]⟩ := add_eq_ok_iff.mpr ⟨hname ▸ hnew.1, rfl⟩
      have hnew' : ∀ s' ∈ sources, s'.name ∉ (Database.mk (db.repositories ++ [r])).names := by
        intro s' hs' hmem
        rw [names, List.map_append, List.mem_append] at hmem
        rcases hmem with hmem | hmem
        · exact hnew.2 s' hs' hmem
        · rw [List.map_singleton, List.mem_singleton, hname] at hmem
          exact hnodup.1 (hmem ▸ List.mem_map_of_mem hs')
      rw [ok_bind, hadd, ok_bind, ok_bind, ih hnodup.2 hnew']
      cases sources.mapM (loadSource d) with
      | error e => rfl
      | ok rs =>
        show Except.ok (Database.mk (db.repositories ++ [r] ++ rs)) = _
        rw [List.append_assoc]
        rfl

theorem load_eq_map (hnodup : (sources.map (·.name)).Nodup) :
    Database.load d sources = (sources.mapM (loadSource d)).map Database.mk :=
  foldlM_add_eq_map hnodup fun _ _ => List.not_mem_nil

/-- The database holds what the sources name: in their order, under their names, and nothing else. -/
structure Registers (d : Disk) (sources : List RepositorySource) (db : Database) : Prop where
  names : db.names = sources.map (·.name)
  fetch : ∀ s ∈ sources, ∃ r, Repository.load d s.location (some s.name) = .ok r ∧
    db.fetch s.name = .ok r ∧ r.name = s.name
  others : ∀ name ∉ sources.map (·.name),
    db.has name = false ∧ db.fetch name = .error (.noSuchRepository name)

theorem registers_of_load (hnodup : (sources.map (·.name)).Nodup) {db : Database}
    (h : Database.load d sources = .ok db) : Registers d sources db := by
  rw [load_eq_map hnodup] at h
  cases hload : sources.mapM (loadSource d) with
  | error e =>
    rw [hload] at h
    cases h
  | ok rs =>
    rw [hload] at h
    cases h
    have hloaded := mapM_eq_ok_iff.mp hload
    have hnames : names ⟨rs⟩ = sources.map (·.name) := by
      refine Eq.symm ?_
      rw [names, ← List.forall₂_eq_eq_eq, List.forall₂_map_left_iff, List.forall₂_map_right_iff]
      exact hloaded.imp fun s r hr => (Repository.name_of_load hr).symm
    refine ⟨hnames, ?_, ?_⟩
    · intro s hs
      obtain ⟨r, hr, hloadr⟩ := exists_mem_of_forall₂ hloaded s hs
      have hname := Repository.name_of_load hloadr
      exact ⟨r, hloadr, (fetch_eq_ok_iff (hnames ▸ hnodup)).mpr ⟨hr, hname⟩, hname⟩
    · intro name hname
      have hhas : has ⟨rs⟩ name = false := has_eq_false_iff.mpr (hnames ▸ hname)
      exact ⟨hhas, fetch_eq_error_iff.mpr ⟨hhas, rfl⟩⟩

theorem load_ne_duplicateRepository (hnodup : (sources.map (·.name)).Nodup) (name : Text) :
    Database.load d sources ≠ .error (.duplicateRepository name) := by
  intro h
  rw [load_eq_map hnodup] at h
  cases hload : sources.mapM (loadSource d) with
  | ok rs =>
    rw [hload] at h
    cases h
  | error e =>
    rw [hload] at h
    cases h
    obtain ⟨s, _, herror⟩ := exists_of_mapM_eq_error hload
    cases Repository.loadError_of_load herror

end
end Database

/-! ### Configured environments -/

namespace ConfiguredEnvironment

/- The table may be what is left of contents in error; whether the repositories declare names does not
matter, nor which. -/
theorem ofConfig_registers (d : Disk) {c : UserConfig} {contents : List (Text × Text)}
    (hc : c.repositories = .ofContents contents) :
    (∀ name, ofConfig d c ≠ .error (.duplicateRepository name)) ∧
      ∀ env, ofConfig d c = .ok env →
        Database.Registers d c.repositories.byPriority env.environment.database ∧
        env.environment.database.names.Nodup ∧
        ∀ name ∈ env.environment.database.names, name ∈ RepositoryTable.sectionNames contents := by
  have htable := RepositoryTable.names_ofContents contents
  rw [← hc] at htable
  have hperm : (c.repositories.byPriority.map (·.name)).Perm c.repositories.names :=
    (RepositoryTable.byPriority_perm _).map _
  have hnodup := hperm.nodup_iff.mpr htable.1
  constructor
  · intro name h
    obtain h | ⟨db, _, h⟩ := exists_of_bind_eq_error h
    · exact Database.load_ne_duplicateRepository hnodup name h
    obtain h | ⟨keywords, _, h⟩ := exists_of_bind_eq_error h
    · obtain ⟨e, he⟩ := exists_of_mapError_eq_error h
      cases he
    · cases h
  · intro env h
    obtain ⟨db, hdb, h⟩ := exists_of_bind_eq_ok h
    obtain ⟨keywords, _, h⟩ := exists_of_bind_eq_ok h
    cases h
    have hregisters := Database.registers_of_load hnodup hdb
    refine ⟨hregisters, hregisters.names ▸ hnodup, ?_⟩
    intro name hname
    exact htable.2.mem (hperm.mem_iff.mp (hregisters.names ▸ hname))

/-- Two directories that declare the same name. -/
def twinDisk : Disk where
  root := .dir [
    ("a".toList, .dir [("profiles".toList, .dir [("repo_name".toList, .file (some "twin".toList))])]),
    ("b".toList, .dir [("profiles".toList, .dir [("repo_name".toList, .file (some "twin".toList))])])]
  here := "/".toList

/-- Sections for both directories, one in error and one that is not reached. -/
def twinContents : List (Text × Text) :=
  [("/".toList,
    "[one]\nlocation = a\npriority = 5\n[two]\nlocation = /b\n[bad]\n[twin]\nlocation = /a\n".toList)]

def twinConfig : UserConfig :=
  { UserConfig.default "/".toList with repositories := .ofContents twinContents }

def twinSources : List RepositorySource :=
  [⟨"one".toList, "/a".toList, 5⟩, ⟨"two".toList, "/b".toList, 0⟩]

theorem byPriority_twinConfig : twinConfig.repositories.byPriority = twinSources := by
  have htable : twinConfig.repositories = ⟨none, twinSources⟩ := by decide +kernel
  rw [htable]
  exact List.mergeSort_of_pairwise (by decide)

def twinDatabase : Database := resultOf (Database.load twinDisk twinSources) (by decide +kernel)

theorem exists_ofConfig_twinConfig :
    ∃ env, ofConfig twinDisk twinConfig = .ok env ∧ env.environment.database = twinDatabase := by
  have hload : Database.load twinDisk twinSources = .ok twinDatabase := eq_ok_resultOf _
  rw [ofConfig, byPriority_twinConfig, hload]
  exact ⟨_, rfl, rfl⟩

theorem ofConfig_registers_twinConfig :
    twinConfig.repositories = .ofContents twinContents ∧
      ∃ env, ofConfig twinDisk twinConfig = .ok env ∧
        env.environment.database.names = ["one".toList, "two".toList] ∧
        env.environment.database.fetch "twin".toList = .error (.noSuchRepository "twin".toList) := by
  have hc : twinConfig.repositories = .ofContents twinContents := rfl
  obtain ⟨env, henv, _⟩ := exists_ofConfig_twinConfig
  obtain ⟨hregisters, _, _⟩ := (ofConfig_registers twinDisk hc).2 env henv
  rw [byPriority_twinConfig] at hregisters
  exact ⟨hc, env, henv, hregisters.names, (hregisters.others "twin".toList (by decide)).2⟩

end ConfiguredEnvironment
end PackagePolicy
