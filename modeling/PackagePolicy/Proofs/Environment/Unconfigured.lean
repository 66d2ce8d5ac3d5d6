import PackagePolicy.Proofs.Environment.Queries
import PackagePolicy.Proofs.Environment.Registration
import PackagePolicy.Proofs.PackageSet.References

/-!
# Environments without a configuration

A configuration that only names one repository answers like no configuration at all, although its
environment is put together from rules, a database and sets of its own. Main statement:
`ofConfig_answersLike_bare`.
-/

namespace PackagePolicy

/-! ### Environments that answer alike -/

/-- Two environments have the same answers, or the same errors, to whatever they are asked. -/
structure Environment.AnswersLike (env env' : Environment) : Prop where
  queryUse : ∀ flag e, env.queryUse flag e = env'.queryUse flag e
  acceptKeyword : ∀ keyword e, env.acceptKeyword keyword e = env'.acceptKeyword keyword e
  acceptLicense : ∀ license e, env.acceptLicense license e = env'.acceptLicense license e
  maskReasons : ∀ e, env.maskReasons e = env'.maskReasons e
  packageSet : ∀ name, env.packageSet name = env'.packageSet name

def Repository.movedTo (location : Text) (r : Repository) : Repository :=
  { r with location := some location }

theorem Database.map_fetch_movedTo {α : Type} {f g : Repository → α} {location : Text}
    (h : ∀ r : Repository, f (r.movedTo location) = g r) (r : Repository) (name : Text) :
    (fetch ⟨[r.movedTo location]⟩ name).map f = (fetch ⟨[r]⟩ name).map g := by
  have hname : (r.movedTo location).name = r.name := rfl
  simp only [fetch, List.find?_cons, hname]
  cases r.name == name with
  | true => exact congrArg Except.ok (h r)
  | false => rfl

namespace Environment

/- No query depends on where a repository is, and a table without sets is like none. -/
theorem answersLike_movedTo (env : Environment) (location : Text) (r : Repository) :
    AnswersLike { env with database := ⟨[r.movedTo location]⟩, userSets := some .empty }
      { env with database := ⟨[r]⟩, userSets := none } where
  queryUse flag e := by
    cases e with
    | none => rfl
    | some e =>
      rw [queryUse_eq_map, queryUse_eq_map]
      exact Database.map_fetch_movedTo (fun _ => rfl) r e.repository
  acceptKeyword keyword e := by
    cases e with
    | none => rfl
    | some e =>
      rw [acceptKeyword_eq_map, acceptKeyword_eq_map]
      exact Database.map_fetch_movedTo (fun _ => rfl) r e.repository
  acceptLicense license e := by
    cases e with
    | none => rfl
    | some e =>
      rw [acceptLicense_eq_map, acceptLicense_eq_map]
      exact Database.map_fetch_movedTo (fun _ => rfl) r e.repository
  maskReasons e := by
    rw [maskReasons_eq_map, maskReasons_eq_map]
    exact Database.map_fetch_movedTo (fun _ => rfl) r e.repository
  packageSet name := by
    have hexpand (b : SetName) : SetScope.expand ⟨⟨[r.movedTo location]⟩, some .empty⟩ [] b =
        SetScope.expand ⟨⟨[r]⟩, none⟩ [] b := by
      apply SetScope.expand_congr
      · exact fun _ => rfl
      · rfl
      · rfl
    unfold packageSet SetScope.resolve
    cases SetName.parse name with
    | error e => rfl
    | ok b => exact hexpand b

end Environment

/-! ### One repository -/

/-- The configuration that names one repository and is empty otherwise. -/
def UserConfig.sole (root : Text) (mainRepository : Option Text) (s : RepositorySource) : UserConfig :=
  { UserConfig.default root with repositories := ⟨mainRepository, [s]⟩ }

namespace ConfiguredEnvironment
open Repository (IsOwnName)

theorem ofConfig_sole (d : Disk) (root : Text) (mainRepository : Option Text) (s : RepositorySource) :
    ofConfig d (.sole root mainRepository s) =
      (Repository.load d s.location (some s.name)).map fun r => {
        configRoot := root
        arch := r.arch.getD hostArch
        environment := {
          database := ⟨[r]⟩
          use := .none
          keywords := .ofArch (r.arch.getD hostArch)
          licenses := .all
          masks := .none
          userSets := some .empty
        }
      } := by
  have hsorted : (UserConfig.sole root mainRepository s).repositories.byPriority = [s] :=
    List.mergeSort_singleton s
  have hload : Database.load d [s] =
      (Repository.load d s.location (some s.name)).map fun r => ⟨[r]⟩ := by
    have hnodup : ([s].map RepositorySource.name).Nodup :=
      List.nodup_cons.mpr ⟨List.not_mem_nil, List.nodup_nil⟩
    rw [Database.load_eq_map hnodup, List.mapM_cons, List.mapM_nil, Database.loadSource]
    cases Repository.load d s.location (some s.name) <;> rfl
  rw [ofConfig, hsorted, hload]
  cases Repository.load d s.location (some s.name) <;> rfl

theorem ofConfig_answersLike_bare {d : Disk} {path : Text} {s : RepositorySource}
    (hsame : d.find? s.location = d.find? path) (hname : IsOwnName d path s.name) (root : Text)
    (mainRepository : Option Text) :
    (∃ c b, ofConfig d (.sole root mainRepository s) = .ok c ∧ BareEnvironment.load d path = .ok b ∧
      c.environment.AnswersLike b.environment) ∨
    (∃ e e', ofConfig d (.sole root mainRepository s) = .error e ∧
      BareEnvironment.load d path = .error e') := by
  rw [ofConfig_sole]
  cases hdir : d.isDir path with
  | false =>
    have hdir' : d.isDir s.location = false := by
      rw [Disk.isDir, hsame]
      exact hdir
    right
    rw [Repository.load, hdir', BareEnvironment.load, Repository.load, hdir]
    exact ⟨_, _, rfl, rfl⟩
  | true =>
    rw [Repository.load_eq_map_of_find?_eq hdir hsame hname, BareEnvironment.load]
    cases Repository.load d path none with
    | error e => exact .inr ⟨e, e, rfl, rfl⟩
    | ok r =>
      left
      refine ⟨_, _, rfl, rfl, ?_⟩
      exact Environment.answersLike_movedTo (BareEnvironment.environment ⟨path, r⟩) s.location r

/-- A repository beside an empty directory. -/
def soleDisk : Disk where
  root := .dir [("empty".toList, .dir []),
    ("repo".toList, .dir [("profiles".toList, .dir [
      ("make.defaults".toList, .file (some "ARCH=\"arm64\"".toList))])])]
  here := "/".toList

def soleSource : RepositorySource := ⟨"repo".toList, "/empty/../repo".toList, -1⟩

theorem ofConfig_answersLike_bare_soleDisk :
    ∃ c b, ofConfig soleDisk (.sole [] none soleSource) = .ok c ∧
      BareEnvironment.load soleDisk "repo".toList = .ok b ∧
      c.environment.AnswersLike b.environment := by
  have hsame : soleDisk.find? soleSource.location = soleDisk.find? "repo".toList := rfl
  have hload := eq_ok_resultOf (x := Repository.load soleDisk "repo".toList none) (by decide +kernel)
  have hown := Repository.isOwnName_of_load hload
  have hname : IsOwnName soleDisk "repo".toList soleSource.name := hown
  rcases ofConfig_answersLike_bare hsame hname [] none with h | ⟨_, _, _, herror⟩
  · exact h
  · rw [BareEnvironment.load, hload] at herror
    cases herror

end ConfiguredEnvironment
end PackagePolicy
