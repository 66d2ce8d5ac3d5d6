import PackagePolicy.CommandLine.Run
import PackagePolicy.Proofs.Environment.MaskReasons

/-!
# When queries fail

A query about an entry fails exactly if the repository of the entry is not registered, and then always
with the same error. What a database lists can therefore be asked about without a failure, so that the
command that lists package versions prints all of its lines. Main statement: `queries_failIfUnregistered`.
-/

namespace PackagePolicy
variable {α : Type}

/-! ### Lookup -/

theorem Database.fetch_eq_error_iff {d : Database} {name : Text} {error : Error} :
    d.fetch name = .error error ↔ d.has name = false ∧ error = .noSuchRepository name := by
  cases hfind : d.repositories.find? (·.name == name) with
  | none =>
    have hhas : d.has name = false := by
      rw [Database.has, List.any_eq_false]
      exact List.find?_eq_none.mp hfind
    rw [fetch, hfind, hhas]
    simp [eq_comm]
  | some r =>
    have hname : (r.name == name) = true := List.find?_some (p := fun r : Repository => r.name == name) hfind
    have hhas : d.has name = true := List.any_eq_true.mpr ⟨r, List.mem_of_find?_eq_some hfind, hname⟩
    rw [fetch, hfind, hhas]
    simp

/-- The computation fails exactly if no repository of that name is registered, and it says so. -/
def Database.FailsIfUnregistered (d : Database) (name : Text) (x : Except Error α) : Prop :=
  ∀ error, x = .error error ↔ d.has name = false ∧ error = .noSuchRepository name

theorem Database.failsIfUnregistered_map (d : Database) (name : Text) (f : Repository → α) :
    d.FailsIfUnregistered name ((d.fetch name).map f) := by
  intro error
  rw [← fetch_eq_error_iff]
  cases d.fetch name with
  | error error' => exact ⟨fun h => by cases h; rfl, fun h => by cases h; rfl⟩
  | ok r => exact ⟨nofun, nofun⟩

theorem Database.FailsIfUnregistered.exists_eq_ok {d : Database} {name : Text} {x : Except Error α}
    (h : d.FailsIfUnregistered name x) (hhas : d.has name = true) : ∃ a, x = .ok a := by
  cases x with
  | error error =>
    have hunregistered := ((h error).mp rfl).1
    rw [hhas] at hunregistered
    cases hunregistered
  | ok a => exact ⟨a, rfl⟩

/-! ### What is listed -/

theorem Repository.repository_of_mem_entries {r : Repository} {e : Entry} (h : e ∈ r.entries) :
    e.repository = r.name := by
  obtain ⟨x, _, rfl⟩ := List.mem_map.mp h
  rfl

theorem Repository.mem_entries_of_mem_query {r : Repository} {a : Atom} {e : Entry} (h : e ∈ r.query a) :
    e ∈ r.entries := by
  unfold query at h
  split at h
  · split at h
    · cases h
    · exact (List.mem_filter.mp h).1
  · exact (List.mem_filter.mp h).1

theorem Database.has_of_mem_entries {d : Database} {r : Repository} {e : Entry} (hr : r ∈ d.repositories)
    (he : e ∈ r.entries) : d.has e.repository = true := by
  rw [Repository.repository_of_mem_entries he]
  exact List.any_eq_true.mpr ⟨r, hr, beq_self_eq_true _⟩

theorem Database.exists_mem_entries_of_mem_query {d : Database} {a : Atom} {e : Entry} (h : e ∈ d.query a) :
    ∃ r ∈ d.repositories, e ∈ r.entries := by
  obtain ⟨r, hr, he⟩ := List.mem_flatMap.mp h
  exact ⟨r, hr, Repository.mem_entries_of_mem_query he⟩

theorem CommandLine.queryLines_eq {env : Environment} {reasons : Entry → MaskReasons} {found : Bool}
    {es : List Entry} (h : ∀ e ∈ es, env.maskReasons e = .ok (reasons e)) :
    queryLines env found es = .answer (es.flatMap fun e => entryLine e (reasons e)) found := by
  induction es with
  | nil => rfl
  | cons e es ih =>
    rw [List.forall_mem_cons] at h
    rw [queryLines, h.1, ih h.2]
    rfl

/-! ### Queries -/

namespace Environment

theorem failsIfUnregistered (env : Environment) (e : Entry) :
    (∀ flag, env.database.FailsIfUnregistered e.repository (env.queryUse flag (some e))) ∧
      (∀ keyword, env.database.FailsIfUnregistered e.repository (env.acceptKeyword keyword (some e))) ∧
      (∀ license, env.database.FailsIfUnregistered e.repository (env.acceptLicense license (some e))) ∧
      env.database.FailsIfUnregistered e.repository (env.maskReasons e) := by
  simp only [queryUse_eq_map, acceptKeyword_eq_map, acceptLicense_eq_map, maskReasons_eq_map]
  exact ⟨fun _ => Database.failsIfUnregistered_map _ _ _, fun _ => Database.failsIfUnregistered_map _ _ _,
    fun _ => Database.failsIfUnregistered_map _ _ _, Database.failsIfUnregistered_map _ _ _⟩

theorem exists_acceptKeyword_none (env : Environment) (keyword : Text) :
    ∃ b, env.acceptKeyword keyword none = .ok b := by
  unfold acceptKeyword
  cases Keyword.parse keyword with
  | error error => exact ⟨false, rfl⟩
  | ok k => exact ⟨env.keywordAccepted k none, rfl⟩

theorem exists_maskReasons_of_mem_entries {env : Environment} {r : Repository} {e : Entry}
    (hr : r ∈ env.database.repositories) (he : e ∈ r.entries) : ∃ m, env.maskReasons e = .ok m :=
  (env.failsIfUnregistered e).2.2.2.exists_eq_ok (Database.has_of_mem_entries hr he)

theorem exists_maskReasons_of_mem_query {env : Environment} {a : Atom} {e : Entry}
    (he : e ∈ env.database.query a) : ∃ m, env.maskReasons e = .ok m := by
  obtain ⟨r, hr, he⟩ := Database.exists_mem_entries_of_mem_query he
  exact exists_maskReasons_of_mem_entries hr he

/- Neither a malformed keyword nor a license expression is a reason to fail, and the command that lists
entries comes to its last line. -/
theorem queries_failIfUnregistered (env : Environment) :
    (∀ e : Entry,
      (∀ flag, env.database.FailsIfUnregistered e.repository (env.queryUse flag (some e))) ∧
      (∀ keyword, env.database.FailsIfUnregistered e.repository (env.acceptKeyword keyword (some e))) ∧
      (∀ license, env.database.FailsIfUnregistered e.repository (env.acceptLicense license (some e))) ∧
      env.database.FailsIfUnregistered e.repository (env.maskReasons e)) ∧
    (∀ s, (∃ b, env.queryUse s none = .ok b) ∧ (∃ b, env.acceptKeyword s none = .ok b) ∧
      ∃ b, env.acceptLicense s none = .ok b) ∧
    (∀ r ∈ env.database.repositories, ∀ e ∈ r.entries, ∃ m, env.maskReasons e = .ok m) ∧
    ∀ text a, Atom.parse text = .ok a → ∃ reasons : Entry → MaskReasons,
      (∀ e ∈ env.database.query a, env.maskReasons e = .ok (reasons e)) ∧
      CommandLine.execute env (.query text) =
        .ok (.answer ((env.database.query a).flatMap fun e => CommandLine.entryLine e (reasons e))
          (!(env.database.query a).isEmpty)) := by
  refine ⟨env.failsIfUnregistered, ?_, ?_, ?_⟩
  · intro s
    exact ⟨⟨_, rfl⟩, env.exists_acceptKeyword_none s, ⟨_, rfl⟩⟩
  · intro r hr e he
    exact exists_maskReasons_of_mem_entries hr he
  · intro text a ha
    have hreasons : ∀ e ∈ env.database.query a,
        env.maskReasons e = .ok ((env.maskReasons e).toOption.getD .none) := by
      intro e he
      obtain ⟨m, hm⟩ := exists_maskReasons_of_mem_query he
      rw [hm]
      rfl
    refine ⟨_, hreasons, ?_⟩
    rw [CommandLine.execute, ha]
    show Except.ok (CommandLine.queryLines env _ _) = _
    rw [CommandLine.queryLines_eq hreasons]

/-- One package version to which nothing applies, and one with an untested keyword and a refused license. -/
def listedAdditions : Except Error Repository := do
  let r ← (Repository.empty "main".toList).addPackage "cat/a-1.0".toList "test".toList []
  r.addPackage "cat/b-2".toList "~test".toList "|| ( EVIL doc? ( EVIL ) ) EVIL".toList

def listedEnvironment : Environment where
  database := ⟨[resultOf listedAdditions (by decide +kernel)]⟩
  use := .none
  keywords := .ofArch "test".toList
  licenses := .ofText "* -EVIL".toList
  masks := .none
  userSets := none

def anyPackage : Atom := resultOf (Atom.parse "*/*".toList) (by decide +kernel)

def strayEntry : Entry := resultOf (Entry.parse "cat/a-1.0::gone".toList) (by decide +kernel)

theorem queries_failIfUnregistered_listedEnvironment :
    listedEnvironment.maskReasons strayEntry = .error (.noSuchRepository "gone".toList) ∧
      Atom.parse "*/*".toList = .ok anyPackage ∧
      (∃ reasons : Entry → MaskReasons,
        (∀ e ∈ listedEnvironment.database.query anyPackage,
          listedEnvironment.maskReasons e = .ok (reasons e)) ∧
        CommandLine.execute listedEnvironment (.query "*/*".toList) =
          .ok (.answer ((listedEnvironment.database.query anyPackage).flatMap fun e =>
            CommandLine.entryLine e (reasons e)) (!(listedEnvironment.database.query anyPackage).isEmpty))) ∧
      CommandLine.execute listedEnvironment (.query "*/*".toList) =
        .ok ⟨"cat/a-1.0::main\ncat/b-2::main masked by \x7bkeyword, license\x7d\n".toList, 0⟩ := by
  have hatom : Atom.parse "*/*".toList = .ok anyPackage := eq_ok_resultOf _
  have hrepository : strayEntry.repository = "gone".toList := by decide +kernel
  have hgone : listedEnvironment.database.has strayEntry.repository = false := by decide +kernel
  obtain ⟨hfails, _, _, hquery⟩ := queries_failIfUnregistered listedEnvironment
  have herror := ((hfails strayEntry).2.2.2 _).mpr ⟨hgone, rfl⟩
  rw [hrepository] at herror
  exact ⟨herror, hatom, hquery _ _ hatom, eq_ok_of_toOption (by decide +kernel)⟩

end Environment
end PackagePolicy
