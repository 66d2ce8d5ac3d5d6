import PackagePolicy.Proofs.Atom.Matching
import PackagePolicy.Proofs.Environment.Registration
import PackagePolicy.Proofs.Repository.Ordering

/-!
# Queries

A database answers a query with what a plain filter leaves of the entries of its repositories, in the order in
which these were registered. An atom of one repository gets the answer of that repository alone. Main statement:
`IsMadeOf.answersQuery`.
-/

namespace PackagePolicy

/-! ### Queries to a repository -/

namespace Repository
variable {r : Repository} {a : Atom}

theorem query_eq_nil {name : Text} (ha : a.repository = some name) (hne : r.name ≠ name) : r.query a = [] := by
  rw [query, ha]
  exact if_pos (bne_iff_ne.mpr hne.symm)

/- Where a repository answers early, none of its entries would have passed the filter. -/
theorem query_eq_filter (r : Repository) (a : Atom) :
    r.query a = r.entries.filter fun e => a.isMatch (r.candidate e) := by
  unfold query
  split
  next name hname =>
    split
    next hne =>
      refine (List.filter_eq_nil_iff.mpr fun e he hmatch => bne_iff_ne.mp hne ?_).symm
      have hrepository := (Atom.isMatch_iff.mp hmatch).1.repository name hname
      rw [candidate, repository_of_mem_entries he] at hrepository
      exact (Option.some.inj hrepository).symm
    next => rfl
  next => rfl

theorem IsOrdered.pairwise_query (h : r.IsOrdered) (a : Atom) :
    (r.query a).Pairwise fun e e' => e.order e' = .lt := by
  rw [query_eq_filter]
  exact h.pairwise_entries.filter _

end Repository

namespace Database
variable {d d' : Database} {rs : List Repository} {r : Repository} {a : Atom}

/-! ### Registration -/

theorem repositories_eq_and_nodup_of_foldlM_add (h : rs.foldlM (fun d r => d.add r) d = .ok d')
    (hd : d.names.Nodup) : d'.repositories = d.repositories ++ rs ∧ d'.names.Nodup := by
  induction rs generalizing d with
  | nil =>
    cases h
    exact ⟨(List.append_nil _).symm, hd⟩
  | cons r rs ih =>
    obtain ⟨d₁, hadd, h⟩ := exists_of_bind_eq_ok h
    obtain ⟨hnew, rfl⟩ := add_eq_ok_iff.mp hadd
    have hnodup : (names ⟨d.repositories ++ [r]⟩).Nodup := by
      rw [names, List.map_append, List.map_singleton, ← List.concat_eq_append]
      exact hd.concat hnew
    obtain ⟨hrepositories, hnames⟩ := ih h hnodup
    refine ⟨?_, hnames⟩
    rw [hrepositories, List.append_assoc, List.singleton_append]

/-- The database is what the registration of the repositories, one after the other, makes of an empty one. -/
structure IsMadeOf (rs : List Repository) (d : Database) : Prop where
  made : ∀ r ∈ rs, r.IsMade
  registered : rs.foldlM (fun d r => d.add r) empty = .ok d

theorem IsMadeOf.repositories_eq (h : IsMadeOf rs d) : d.repositories = rs :=
  (repositories_eq_and_nodup_of_foldlM_add h.registered List.nodup_nil).1

theorem IsMadeOf.nodup_names (h : IsMadeOf rs d) : d.names.Nodup :=
  (repositories_eq_and_nodup_of_foldlM_add h.registered List.nodup_nil).2

theorem exists_foldlM_add_of_load {disk : Disk} {sources : List RepositorySource}
    (h : (sources.foldlM (fun (d : Database) s => do d.add (← loadSource disk s)) d) = .ok d') :
    ∃ rs : List Repository, (∀ r ∈ rs, r.IsMade) ∧ rs.foldlM (fun d r => d.add r) d = .ok d' := by
  induction sources generalizing d with
  | nil => exact ⟨[], nofun, h⟩
  | cons s sources ih =>
    obtain ⟨d₁, hstep, h⟩ := exists_of_bind_eq_ok h
    obtain ⟨r, hload, hadd⟩ := exists_of_bind_eq_ok hstep
    obtain ⟨rs, hmade, hrest⟩ := ih h
    refine ⟨r :: rs, List.forall_mem_cons.mpr ⟨.loaded hload, hmade⟩, ?_⟩
    rw [List.foldlM_cons, hadd]
    exact hrest

/- The databases of configured environments are made so. -/
theorem exists_isMadeOf_of_load {disk : Disk} {sources : List RepositorySource}
    (h : load disk sources = .ok d) : ∃ rs, IsMadeOf rs d := by
  obtain ⟨rs, hmade, hregistered⟩ := exists_foldlM_add_of_load h
  exact ⟨rs, hmade, hregistered⟩

/- The database of an environment without a configuration is, too. -/
theorem isMadeOf_environment {disk : Disk} {root : Text} {b : BareEnvironment}
    (h : BareEnvironment.load disk root = .ok b) : IsMadeOf [b.repository] b.environment.database := by
  obtain ⟨r, hload, h⟩ := exists_of_bind_eq_ok h
  cases h
  exact ⟨List.forall_mem_singleton.mpr (.loaded hload), rfl⟩

/-! ### Queries to a database -/

theorem mem_query_iff {e : Entry} :
    e ∈ d.query a ↔ ∃ r ∈ d.repositories, e ∈ r.entries ∧ a.isMatch (r.candidate e) = true := by
  rw [query, List.mem_flatMap]
  simp only [Repository.query_eq_filter, List.mem_filter]

theorem query_eq_of_fetch (hd : d.names.Nodup) {name : Text} (ha : a.repository = some name)
    (hr : d.fetch name = .ok r) : d.query a = r.query a := by
  obtain ⟨hmem, rfl⟩ := (fetch_eq_ok_iff hd).mp hr
  obtain ⟨before, after, hsplit⟩ := List.append_of_mem hmem
  rw [names, hsplit, List.map_append, List.map_cons, List.nodup_append, List.nodup_cons] at hd
  obtain ⟨_, ⟨hafter, _⟩, hbefore⟩ := hd
  have hnil {rs : List Repository} (hrs : ∀ r' ∈ rs, r'.name ≠ r.name) : rs.flatMap (·.query a) = [] :=
    List.flatMap_eq_nil_iff.mpr fun r' hr' => Repository.query_eq_nil ha (hrs r' hr')
  rw [query, hsplit, List.flatMap_append, List.flatMap_cons,
    hnil fun r' hr' => hbefore _ (List.mem_map_of_mem hr') _ List.mem_cons_self,
    hnil fun r' hr' hname => hafter (hname ▸ List.mem_map_of_mem hr'), List.append_nil, List.nil_append]

theorem query_eq_nil_of_has {name : Text} (ha : a.repository = some name) (hname : d.has name = false) :
    d.query a = [] := by
  refine List.flatMap_eq_nil_iff.mpr fun r hr => Repository.query_eq_nil ha ?_
  rintro rfl
  exact has_eq_false_iff.mp hname (List.mem_map_of_mem hr)

theorem IsMadeOf.pairwise_query (h : IsMadeOf rs d) (a : Atom) :
    (d.query a).Pairwise fun e e' => (e == e') = false := by
  rw [query, List.pairwise_flatMap]
  constructor
  · intro r hr
    have hordered := (h.made r (h.repositories_eq ▸ hr)).isOrdered
    exact (hordered.pairwise_query a).imp Entry.beq_eq_false_of_order_eq_lt
  · refine (List.pairwise_map.mp h.nodup_names).imp fun {r r'} hne e he e' he' => ?_
    refine Bool.eq_false_iff.mpr fun hequal => hne ?_
    rw [← Repository.repository_of_mem_entries (Repository.mem_entries_of_mem_query he),
      ← Repository.repository_of_mem_entries (Repository.mem_entries_of_mem_query he')]
    exact (Entry.beq_iff.mp hequal).2.2

/-- What a database of these repositories answers. -/
structure AnswersQuery (rs : List Repository) (d : Database) (a : Atom) : Prop where
  filtered : d.query a = rs.flatMap fun r => r.entries.filter fun e => a.isMatch (r.candidate e)
  candidate : ∀ r ∈ rs, ∀ x ∈ r.releases, r.candidate (r.entryOf x) = x.candidate r.name
  ascending : ∀ r ∈ rs, r.entries.Pairwise fun e e' => e.order e' = .lt
  unequal : (d.query a).Pairwise fun e e' => (e == e') = false
  registered : ∀ name r, a.repository = some name → d.fetch name = .ok r → d.query a = r.query a
  unregistered : ∀ name, a.repository = some name → d.has name = false → d.query a = []

/- Whatever patterns, slot and repository the atom has. -/
theorem IsMadeOf.answersQuery {rs : List Repository} {d : Database} (h : IsMadeOf rs d) (a : Atom) :
    AnswersQuery rs d a where
  filtered := by
    rw [query, h.repositories_eq]
    exact congrArg List.flatten (List.map_congr_left fun r _ => r.query_eq_filter a)
  candidate r hr _ hx := (h.made r hr).isOrdered.candidate_entryOf hx
  ascending r hr := (h.made r hr).isOrdered.pairwise_entries
  unequal := h.pairwise_query a
  registered _ _ ha hr := query_eq_of_fetch h.nodup_names ha hr
  unregistered _ ha hname := query_eq_nil_of_has ha hname

/-- Two spellings of a version, of which the second one has another slot, and a revision of it. -/
def spellingAdditions : Except Error Repository := do
  let r ← (Repository.empty "main".toList).addPackage "dev-libs/lib2-3d-1.0:3".toList "amd64".toList []
  let r ← r.addPackage "dev-libs/lib2-3d-1.00-r0:4".toList "amd64".toList []
  r.addPackage "dev-libs/lib2-3d-1.0-r1".toList "amd64".toList []

def mainRepository : Repository := resultOf spellingAdditions (by decide +kernel)

def overlayRepository : Repository :=
  resultOf ((Repository.empty "overlay".toList).addPackage "dev-libs/lib2-3d-01.0:4".toList "amd64".toList [])
    (by decide +kernel)

theorem isBuilt_mainRepository : mainRepository.IsBuilt := by
  have h : spellingAdditions = .ok mainRepository := eq_ok_resultOf _
  obtain ⟨r, hfirst, h⟩ := exists_of_bind_eq_ok h
  obtain ⟨r', hsecond, hthird⟩ := exists_of_bind_eq_ok h
  exact ⟨_, ((Relation.ReflTransGen.single (.package hfirst)).tail (.package hsecond)).tail (.package hthird)⟩

theorem isBuilt_overlayRepository : overlayRepository.IsBuilt :=
  ⟨_, Relation.ReflTransGen.single (.package (eq_ok_resultOf _))⟩

def layers : List Repository := [mainRepository, overlayRepository, Repository.profileRepository]

def layeredDatabase : Database := resultOf (layers.foldlM (fun d r => d.add r) empty) (by decide +kernel)

theorem isMadeOf_layeredDatabase : IsMadeOf layers layeredDatabase where
  made := by
    rw [layers, List.forall_mem_cons, List.forall_mem_cons, List.forall_mem_singleton]
    exact ⟨.built isBuilt_mainRepository, .built isBuilt_overlayRepository, .loaded Repository.load_profileDisk⟩
  registered := eq_ok_resultOf _

def slottedLibrary : Atom := { Atom.unversioned "dev-*".toList "lib2-3d".toList with slot := some "4".toList }

theorem isMadeOf_answersQuery_slottedLibrary :
    IsMadeOf layers layeredDatabase ∧ AnswersQuery layers layeredDatabase slottedLibrary ∧
      (layeredDatabase.query slottedLibrary).map Entry.render =
        ["dev-libs/lib2-3d-1.0::main".toList, "dev-libs/lib2-3d-01.0::overlay".toList] :=
  ⟨isMadeOf_layeredDatabase, isMadeOf_layeredDatabase.answersQuery slottedLibrary, by decide +kernel⟩

end Database
end PackagePolicy
