import PackagePolicy.Environment.Basic
import PackagePolicy.Proofs.FirstOccurrences
import PackagePolicy.Proofs.Hashing
import PackagePolicy.Proofs.PackageSet.References
import PackagePolicy.Proofs.Repository.Ordering

/-!
# The built-in sets

The set of everything has the packages of all repositories, each once and in order. The system set has the atoms of
all profiles, of equal ones the first. Main statement: `builtInSets_ofDatabase`.
-/

namespace PackagePolicy

theorem SpecTree.leavesOf_map_leaf {α : Type} (as : List α) : leavesOf (as.map .leaf) = as := by
  induction as with
  | nil => rfl
  | cons a as ih => rw [List.map_cons, leavesOf, leaves, ih, List.singleton_append]

/-! ### Everything -/

namespace SetScope
variable {s : SetScope}

theorem mem_packageIds_iff {id : PackageId} :
    id ∈ s.packageIds ↔ ∃ r ∈ s.database.repositories, ∃ x ∈ r.releases, x.id = id := by
  simp only [packageIds, Repository.packageIds, List.mem_eraseDups, List.mem_mergeSort, List.mem_flatMap,
    List.mem_map]

theorem leaves_everything :
    s.everything.leaves = s.packageIds.map fun id => .unversioned id.category id.name := by
  have hleaves :=
    SpecTree.leavesOf_map_leaf (s.packageIds.map fun id => Atom.unversioned id.category id.name)
  rw [List.map_map] at hleaves
  exact hleaves

theorem exists_release_of_mem_leaves {a : Atom} (ha : a ∈ s.everything.leaves) :
    ∃ r ∈ s.database.repositories, ∃ x ∈ r.releases, a = .unversioned x.id.category x.id.name := by
  rw [leaves_everything, List.mem_map] at ha
  obtain ⟨id, hid, rfl⟩ := ha
  obtain ⟨r, hr, x, hx, rfl⟩ := mem_packageIds_iff.mp hid
  exact ⟨r, hr, x, hx, rfl⟩

theorem resolve_everything : s.resolve everythingName = .ok s.everything :=
  resolve_eq_ok_iff.mpr ⟨⟨everythingName, by decide⟩, rfl, expand_eq_ok_iff.mpr
    ⟨List.not_mem_nil, .everything, rfl, rfl⟩⟩

/- Sorted, and without a package that is there already. -/
theorem pairwise_packageIds (s : SetScope) : s.packageIds.Pairwise fun a b => a.order b = .lt := by
  rw [packageIds, eraseDups_eq_firstOccurrences]
  have hsorted : ((s.database.repositories.flatMap (·.packageIds)).mergeSort fun a b =>
      (a.order b).isLE).Pairwise fun a b => (a.order b).isLE = true := by
    refine List.pairwise_mergeSort (fun _ _ _ => Std.TransCmp.isLE_trans) (fun a b => ?_) _
    have hswap : b.order a = (a.order b).swap := Std.OrientedCmp.eq_swap
    rw [hswap]
    cases a.order b <;> rfl
  refine ((hsorted.sublist (firstOccurrences_sublist _)).and (pairwise_firstOccurrences _)).imp ?_
  intro a b hab
  cases horder : a.order b with
  | lt => rfl
  | eq => exact absurd (PackageId.order_eq_eq_iff.mp horder) (beq_eq_false_iff_ne.mp hab.2)
  | gt =>
    rw [horder] at hab
    cases hab.1

/-! ### The system -/

theorem leaves_system :
    s.system.leaves = firstOccurrences (s.database.repositories.flatMap (·.system)) :=
  (SpecTree.leavesOf_map_leaf _).trans (foldl_eq_firstOccurrences (fun _ _ => rfl) _)

example : (firstOccurrences (["=a/b-1.0", "a/c", "=a/b-1.00"].filterMap fun s => (Atom.parse s.toList).toOption)).map
    Atom.render = ["=a/b-1.0".toList, "a/c".toList] := by decide +kernel

theorem resolve_system : s.resolve systemName = .ok s.system :=
  resolve_eq_ok_iff.mpr ⟨⟨systemName, by decide⟩, rfl, expand_eq_ok_iff.mpr
    ⟨List.not_mem_nil, .system, rfl, rfl⟩⟩

end SetScope

/-! ### Both sets -/

def Atom.packageId (a : Atom) : PackageId := ⟨a.category, a.name⟩

namespace Database

/-- The atoms are those of the packages of a database: one for each, in strictly ascending order. -/
structure IsEverything (d : Database) (atoms : List Atom) : Prop where
  ascending : atoms.Pairwise fun a b => a.packageId.order b.packageId = .lt
  unversioned : ∀ a ∈ atoms, a = .unversioned a.category a.name
  packages : ∀ id, id ∈ atoms.map (·.packageId) ↔ ∃ r ∈ d.repositories, ∃ e ∈ r.entries, e.id = id

/-- The atoms are those of the profiles of a database: no two of them equal, and the first of equal ones where it
stands when the repositories are read by their ranks. -/
structure IsSystem (d : Database) (atoms : List Atom) : Prop where
  distinct : atoms.Pairwise fun a b => (a == b) = false
  sound : ∀ a ∈ atoms, ∃ r ∈ d.repositories, a ∈ r.system
  complete : ∀ r ∈ d.repositories, ∀ a ∈ r.system, ∃ b ∈ atoms, (a == b) = true
  first : atoms = firstOccurrences (d.repositories.flatMap (·.system))

end Database

namespace SetScope
variable {s : SetScope}

theorem isEverything_leaves (s : SetScope) : s.database.IsEverything s.everything.leaves where
  ascending := by
    rw [leaves_everything, List.pairwise_map]
    exact s.pairwise_packageIds
  unversioned a ha := by
    obtain ⟨r, _, x, _, rfl⟩ := exists_release_of_mem_leaves ha
    rfl
  packages id := by
    have hids : s.everything.leaves.map (·.packageId) = s.packageIds := by
      rw [leaves_everything, List.map_map]
      exact List.map_id _
    rw [hids, mem_packageIds_iff]
    simp only [Repository.entries, List.mem_map, exists_exists_and_eq_and]
    rfl

theorem isSystem_leaves (s : SetScope) : s.database.IsSystem s.system.leaves where
  distinct := by
    rw [leaves_system]
    exact pairwise_firstOccurrences _
  sound a ha := by
    rw [leaves_system] at ha
    exact List.mem_flatMap.mp ((firstOccurrences_sublist _).mem ha)
  complete r hr a ha := by
    have hmem : a ∈ s.database.repositories.flatMap (·.system) := List.mem_flatMap_of_mem hr ha
    rw [leaves_system, ← List.contains_iff_exists_mem_beq, contains_firstOccurrences,
      List.contains_iff_exists_mem_beq]
    exact ⟨a, hmem, BEq.rfl⟩
  first := leaves_system

end SetScope

/- Neither set can be replaced by one of the user or of a repository. -/
theorem Environment.builtInSets_ofDatabase (env : Environment) :
    (∃ tree, env.packageSet "everything".toList = .ok tree ∧ env.database.IsEverything tree.leaves) ∧
      ∃ tree, env.packageSet "system".toList = .ok tree ∧ env.database.IsSystem tree.leaves :=
  ⟨⟨_, SetScope.resolve_everything, env.scope.isEverything_leaves⟩,
    _, SetScope.resolve_system, env.scope.isSystem_leaves⟩

end PackagePolicy
