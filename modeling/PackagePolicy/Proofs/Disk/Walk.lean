import Mathlib.Logic.Relation
import PackagePolicy.Disk.Walk

/-!
# What a walk reports

A walk asks its test only about what it reports, so that a test about items above the least depth is
never put (`walk_congr`). A walk that keeps everything reports what is below its start between its least
depth and the depth of its last level (`mem_walk_iff`).
-/

namespace PackagePolicy.WalkItem
variable {x y : WalkItem}

/-! ### Items below items -/

/-- The second item is the first one or below it. -/
def Contains : WalkItem → WalkItem → Prop := Relation.ReflTransGen fun x y => y ∈ x.children

theorem contains_iff : x.Contains y ↔ x = y ∨ ∃ z ∈ x.children, z.Contains y :=
  Relation.ReflTransGen.cases_head_iff

theorem mem_children_iff :
    y ∈ x.children ↔ ∃ e ∈ x.tree.entries, y = ⟨x.names ++ [e.1], e.2⟩ := by
  simp only [children, FileTree.sortedEntries, List.mem_map, List.mem_mergeSort, eq_comm]

theorem depth_of_mem_children (h : y ∈ x.children) : y.depth = x.depth + 1 := by
  obtain ⟨e, _, rfl⟩ := mem_children_iff.mp h
  exact List.length_append

theorem Contains.depth_le (h : x.Contains y) : x.depth ≤ y.depth := by
  induction h with
  | refl => exact Nat.le_refl _
  | tail _ hstep ih =>
    rw [depth_of_mem_children hstep]
    exact Nat.le_succ_of_le ih

theorem Contains.exists_names (h : x.Contains y) : ∃ names, y.names = x.names ++ names := by
  induction h with
  | refl => exact ⟨[], (List.append_nil _).symm⟩
  | tail _ hstep ih =>
    obtain ⟨names, hnames⟩ := ih
    obtain ⟨e, _, rfl⟩ := mem_children_iff.mp hstep
    exact ⟨names ++ [e.1], by rw [hnames, List.append_assoc]⟩

theorem eq_of_contains (h : x.Contains y) (hdepth : y.depth ≤ x.depth) : x = y := by
  rcases contains_iff.mp h with heq | ⟨z, hz, hy⟩
  · exact heq
  · have hchild := depth_of_mem_children hz
    have hbelow := hy.depth_le
    omega

theorem exists_entry_of_contains (h : x.Contains y) (hdepth : x.depth < y.depth) :
    ∃ e ∈ x.tree.entries, Contains ⟨x.names ++ [e.1], e.2⟩ y := by
  rcases contains_iff.mp h with rfl | ⟨z, hz, hy⟩
  · exact absurd hdepth (Nat.lt_irrefl _)
  · obtain ⟨e, he, rfl⟩ := mem_children_iff.mp hz
    exact ⟨e, he, hy⟩

theorem contains_of_mem_entries {e : Text × FileTree} (he : e ∈ x.tree.entries)
    (h : Contains ⟨x.names ++ [e.1], e.2⟩ y) : x.Contains y :=
  contains_iff.mpr (.inr ⟨_, mem_children_iff.mpr ⟨e, he, rfl⟩, h⟩)

/-! ### Reports -/

theorem walk_congr {keep keep' : WalkItem → Bool} {least : Nat}
    (h : ∀ x, least ≤ x.depth → keep x = keep' x) (levels : Nat) (x : WalkItem) :
    walk keep least levels x = walk keep' least levels x := by
  induction levels generalizing x with
  | zero =>
    unfold walk
    by_cases hx : least ≤ x.depth
    · rw [h x hx]
    · simp only [hx, decide_false, Bool.false_and]
  | succ levels ih =>
    unfold walk
    rw [funext ih]
    split
    next hx => rw [h x hx]
    · rfl

theorem mem_walk_iff {least levels : Nat} :
    y ∈ walk (fun _ => true) least levels x ↔
      x.Contains y ∧ least ≤ y.depth ∧ y.depth ≤ x.depth + levels := by
  induction levels generalizing x with
  | zero =>
    have hwalk : y ∈ walk (fun _ => true) least 0 x ↔ x = y ∧ least ≤ x.depth := by
      rw [walk, Bool.and_true]
      by_cases hx : least ≤ x.depth <;> simp [hx, eq_comm]
    rw [hwalk]
    constructor
    · intro h
      obtain ⟨rfl, hleast⟩ := h
      exact ⟨.refl, hleast, Nat.le_refl _⟩
    · intro h
      obtain ⟨hy, hleast, hdepth⟩ := h
      cases eq_of_contains hy hdepth
      exact ⟨rfl, hleast⟩
  | succ levels ih =>
    have hwalk : y ∈ walk (fun _ => true) least (levels + 1) x ↔
        x = y ∧ least ≤ x.depth ∨ ∃ z ∈ x.children, y ∈ walk (fun _ => true) least levels z := by
      rw [walk, ← List.mem_flatMap]
      by_cases hx : least ≤ x.depth <;> simp [hx, eq_comm]
    rw [hwalk, contains_iff]
    simp only [ih]
    constructor
    · intro h
      rcases h with ⟨rfl, hleast⟩ | ⟨z, hz, hy, hleast, hdepth⟩
      · exact ⟨.inl rfl, hleast, Nat.le_add_right _ _⟩
      · rw [depth_of_mem_children hz] at hdepth
        refine ⟨.inr ⟨z, hz, hy⟩, hleast, ?_⟩
        omega
    · intro h
      obtain ⟨rfl | ⟨z, hz, hy⟩, hleast, hdepth⟩ := h
      · exact .inl ⟨rfl, hleast⟩
      · refine .inr ⟨z, hz, hy, hleast, ?_⟩
        rw [depth_of_mem_children hz]
        omega

end PackagePolicy.WalkItem
