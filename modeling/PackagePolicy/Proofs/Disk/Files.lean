import Mathlib.Data.List.Induction
import PackagePolicy.Proofs.Disk.Walk
import PackagePolicy.Proofs.Lists

/-!
# Trees of files

What is written to a tree is found where it was written. A walk of such a tree down to one depth reports
the items there in the order of their names (`ascends_walk`), so that it is known as soon as it is known
what the tree holds (`mem_walk_iff_descend?`).
-/

namespace PackagePolicy
namespace FileTree

/-! ### Ways of names -/

/-- What is at the end of a way of names. -/
def descend? : List Text → FileTree → Option FileTree
  | [], t => some t
  | name :: names, t => (t.entries.lookup name).bind (descend? names)

/-- No directory has two entries of one name. -/
inductive HasDistinctNames : FileTree → Prop
  | file (content : Option Text) : HasDistinctNames (.file content)
  | dir {entries : List (Text × FileTree)} (hnames : (entries.map Prod.fst).Nodup)
      (hbelow : ∀ e ∈ entries, HasDistinctNames e.2) : HasDistinctNames (.dir entries)

variable {t : FileTree}

theorem HasDistinctNames.nodup (h : t.HasDistinctNames) : (t.entries.map Prod.fst).Nodup := by
  cases h with
  | file => exact List.nodup_nil
  | dir hnames _ => exact hnames

theorem HasDistinctNames.entry (h : t.HasDistinctNames) {e : Text × FileTree} (he : e ∈ t.entries) :
    e.2.HasDistinctNames := by
  cases h with
  | file => cases he
  | dir _ hbelow => exact hbelow e he

theorem lookup_cons (name : Text) (e : Text × FileTree) (entries : List (Text × FileTree)) :
    (e :: entries).lookup name = if name = e.1 then some e.2 else entries.lookup name := by
  rw [List.lookup_cons]
  by_cases h : name = e.1
  · rw [if_pos h, beq_iff_eq.mpr h]
  · rw [if_neg h, beq_eq_false_iff_ne.mpr h]

theorem mem_of_lookup {entries : List (Text × FileTree)} {name : Text}
    (h : entries.lookup name = some t) : (name, t) ∈ entries := by
  obtain ⟨before, after, rfl, _⟩ := List.lookup_eq_some_iff.mp h
  exact List.mem_append_right _ List.mem_cons_self

theorem lookup_eq_some_iff {entries : List (Text × FileTree)} (hnames : (entries.map Prod.fst).Nodup)
    {name : Text} : entries.lookup name = some t ↔ (name, t) ∈ entries := by
  refine ⟨mem_of_lookup, fun h => ?_⟩
  induction entries with
  | nil => cases h
  | cons e entries ih =>
    rw [List.map_cons, List.nodup_cons] at hnames
    rw [lookup_cons]
    rcases List.mem_cons.mp h with rfl | h
    · rw [if_pos rfl]
    · have hne : name ≠ e.1 := fun heq => hnames.1 (heq ▸ List.mem_map_of_mem h)
      rw [if_neg hne, ih hnames.2 h]

/-! ### Writing -/

theorem lookup_replaceEntry (entries : List (Text × FileTree)) (name m : Text) (t : FileTree) :
    (replaceEntry name t entries).lookup m = if m = name then some t else entries.lookup m := by
  induction entries with
  | nil => rw [replaceEntry, lookup_cons]
  | cons e entries ih =>
    unfold replaceEntry
    split
    next he =>
      rw [lookup_cons, lookup_cons, he]
      split <;> rfl
    next he =>
      rw [lookup_cons, lookup_cons, ih]
      split
      next hm => rw [if_neg (hm ▸ he)]
      · rfl

theorem map_fst_replaceEntry (entries : List (Text × FileTree)) (name : Text) (t : FileTree) :
    (replaceEntry name t entries).map Prod.fst =
      if name ∈ entries.map Prod.fst then entries.map Prod.fst else entries.map Prod.fst ++ [name] := by
  induction entries with
  | nil => rfl
  | cons e entries ih =>
    unfold replaceEntry
    split
    next he => simp only [List.map_cons, he, List.mem_cons, true_or, if_true]
    next he =>
      have hne : name ≠ e.1 := Ne.symm he
      simp only [List.map_cons, ih, List.mem_cons, hne, false_or]
      split <;> rfl

theorem mem_of_mem_replaceEntry {entries : List (Text × FileTree)} {name : Text} {e : Text × FileTree}
    (h : e ∈ replaceEntry name t entries) : e = (name, t) ∨ e ∈ entries := by
  induction entries with
  | nil => exact .inl (List.mem_singleton.mp h)
  | cons x entries ih =>
    unfold replaceEntry at h
    split at h
    · exact (List.mem_cons.mp h).imp_right (List.mem_cons_of_mem x)
    · rcases List.mem_cons.mp h with rfl | h
      · exact .inr List.mem_cons_self
      · exact (ih h).imp_right (List.mem_cons_of_mem x)

theorem HasDistinctNames.getD_lookup (h : t.HasDistinctNames) (name : Text) :
    ((t.entries.lookup name).getD (.dir [])).HasDistinctNames := by
  cases hlookup : t.entries.lookup name with
  | none => exact .dir List.nodup_nil nofun
  | some t' => exact h.entry (mem_of_lookup hlookup)

theorem HasDistinctNames.addFile (h : t.HasDistinctNames) (names : List Text) (content : Option Text) :
    (t.addFile names content).HasDistinctNames := by
  induction names generalizing t with
  | nil => exact .file content
  | cons name names ih =>
    refine .dir ?_ fun e he => ?_
    · rw [map_fst_replaceEntry]
      split
      · exact h.nodup
      next hname =>
        exact (List.perm_append_singleton name _).nodup_iff.mpr (List.nodup_cons.mpr ⟨hname, h.nodup⟩)
    · rcases mem_of_mem_replaceEntry he with rfl | he
      · exact ih (h.getD_lookup name)
      · exact h.entry he

theorem descend?_empty {names : List Text} (h : names ≠ []) : (dir []).descend? names = none := by
  cases names with
  | nil => exact absurd rfl h
  | cons => rfl

theorem descend?_getD_lookup {name : Text} {names : List Text} (h : names ≠ []) :
    ((t.entries.lookup name).getD (.dir [])).descend? names = t.descend? (name :: names) := by
  rw [descend?]
  cases t.entries.lookup name with
  | none => exact descend?_empty h
  | some t' => rfl

/- At the depth of the file, nothing else changes. -/
theorem descend?_addFile {names ms : List Text} (h : ms.length = names.length) (content : Option Text)
    (t : FileTree) :
    (t.addFile names content).descend? ms = if ms = names then some (.file content) else t.descend? ms := by
  induction names generalizing ms t with
  | nil =>
    cases List.length_eq_zero_iff.mp h
    rfl
  | cons name names ih =>
    cases ms with
    | nil => cases h
    | cons m ms =>
      have hlength : ms.length = names.length := Nat.succ.inj h
      rw [addFile, alter, descend?, entries, lookup_replaceEntry]
      by_cases hm : m = name
      · rw [if_pos hm, Option.bind_some]
        refine (ih hlength _).trans ?_
        by_cases hms : ms = names
        · rw [if_pos hms, if_pos (congrArg₂ List.cons hm hms)]
        · -- a way of no names would be the way of the file
          have hne : ms ≠ [] := by
            rintro rfl
            exact hms (List.length_eq_zero_iff.mp hlength.symm).symm
          rw [if_neg hms, if_neg fun h => hms (List.cons.inj h).2, ← hm, descend?_getD_lookup hne]
      · rw [if_neg hm, if_neg fun h => hm (List.cons.inj h).1, descend?]

/-- The tree that has these files, written one after the other. -/
def ofFiles (files : List (List Text × Text)) : FileTree :=
  files.foldl (fun t f => t.addFile f.1 (some f.2)) (.dir [])

theorem ofFiles_concat (files : List (List Text × Text)) (f : List Text × Text) :
    ofFiles (files ++ [f]) = (ofFiles files).addFile f.1 (some f.2) := List.foldl_concat ..

theorem hasDistinctNames_ofFiles (files : List (List Text × Text)) :
    (ofFiles files).HasDistinctNames := by
  induction files using List.reverseRecOn with
  | nil => exact .dir List.nodup_nil nofun
  | append_singleton files f ih =>
    rw [ofFiles_concat]
    exact ih.addFile f.1 (some f.2)

theorem descend?_ofFiles {files : List (List Text × Text)} {ms : List Text} (hms : ms ≠ [])
    (hnames : (files.map Prod.fst).Nodup) (hlength : ∀ f ∈ files, ms.length = f.1.length) :
    (ofFiles files).descend? ms = some t ↔ ∃ f ∈ files, ms = f.1 ∧ t = .file (some f.2) := by
  induction files using List.reverseRecOn with
  | nil =>
    have hempty : (ofFiles []).descend? ms = none := descend?_empty hms
    simp [hempty]
  | append_singleton files f ih =>
    rw [List.map_append, List.nodup_append] at hnames
    rw [List.forall_mem_append, List.forall_mem_singleton] at hlength
    rw [ofFiles_concat, descend?_addFile hlength.2]
    simp only [List.mem_append, List.mem_singleton, or_and_right, exists_or, exists_eq_left]
    by_cases hf : ms = f.1
    · have hnew : ¬ ∃ f' ∈ files, ms = f'.1 ∧ t = .file (some f'.2) := by
        intro h
        obtain ⟨f', hf', hms', _⟩ := h
        exact hnames.2.2 f'.1 (List.mem_map_of_mem hf') f.1 List.mem_cons_self (hms'.symm.trans hf)
      rw [if_pos hf, Option.some.injEq, or_iff_right hnew, and_iff_right hf, eq_comm]
    · rw [if_neg hf, ih hnames.1 hlength.1]
      exact (or_iff_left fun h => hf h.1).symm

theorem isDir_ofFiles {files : List (List Text × Text)} (h : ∀ f ∈ files, f.1 ≠ []) :
    (ofFiles files).isDir = true := by
  induction files using List.reverseRecOn with
  | nil => rfl
  | append_singleton files f ih =>
    rw [List.forall_mem_append, List.forall_mem_singleton] at h
    obtain ⟨name, names, hf⟩ := List.exists_cons_of_ne_nil h.2
    rw [ofFiles_concat, hf]
    rfl

theorem lookup_ofFiles_eq_none {files : List (List Text × Text)} {name : Text}
    (h : ∀ f ∈ files, f.1 ≠ [] ∧ f.1.head? ≠ some name) : (ofFiles files).entries.lookup name = none := by
  induction files using List.reverseRecOn with
  | nil => rfl
  | append_singleton files f ih =>
    rw [List.forall_mem_append, List.forall_mem_singleton] at h
    obtain ⟨first, names, hf⟩ := List.exists_cons_of_ne_nil h.2.1
    have hne : name ≠ first := by
      rintro rfl
      exact h.2.2 (hf ▸ rfl)
    rw [ofFiles_concat, hf, addFile, alter, entries, lookup_replaceEntry, if_neg hne, ih h.1]

end FileTree

/-! ### Walking -/

namespace WalkItem
variable {x y : WalkItem}

theorem exists_descend?_of_contains (h : x.Contains y) (hx : x.tree.HasDistinctNames) :
    ∃ names, y.names = x.names ++ names ∧ x.tree.descend? names = some y.tree := by
  induction h using Relation.ReflTransGen.head_induction_on with
  | refl => exact ⟨[], (List.append_nil _).symm, rfl⟩
  | head hz _ ih =>
    obtain ⟨e, he, rfl⟩ := mem_children_iff.mp hz
    obtain ⟨names, hnames, hdescend⟩ := ih (hx.entry he)
    refine ⟨e.1 :: names, ?_, ?_⟩
    · rw [hnames, List.append_assoc, List.singleton_append]
    · rw [FileTree.descend?, (FileTree.lookup_eq_some_iff hx.nodup).mpr he, Option.bind_some, hdescend]

theorem contains_of_descend? {names : List Text} {t : FileTree} (h : x.tree.descend? names = some t) :
    x.Contains ⟨x.names ++ names, t⟩ := by
  induction names generalizing x with
  | nil =>
    cases h
    rw [List.append_nil]
    exact .refl
  | cons name names ih =>
    obtain ⟨t', hlookup, hdescend⟩ := Option.bind_eq_some_iff.mp h
    refine contains_of_mem_entries (FileTree.mem_of_lookup hlookup) ?_
    have hcontains := ih (x := ⟨x.names ++ [name], t'⟩) hdescend
    rwa [List.append_assoc, List.singleton_append] at hcontains

theorem mem_walk_iff_descend? {t : FileTree} (ht : t.HasDistinctNames) {levels : Nat} :
    y ∈ walk (fun _ => true) levels levels ⟨[], t⟩ ↔
      y.depth = levels ∧ t.descend? y.names = some y.tree := by
  rw [mem_walk_iff, and_comm]
  refine and_congr ?_ ?_
  · have hstart : depth ⟨[], t⟩ = 0 := rfl
    omega
  · constructor
    · intro h
      obtain ⟨names, hnames, hdescend⟩ := exists_descend?_of_contains h ht
      rwa [hnames]
    · intro h
      have hcontains : Contains ⟨[], t⟩ ⟨[] ++ y.names, y.tree⟩ := contains_of_descend? h
      exact hcontains

theorem compare_append_cons {a b : Text} (h : compare a b = .lt) (names l m : List Text) :
    compare (names ++ a :: l) (names ++ b :: m) = .lt := by
  induction names with
  | nil =>
    rw [List.nil_append, List.nil_append, List.compare_cons_cons, h]
    rfl
  | cons name names ih =>
    rw [List.cons_append, List.cons_append, List.compare_cons_cons, Std.ReflOrd.compare_self, ih]
    rfl

/- Items below different entries are in the order of these entries. -/
theorem ascends_walk (hx : x.tree.HasDistinctNames) (levels : Nat) :
    Ascends names (walk (fun _ => true) (x.depth + levels) levels x) := by
  induction levels generalizing x with
  | zero =>
    rw [walk]
    split
    · exact List.pairwise_singleton _ _
    · exact .nil
  | succ levels ih =>
    have hleast : ¬ x.depth + (levels + 1) ≤ x.depth := by omega
    rw [walk, if_neg hleast, Ascends, List.pairwise_flatMap]
    constructor
    · intro z hz
      obtain ⟨e, he, rfl⟩ := mem_children_iff.mp hz
      have hbelow := ih (x := ⟨x.names ++ [e.1], e.2⟩) (hx.entry he)
      rwa [depth_of_mem_children hz, Nat.add_assoc, Nat.add_comm 1] at hbelow
    · rw [children, List.pairwise_map]
      refine (ascends_mergeSort hx.nodup).imp ?_
      intro e e' hlt y hy z hz
      obtain ⟨l, hl⟩ := (mem_walk_iff.mp hy).1.exists_names
      obtain ⟨m, hm⟩ := (mem_walk_iff.mp hz).1.exists_names
      rw [hl, hm, List.append_assoc, List.append_assoc]
      exact compare_append_cons hlt _ _ _

end WalkItem
end PackagePolicy
