import PackagePolicy.PackageSet
import PackagePolicy.Proofs.FirstOccurrences
import PackagePolicy.Proofs.Precedence
import PackagePolicy.Proofs.Text.Cuts

/-!
# Tables of package sets

A table that sets were put into has the last set of each name, and its names are in the order in which they first
came. A lookup leaves out one `@` at the front of a name and an insertion does not, so that a set is found under its
own name exactly if that name does not begin with `@`. Main statement: `ofInsertions_looksUpLast`.
-/

namespace PackagePolicy

theorem PackageSet.name_addLine (s : PackageSet) (line : Text) : (s.addLine line).name = s.name := by
  unfold addLine
  split
  · rfl
  · rfl
  · rfl
  · split
    · unfold add
      split <;> rfl
    · rfl

/- Nothing in its file renames a set. -/
theorem PackageSet.name_parse (name content : Text) : (parse name content).name = name := by
  have hfold (lines : List Text) (s : PackageSet) : (lines.foldl addLine s).name = s.name := by
    induction lines generalizing s with
    | nil => rfl
    | cons line lines ih => rw [List.foldl_cons, ih, name_addLine]
  exact hfold _ _

namespace SetTable
open Text
variable {t : SetTable} {s : PackageSet} {sets : List PackageSet} {name : Text}

/-! ### One insertion -/

theorem find?_cons (x : PackageSet) (sets : List PackageSet) (name : Text) :
    find? ⟨x :: sets⟩ name = if x.name = name then some x else find? ⟨sets⟩ name := by
  rw [find?, List.find?_cons]
  by_cases h : x.name = name
  · rw [if_pos h, beq_iff_eq.mpr h]
  · rw [if_neg h, beq_eq_false_iff_ne.mpr h]
    rfl

theorem find?_insertInto (s : PackageSet) (sets : List PackageSet) (name : Text) :
    find? ⟨insertInto s sets⟩ name = if s.name = name then some s else find? ⟨sets⟩ name := by
  induction sets with
  | nil => exact find?_cons s [] name
  | cons x sets ih =>
    rw [insertInto, find?_cons]
    split
    next hx =>
      rw [find?_cons, hx]
      split <;> rfl
    next hx =>
      rw [find?_cons, ih]
      by_cases h : x.name = name
      · rw [if_pos h, if_neg fun hs => hx (h.trans hs.symm), if_pos h]
      · rw [if_neg h, if_neg h]

theorem find?_insert (t : SetTable) (s : PackageSet) (name : Text) :
    (t.insert s).find? name = if s.name = name then some s else t.find? name :=
  find?_insertInto s t.sets name

/- A set that takes the place of another of its name leaves the names as they are. -/
theorem map_name_insertInto (s : PackageSet) (sets : List PackageSet) :
    (insertInto s sets).map (·.name) =
      if s.name ∈ sets.map (·.name) then sets.map (·.name) else sets.map (·.name) ++ [s.name] := by
  induction sets with
  | nil => rfl
  | cons x sets ih =>
    rw [insertInto]
    by_cases hx : x.name = s.name
    · simp [hx]
    · simp only [if_neg hx, List.map_cons, ih, List.mem_cons, Ne.symm hx, false_or]
      split <;> rfl

theorem names_insert (t : SetTable) (s : PackageSet) :
    (t.insert s).names = if s.name ∈ t.names then t.names else t.names ++ [s.name] :=
  map_name_insertInto s t.sets

/-! ### Any number of insertions -/

/-- The table after these sets were put into it one after the other. -/
def ofInsertions (sets : List PackageSet) : SetTable := sets.foldl (fun t s => t.insert s) .empty

/-- The set is the last of those that have this name. -/
def IsLastOf (sets : List PackageSet) (name : Text) (s : PackageSet) : Prop :=
  Stands (fun x => x.name = name ∧ x = s) (fun x => x.name = name) sets

theorem IsLastOf.name_eq (h : IsLastOf sets name s) : s.name = name := by
  obtain ⟨_, _, _, _, ⟨hname, rfl⟩, _⟩ := h
  exact hname

theorem exists_isLastOf_iff : (∃ s, IsLastOf sets name s) ↔ name ∈ sets.map (·.name) := by
  induction sets using List.reverseRecOn with
  | nil => exact iff_of_false (fun h => not_stands_nil h.choose_spec) List.not_mem_nil
  | append_singleton sets x ih =>
    simp only [IsLastOf, stands_concat_iff, List.map_append, List.map_singleton, List.mem_append,
      List.mem_singleton, ← ih, exists_or]
    by_cases hx : x.name = name
    · simp [hx]
    · simp [hx, Ne.symm hx]

theorem find?_ofInsertions_eq_some_iff :
    (ofInsertions sets).find? name = some s ↔ IsLastOf sets name s := by
  apply foldl_iff_stands (fun (t : SetTable) x => t.insert x) (fun t => t.find? name = some s)
  · nofun
  · intro t x
    rw [find?_insert]
    by_cases hx : x.name = name <;> simp [hx]

theorem find?_ofInsertions_eq_none_iff :
    (ofInsertions sets).find? name = none ↔ name ∉ sets.map (·.name) := by
  rw [← exists_isLastOf_iff, Option.eq_none_iff_forall_not_mem]
  simp only [Option.mem_def, find?_ofInsertions_eq_some_iff, not_exists]

theorem names_ofInsertions (sets : List PackageSet) :
    (ofInsertions sets).names = firstOccurrences (sets.map (·.name)) := by
  rw [← foldl_eq_firstOccurrences (fun _ _ => rfl), List.foldl_map]
  refine (List.foldl_hom names fun t x => ?_).symm
  simp only [names_insert, List.contains_iff_mem]

theorem mem_names_ofInsertions : name ∈ (ofInsertions sets).names ↔ name ∈ sets.map (·.name) := by
  rw [names_ofInsertions, ← List.contains_iff_mem, contains_firstOccurrences, List.contains_iff_mem]

/-! ### Lookup -/

theorem has_iff {t : SetTable} : t.has name = true ↔ ∃ s, t.get? name = some s := Option.isSome_iff_exists

/- Under a name that begins with `@` a lookup finds the set of another name, if any. -/
theorem get?_eq_some_iff_of_isLastOf (h : IsLastOf sets name s) :
    (ofInsertions sets).get? name = some s ↔ name.head? ≠ some '@' := by
  constructor
  · intro hget hat
    obtain ⟨rest, rfl⟩ := List.head?_eq_some_iff.mp hat
    rw [get?, dropLead_cons, find?_ofInsertions_eq_some_iff] at hget
    have hlength := congrArg List.length (hget.name_eq.symm.trans h.name_eq)
    rw [List.length_cons] at hlength
    omega
  · intro hplain
    rw [get?, dropLead_of_head?_ne hplain, find?_ofInsertions_eq_some_iff]
    exact h

/- Every name that was put in finds its last set, unless it begins with `@`: one `@` is left out when a name is looked
up, but not when a set is put in. -/
theorem ofInsertions_looksUpLast (sets : List PackageSet) :
    (∀ name s, (ofInsertions sets).get? name = some s ↔ IsLastOf sets (dropLead '@' name) s) ∧
      (∀ name ∈ sets.map (·.name), ∃ s, IsLastOf sets name s ∧
        ((ofInsertions sets).get? name = some s ↔ name.head? ≠ some '@')) ∧
      (∀ name ∉ sets.map (·.name), name.head? ≠ some '@' → (ofInsertions sets).get? name = none) ∧
      (∀ name, (ofInsertions sets).has name = true ↔ ∃ s, (ofInsertions sets).get? name = some s) ∧
      (ofInsertions sets).names = firstOccurrences (sets.map (·.name)) := by
  refine ⟨fun name s => find?_ofInsertions_eq_some_iff, ?_, ?_, fun name => has_iff, names_ofInsertions sets⟩
  · intro name hname
    obtain ⟨s, hs⟩ := exists_isLastOf_iff.mpr hname
    exact ⟨s, hs, get?_eq_some_iff_of_isLastOf hs⟩
  · intro name hname hplain
    rw [get?, dropLead_of_head?_ne hplain]
    exact find?_ofInsertions_eq_none_iff.mpr hname

/-- Two sets of one name, and between them one whose own name begins with `@`. -/
def editorSets : List PackageSet :=
  [⟨"editors".toList, [], ["vi".toList]⟩, ⟨"@editors".toList, [], []⟩, ⟨"editors".toList, [], ["emacs".toList]⟩]

theorem ofInsertions_looksUpLast_editorSets :
    ("editors".toList ∈ editorSets.map (·.name) ∧ "tools".toList ∉ editorSets.map (·.name)) ∧
      (∃ s, IsLastOf editorSets "editors".toList s ∧
        (ofInsertions editorSets).get? "editors".toList = some s) ∧
      (ofInsertions editorSets).get? "tools".toList = none ∧
      (ofInsertions editorSets).names = ["editors".toList, "@editors".toList] := by
  have heditors : "editors".toList ∈ editorSets.map (·.name) := by decide
  have htools : "tools".toList ∉ editorSets.map (·.name) := by decide
  have hnames : firstOccurrences (editorSets.map (·.name)) = ["editors".toList, "@editors".toList] := by decide
  obtain ⟨_, hlast, hnone, _, hlisted⟩ := ofInsertions_looksUpLast editorSets
  obtain ⟨s, hs, hget⟩ := hlast _ heditors
  exact ⟨⟨heditors, htools⟩, ⟨s, hs, hget.mpr (by decide)⟩, hnone _ htools (by decide), hlisted.trans hnames⟩

theorem get?_ofInsertions_eq_none_of_at :
    ∃ sets name, name ∈ (ofInsertions sets).names ∧ (ofInsertions sets).has name = false :=
  ⟨[⟨"@editors".toList, [], []⟩], "@editors".toList, by decide, by decide⟩

end SetTable
end PackagePolicy
