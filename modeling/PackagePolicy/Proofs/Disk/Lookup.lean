import PackagePolicy.Disk.Basic

/-!
# Names below a path

What a path joined with a name leads to is the entry of that name, whatever the path is (`find?_join`).
-/

namespace PackagePolicy

/-! ### Joined paths -/

namespace Path

/-- A name that an entry of a directory can have. -/
structure IsFileName (name : Text) : Prop where
  ne : name ≠ []
  here : name ≠ ['.']
  above : name ≠ ['.', '.']
  slash : '/' ∉ name

instance (name : Text) : Decidable (IsFileName name) :=
  decidable_of_iff (name ≠ [] ∧ name ≠ ['.'] ∧ name ≠ ['.', '.'] ∧ '/' ∉ name)
    ⟨fun h => ⟨h.1, h.2.1, h.2.2.1, h.2.2.2⟩, fun h => ⟨h.ne, h.here, h.above, h.slash⟩⟩

variable {path name : Text}

theorem IsFileName.isVoid_eq_false (h : IsFileName name) : isVoid name = false := by
  rw [isVoid, Bool.or_eq_false_iff, List.isEmpty_eq_false_iff, beq_eq_false_iff_ne]
  exact ⟨h.ne, h.here⟩

theorem IsFileName.isAbsolute_eq_false (h : IsFileName name) : isAbsolute name = false := by
  rw [isAbsolute, beq_eq_false_iff_ne]
  intro hhead
  exact h.slash (List.mem_of_head? hhead)

/- Where a path is seen from is put before it, whatever is appended to it. -/
theorem exists_join_eq_append (hpath : path ≠ []) (base : Text) :
    ∃ front, ∀ s, join base (path ++ s) = front ++ (path ++ s) := by
  have habsolute (s : Text) : isAbsolute (path ++ s) = isAbsolute path := by
    cases path with
    | nil => exact absurd rfl hpath
    | cons => rfl
  simp only [join, habsolute]
  split
  · exact ⟨[], fun _ => rfl⟩
  · split
    · exact ⟨base, fun _ => rfl⟩
    · exact ⟨base ++ ['/'], fun _ => by rw [List.append_assoc, List.singleton_append]⟩

theorem join_name (hpath : path ≠ []) (hname : IsFileName name) :
    join path name = if path.getLast? = some '/' then path ++ name else path ++ '/' :: name := by
  have hempty : path.isEmpty = false := List.isEmpty_eq_false_iff.mpr hpath
  simp only [join, hname.isAbsolute_eq_false, hempty, Bool.or_self, Bool.false_eq_true, if_false, beq_iff_eq]

theorem join_name_ne_nil (hpath : path ≠ []) (hname : IsFileName name) : join path name ≠ [] := by
  rw [join_name hpath hname]
  split
  · exact List.append_ne_nil_of_left_ne_nil hpath name
  · exact List.append_ne_nil_of_left_ne_nil hpath _

/- The parts of the path are kept, but for an empty one behind a slash at its end. -/
theorem exists_splitOn_join (hpath : path ≠ []) (hname : IsFileName name) (base : Text) :
    ∃ front last, (last = [] ∨ last = [[]]) ∧ (join base path).splitOn '/' = front ++ last ∧
      (join base (join path name)).splitOn '/' = front ++ [name] := by
  obtain ⟨front, hfront⟩ := exists_join_eq_append hpath base
  have hjoin : join base path = front ++ path := by
    have hempty := hfront []
    rwa [List.append_nil] at hempty
  have hsplit : name.splitOn '/' = [name] := List.splitOn_eq_singleton hname.slash
  rw [join_name hpath hname, hjoin]
  split
  next hlast =>
    obtain ⟨body, rfl⟩ := List.getLast?_eq_some_iff.mp hlast
    refine ⟨(front ++ body).splitOn '/', [[]], .inr rfl, ?_, ?_⟩
    · rw [← List.append_assoc, List.splitOn_append_cons_self, List.splitOn_nil]
    · rw [hfront, List.append_assoc, ← List.append_assoc, List.singleton_append,
        List.splitOn_append_cons_self, hsplit]
  · refine ⟨(front ++ path).splitOn '/', [], .inl rfl, (List.append_nil _).symm, ?_⟩
    rw [hfront, ← List.append_assoc, List.splitOn_append_cons_self, hsplit]

end Path

/-! ### Steps -/

namespace FileTree
variable {root : FileTree} {steps : List (Text × FileTree)}

theorem follow_append (ps qs : List Text) :
    follow root steps (ps ++ qs) = (follow root steps ps).bind fun steps => follow root steps qs := by
  induction ps generalizing steps with
  | nil => rfl
  | cons part ps ih =>
    rw [List.cons_append, follow, follow]
    split
    · rfl
    · split
      · exact ih
      · split
        · exact ih
        · split
          · exact ih
          · rfl

theorem follow_name {name : Text} (hname : Path.IsFileName name) :
    (follow root steps [name]).map (atSteps root) = (atSteps root steps).entries.lookup name := by
  rw [follow]
  cases atSteps root steps with
  | file => rfl
  | dir entries =>
    simp only [hname.isVoid_eq_false, Bool.false_eq_true, if_false, hname.above, FileTree.entries]
    cases entries.lookup name <;> rfl

/- Only a directory has an entry, with or without a slash behind its path. -/
theorem follow_last {last : List Text} (hlast : last = [] ∨ last = [[]]) (name : Text) :
    ((follow root steps last).map (atSteps root)).bind (fun t => t.entries.lookup name) =
      (atSteps root steps).entries.lookup name := by
  rcases hlast with rfl | rfl
  · rfl
  · rw [follow]
    cases htree : atSteps root steps with
    | file => rfl
    | dir entries =>
      show (some (atSteps root steps)).bind _ = _
      rw [htree]
      rfl

end FileTree

theorem Disk.find?_join {path name : Text} (hpath : path ≠ []) (hname : Path.IsFileName name) (d : Disk) :
    d.find? (Path.join path name) = (d.find? path).bind fun t => t.entries.lookup name := by
  obtain ⟨front, last, hlast, hparts, hjoined⟩ := Path.exists_splitOn_join hpath hname d.here
  have hne : (Path.join path name).isEmpty = false :=
    List.isEmpty_eq_false_iff.mpr (Path.join_name_ne_nil hpath hname)
  have hempty : path.isEmpty = false := List.isEmpty_eq_false_iff.mpr hpath
  rw [find?, find?, steps?, steps?, hne, hempty, hparts, hjoined]
  simp only [Bool.false_eq_true, if_false, FileTree.follow_append]
  cases FileTree.follow d.root [] front with
  | none => rfl
  | some steps =>
    rw [Option.bind_some, Option.bind_some, FileTree.follow_name hname, FileTree.follow_last hlast]

end PackagePolicy
