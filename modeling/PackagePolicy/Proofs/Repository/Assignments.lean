import PackagePolicy.Proofs.Precedence
import PackagePolicy.Proofs.Text.Words
import PackagePolicy.Repository.Assignments

/-!
# Lines of assignments

A value in double quotes is read as it is written, over several lines if it has them, unless it has a
double quote itself (`all_flatMap_line`). A variable has the value of its last line, with one space for every run
of blanks (`value?_isOfLastAssignment`).
-/

namespace PackagePolicy.Assignment
open Text

/-- The text is the name of a variable. -/
structure IsKey (key : Text) : Prop where
  start : (key.head?.map isKeyStart).getD false = true
  char : key.all isKeyChar = true

/-- An assignment of a value in double quotes. -/
def line (key value : Text) : Text := key ++ '=' :: '"' :: (value ++ ['"', '\n'])

variable {key v : Text}

theorem dropWhile_tabs (hkey : IsKey key) (s : Text) :
    (key ++ s).dropWhile (fun c => c == ' ' || c == '\t') = key ++ s := by
  cases key with
  | nil => cases hkey.start
  | cons c key =>
    have hc : (c == ' ' || c == '\t') = false := by
      have hstart := hkey.start
      rw [Bool.or_eq_false_iff, beq_eq_false_iff_ne, beq_eq_false_iff_ne]
      constructor
      · rintro rfl
        cases hstart
      · rintro rfl
        cases hstart
    rw [List.cons_append, List.dropWhile_cons, if_neg (Bool.eq_false_iff.mp hc)]

theorem first?_key_append (hkey : IsKey key) (s : Text) :
    first? (key ++ '=' :: s) = some ((key, (value s).1), (value s).2) := by
  have hstart : ((key ++ '=' :: s).head?.map isKeyStart).getD false = true := by
    cases key with
    | nil => cases hkey.start
    | cons c key => exact hkey.start
  have hchar : ∀ c ∈ key, isKeyChar c = true := List.all_eq_true.mp hkey.char
  have htake : (key ++ '=' :: s).takeWhile isKeyChar = key := by
    rw [List.takeWhile_append_of_pos hchar, List.takeWhile_cons_of_neg (by decide), List.append_nil]
  have hdrop : (key ++ '=' :: s).dropWhile isKeyChar = '=' :: s := by
    rw [List.dropWhile_append_of_pos hchar, List.dropWhile_cons_of_neg (by decide)]
  simp only [first?, dropWhile_tabs hkey, hstart, htake, hdrop, if_true]

theorem value_quoted (hv : '"' ∉ v) (s : Text) : value ('"' :: (v ++ '"' :: s)) = (v, s) := by
  rw [value, cut_append_cons hv]
  rfl

theorem all_line_append (hkey : IsKey key) (hv : '"' ∉ v) (s : Text) :
    all (line key v ++ s) = (key, v) :: all s := by
  have hfirst : first? (line key v ++ s) = some ((key, v), '\n' :: s) := by
    rw [line, List.append_assoc, List.cons_append, List.cons_append, List.append_assoc,
      first?_key_append hkey, List.cons_append, value_quoted hv]
    rfl
  have hafter : cut '\n' (afterFirst (line key v ++ s)) = some ([], s) := by
    rw [afterFirst, hfirst]
    rfl
  rw [all, hfirst]
  split
  next rest hrest =>
    rw [hafter] at hrest
    cases hrest
    rfl
  next hrest =>
    rw [hafter] at hrest
    cases hrest

theorem all_flatMap_line {assignments : List (Text × Text)}
    (h : ∀ a ∈ assignments, IsKey a.1 ∧ '"' ∉ a.2) :
    all (assignments.flatMap fun a => line a.1 a.2) = assignments := by
  induction assignments with
  | nil => rw [List.flatMap_nil, all]; rfl
  | cons a assignments ih =>
    rw [List.forall_mem_cons] at h
    rw [List.flatMap_cons, all_line_append h.1.1 h.1.2, ih h.2]

/-! ### The last assignment of a variable -/

theorem lookup_reverse_eq_some_iff {key value : Text} (assignments : List (Text × Text)) :
    assignments.reverse.lookup key = some value ↔ Stands (· = (key, value)) (·.1 = key) assignments := by
  refine iff_stands (fun l => l.reverse.lookup key = some value) nofun (fun l a => ?_) assignments
  rw [List.reverse_concat, List.lookup_cons]
  by_cases hkey : a.1 = key
  · rw [beq_iff_eq.mpr hkey.symm]
    simp only [Option.some.injEq, Prod.ext_iff, hkey, true_and, not_true_eq_false, and_false, or_false]
  · rw [beq_eq_false_iff_ne.mpr (Ne.symm hkey)]
    simp only [Prod.ext_iff, hkey, false_and, not_false_eq_true, and_true, false_or]

/- What a value holds that looks like an assignment is part of the value, and the assignments behind it are read as
if it were not there. -/
theorem value?_isOfLastAssignment {assignments : List (Text × Text)}
    (h : ∀ a ∈ assignments, IsKey a.1 ∧ '"' ∉ a.2) :
    all (assignments.flatMap fun a => line a.1 a.2) = assignments ∧
      ∀ key v, value? key (assignments.flatMap fun a => line a.1 a.2) = some v ↔
        ∃ written, Stands (· = (key.toList, written)) (·.1 = key.toList) assignments ∧ IsCollapsed written v := by
  have hall := all_flatMap_line h
  refine ⟨hall, fun key v => ?_⟩
  simp only [value?, hall, Option.map_eq_some_iff, lookup_reverse_eq_some_iff, collapse_eq_iff]

/-- A value over several lines, one of which looks like an assignment of the variable before and after it. -/
def nestedAssignments : List (Text × Text) :=
  [("SLOT".toList, "1".toList), ("_x2".toList, " a='b' #\nSLOT=2\n\t c\n".toList),
    ("SLOT".toList, " 3\r\n".toList)]

theorem value?_isOfLastAssignment_nestedAssignments :
    (∀ a ∈ nestedAssignments, IsKey a.1 ∧ '"' ∉ a.2) ∧
      all "SLOT=\"1\"\n_x2=\" a='b' #\nSLOT=2\n\t c\n\"\nSLOT=\" 3\r\n\"\n".toList = nestedAssignments ∧
      value? "SLOT" (nestedAssignments.flatMap fun a => line a.1 a.2) = some "3".toList ∧
      value? "_x2" (nestedAssignments.flatMap fun a => line a.1 a.2) = some "a='b' # SLOT=2 c".toList := by
  have hwritten : ∀ a ∈ nestedAssignments, IsKey a.1 ∧ '"' ∉ a.2 := by
    simp only [nestedAssignments, List.forall_mem_cons]
    exact ⟨⟨⟨by decide, by decide⟩, by decide⟩, ⟨⟨by decide, by decide⟩, by decide⟩,
      ⟨⟨by decide, by decide⟩, by decide⟩, nofun⟩
  obtain ⟨hall, hvalue⟩ := value?_isOfLastAssignment hwritten
  refine ⟨hwritten, hall, (hvalue _ _).mpr ?_, (hvalue _ _).mpr ?_⟩
  · exact ⟨" 3\r\n".toList, ⟨_, _, [], (List.dropLast_append_getLast (by decide)).symm, rfl, nofun⟩,
      collapse_eq_iff.mp (by decide +kernel)⟩
  · exact ⟨" a='b' #\nSLOT=2\n\t c\n".toList, ⟨[_], _, [_], rfl, rfl, by decide +kernel⟩,
      collapse_eq_iff.mp (by decide +kernel)⟩

end PackagePolicy.Assignment
