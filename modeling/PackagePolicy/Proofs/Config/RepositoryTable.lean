import PackagePolicy.Config.RepositoryTable
import PackagePolicy.Result

/-!
# Repository tables

Whatever contents a table takes in, and wherever they are in error, no name is in the table twice, and
the names stand in the order of their sections. Main statement: `names_ofContents`.
-/

namespace PackagePolicy.RepositoryTable
open Text

def names (t : RepositoryTable) : List Text := t.sources.map (·.name)

/-- What a table holds after contents, each seen from a directory, were taken in one by one. Of a
content in error it keeps the sections before the error. -/
def ofContents (contents : List (Text × Text)) : RepositoryTable :=
  contents.foldl (fun t c => (t.addContent c.1 c.2).1) empty

def sectionNames (contents : List (Text × Text)) : List Text :=
  contents.flatMap fun c => (sections c.2).map (·.name)

/-! ### One section -/

section
variable {t t' : RepositoryTable} {base : Text} {s : Section}

theorem has_eq_false_iff {name : Text} : t.has name = false ↔ name ∉ t.names := by
  rw [has, find?, Option.isSome_eq_false_iff, Option.isNone_iff_eq_none, List.find?_eq_none, names,
    List.mem_map]
  simp

theorem add_eq_ok {x : RepositorySource} (h : t.add x = .ok t') :
    x.name ∉ t.names ∧ t' = { t with sources := t.sources ++ [x] } := by
  unfold add at h
  split at h
  · cases h
  next hnew =>
    cases h
    exact ⟨has_eq_false_iff.mp (Bool.eq_false_iff.mpr hnew), rfl⟩

theorem name_of_source {x : RepositorySource} (h : source base s = .ok x) : x.name = s.name := by
  unfold source at h
  split at h
  · cases h
  · dsimp only at h
    split at h
    · cases h
      rfl
    · split at h
      · cases h
        rfl
      · cases h

/- A section is about the main repository, or it adds one of its name. -/
theorem save_cases (h : t.save base s = .ok t') :
    (s.name = "DEFAULT".toList ∧
      t' = { t with mainRepository := (s.value? "main-repo").or t.mainRepository }) ∨
    ∃ x, source base s = .ok x ∧ s.name ∉ t.names ∧ t' = { t with sources := t.sources ++ [x] } := by
  unfold save at h
  split at h
  next hdefault =>
    left
    split at h
    next hmain =>
      cases h
      exact ⟨hdefault, by rw [hmain]; rfl⟩
    next hmain =>
      cases h
      exact ⟨hdefault, by rw [hmain]; rfl⟩
  · right
    obtain ⟨x, hx, h⟩ := exists_of_bind_eq_ok h
    obtain ⟨hnew, ht'⟩ := add_eq_ok h
    rw [name_of_source hx] at hnew
    exact ⟨x, hx, hnew, ht'⟩

end

/-! ### Any number of sections -/

/-- New names stand behind those of before, in the order of `seen`, and none comes twice. -/
structure Grows (seen : List Text) (t t' : RepositoryTable) : Prop where
  names : ∃ new, new.Sublist seen ∧ t'.names = t.names ++ new
  nodup : t.names.Nodup → t'.names.Nodup

namespace Grows
variable {seen seen' : List Text} {t t' t'' : RepositoryTable}

theorem refl (seen : List Text) (t : RepositoryTable) : Grows seen t t where
  names := ⟨[], List.nil_sublist seen, (List.append_nil _).symm⟩
  nodup h := h

theorem trans (h : Grows seen t t') (h' : Grows seen' t' t'') : Grows (seen ++ seen') t t'' where
  names := by
    obtain ⟨new, hnew, hnames⟩ := h.names
    obtain ⟨new', hnew', hnames'⟩ := h'.names
    refine ⟨new ++ new', hnew.append hnew', ?_⟩
    rw [hnames', hnames, List.append_assoc]
  nodup := h'.nodup ∘ h.nodup

end Grows

theorem save_grows {base : Text} {s : Section} {t t' : RepositoryTable} (h : t.save base s = .ok t') :
    Grows [s.name] t t' := by
  rcases save_cases h with ⟨_, rfl⟩ | ⟨x, hx, hnew, rfl⟩
  · have hnames : names { t with mainRepository := (s.value? "main-repo").or t.mainRepository } =
        t.names := rfl
    exact { Grows.refl [s.name] t with nodup := fun h => hnames ▸ h }
  · have hnames : names { t with sources := t.sources ++ [x] } = t.names ++ [s.name] := by
      rw [names, List.map_append, List.map_singleton, name_of_source hx]
      rfl
    refine ⟨⟨[s.name], List.Sublist.refl _, hnames⟩, ?_⟩
    intro hnodup
    rw [hnames, List.nodup_append]
    refine ⟨hnodup, List.nodup_cons.mpr ⟨List.not_mem_nil, List.nodup_nil⟩, ?_⟩
    intro old hold new hnew' heq
    rw [heq, List.mem_singleton.mp hnew'] at hold
    exact hnew hold

theorem saveAll_grows (base : Text) (ss : List Section) (t : RepositoryTable) :
    Grows (ss.map (·.name)) t (saveAll base t ss).1 := by
  induction ss generalizing t with
  | nil => exact .refl _ t
  | cons s ss ih =>
    unfold saveAll
    split
    next t' hsave => exact (save_grows hsave).trans (ih t')
    · exact .refl _ t

theorem foldl_addContent_grows (contents : List (Text × Text)) (t : RepositoryTable) :
    Grows (sectionNames contents) t (contents.foldl (fun t c => (t.addContent c.1 c.2).1) t) := by
  induction contents generalizing t with
  | nil => exact .refl _ t
  | cons c contents ih => exact (saveAll_grows c.1 (sections c.2) t).trans (ih _)

theorem names_ofContents (contents : List (Text × Text)) :
    (ofContents contents).names.Nodup ∧
      (ofContents contents).names.Sublist (sectionNames contents) := by
  have h := foldl_addContent_grows contents empty
  obtain ⟨new, hnew, hnames⟩ := h.names
  have hnames' : (ofContents contents).names = new := hnames
  rw [hnames']
  exact ⟨hnames' ▸ h.nodup List.nodup_nil, hnew⟩

/-! ### Tables from disk -/

theorem eq_of_addText {base content : Text} {t t' : RepositoryTable}
    (h : t.addText base content = .ok t') : t' = (t.addContent base content).1 := by
  unfold addText at h
  split at h
  next t'' hadd =>
    cases h
    rw [hadd]
  · cases h

theorem exists_ofContents_of_load {d : Disk} {path : Text} {t : RepositoryTable}
    (h : load d path = .ok t) : ∃ contents, t = ofContents contents := by
  have hfold (base : Text) (entries : List (Text × FileTree)) (t₀ : RepositoryTable)
      (h : entries.foldlM (fun t e => do addText base (← Disk.entryText e) t) t₀ = .ok t) :
      ∃ contents : List (Text × Text),
        t = contents.foldl (fun t c => (t.addContent c.1 c.2).1) t₀ := by
    induction entries generalizing t₀ with
    | nil =>
      cases h
      exact ⟨[], rfl⟩
    | cons e entries ih =>
      rw [List.foldlM_cons] at h
      obtain ⟨t₁, ht₁, h⟩ := exists_of_bind_eq_ok h
      obtain ⟨content, _, ht₁⟩ := exists_of_bind_eq_ok ht₁
      obtain ⟨contents, hcontents⟩ := ih t₁ h
      rw [eq_of_addText ht₁] at hcontents
      exact ⟨(base, content) :: contents, hcontents⟩
  unfold load at h
  split at h
  · exact hfold _ _ empty h
  · obtain ⟨content, _, h⟩ := exists_of_bind_eq_ok h
    exact ⟨[(_, content)], eq_of_addText h⟩

/-! ### Ranks -/

theorem byPriority_perm (t : RepositoryTable) : t.byPriority.Perm t.sources :=
  List.mergeSort_perm _ _

end PackagePolicy.RepositoryTable
