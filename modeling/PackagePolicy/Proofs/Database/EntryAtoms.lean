import PackagePolicy.Proofs.Atom.Spelling
import PackagePolicy.Proofs.Database.Queries

/-!
# Atoms of single entries

The text of an entry behind an equals sign is read as an atom, if no name in it has a mark that means something
there. The atom asks for the version in the repository of the entry, and equal versions of a package are one
entry of it, so that a query finds this entry and no other. Main statement: `IsMadeOf.query_parse_render`.
-/

namespace PackagePolicy
open Text

/-! ### Plain names -/

/-- Marks that mean something in the names of an atom or end them. -/
def atomMarks : List Char := ['*', '?', '/', ':', '[']

/-- The name stands for itself in an atom. -/
structure IsPlainName (s : Text) : Prop where
  ne : s ≠ []
  marks : ∀ c ∈ atomMarks, c ∉ s
  blanks : ∀ c ∈ s, isBlank c = false

section
variable {s t : Text}

theorem isPlainName_iff :
    IsPlainName s ↔ s ≠ [] ∧ (s.all fun c => !atomMarks.contains c && !isBlank c) = true := by
  simp only [List.all_eq_true, Bool.and_eq_true, Bool.not_eq_true', List.contains_eq_mem,
    decide_eq_false_iff_not, forall_and]
  constructor
  · intro h
    exact ⟨h.ne, fun c hc hmark => h.marks c hmark hc, h.blanks⟩
  · intro h
    obtain ⟨hne, hmarks, hblanks⟩ := h
    exact ⟨hne, fun c hmark hc => hmarks c hc hmark, hblanks⟩

instance : Decidable (IsPlainName s) := decidable_of_iff' _ isPlainName_iff

theorem IsPlainName.isMatch_iff (h : IsPlainName s) : Glob.isMatch s t = true ↔ s = t := by
  have hpattern : Glob.isPattern s = false := by
    refine List.any_eq_false.mpr fun c hc => ?_
    rw [Bool.or_eq_true, Bool.or_eq_true, beq_iff_eq, beq_iff_eq, beq_iff_eq]
    rintro ((rfl | rfl) | rfl) <;> exact h.marks _ (by decide) hc
  rw [Glob.isMatch, hpattern, if_neg Bool.false_ne_true, beq_iff_eq]

theorem IsPlainName.notMem (h : IsPlainName s) : ∀ c ∈ ['/', ':', '['], c ∉ s :=
  fun c hc => h.marks c (List.mem_cons_of_mem _ (List.mem_cons_of_mem _ hc))

end

namespace Entry

/-- No part of the text of the entry means more in an atom than in the entry. -/
structure IsPlain (e : Entry) : Prop where
  category : IsPlainName e.id.category
  name : IsPlainName e.id.name
  repository : IsPlainName e.repository
  version : startsWithDigit e.version.text = true

/-- The atom that asks for the version in the repository of the entry. -/
def toAtom (e : Entry) : Atom where
  operator := .equal
  category := e.id.category
  name := e.id.name
  version := some e.version
  slot := none
  subslot := none
  repository := some e.repository
  useDeps := []

variable {e e' : Entry}

/-! ### Reading -/

theorem IsPlain.isRead_toAtom (h : e.IsPlain) : e.toAtom.IsRead where
  category_ne := h.category.ne
  name_ne := h.name.ne
  category := h.category.notMem
  name := h.name.notMem
  operator _ _ := rfl
  version := by
    have hsplit := (splitNameVersion_text_iff isBlanks_nil).mpr ⟨h.name.ne, h.version⟩
    rw [List.append_nil] at hsplit
    have hoperator : Operator.equal ≠ .any := by decide
    exact ⟨hoperator, hsplit⟩
  slot _ hslot := absurd hslot (Option.not_mem_none _)
  subslot _ := rfl
  repository := by
    show ¬ [':', ':'] <:+: [':']
    decide
  limits := by
    show '[' ∉ ':' :: ':' :: e.repository
    simp [h.repository.marks '[' (by decide)]
  useDeps := List.forall_mem_nil _
  bracket hne := absurd rfl hne

theorem spells_toAtom (e : Entry) : e.toAtom.Spells ('=' :: e.render) := by
  refine ⟨[], [], isBlanks_nil, .absent, ?_⟩
  simp [render, PackageId.render, toAtom, Operator.render, Atom.body, Atom.limits, Atom.renderSlot,
    Atom.renderPart, Atom.star, Atom.versionPart]

theorem IsPlain.parse_render (h : e.IsPlain) : Atom.parse ('=' :: e.render) = .ok e.toAtom := by
  have htrimmed : IsTrimmed ('=' :: e.render) := by
    constructor
    · rintro c ⟨⟩
      decide
    · intro c hc
      have hlast : ('=' :: e.render).getLast? = e.repository.getLast? := by
        rw [render, ← List.cons_append, List.getLast?_append_of_ne_nil _ h.repository.ne]
      exact h.repository.blanks c (List.mem_of_getLast? (hlast ▸ hc))
  refine Atom.parse_of_spells h.isRead_toAtom e.spells_toAtom (fun _ => rfl) ?_
  rw [trim_of_isTrimmed htrimmed, List.append_nil]

/-! ### Matching -/

theorem IsPlain.isMatch_toAtom_iff (h : e.IsPlain) (r : Repository) :
    e.toAtom.isMatch (r.candidate e') = true ↔ (e' == e) = true := by
  have hnamed : e.toAtom.isNamed e'.id.category e'.id.name = true ↔ e'.id = e.id := by
    rw [Atom.isNamed, Bool.and_eq_true, toAtom, h.category.isMatch_iff, h.name.isMatch_iff, eq_comm,
      eq_comm (a := e.id.name), ← PackageId.mk.injEq]
  rw [Atom.isMatch_iff, beq_iff]
  constructor
  · intro hmatch
    obtain ⟨hadmits, hversion⟩ := hmatch
    exact ⟨hnamed.mp hadmits.named, Version.beq_iff.mp hversion,
      Option.some.inj (hadmits.repository e.repository rfl)⟩
  · intro hequal
    obtain ⟨hid, hversion, hrepository⟩ := hequal
    refine ⟨⟨hnamed.mpr hid, ?_, fun _ hslot => absurd hslot (Option.not_mem_none _)⟩,
      Version.beq_iff.mpr hversion⟩
    rintro _ ⟨⟩
    exact congrArg some hrepository

end Entry

namespace Database
variable {rs : List Repository} {d : Database} {e : Entry}

/- The names may hold dashes and digits wherever they like, and the version any of its spellings. -/
theorem IsMadeOf.query_parse_render (h : IsMadeOf rs d) (he : e ∈ d.entries) (hplain : e.IsPlain) :
    ∃ a, Atom.parse ('=' :: e.render) = .ok a ∧ d.query a = [e] := by
  refine ⟨e.toAtom, hplain.parse_render, ?_⟩
  obtain ⟨r, hr, hentry⟩ := List.mem_flatMap.mp he
  have hmem : e ∈ d.query e.toAtom :=
    mem_query_iff.mpr ⟨r, hr, hentry, (hplain.isMatch_toAtom_iff r).mpr e.beq_self⟩
  refine eq_singleton_of_pairwise (h.pairwise_query e.toAtom) hmem fun e' he' => ?_
  obtain ⟨r', _, _, hmatch⟩ := mem_query_iff.mp he'
  have hequal := (hplain.isMatch_toAtom_iff r').mp hmatch
  rw [hequal, Entry.beq_symm hequal]
  decide

/- The version is equal to one that is in another repository, and begins the text of a greater one. -/
theorem query_parse_render_layeredDatabase :
    ∃ e ∈ layeredDatabase.entries, e.render = "dev-libs/lib2-3d-1.0::main".toList ∧
      ∃ a, Atom.parse "=dev-libs/lib2-3d-1.0::main".toList = .ok a ∧ layeredDatabase.query a = [e] := by
  have hentry : ∃ e ∈ layeredDatabase.entries, e.render = "dev-libs/lib2-3d-1.0::main".toList ∧
      IsPlainName e.id.category ∧ IsPlainName e.id.name ∧ IsPlainName e.repository ∧
        startsWithDigit e.version.text = true := by decide +kernel
  obtain ⟨e, he, hrender, hcategory, hname, hrepository, hversion⟩ := hentry
  have hplain : e.IsPlain := ⟨hcategory, hname, hrepository, hversion⟩
  have hquery := isMadeOf_layeredDatabase.query_parse_render he hplain
  rw [hrender] at hquery
  exact ⟨e, he, hrender, hquery⟩

end Database
end PackagePolicy
