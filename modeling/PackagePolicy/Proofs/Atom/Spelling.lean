import PackagePolicy.Proofs.Atom.Cuts
import PackagePolicy.Proofs.Atom.UseDep

/-!
# Spellings of atoms

An atom is written with blanks behind its version and in its list of USE dependencies, and with `!` or
`-` there. Main statements: an atom is read from its spellings and from these with any text behind the
closing bracket (`parse_eq_ok_iff_spells`), and an atom that is read at all is read from the text that
is written for it (`parse_render_of_parse`).
-/

namespace PackagePolicy

/-! ### Lists of USE dependencies -/

namespace UseDep
open Text

/-- The dependency can be told from its neighbours in a list and from the end of the list. -/
structure IsListed (d : UseDep) : Prop where
  isRead : d.IsRead
  comma : ',' ∉ d.flag
  bracket : ']' ∉ d.flag

theorem parse_eq_ok_iff_isListed {w : Text} {d : UseDep} :
    (',' ∉ w ∧ ']' ∉ w) ∧ parse w = .ok d ↔ d.IsListed ∧ d.Spells w := by
  rw [parse_eq_ok_iff]
  constructor
  · intro h
    obtain ⟨⟨hcomma, hbracket⟩, hread, hspells⟩ := h
    have hcomma := (notMem_iff_of_spells hspells (by decide) (by decide)).mp hcomma
    have hbracket := (notMem_iff_of_spells hspells (by decide) (by decide)).mp hbracket
    exact ⟨⟨hread, hcomma, hbracket⟩, hspells⟩
  · intro h
    obtain ⟨⟨hread, hcomma, hbracket⟩, hspells⟩ := h
    have hcomma := (notMem_iff_of_spells hspells (by decide) (by decide)).mpr hcomma
    have hbracket := (notMem_iff_of_spells hspells (by decide) (by decide)).mpr hbracket
    exact ⟨⟨hcomma, hbracket⟩, hread, hspells⟩

theorem forall₂_parse_iff {words : List Text} {deps : List UseDep} :
    ((∀ w ∈ words, ',' ∉ w ∧ ']' ∉ w) ∧ List.Forall₂ (fun w d => parse w = .ok d) words deps) ↔
      (∀ d ∈ deps, d.IsListed) ∧ List.Forall₂ Spells deps words := by
  rw [← List.forall₂_and_left, ← List.forall₂_and_left]
  exact ⟨fun h => .flip (h.imp fun _ _ => parse_eq_ok_iff_isListed.mp),
    fun h => .flip (h.imp fun _ _ => parse_eq_ok_iff_isListed.mpr)⟩

/- Between the brackets there are spellings of the dependencies, joined by commas. -/
theorem mapM_parse_iff {inside : Text} {deps : List UseDep} :
    ']' ∉ inside ∧ (inside.splitOn ',').mapM parse = .ok deps ↔
      deps ≠ [] ∧ (∀ d ∈ deps, d.IsListed) ∧
        ∃ words, List.Forall₂ Spells deps words ∧ inside = join [','] words := by
  rw [mapM_eq_ok_iff]
  constructor
  · intro h
    obtain ⟨hbracket, hparse⟩ := h
    have hwords : ∀ w ∈ inside.splitOn ',', ',' ∉ w ∧ ']' ∉ w := by
      intro w hw
      have hmem := mem_of_mem_splitOnP hw
      refine ⟨fun hc => ?_, fun hc => hbracket (hmem _ hc).1⟩
      cases (hmem _ hc).2
    obtain ⟨hlisted, hspells⟩ := forall₂_parse_iff.mp ⟨hwords, hparse⟩
    refine ⟨?_, hlisted, inside.splitOn ',', hspells, (join_splitOn ',' inside).symm⟩
    rintro rfl
    exact List.splitOn_ne_nil ',' inside (List.forall₂_nil_right_iff.mp hparse)
  · intro h
    obtain ⟨hne, hlisted, words, hspells, rfl⟩ := h
    obtain ⟨hwords, hparse⟩ := forall₂_parse_iff.mpr ⟨hlisted, hspells⟩
    have hne' : words ≠ [] := by
      rintro rfl
      exact hne (List.forall₂_nil_right_iff.mp hspells)
    rw [splitOn_join (fun w hw => (hwords w hw).1) hne']
    refine ⟨fun hc => ?_, hparse⟩
    rcases mem_of_mem_join hc with hc | ⟨w, hw, hc⟩
    · cases List.mem_singleton.mp hc
    · exact (hwords w hw).2 hc

end UseDep

/-! ### Atoms -/

namespace Atom
open Text

/-- Category, name, version and star, with blanks behind the version. -/
def body (a : Atom) (gap : Text) : Text :=
  a.category ++ '/' :: (a.name ++ versionPart a.version gap) ++ star a.operator

/-- The restrictions to a slot and to a repository. -/
def limits (a : Atom) : Text := a.renderSlot ++ renderPart [':', ':'] a.repository

/-- The bracketed list of USE dependencies; without dependencies there are no brackets either. -/
inductive SpellsUse : List UseDep → Text → Prop
  | absent : SpellsUse [] []
  | listed {deps : List UseDep} {words : List Text} (hne : deps ≠ [])
      (hspells : List.Forall₂ UseDep.Spells deps words) :
      SpellsUse deps ('[' :: (join [','] words ++ [']']))

/-- The text is a written form of the atom. -/
def Spells (a : Atom) (w : Text) : Prop :=
  ∃ gap use, IsBlanks gap ∧ SpellsUse a.useDeps use ∧
    w = a.operator.render ++ (a.body gap ++ a.limits ++ use)

/-- No part of the atom is cut in another place than where it ends. -/
structure IsRead (a : Atom) : Prop where
  category_ne : a.category ≠ []
  name_ne : a.name ≠ []
  category : ∀ c ∈ ['/', ':', '['], c ∉ a.category
  name : ∀ c ∈ ['/', ':', '['], c ∉ a.name
  operator : ∀ c ∈ a.category.head?, a.operator.mayPrecede c = true
  version : VersionIsRead a.operator a.name a.version
  slot : ∀ slot ∈ a.slot, '/' ∉ slot
  subslot : a.slot = none → a.subslot = none
  repository : ¬ [':', ':'] <:+: a.renderSlot ++ (if a.repository.isSome then [':'] else [])
  limits : '[' ∉ a.limits
  useDeps : ∀ d ∈ a.useDeps, d.IsListed
  bracket : a.useDeps ≠ [] → ']' ∉ a.category ∧ ']' ∉ a.name ∧ ']' ∉ a.limits

variable {a : Atom} {s w gap use : Text}

/-! ### Characters -/

theorem notMem_versionPart {c : Char} (hversion : Version.isVersionChar c = false)
    (hblank : isBlank c = false) (hgap : IsBlanks gap) (version : Option Version) :
    c ∉ versionPart version gap := by
  cases version with
  | none => exact List.not_mem_nil
  | some v =>
    have hdash : c ≠ '-' := by
      rintro rfl
      cases hversion
    rw [versionPart, List.mem_append, List.mem_cons]
    intro h
    rcases h with (hc | hc) | hc
    · exact hdash hc
    · exact Version.notMem_text hversion v hc
    · exact Bool.eq_false_iff.mp hblank (hgap c hc)

/-- A body has the character at most in its category and its name. -/
def isForeign (c : Char) : Bool := !Version.isVersionChar c && !isBlank c && c != '/' && c != '*'

theorem notMem_body_iff {c : Char} (hc : isForeign c = true) (hgap : IsBlanks gap) :
    c ∉ a.body gap ↔ c ∉ a.category ∧ c ∉ a.name := by
  simp only [isForeign, Bool.and_eq_true, Bool.not_eq_true', bne_iff_ne] at hc
  obtain ⟨⟨⟨hversion, hblank⟩, hslash⟩, hstar⟩ := hc
  have hpart := notMem_versionPart hversion hblank hgap a.version
  have hstar : c ∉ star a.operator := by
    unfold star
    split
    · exact mt List.mem_singleton.mp hstar
    · exact List.not_mem_nil
  simp only [body, List.mem_append, List.mem_cons, hslash, hpart, hstar, or_false, false_or, not_or]

theorem head?_body_append (hne : a.category ≠ []) (gap rest : Text) :
    (a.body gap ++ rest).head? = a.category.head? := by
  rw [body, List.append_assoc, List.append_assoc, List.head?_append_of_ne_nil _ hne]

/-! ### From the cuts to the spelling -/

theorem Cuts.exists_body (cuts : Cuts s a) :
    ∃ gap, IsBlanks gap ∧ cuts.beforeSlot = a.body gap ∧ cuts.beforeUse = a.body gap ++ a.limits := by
  obtain ⟨_, gap, hgap, hversion⟩ := splitVersion_eq_ok_iff.mp cuts.version
  obtain ⟨hcategory, _⟩ := cut_eq_some_iff.mp cuts.category
  obtain ⟨_, hstar, _⟩ := (splitStar_eq_iff a.operator.withoutStar_ne_textStart).mp cuts.star
  obtain ⟨hslot, _⟩ := splitSlot_eq_iff.mp cuts.slot
  obtain ⟨hrepository, _⟩ := splitRepository_eq_iff.mp cuts.repository
  have hbody : cuts.beforeSlot = a.body gap := by rw [hstar, hcategory, hversion, body]
  refine ⟨gap, hgap, hbody, ?_⟩
  rw [hrepository, hslot, hbody, limits, List.append_assoc]

theorem Cuts.spells (cuts : Cuts s a) :
    ∃ w tail, s = w ++ tail ∧ a.Spells w ∧ (a.useDeps = [] → tail = []) := by
  obtain ⟨gap, hgap, _, hbefore⟩ := cuts.exists_body
  obtain ⟨_, hoperator, _⟩ := splitOperator_eq_iff.mp cuts.operator
  rw [Operator.render_withoutStar] at hoperator
  rcases splitUse_eq_ok_iff.mp cuts.use with ⟨_, hnil, huse⟩ |
    ⟨inside, tail, huse, _, _, hbracket, hdeps⟩
  · have hspells : SpellsUse a.useDeps [] := hnil ▸ .absent
    refine ⟨s, [], (List.append_nil s).symm, ⟨gap, [], hgap, hspells, ?_⟩, fun _ => rfl⟩
    rw [hoperator, huse, hbefore, List.append_nil]
  · obtain ⟨hne, _, words, hspells, rfl⟩ := UseDep.mapM_parse_iff.mp ⟨hbracket, hdeps⟩
    refine ⟨_, tail, ?_, ⟨gap, _, hgap, .listed hne hspells, rfl⟩, fun hnil => absurd hnil hne⟩
    rw [hoperator, huse, hbefore]
    simp only [List.append_assoc, List.cons_append, List.nil_append]

theorem Cuts.notMem_beforeUse (cuts : Cuts s a) :
    '[' ∉ cuts.beforeUse ∧ (a.useDeps ≠ [] → ']' ∉ cuts.beforeUse) ∧ ∀ d ∈ a.useDeps, d.IsListed := by
  rcases splitUse_eq_ok_iff.mp cuts.use with ⟨hopen, hnil, huse⟩ |
    ⟨inside, tail, _, hopen, hclosed, hbracket, hdeps⟩
  · rw [hnil]
    exact ⟨huse ▸ hopen, fun hne => absurd rfl hne, nofun⟩
  · obtain ⟨_, hlisted, _⟩ := UseDep.mapM_parse_iff.mp ⟨hbracket, hdeps⟩
    exact ⟨hopen, fun _ => hclosed, hlisted⟩

theorem Cuts.head?_afterOperator (cuts : Cuts s a) :
    cuts.afterOperator.head? = a.category.head? := by
  obtain ⟨gap, _, _, hbefore⟩ := cuts.exists_body
  rcases splitUse_eq_ok_iff.mp cuts.use with ⟨_, _, huse⟩ | ⟨inside, tail, huse, _⟩
  · rw [huse, hbefore, head?_body_append cuts.category_ne]
  · rw [huse, hbefore, List.append_assoc, head?_body_append cuts.category_ne]

theorem Cuts.isRead (cuts : Cuts s a) : a.IsRead := by
  obtain ⟨gap, hgap, hbody, hbefore⟩ := cuts.exists_body
  obtain ⟨hopen, hclosed, hlisted⟩ := cuts.notMem_beforeUse
  obtain ⟨_, _, hoperator⟩ := splitOperator_eq_iff.mp cuts.operator
  obtain ⟨hrepository, hdouble⟩ := splitRepository_eq_iff.mp cuts.repository
  obtain ⟨hslots, hcolon, hslot, hsubslot⟩ := splitSlot_eq_iff.mp cuts.slot
  obtain ⟨hversion, gap', _, hname⟩ := splitVersion_eq_ok_iff.mp cuts.version
  obtain ⟨_, hcategory⟩ := cut_eq_some_iff.mp cuts.category
  have hslash : '/' ∉ a.name := by
    intro hc
    refine cuts.noSlash ?_
    rw [hname]
    exact List.mem_append_left _ hc
  rw [hbefore, List.mem_append, not_or] at hopen
  rw [hbefore, List.mem_append, not_or] at hclosed
  obtain ⟨hopen, hlimits⟩ := hopen
  rw [notMem_body_iff (by decide) hgap] at hopen hclosed
  rw [hbody] at hcolon hslots
  rw [hslots, List.append_assoc, infix_append_iff hcolon] at hdouble
  rw [notMem_body_iff (by decide) hgap] at hcolon
  refine {
    category_ne := cuts.category_ne
    name_ne := cuts.name_ne
    category := ?_
    name := ?_
    operator := ?_
    version := hversion
    slot := hslot
    subslot := hsubslot
    repository := hdouble
    limits := hlimits
    useDeps := hlisted
    bracket := fun hne => ⟨(hclosed hne).1.1, (hclosed hne).1.2, (hclosed hne).2⟩ }
  · simp only [List.forall_mem_cons]
    exact ⟨hcategory, hcolon.1, hopen.1, nofun⟩
  · simp only [List.forall_mem_cons]
    exact ⟨hslash, hcolon.2, hopen.2, nofun⟩
  · intro c hc
    rw [← Operator.mayPrecede_withoutStar]
    exact hoperator c (cuts.head?_afterOperator ▸ hc)

/-! ### From the spelling to the cuts -/

theorem IsRead.splitUse_eq (hread : a.IsRead) (hgap : IsBlanks gap) (huse : SpellsUse a.useDeps use)
    {tail : Text} (htail : a.useDeps = [] → tail = []) (whole : Text) :
    splitUse whole (a.body gap ++ a.limits ++ use ++ tail) = .ok (a.useDeps, a.body gap ++ a.limits) := by
  have hopen : '[' ∉ a.body gap ++ a.limits := by
    rw [List.mem_append, not_or, notMem_body_iff (by decide) hgap]
    exact ⟨⟨hread.category '[' (by decide), hread.name '[' (by decide)⟩, hread.limits⟩
  rw [splitUse_eq_ok_iff]
  generalize hdeps : a.useDeps = deps at huse htail
  cases huse with
  | absent =>
    rw [htail rfl, List.append_nil, List.append_nil]
    exact .inl ⟨hopen, rfl, rfl⟩
  | listed hne hspells =>
    subst hdeps
    obtain ⟨hcategory, hname, hlimits⟩ := hread.bracket hne
    have hclosed : ']' ∉ a.body gap ++ a.limits := by
      rw [List.mem_append, not_or, notMem_body_iff (by decide) hgap]
      exact ⟨⟨hcategory, hname⟩, hlimits⟩
    obtain ⟨hbracket, hdeps⟩ := UseDep.mapM_parse_iff.mpr ⟨hne, hread.useDeps, _, hspells, rfl⟩
    refine .inr ⟨_, tail, ?_, hopen, hclosed, hbracket, hdeps⟩
    simp only [List.append_assoc, List.cons_append, List.nil_append]

/- A version that is compared for equality has no star at its end, as no version has one. -/
theorem IsRead.splitStar_eq (hread : a.IsRead) (hgap : IsBlanks gap) :
    splitStar a.operator.withoutStar (a.body gap) =
      (a.operator, a.category ++ '/' :: (a.name ++ versionPart a.version gap)) := by
  refine (splitStar_eq_iff a.operator.withoutStar_ne_textStart).mpr ⟨rfl, rfl, fun hequal hstar => ?_⟩
  have hpart := notMem_versionPart (c := '*') (by decide) (by decide) hgap a.version
  have hversion := hread.version
  cases hv : a.version with
  | none =>
    rw [hv] at hversion
    cases hequal.symm.trans hversion.1
  | some v =>
    rw [hv] at hstar hpart
    have hne : versionPart (some v) gap ≠ [] := List.cons_ne_nil _ _
    have hsplit : a.category ++ '/' :: (a.name ++ versionPart (some v) gap) =
        (a.category ++ '/' :: a.name) ++ versionPart (some v) gap := by
      rw [List.append_assoc, List.cons_append]
    rw [hsplit] at hstar
    obtain ⟨t, ht⟩ := hstar
    refine hpart (List.mem_of_getLast? ?_)
    rw [← List.getLast?_append_of_ne_nil _ hne, ← ht]
    exact List.getLast?_concat

theorem IsRead.nonempty_cuts (hread : a.IsRead) (hspells : a.Spells w) {tail : Text}
    (htail : a.useDeps = [] → tail = []) : Nonempty (Cuts (w ++ tail) a) := by
  obtain ⟨gap, use, hgap, huse, rfl⟩ := hspells
  have hcolon : ':' ∉ a.body gap := by
    rw [notMem_body_iff (by decide) hgap]
    exact ⟨hread.category ':' (by decide), hread.name ':' (by decide)⟩
  refine ⟨{
    afterOperator := a.body gap ++ a.limits ++ use ++ tail
    beforeUse := a.body gap ++ a.limits
    beforeRepository := a.body gap ++ a.renderSlot
    beforeSlot := a.body gap
    beforeStar := a.category ++ '/' :: (a.name ++ versionPart a.version gap)
    nameVersion := a.name ++ versionPart a.version gap
    operator := splitOperator_eq_iff.mpr ⟨a.operator.withoutStar_ne_textStart, ?_, ?_⟩
    use := hread.splitUse_eq hgap huse htail _
    repository := splitRepository_eq_iff.mpr ⟨?_, ?_⟩
    slot := splitSlot_eq_iff.mpr ⟨rfl, hcolon, hread.slot, hread.subslot⟩
    star := hread.splitStar_eq hgap
    category := cut_append_cons (hread.category '/' (by decide)) _
    noSlash := ?_
    version := splitVersion_eq_ok_iff.mpr ⟨hread.version, gap, hgap, rfl⟩
    category_ne := hread.category_ne
    name_ne := hread.name_ne }⟩
  · rw [Operator.render_withoutStar, List.append_assoc, List.append_assoc]
  · intro c hc
    rw [Operator.mayPrecede_withoutStar]
    rw [List.append_assoc, List.append_assoc, head?_body_append hread.category_ne] at hc
    exact hread.operator c hc
  · rw [Atom.limits, List.append_assoc]
  · rw [List.append_assoc, infix_append_iff hcolon]
    exact hread.repository
  · rw [List.mem_append, not_or]
    exact ⟨hread.name '/' (by decide), notMem_versionPart (by decide) (by decide) hgap a.version⟩

/-! ### Reading -/

theorem isRead_of_parse (h : parse s = .ok a) : a.IsRead :=
  let ⟨_, ⟨cuts⟩⟩ := parse_eq_ok_iff_cuts.mp h
  cuts.isRead

theorem exists_spells_of_parse (h : parse s = .ok a) :
    ∃ w tail, trim s = w ++ tail ∧ a.Spells w ∧ (a.useDeps = [] → tail = []) :=
  let ⟨_, ⟨cuts⟩⟩ := parse_eq_ok_iff_cuts.mp h
  cuts.spells

theorem parse_of_spells (hread : a.IsRead) (hspells : a.Spells w) {tail : Text}
    (htail : a.useDeps = [] → tail = []) (hs : trim s = w ++ tail) : parse s = .ok a := by
  rw [parse_eq_ok_iff_cuts, hs]
  refine ⟨?_, hread.nonempty_cuts hspells htail⟩
  obtain ⟨gap, use, _, _, rfl⟩ := hspells
  simp [body]

/- Nothing but a text behind the closing bracket of USE dependencies is passed over. -/
theorem parse_eq_ok_iff_spells (s : Text) (a : Atom) :
    parse s = .ok a ↔
      a.IsRead ∧ ∃ w tail, trim s = w ++ tail ∧ a.Spells w ∧ (a.useDeps = [] → tail = []) :=
  ⟨fun h => ⟨isRead_of_parse h, exists_spells_of_parse h⟩,
    fun ⟨hread, _, _, hs, hspells, htail⟩ => parse_of_spells hread hspells htail hs⟩

/- A slot that is written behind the bracket is passed over, too: two texts with different slots are read
as one atom without a slot. -/
theorem parse_eq_of_slot_behind_bracket :
    ∃ a, parse "cat/pkg[ssl]:2".toList = .ok a ∧ parse "cat/pkg[ssl]:3".toList = .ok a ∧
      a.slot = none ∧ ¬ a.Spells (trim "cat/pkg[ssl]:2".toList) := by
  refine ⟨{ unversioned "cat".toList "pkg".toList with useDeps := [⟨"ssl".toList, true, none, false⟩] },
    rfl, rfl, rfl, ?_⟩
  intro h
  obtain ⟨gap, use, _, huse, hw⟩ := h
  have hlast := congrArg List.getLast? hw
  cases huse with
  | listed hne _ =>
    rw [← List.cons_append, ← List.append_assoc, ← List.append_assoc, List.getLast?_concat] at hlast
    exact absurd hlast (by decide +kernel)

/-! ### The canonical spelling -/

def renderUse (deps : List UseDep) : Text :=
  if deps.isEmpty then [] else '[' :: join [','] (deps.map UseDep.render) ++ [']']

theorem render_eq (a : Atom) :
    a.render = a.operator.render ++ (a.body [] ++ a.limits ++ renderUse a.useDeps) := by
  have hversion : renderPart ['-'] (a.version.map Version.text) = versionPart a.version [] := by
    cases a.version with
    | none => rfl
    | some v => exact (List.append_nil _).symm
  unfold render
  rw [hversion, toList_doubleColon]
  simp only [fullName, body, limits, renderUse, star, List.append_assoc, List.cons_append]

theorem SpellsUse.render {deps : List UseDep} (huse : SpellsUse deps use)
    (hdeps : ∀ d ∈ deps, d.IsListed) : SpellsUse deps (renderUse deps) := by
  cases huse with
  | absent => exact .absent
  | listed hne hspells =>
    have hwords : List.Forall₂ (fun d _ => (∃ w, d.Spells w) ∧ True) deps _ :=
      hspells.imp fun d w hw => ⟨⟨w, hw⟩, trivial⟩
    have hrender : ∀ d ∈ deps, d.Spells d.render := by
      intro d hd
      obtain ⟨w, hw⟩ := ((List.forall₂_and_left _ _).mp hwords).1 d hd
      exact hw.render (hdeps d hd).isRead.flag_ne
    rw [renderUse, List.isEmpty_eq_false_iff.mpr hne, if_neg Bool.false_ne_true]
    refine .listed hne ?_
    rw [List.forall₂_map_right_iff, List.forall₂_same]
    exact hrender

theorem isTrimmed_render (hspells : a.Spells w) (hne : a.category ≠ []) {tail : Text}
    (htail : a.useDeps = [] → tail = []) (htrimmed : IsTrimmed (w ++ tail)) : IsTrimmed a.render := by
  obtain ⟨gap, use, _, huse, rfl⟩ := hspells
  refine ⟨fun c hc => htrimmed.head c ?_, fun c hc => ?_⟩
  · rw [render_eq, List.head?_append, List.append_assoc, head?_body_append hne] at hc
    rwa [List.append_assoc, List.head?_append, List.append_assoc, List.append_assoc,
      head?_body_append hne]
  · rw [render_eq] at hc
    generalize hdeps : a.useDeps = deps at huse htail hc
    cases huse with
    | listed hdeps' _ =>
      rw [renderUse, List.isEmpty_eq_false_iff.mpr hdeps', if_neg Bool.false_ne_true,
        ← List.append_assoc, ← List.append_assoc, List.getLast?_concat] at hc
      cases hc
      decide
    | absent =>
      rw [htail rfl, List.append_nil, List.append_nil] at htrimmed
      rw [show renderUse [] = [] from rfl, List.append_nil] at hc
      have hlast := htrimmed.last c
      cases hv : a.version with
      | none =>
        rw [body, hv] at hc hlast
        exact hlast hc
      | some v =>
        -- what follows the blanks behind the version ends both texts, unless it is empty
        have hpart (gap : Text) : a.operator.render ++ (a.body gap ++ a.limits) =
            (a.operator.render ++ a.category ++ '/' :: a.name ++ ('-' :: v.text ++ gap)) ++
              (star a.operator ++ a.limits) := by
          rw [body, hv, versionPart]
          simp only [List.append_assoc, List.cons_append]
        rw [hpart, List.getLast?_append] at hc hlast
        cases hend : (star a.operator ++ a.limits).getLast? with
        | some d =>
          rw [hend] at hc hlast
          exact hlast hc
        | none =>
          rw [hend, List.append_nil, Option.none_or,
            List.getLast?_append_of_ne_nil _ (List.cons_ne_nil _ _)] at hc
          have hchar : ∀ x ∈ '-' :: v.text, Version.isVersionChar x = true :=
            List.forall_mem_cons.mpr ⟨by decide, v.isVersionChar_of_mem_text⟩
          exact Version.isBlank_of_isVersionChar (hchar c (List.mem_of_getLast? hc))

theorem parse_render_of_parse {s : Text} {a : Atom} (h : parse s = .ok a) : parse a.render = .ok a := by
  have hread := isRead_of_parse h
  obtain ⟨w, tail, hs, hspells, htail⟩ := exists_spells_of_parse h
  have htrimmed : IsTrimmed a.render :=
    isTrimmed_render hspells hread.category_ne htail (hs ▸ isTrimmed_trim s)
  obtain ⟨gap, use, _, huse, _⟩ := hspells
  have hrender : a.Spells a.render :=
    ⟨[], _, isBlanks_nil, huse.render hread.useDeps, render_eq a⟩
  have htrim : trim a.render = a.render ++ [] := by
    rw [trim_of_isTrimmed htrimmed, List.append_nil]
  exact parse_of_spells hread hrender (fun _ => rfl) htrim

def looseText : Text := " =c*t/p?g-1.0 *:0/2:::r[ !a(+)? , --b ]x ".toList

def looseAtom : Atom := resultOf (parse looseText) (by decide +kernel)

theorem parse_render_looseAtom :
    parse looseText = .ok looseAtom ∧
      looseAtom.render = "=c*t/p?g-1.0*:0/2:::r[-a(+)?,--b]".toList ∧
      parse looseAtom.render = .ok looseAtom :=
  ⟨eq_ok_resultOf _, by decide +kernel, parse_render_of_parse (eq_ok_resultOf _)⟩

end Atom
end PackagePolicy
