import PackagePolicy.Proofs.Config.RepositoryTable
import PackagePolicy.Proofs.Lists
import PackagePolicy.Proofs.Precedence
import PackagePolicy.Proofs.Text.Cuts

/-!
# Sections of a repository table

A content is cut at its headers into blocks, and each block is a section by itself: it has the name of its header and
the last value of each key that is assigned below (`sections_of_isCut`). The sections are saved in order, up to the
first that cannot be, and the order of the checks says why (`savesInOrder_iff`).
-/

namespace PackagePolicy.RepositoryTable
open Text

/-! ### Lines -/

/-- Between the blanks around it the line stands in square brackets, and the name stands between these. -/
def IsHeader (line name : Text) : Prop := ∃ inner, trim line = '[' :: (inner ++ [']']) ∧ name = trim inner

/-- The line is neither a header nor a comment. Its key is before the first equals sign, its value behind. -/
structure Assigns (line key value : Text) : Prop where
  header : ∀ name, ¬ IsHeader line name
  comment : (trim line).head? ≠ some '#'
  parts : ∃ left right, trim line = left ++ '=' :: right ∧ '=' ∉ left ∧ key = trim left ∧ value = trim right

section
variable {s line name key value : Text}

theorem headerName?_eq_some_iff :
    headerName? s = some name ↔ ∃ inner, s = '[' :: (inner ++ [']']) ∧ name = trim inner := by
  unfold headerName?
  split
  next s =>
    simp only [Option.map_eq_some_iff, before?_eq_some_iff, List.cons.injEq, true_and, eq_comm (b := name)]
  next hs =>
    refine iff_of_false nofun ?_
    rintro ⟨inner, rfl, _⟩
    exact hs _ rfl

theorem headerName?_eq_none_iff : headerName? (trim line) = none ↔ ∀ name, ¬ IsHeader line name := by
  rw [Option.eq_none_iff_forall_ne_some]
  exact forall_congr' fun name => not_congr headerName?_eq_some_iff

theorem readLine_eq_header_iff : readLine (trim line) = .header name ↔ IsHeader line name := by
  rw [IsHeader, ← headerName?_eq_some_iff]
  unfold readLine
  split
  next hskip =>
    -- a line that is skipped does not begin with a bracket
    refine iff_of_false nofun ?_
    rw [headerName?_eq_some_iff]
    rintro ⟨inner, hline, _⟩
    rw [hline] at hskip
    exact absurd hskip Bool.false_ne_true
  · split
    next other hother => rw [hother, Line.header.injEq, Option.some.injEq]
    next hnone =>
      rw [hnone]
      split
      · exact iff_of_false nofun nofun
      · exact iff_of_false nofun nofun

theorem readLine_eq_assignment_iff : readLine (trim line) = .assignment key value ↔ Assigns line key value := by
  constructor
  · intro h
    unfold readLine at h
    split at h
    · cases h
    next hskip =>
      split at h
      · cases h
      next hnone =>
        split at h
        next left right hcut =>
          cases h
          obtain ⟨hline, hleft⟩ := cut_eq_some_iff.mp hcut
          refine ⟨headerName?_eq_none_iff.mp hnone, ?_, left, right, hline, hleft, rfl, rfl⟩
          intro hcomment
          rw [hcomment, Bool.or_eq_true] at hskip
          exact hskip (.inr rfl)
        · cases h
  · rintro ⟨hno, hcomment, left, right, hline, hleft, rfl, rfl⟩
    have hempty : (trim line).isEmpty = false := by
      rw [hline]
      exact List.isEmpty_eq_false_iff.mpr (List.append_ne_nil_of_right_ne_nil left (List.cons_ne_nil '=' right))
    rw [readLine, hempty, beq_eq_false_iff_ne.mpr hcomment, Bool.or_self, if_neg Bool.false_ne_true,
      headerName?_eq_none_iff.mpr hno, cut_eq_some_iff.mpr ⟨hline, hleft⟩]

end

/-! ### Blocks -/

/-- A header and the lines below it, up to the next header. -/
structure Block where
  header : Text
  body : List Text

/-- The lines are cut at their headers. -/
structure IsCut (ls before : List Text) (blocks : List Block) : Prop where
  lines : ls = before ++ blocks.flatMap fun b => b.header :: b.body
  before : ∀ line ∈ before, ∀ name, ¬ IsHeader line name
  header : ∀ b ∈ blocks, ∃ name, IsHeader b.header name
  body : ∀ b ∈ blocks, ∀ line ∈ b.body, ∀ name, ¬ IsHeader line name

/-- The value is the last that is assigned to the key. -/
def Block.Gives (b : Block) (key value : Text) : Prop :=
  Stands (Assigns · key value) (fun line => ∃ v, Assigns line key v) b.body

theorem exists_isCut (ls : List Text) : ∃ before blocks, IsCut ls before blocks := by
  induction ls with
  | nil => exact ⟨[], [], rfl, nofun, nofun, nofun⟩
  | cons line ls ih =>
    obtain ⟨before, blocks, hcut⟩ := ih
    -- what stands before the first header of the rest is below this line, if it is a header
    by_cases hline : ∃ name, IsHeader line name
    · refine ⟨[], ⟨line, before⟩ :: blocks, ?_, nofun, ?_, ?_⟩
      · rw [hcut.lines]
        rfl
      · exact List.forall_mem_cons.mpr ⟨hline, hcut.header⟩
      · exact List.forall_mem_cons.mpr ⟨hcut.before, hcut.body⟩
    · refine ⟨line :: before, blocks, ?_, ?_, hcut.header, hcut.body⟩
      · rw [hcut.lines]
        rfl
      · exact List.forall_mem_cons.mpr ⟨not_exists.mp hline, hcut.before⟩

theorem isCut_of_headerName? {ls before : List Text} {blocks : List Block}
    (hlines : ls = before ++ blocks.flatMap fun b => b.header :: b.body)
    (hbefore : ∀ line ∈ before, headerName? (trim line) = none)
    (hheader : ∀ b ∈ blocks, (headerName? (trim b.header)).isSome = true)
    (hbody : ∀ b ∈ blocks, ∀ line ∈ b.body, headerName? (trim line) = none) : IsCut ls before blocks where
  lines := hlines
  before line hline := headerName?_eq_none_iff.mp (hbefore line hline)
  header b hb := (Option.isSome_iff_exists.mp (hheader b hb)).imp fun _ => headerName?_eq_some_iff.mp
  body b hb line hline := headerName?_eq_none_iff.mp (hbody b hb line hline)

/-! ### Blocks as sections -/

def assign (values : List (Text × Text)) (line : Text) : List (Text × Text) :=
  match readLine (trim line) with
  | .assignment key value => (key, value) :: values
  | _ => values

/-- The section has the name of the header and the last value of each key. -/
structure IsSectionOf (b : Block) (s : Section) : Prop where
  header : IsHeader b.header s.name
  values (key value : Text) : s.values.lookup key = some value ↔ b.Gives key value

/-- The section that a block is, whatever stands around it. -/
def Block.toSection (b : Block) : Section where
  name := (headerName? (trim b.header)).getD []
  values := b.body.foldl assign []

theorem lookup_assign_iff (values : List (Text × Text)) (line key value : Text) :
    (assign values line).lookup key = some value ↔
      Assigns line key value ∨ values.lookup key = some value ∧ ¬ ∃ v, Assigns line key v := by
  simp only [← readLine_eq_assignment_iff]
  unfold assign
  split
  next key' value' hline =>
    rw [hline, List.lookup_cons]
    simp only [Line.assignment.injEq]
    by_cases hkey : key = key'
    · rw [beq_iff_eq.mpr hkey]
      simp [hkey]
    · rw [beq_eq_false_iff_ne.mpr hkey]
      simp [Ne.symm hkey]
  next hline =>
    have hno : ∀ v, readLine (trim line) ≠ .assignment key v := fun v => hline key v
    simp only [hno, false_or, exists_false, not_false_eq_true, and_true]

namespace Block
variable {b : Block}

theorem lookup_section_iff (key value : Text) : b.toSection.values.lookup key = some value ↔ b.Gives key value := by
  have hnil : ¬ ([] : List (Text × Text)).lookup key = some value := nofun
  exact foldl_iff_stands assign (fun values => values.lookup key = some value) hnil
    (fun values line => lookup_assign_iff values line key value) b.body

theorem value?_eq_some_iff (key : String) (value : Text) :
    b.toSection.value? key = some value ↔ b.Gives key.toList value := lookup_section_iff key.toList value

theorem value?_eq_none_iff (key : String) :
    b.toSection.value? key = none ↔ ∀ value, ¬ b.Gives key.toList value := by
  rw [Option.eq_none_iff_forall_ne_some]
  exact forall_congr' fun value => not_congr (value?_eq_some_iff key value)

theorem name_toSection {name : Text} (h : IsHeader b.header name) : b.toSection.name = name := by
  rw [Block.toSection, headerName?_eq_some_iff.mpr h]
  rfl

theorem isHeader_toSection (hb : ∃ name, IsHeader b.header name) : IsHeader b.header b.toSection.name := by
  obtain ⟨name, hname⟩ := hb
  rw [name_toSection hname]
  exact hname

end Block

theorem isSectionOf_sections {blocks : List Block} (h : ∀ b ∈ blocks, ∃ name, IsHeader b.header name) :
    List.Forall₂ IsSectionOf blocks (blocks.map Block.toSection) := by
  rw [List.forall₂_map_right_iff, List.forall₂_same]
  intro b hb
  exact ⟨Block.isHeader_toSection (h b hb), Block.lookup_section_iff⟩

/- Lines without a header go to the section that is being read, if there is one. -/
theorem sectionsOf_append {ls : List Text} (h : ∀ line ∈ ls, ∀ name, ¬ IsHeader line name)
    (current : Option Section) (rest : List Line) :
    sectionsOf current ((ls.map fun line => readLine (trim line)) ++ rest) =
      sectionsOf (current.map fun s => { s with values := ls.foldl assign s.values }) rest := by
  induction ls generalizing current with
  | nil => simp
  | cons line ls ih =>
    rw [List.forall_mem_cons] at h
    have hstep : sectionsOf current (readLine (trim line) :: (ls.map fun line => readLine (trim line)) ++ rest) =
        sectionsOf (current.map fun s => { s with values := assign s.values line })
          ((ls.map fun line => readLine (trim line)) ++ rest) := by
      cases hline : readLine (trim line) with
      | header name => exact absurd (readLine_eq_header_iff.mp hline) (h.1 name)
      | assignment key value =>
        simp only [assign, hline]
        rfl
      | other => simp [assign, hline, sectionsOf]
    rw [List.map_cons, hstep, ih h.2, Option.map_map]
    rfl

theorem sectionsOf_blocks {blocks : List Block} (hheader : ∀ b ∈ blocks, ∃ name, IsHeader b.header name)
    (hbody : ∀ b ∈ blocks, ∀ line ∈ b.body, ∀ name, ¬ IsHeader line name) (current : Option Section) :
    sectionsOf current ((blocks.flatMap fun b => b.header :: b.body).map fun line => readLine (trim line)) =
      current.toList ++ blocks.map Block.toSection := by
  induction blocks generalizing current with
  | nil => exact (List.append_nil _).symm
  | cons b blocks ih =>
    rw [List.forall_mem_cons] at hheader hbody
    have hline : readLine (trim b.header) = .header b.toSection.name :=
      readLine_eq_header_iff.mpr (Block.isHeader_toSection hheader.1)
    rw [List.flatMap_cons, List.cons_append, List.map_cons, hline, List.map_append, sectionsOf,
      sectionsOf_append hbody.1, ih hheader.2 hbody.2]
    rfl

theorem sections_of_isCut {content : Text} {before : List Text} {blocks : List Block}
    (h : IsCut (lines content) before blocks) : sections content = blocks.map Block.toSection := by
  rw [sections, h.lines, List.map_append, sectionsOf_append h.before, sectionsOf_blocks h.header h.body]
  rfl

/-! ### Saving a block -/

/-- The repository that a block defines, seen from a directory. -/
structure Defines (base : Text) (b : Block) (x : RepositorySource) : Prop where
  header : IsHeader b.header x.name
  name : x.name ≠ "DEFAULT".toList
  location : ∃ location, b.Gives "location".toList location ∧ x.location = Path.join base location
  priority : (∃ value, b.Gives "priority".toList value ∧ signed32 value = some x.priority) ∨
    (∀ value, ¬ b.Gives "priority".toList value) ∧ x.priority = 0

/-- A block of defaults may set the main repository, and any other adds its repository. -/
inductive Saves (base : Text) (b : Block) (t : RepositoryTable) : RepositoryTable → Prop
  | main {name : Text} (hb : IsHeader b.header "DEFAULT".toList) (h : b.Gives "main-repo".toList name) :
    Saves base b t { t with mainRepository := some name }
  | default (hb : IsHeader b.header "DEFAULT".toList) (h : ∀ name, ¬ b.Gives "main-repo".toList name) :
    Saves base b t t
  | repository {x : RepositorySource} (hx : Defines base b x) (hnew : x.name ∉ t.names) :
    Saves base b t { t with sources := t.sources ++ [x] }

/-- Why a block cannot be saved. -/
inductive Fails (base : Text) (b : Block) (t : RepositoryTable) : ConfigError → Prop
  | location {name : Text} (hb : IsHeader b.header name) (hname : name ≠ "DEFAULT".toList)
    (h : ∀ location, ¬ b.Gives "location".toList location) : Fails base b t (.missingLocation name)
  | priority {name location value : Text} (hb : IsHeader b.header name) (hname : name ≠ "DEFAULT".toList)
    (hlocation : b.Gives "location".toList location) (hvalue : b.Gives "priority".toList value)
    (h : signed32 value = none) : Fails base b t (.invalidPriority name value)
  | twice {x : RepositorySource} (hx : Defines base b x) (h : x.name ∈ t.names) :
    Fails base b t (.repositoryTwice x.name)

/-- The blocks are saved in order, up to the first that cannot be. -/
inductive SavesInOrder (base : Text) : RepositoryTable → List Block → RepositoryTable × Option ConfigError → Prop
  | done {t : RepositoryTable} : SavesInOrder base t [] (t, none)
  | save {b : Block} {blocks : List Block} {t t' : RepositoryTable} {result : RepositoryTable × Option ConfigError}
    (h : Saves base b t t') (hrest : SavesInOrder base t' blocks result) : SavesInOrder base t (b :: blocks) result
  | stop {b : Block} {blocks : List Block} {t : RepositoryTable} {e : ConfigError} (h : Fails base b t e) :
    SavesInOrder base t (b :: blocks) (t, some e)

section
variable {base : Text} {b : Block} {t t' : RepositoryTable} {x : RepositorySource} {e : ConfigError}

theorem source_of_defines (hx : Defines base b x) : source base b.toSection = .ok x := by
  have hname := Block.name_toSection hx.header
  obtain ⟨location, hgives, hlocation⟩ := hx.location
  unfold source
  rw [(Block.value?_eq_some_iff _ _).mpr hgives]
  rcases hx.priority with ⟨value, hvalue, hnumber⟩ | ⟨hnone, hzero⟩
  · rw [(Block.value?_eq_some_iff _ _).mpr hvalue]
    simp only [hnumber, hname, ← hlocation]
  · rw [(Block.value?_eq_none_iff _).mpr hnone]
    simp only [hname, ← hlocation, ← hzero]

theorem save_of_saves (h : Saves base b t t') : t.save base b.toSection = .ok t' := by
  unfold save
  cases h with
  | main hb h => rw [if_pos (Block.name_toSection hb), (Block.value?_eq_some_iff _ _).mpr h]
  | default hb h => rw [if_pos (Block.name_toSection hb), (Block.value?_eq_none_iff _).mpr h]
  | repository hx hnew =>
    have hname := Block.name_toSection hx.header
    rw [if_neg (hname ▸ hx.name), source_of_defines hx, ok_bind, add, has_eq_false_iff.mpr hnew,
      if_neg Bool.false_ne_true]

theorem save_of_fails (h : Fails base b t e) : t.save base b.toSection = .error e := by
  unfold save
  cases h with
  | location hb hname h =>
    obtain rfl := Block.name_toSection hb
    rw [if_neg hname, source, (Block.value?_eq_none_iff _).mpr h]
    rfl
  | priority hb hname hlocation hvalue h =>
    obtain rfl := Block.name_toSection hb
    rw [if_neg hname, source, (Block.value?_eq_some_iff _ _).mpr hlocation]
    dsimp only
    rw [(Block.value?_eq_some_iff _ _).mpr hvalue]
    dsimp only
    rw [h]
    rfl
  | @twice x hx h =>
    have hname := Block.name_toSection hx.header
    have hhas : t.has x.name = true := Bool.of_not_eq_false fun hnew => has_eq_false_iff.mp hnew h
    rw [if_neg (hname ▸ hx.name), source_of_defines hx, ok_bind, add, if_pos hhas]

/- The checks in their order: the location, the priority, the name. -/
theorem saves_or_fails (base : Text) (hb : ∃ name, IsHeader b.header name) (t : RepositoryTable) :
    (∃ t', Saves base b t t') ∨ ∃ e, Fails base b t e := by
  obtain ⟨name, hb⟩ := hb
  by_cases hname : name = "DEFAULT".toList
  · obtain rfl := hname
    by_cases hmain : ∃ main, b.Gives "main-repo".toList main
    · obtain ⟨main, hmain⟩ := hmain
      exact .inl ⟨_, .main hb hmain⟩
    · exact .inl ⟨t, .default hb (not_exists.mp hmain)⟩
  have hdefines (x : RepositorySource) (hx : Defines base b x) :
      (∃ t', Saves base b t t') ∨ ∃ e, Fails base b t e := by
    by_cases hnew : x.name ∈ t.names
    · exact .inr ⟨_, .twice hx hnew⟩
    · exact .inl ⟨_, .repository hx hnew⟩
  by_cases hlocation : ∃ location, b.Gives "location".toList location
  · obtain ⟨location, hlocation⟩ := hlocation
    by_cases hvalue : ∃ value, b.Gives "priority".toList value
    · obtain ⟨value, hvalue⟩ := hvalue
      cases hnumber : signed32 value with
      | none => exact .inr ⟨_, .priority hb hname hlocation hvalue hnumber⟩
      | some priority =>
        exact hdefines ⟨name, Path.join base location, priority⟩
          ⟨hb, hname, ⟨location, hlocation, rfl⟩, .inl ⟨value, hvalue, hnumber⟩⟩
    · exact hdefines ⟨name, Path.join base location, 0⟩
        ⟨hb, hname, ⟨location, hlocation, rfl⟩, .inr ⟨not_exists.mp hvalue, rfl⟩⟩
  · exact .inr ⟨_, .location hb hname (not_exists.mp hlocation)⟩

end

theorem savesInOrder_iff {base : Text} {blocks : List Block} (h : ∀ b ∈ blocks, ∃ name, IsHeader b.header name)
    {t : RepositoryTable} {result : RepositoryTable × Option ConfigError} :
    SavesInOrder base t blocks result ↔ saveAll base t (blocks.map Block.toSection) = result := by
  constructor
  · intro hrun
    induction hrun with
    | done => rfl
    | save hsaves _ ih =>
      rw [List.map_cons, saveAll, save_of_saves hsaves]
      exact ih (List.forall_mem_cons.mp h).2
    | stop hfails => rw [List.map_cons, saveAll, save_of_fails hfails]
  · rintro rfl
    induction blocks generalizing t with
    | nil => exact .done
    | cons b blocks ih =>
      rw [List.forall_mem_cons] at h
      rw [List.map_cons, saveAll]
      rcases saves_or_fails base h.1 t with ⟨t', hsaves⟩ | ⟨e, hfails⟩
      · rw [save_of_saves hsaves]
        exact .save hsaves (ih h.2)
      · rw [save_of_fails hfails]
        exact .stop hfails

theorem SavesInOrder.stopped {base : Text} {blocks : List Block} {t t' : RepositoryTable} {e : ConfigError}
    (h : SavesInOrder base t blocks (t', some e)) :
    ∃ saved b rest, blocks = saved ++ b :: rest ∧ SavesInOrder base t saved (t', none) ∧ Fails base b t' e := by
  induction blocks generalizing t with
  | nil => cases h
  | cons b blocks ih =>
    cases h with
    | stop hfails => exact ⟨[], b, blocks, rfl, .done, hfails⟩
    | save hsaves hrest =>
      obtain ⟨saved, b', rest, rfl, hsaved, hfails⟩ := ih hrest
      exact ⟨b :: saved, b', rest, rfl, .save hsaves hsaved, hfails⟩

/-! ### Defaults -/

section
variable {base : Text} {s : Section} {t u : RepositoryTable}

/- What is saved does not depend on which repository is the main one. -/
theorem save_of_sources_eq (base : Text) (s : Section) (h : t.sources = u.sources) :
    (∃ t' u', t.save base s = .ok t' ∧ u.save base s = .ok u' ∧ t'.sources = u'.sources) ∨
    ∃ e, t.save base s = .error e ∧ u.save base s = .error e := by
  unfold save
  split
  · cases s.value? "main-repo" with
    | some name => exact .inl ⟨_, _, rfl, rfl, h⟩
    | none => exact .inl ⟨_, _, rfl, rfl, h⟩
  · cases source base s with
    | error e => exact .inr ⟨e, rfl, rfl⟩
    | ok x =>
      have hhas : t.has x.name = u.has x.name := by rw [has, has, find?, find?, h]
      rw [ok_bind, ok_bind, add, add, hhas]
      split
      · exact .inr ⟨_, rfl, rfl⟩
      · exact .inl ⟨_, _, rfl, rfl, by rw [h]⟩

/-- The repositories and the error are the same. -/
def Agree (r r' : RepositoryTable × Option ConfigError) : Prop := r.1.sources = r'.1.sources ∧ r.2 = r'.2

theorem saveAll_of_sources_eq (base : Text) (ss : List Section) (h : t.sources = u.sources) :
    Agree (saveAll base t ss) (saveAll base u ss) := by
  induction ss generalizing t u with
  | nil => exact ⟨h, rfl⟩
  | cons s ss ih =>
    rw [saveAll, saveAll]
    rcases save_of_sources_eq base s h with ⟨t', u', ht, hu, h'⟩ | ⟨e, ht, hu⟩
    · rw [ht, hu]
      exact ih h'
    · rw [ht, hu]
      exact ⟨h, rfl⟩

theorem sources_of_save_default (base : Text) (t : RepositoryTable) (hs : s.name = "DEFAULT".toList) :
    ∃ t', t.save base s = .ok t' ∧ t.sources = t'.sources := by
  rw [save, if_pos hs]
  cases s.value? "main-repo" with
  | some name => exact ⟨_, rfl, rfl⟩
  | none => exact ⟨_, rfl, rfl⟩

theorem saveAll_without_default (earlier later : List Section) (hs : s.name = "DEFAULT".toList) :
    Agree (saveAll base t (earlier ++ s :: later)) (saveAll base t (earlier ++ later)) := by
  induction earlier generalizing t with
  | nil =>
    obtain ⟨t', hsave, hsources⟩ := sources_of_save_default base t hs
    rw [List.nil_append, List.nil_append, saveAll, hsave]
    exact saveAll_of_sources_eq base later hsources.symm
  | cons s' earlier ih =>
    rw [List.cons_append, List.cons_append, saveAll, saveAll]
    cases t.save base s' with
    | error e => exact ⟨rfl, rfl⟩
    | ok t' => exact ih

end

end PackagePolicy.RepositoryTable
