import PackagePolicy.Proofs.Config.Sections

/-!
# Reading a repository table

A content can be taken in as it is read, line by line: the section below the last header is pending, and it is saved
at the next header or at the end. With the repositories under keys this comes to the same table
(`readContent_eq_addContent`), and what it stores is under its own name. Main statement: `addContent_savesSections`.
-/

namespace PackagePolicy.RepositoryTable
open Text

/-! ### Repositories under keys -/

/-- A repository table as a map from keys that keeps the order of insertion. -/
structure Keyed where
  mainRepository : Option Text
  entries : List (Text × RepositorySource)

namespace Keyed

def table (k : Keyed) : RepositoryTable := ⟨k.mainRepository, k.entries.map Prod.snd⟩

def IsByName (entries : List (Text × RepositorySource)) : Prop := ∀ e ∈ entries, e.1 = e.2.name

def insert (x : RepositorySource) (k : Keyed) : Except ConfigError Keyed :=
  if k.entries.any (·.1 == x.name) then .error (.repositoryTwice x.name)
  else .ok { k with entries := k.entries ++ [(x.name, x)] }

def save (base : Text) (s : Section) (k : Keyed) : Except ConfigError Keyed :=
  if s.name = "DEFAULT".toList then
    match s.value? "main-repo" with
    | some name => .ok { k with mainRepository := some name }
    | none => .ok k
  else do k.insert (← source base s)

end Keyed

/-- Nothing is lost, and what is new is under its name. -/
def Stores (k k' : Keyed) : Prop := ∃ stored, k'.entries = k.entries ++ stored ∧ Keyed.IsByName stored

section
variable {k k' k'' : Keyed} {base : Text} {s : Section}

theorem Stores.refl (k : Keyed) : Stores k k := ⟨[], (List.append_nil _).symm, nofun⟩

theorem Stores.trans (h : Stores k k') (h' : Stores k' k'') : Stores k k'' := by
  obtain ⟨stored, hk', hstored⟩ := h
  obtain ⟨stored', hk'', hstored'⟩ := h'
  refine ⟨stored ++ stored', ?_, List.forall_mem_append.mpr ⟨hstored, hstored'⟩⟩
  rw [hk'', hk', List.append_assoc]

theorem Stores.isByName (h : Stores k k') (hk : Keyed.IsByName k.entries) : Keyed.IsByName k'.entries := by
  obtain ⟨stored, hk', hstored⟩ := h
  rw [hk']
  exact List.forall_mem_append.mpr ⟨hk, hstored⟩

theorem stores_of_save (h : k.save base s = .ok k') : Stores k k' := by
  unfold Keyed.save at h
  split at h
  · split at h
    · cases h
      exact .refl _
    · cases h
      exact .refl _
  · obtain ⟨x, _, h⟩ := exists_of_bind_eq_ok h
    unfold Keyed.insert at h
    split at h
    · cases h
    · cases h
      exact ⟨[(x.name, x)], rfl, List.forall_mem_singleton.mpr rfl⟩

theorem any_key_eq_has (h : Keyed.IsByName k.entries) (name : Text) :
    k.entries.any (·.1 == name) = k.table.has name := by
  rw [has, find?, List.isSome_find?, Keyed.table, List.any_map]
  exact any_congr fun e he => by rw [h e he, Function.comp_apply]

theorem save_table (base : Text) (s : Section) (h : Keyed.IsByName k.entries) :
    k.table.save base s = (k.save base s).map Keyed.table := by
  unfold save Keyed.save
  split
  · cases s.value? "main-repo" <;> rfl
  · cases source base s with
    | error e => rfl
    | ok x =>
      rw [ok_bind, ok_bind, add, Keyed.insert, any_key_eq_has h]
      split
      · rfl
      · simp [Except.map, Keyed.table]

end

/-! ### Reading line by line -/

/-- What is known between two lines: the table so far, the name of the section that is pending, and what was assigned
since the last header. -/
structure Reader where
  table : Keyed
  pending : Option Text
  values : List (Text × Text)

def Reader.pendingSection (r : Reader) : Option Section := r.pending.map fun name => ⟨name, r.values⟩

def Reader.flush (base : Text) (r : Reader) : Keyed × Option ConfigError :=
  match r.pendingSection with
  | none => (r.table, none)
  | some s =>
    match r.table.save base s with
    | .ok k => (k, none)
    | .error e => (r.table, some e)

def readAll (base : Text) (r : Reader) : List Line → Keyed × Option ConfigError
  | [] => r.flush base
  | .header name :: lines =>
    match r.flush base with
    | (k, none) => readAll base ⟨k, some name, []⟩ lines
    | (k, some e) => (k, some e)
  | .assignment key value :: lines => readAll base { r with values := (key, value) :: r.values } lines
  | .other :: lines => readAll base r lines

section
variable {base : Text} {r : Reader}

theorem stores_flush (base : Text) (r : Reader) : Stores r.table (r.flush base).1 := by
  unfold Reader.flush
  split
  · exact .refl _
  · split
    next hsave => exact stores_of_save hsave
    · exact .refl _

theorem stores_readAll (base : Text) (lines : List Line) (r : Reader) : Stores r.table (readAll base r lines).1 := by
  induction lines generalizing r with
  | nil => exact stores_flush base r
  | cons line lines ih =>
    cases line with
    | header name =>
      have hflush := stores_flush base r
      unfold readAll
      split
      next k hk =>
        rw [hk] at hflush
        exact hflush.trans (ih ⟨k, some name, []⟩)
      next k e hk =>
        rw [hk] at hflush
        exact hflush
    | assignment key value => exact ih { r with values := (key, value) :: r.values }
    | other => exact ih r

/- To save the pending section and then others is to save them all. -/
theorem saveAll_pending (base : Text) (h : Keyed.IsByName r.table.entries) (rest : List Section) :
    saveAll base r.table.table (r.pendingSection.toList ++ rest) =
      match r.flush base with
      | (k, none) => saveAll base k.table rest
      | (k, some e) => (k.table, some e) := by
  unfold Reader.flush
  cases r.pendingSection with
  | none => rfl
  | some s =>
    rw [Option.toList_some, List.singleton_append, saveAll, save_table base s h]
    dsimp only
    cases r.table.save base s with
    | error e => rfl
    | ok k => rfl

theorem readAll_eq_saveAll (lines : List Line) (h : Keyed.IsByName r.table.entries) :
    saveAll base r.table.table (sectionsOf r.pendingSection lines) =
      ((readAll base r lines).1.table, (readAll base r lines).2) := by
  induction lines generalizing r with
  | nil =>
    have hpending := saveAll_pending base h []
    rw [List.append_nil] at hpending
    rw [sectionsOf, readAll, hpending]
    split
    next k hk => rw [hk, saveAll]
    next k e hk => rw [hk]
  | cons line lines ih =>
    cases line with
    | header name =>
      rw [sectionsOf, saveAll_pending base h, readAll]
      -- after the pending section was saved the keys are names again, so the lines below go on from there
      have hflush := (stores_flush base r).isByName h
      split
      next k hk =>
        rw [hk] at hflush
        exact ih (r := ⟨k, some name, []⟩) hflush
      · rfl
    | assignment key value =>
      have hpending : ({ r with values := (key, value) :: r.values } : Reader).pendingSection =
          r.pendingSection.map fun s => { s with values := (key, value) :: s.values } := by
        unfold Reader.pendingSection
        rw [Option.map_map]
        rfl
      rw [sectionsOf, ← hpending]
      exact ih (r := { r with values := (key, value) :: r.values }) h
    | other => exact ih h

end

/-- Takes in a content line by line. -/
def readContent (base content : Text) (k : Keyed) : Keyed × Option ConfigError :=
  readAll base ⟨k, none, []⟩ ((lines content).map fun line => readLine (trim line))

theorem readContent_eq_addContent (base content : Text) {k : Keyed} (h : Keyed.IsByName k.entries) :
    k.table.addContent base content = ((readContent base content k).1.table, (readContent base content k).2) :=
  readAll_eq_saveAll (r := ⟨k, none, []⟩) _ h

/-! ### A content as a whole -/

/- A content can be cut at its headers, and what comes of it is what comes of its blocks one after the other, each
by itself. -/
theorem addContent_savesSections (base content : Text) (t : RepositoryTable) :
    (∃ before blocks, IsCut (lines content) before blocks) ∧
    (∀ before blocks, IsCut (lines content) before blocks →
      List.Forall₂ IsSectionOf blocks (sections content) ∧
      (∀ result, SavesInOrder base t blocks result ↔ t.addContent base content = result) ∧
      (∀ t' e, t.addContent base content = (t', some e) → ∃ saved b rest, blocks = saved ++ b :: rest ∧
        SavesInOrder base t saved (t', none) ∧ Fails base b t' e) ∧
      ∀ content' before' blocks', IsCut (lines content') before' blocks' →
        (∀ (i j : ℕ) (b : Block), blocks[i]? = some b → blocks'[j]? = some b →
          (sections content)[i]? = (sections content')[j]?) ∧
        (blocks = blocks' → t.addContent base content = t.addContent base content') ∧
        ∀ earlier b later, IsHeader b.header "DEFAULT".toList → blocks = earlier ++ b :: later →
          blocks' = earlier ++ later → Agree (t.addContent base content) (t.addContent base content')) ∧
    ∀ k : Keyed, Stores k (readContent base content k).1 ∧
      (Keyed.IsByName k.entries → k.table = t →
        Keyed.IsByName (readContent base content k).1.entries ∧
          t.addContent base content = ((readContent base content k).1.table, (readContent base content k).2)) := by
  refine ⟨exists_isCut (lines content), ?_, ?_⟩
  · intro before blocks hcut
    have hsections := sections_of_isCut hcut
    have hsaves (result : RepositoryTable × Option ConfigError) :
        SavesInOrder base t blocks result ↔ t.addContent base content = result := by
      rw [addContent, hsections]
      exact savesInOrder_iff hcut.header
    refine ⟨hsections ▸ isSectionOf_sections hcut.header, hsaves, fun t' e h => ((hsaves _).mpr h).stopped, ?_⟩
    intro content' before' blocks' hcut'
    have hsections' := sections_of_isCut hcut'
    refine ⟨?_, ?_, ?_⟩
    · intro i j b hi hj
      rw [hsections, hsections', List.getElem?_map, List.getElem?_map, hi, hj]
    · rintro rfl
      rw [addContent, addContent, hsections, hsections']
    · rintro earlier b later hdefault rfl rfl
      have hname := Block.name_toSection hdefault
      rw [addContent, addContent, hsections, hsections', List.map_append, List.map_append, List.map_cons]
      exact saveAll_without_default _ _ hname
  · intro k
    have hstores : Stores k (readContent base content k).1 := stores_readAll base _ ⟨k, none, []⟩
    refine ⟨hstores, ?_⟩
    rintro hk rfl
    exact ⟨hstores.isByName hk, readContent_eq_addContent base content hk⟩

def mainBlock : Block := ⟨"[DEFAULT]".toList, ["main-repo = b".toList]⟩

/-- A key that is assigned twice, and a name that is taken. -/
def overlayBlocks : List Block :=
  [⟨"[a]".toList, ["priority = 7".toList, "location = /x".toList, "# location = /y".toList, "location = z".toList]⟩,
   ⟨"[ b ]".toList, ["location=/b".toList]⟩,
   ⟨"[a]".toList, ["location = /again".toList]⟩,
   ⟨"[c]".toList, ["location = /c".toList]⟩]

def contentOf (before : List Text) (blocks : List Block) : Text :=
  (before ++ blocks.flatMap fun b => b.header :: b.body).flatMap (· ++ ['\n'])

/-- What is assigned before the first header is about no section. -/
def overlayContent : Text := contentOf ["location = /nowhere".toList] (mainBlock :: overlayBlocks)

def overlayTable : RepositoryTable :=
  ⟨some "b".toList, [⟨"a".toList, "/etc/z".toList, 7⟩, ⟨"b".toList, "/b".toList, 0⟩]⟩

theorem addContent_savesSections_overlayContent :
    IsCut (lines overlayContent) ["location = /nowhere".toList] (mainBlock :: overlayBlocks) ∧
      SavesInOrder "/etc".toList empty (mainBlock :: overlayBlocks)
        (overlayTable, some (.repositoryTwice "a".toList)) ∧
      (∃ saved b rest, mainBlock :: overlayBlocks = saved ++ b :: rest ∧
        SavesInOrder "/etc".toList empty saved (overlayTable, none) ∧
        Fails "/etc".toList b overlayTable (.repositoryTwice "a".toList)) ∧
      IsCut (lines (contentOf [] overlayBlocks)) [] overlayBlocks ∧
      (sections overlayContent)[1]? = (sections (contentOf [] overlayBlocks))[0]? ∧
      Agree (empty.addContent "/etc".toList overlayContent)
        (empty.addContent "/etc".toList (contentOf [] overlayBlocks)) ∧
      Keyed.IsByName (readContent "/etc".toList overlayContent ⟨none, []⟩).1.entries ∧
      empty.addContent "/etc".toList overlayContent =
        ((readContent "/etc".toList overlayContent ⟨none, []⟩).1.table,
          (readContent "/etc".toList overlayContent ⟨none, []⟩).2) := by
  have hcut : IsCut (lines overlayContent) ["location = /nowhere".toList] (mainBlock :: overlayBlocks) :=
    isCut_of_headerName? (by decide +kernel) (by decide +kernel) (by decide +kernel) (by decide +kernel)
  have hcut' : IsCut (lines (contentOf [] overlayBlocks)) [] overlayBlocks :=
    isCut_of_headerName? (by decide +kernel) nofun (by decide +kernel) (by decide +kernel)
  have hadd : empty.addContent "/etc".toList overlayContent =
      (overlayTable, some (.repositoryTwice "a".toList)) := by decide +kernel
  have hdefault : IsHeader mainBlock.header "DEFAULT".toList :=
    headerName?_eq_some_iff.mp (by decide +kernel)
  obtain ⟨_, hblocks, hkeyed⟩ := addContent_savesSections "/etc".toList overlayContent empty
  obtain ⟨_, hsaves, hfails, hothers⟩ := hblocks _ _ hcut
  obtain ⟨hsections, _, hagree⟩ := hothers _ _ _ hcut'
  obtain ⟨hbyName, hread⟩ := (hkeyed ⟨none, []⟩).2 nofun rfl
  exact ⟨hcut, (hsaves _).mpr hadd, hfails _ _ hadd, hcut', hsections 1 0 _ rfl rfl,
    hagree [] mainBlock overlayBlocks hdefault rfl rfl, hbyName, hread⟩

end PackagePolicy.RepositoryTable
