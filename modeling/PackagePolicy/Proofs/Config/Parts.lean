import PackagePolicy.Config.User
import PackagePolicy.Proofs.Atom.WellFormed
import PackagePolicy.Proofs.Disk.ConfigFiles
import PackagePolicy.Proofs.Text.Lines
import PackagePolicy.Proofs.Text.Words

/-!
# Parts of a configuration

A part is a file, or a directory whose files are read as one text. The entries by package are read line by line, so
that those of a directory are those of its files on their own, and a line that is no entry can be left out. Main
statement: `packageParts_areReadByLines`.
-/

namespace PackagePolicy.UserConfig
open Text
variable {α : Type} {d : Disk} {root : Text} {name : String} {entries : List (Text × FileTree)}

/-! ### Files and directories -/

section
variable {parse : Text → List α} {l : List α}

theorem holds_of_find? {path : Text} {t : FileTree} (h : d.find? path = some t) : d.holds path = true := by
  rw [Disk.holds, h]
  rfl

theorem contentPart_eq_ok_iff (h : d.holds (Path.child root name) = true) :
    contentPart d root name parse = .ok l ↔ ∃ s, d.readConfig (Path.child root name) = .ok s ∧ l = parse s := by
  rw [contentPart, part, if_pos h]
  cases d.readConfig (Path.child root name) with
  | error e => exact iff_of_false nofun nofun
  | ok s =>
    constructor
    · rintro ⟨⟩
      exact ⟨s, rfl, rfl⟩
    · rintro ⟨_, ⟨⟩, rfl⟩
      rfl

theorem contentPart_of_file {s : Text} (h : d.find? (Path.child root name) = some (.file (some s))) :
    contentPart d root name parse = .ok (parse s) := by
  have hread : d.readConfig (Path.child root name) = .ok s := by
    rw [Disk.readConfig, Disk.configEntries?, h, Disk.readText, Disk.text?, h]
    rfl
  exact (contentPart_eq_ok_iff (holds_of_find? h)).mpr ⟨s, hread, rfl⟩

theorem exists_files_of_contentPart (hdir : d.find? (Path.child root name) = some (.dir entries))
    (h : contentPart d root name parse = .ok l) :
    ∃ files, Disk.AreConfigFiles entries files ∧ l = parse ((files.map Prod.snd).flatMap (· ++ ['\n'])) := by
  obtain ⟨s, hread, rfl⟩ := (contentPart_eq_ok_iff (holds_of_find? hdir)).mp h
  obtain ⟨files, hfiles, rfl⟩ := Disk.exists_areConfigFiles_of_readConfig hdir hread
  exact ⟨files, hfiles, rfl⟩

theorem exists_contentPart_iff (parse : Text → List α) (hdir : d.find? (Path.child root name) = some (.dir entries)) :
    (∃ l, contentPart d root name parse = .ok l) ↔
      ∀ e ∈ entries, Disk.isConfigName e.1 = true → e.2.isFile = true → ∃ s, e.2 = .file (some s) := by
  rw [← Disk.exists_readConfig_iff hdir]
  simp only [contentPart_eq_ok_iff (holds_of_find? hdir)]
  exact ⟨fun ⟨_, s, hs, _⟩ => ⟨s, hs⟩, fun ⟨s, hs⟩ => ⟨parse s, s, hs, rfl⟩⟩

theorem contentParts_of_load {c : UserConfig} (h : load d root = .ok c) :
    contentPart d root "package.use" parseUse = .ok c.packageUse ∧
      contentPart d root "package.accept_keywords" parseKeywords = .ok c.packageKeywords ∧
      contentPart d root "package.license" parseLicenses = .ok c.packageLicenses ∧
      contentPart d root "package.mask" Mask.parseFile = .ok c.masks.masked ∧
      contentPart d root "package.unmask" Mask.parseFile = .ok c.masks.unmasked := by
  obtain ⟨settings, _, h⟩ := exists_of_bind_eq_ok h
  obtain ⟨repositories, _, h⟩ := exists_of_bind_eq_ok h
  obtain ⟨packageUse, huse, h⟩ := exists_of_bind_eq_ok h
  obtain ⟨packageKeywords, hkeywords, h⟩ := exists_of_bind_eq_ok h
  obtain ⟨packageLicenses, hlicenses, h⟩ := exists_of_bind_eq_ok h
  obtain ⟨masked, hmasked, h⟩ := exists_of_bind_eq_ok h
  obtain ⟨unmasked, hunmasked, h⟩ := exists_of_bind_eq_ok h
  obtain ⟨sets, _, h⟩ := exists_of_bind_eq_ok h
  obtain ⟨world, _, h⟩ := exists_of_bind_eq_ok h
  cases h
  exact ⟨huse, hkeywords, hlicenses, hmasked, hunmasked⟩

end

/-! ### Lines without an entry -/

/-- A line that is no entry, whatever an entry is: its first word is not an atom without USE dependencies. -/
inductive IsIdle (line : Text) : Prop
  | blank (h : words line = [])
  | comment (h : (trim line).head? = some '#')
  | malformed {w : Text} {ws : List Text} {e : ConfigError} (hwords : words line = w :: ws)
      (h : Atom.parse w = .error e)
  | restricted {w : Text} {ws : List Text} {a : Atom} (hwords : words line = w :: ws)
      (h : Atom.parse w = .ok a) (huse : a.useDeps ≠ [])

/-- A line that is no entry, if an entry does not have such words behind its atom. -/
inductive IsVoid (IsRefused : List Text → Prop) (line : Text) : Prop
  | idle (h : IsIdle line)
  | refused {w : Text} {ws : List Text} (hwords : words line = w :: ws) (h : IsRefused ws)

/-- There is an entry for a line with an atom, unless the words behind the atom are refused. -/
structure Reads (rule? : Text → Option α) (IsRefused : List Text → Prop) : Prop where
  eq_none {line : Text} (h : atomLine? line = none) : rule? line = none
  eq_none_iff {line : Text} {p : Atom × List Text} (h : atomLine? line = some p) : rule? line = none ↔ IsRefused p.2

theorem reads_of_eq {rule? : Text → Option α} {entry : Atom → List Text → α}
    (h : ∀ line, rule? line =
      match atomLine? line with
      | some (_, []) => none
      | some (a, ws) => some (entry a ws)
      | none => none) : Reads rule? (· = []) where
  eq_none hnone := by rw [h, hnone]
  eq_none_iff {line p} hsome := by
    obtain ⟨a, ws⟩ := p
    rw [h, hsome]
    cases ws with
    | nil => exact iff_of_true rfl rfl
    | cons w ws => exact iff_of_false nofun nofun

theorem reads_useEntry? : Reads useEntry? (· = []) := reads_of_eq fun _ => rfl

theorem reads_licenseEntry? : Reads licenseEntry? (· = []) := reads_of_eq fun _ => rfl

theorem reads_keywordEntry? : Reads keywordEntry? fun ws => ∃ e, ws.mapM Keyword.parse = .error e where
  eq_none h := by
    unfold keywordEntry?
    rw [h]
  eq_none_iff {line p} h := by
    obtain ⟨a, ws⟩ := p
    unfold keywordEntry?
    rw [h]
    dsimp only
    cases ws.mapM Keyword.parse with
    | error e => exact iff_of_true rfl ⟨e, rfl⟩
    | ok keywords => exact iff_of_false nofun nofun

/-! ### Entries of a text -/

/-- What is read from a trimmed line that is neither blank nor a comment. -/
def ruleOf (rule? : Text → Option α) (line : Text) : Option α :=
  if !line.isEmpty && line.head? != some '#' then rule? line else none

def entriesOf (rule? : Text → Option α) (s : Text) : List α := (ruleLines s).filterMap rule?

section
variable {rule? : Text → Option α} {IsRefused : List Text → Prop}

theorem ruleOf_eq_none_iff {line : Text} :
    ruleOf rule? line = none ↔ line = [] ∨ line.head? = some '#' ∨ rule? line = none := by
  rw [ruleOf, ite_eq_right_iff, Bool.and_eq_true, Bool.not_eq_true', List.isEmpty_eq_false_iff, bne_iff_ne,
    and_imp, ← or_iff_not_imp_left, ← or_iff_not_imp_left]

theorem atomLine?_trim_eq_some_iff {line : Text} {p : Atom × List Text} :
    atomLine? (trim line) = some p ↔
      ∃ w, words line = w :: p.2 ∧ Atom.parse w = .ok p.1 ∧ p.1.useDeps = [] := by
  unfold atomLine?
  rw [words_trim]
  cases words line with
  | nil => exact iff_of_false nofun nofun
  | cons w ws =>
    simp only [← Atom.parseRestriction_eq_ok_iff]
    cases hparse : Atom.parseRestriction w with
    | error e =>
      refine iff_of_false nofun ?_
      rintro ⟨_, ⟨⟩, h⟩
      rw [hparse] at h
      cases h
    | ok a =>
      constructor
      · rintro ⟨⟩
        exact ⟨w, rfl, hparse⟩
      · rintro ⟨_, ⟨⟩, h⟩
        rw [hparse] at h
        cases h
        rfl

theorem isIdle_iff {line : Text} : IsIdle line ↔ (trim line).head? = some '#' ∨ atomLine? (trim line) = none := by
  rw [Option.eq_none_iff_forall_ne_some]
  constructor
  · intro h
    cases h with
    | comment hcomment => exact .inl hcomment
    | blank hblank =>
      refine .inr fun p hp => ?_
      obtain ⟨w, hwords, _⟩ := atomLine?_trim_eq_some_iff.mp hp
      cases hblank.symm.trans hwords
    | malformed hwords hparse =>
      refine .inr fun p hp => ?_
      obtain ⟨w, hwords', hatom, _⟩ := atomLine?_trim_eq_some_iff.mp hp
      cases hwords.symm.trans hwords'
      cases hparse.symm.trans hatom
    | restricted hwords hparse huse =>
      refine .inr fun p hp => ?_
      obtain ⟨w, hwords', hatom, hnone⟩ := atomLine?_trim_eq_some_iff.mp hp
      cases hwords.symm.trans hwords'
      cases hparse.symm.trans hatom
      exact huse hnone
  · intro h
    rcases h with hcomment | hnone
    · exact .comment hcomment
    cases hwords : words line with
    | nil => exact .blank hwords
    | cons w ws =>
      cases hparse : Atom.parse w with
      | error e => exact .malformed hwords hparse
      | ok a =>
        refine .restricted hwords hparse fun huse => ?_
        exact hnone (a, ws) (atomLine?_trim_eq_some_iff.mpr ⟨w, hwords, hparse, huse⟩)

/- A blank line is among those without an atom. -/
theorem ruleOf_trim_eq_none_iff (h : Reads rule? IsRefused) (line : Text) :
    ruleOf rule? (trim line) = none ↔ IsVoid IsRefused line := by
  rw [ruleOf_eq_none_iff]
  cases hatom : atomLine? (trim line) with
  | none => exact iff_of_true (.inr (.inr (h.eq_none hatom))) (.idle (isIdle_iff.mpr (.inr hatom)))
  | some p =>
    obtain ⟨w, hwords, _⟩ := atomLine?_trim_eq_some_iff.mp hatom
    rw [h.eq_none_iff hatom]
    constructor
    · intro hnone
      rcases hnone with hblank | hcomment | hrefused
      · rw [hblank] at hatom
        cases hatom
      · exact .idle (isIdle_iff.mpr (.inl hcomment))
      · exact .refused hwords hrefused
    · intro hvoid
      cases hvoid with
      | idle hidle =>
        rcases isIdle_iff.mp hidle with hcomment | hnone
        · exact .inr (.inl hcomment)
        · cases hatom.symm.trans hnone
      | refused hwords' hrefused =>
        cases hwords.symm.trans hwords'
        exact .inr (.inr hrefused)

theorem entriesOf_eq (rule? : Text → Option α) (s : Text) :
    entriesOf rule? s = (trimmedLines s).filterMap (ruleOf rule?) := List.filterMap_filter

theorem entriesOf_flatMap (texts : List Text) :
    entriesOf rule? (texts.flatMap (· ++ ['\n'])) = texts.flatMap (entriesOf rule?) := by
  have hend (s : Text) : (if isEnded s then [[]] else []).filterMap (ruleOf rule?) = [] := by
    split <;> rfl
  rw [entriesOf_eq, trimmedLines_flatMap, List.filterMap_flatMap]
  simp only [List.filterMap_append, hend, List.append_nil, ← entriesOf_eq]

theorem entriesOf_eq_iff_of_dropsLine {line s s' : Text} (h : DropsLine line s s') :
    entriesOf rule? s = entriesOf rule? s' ↔ ruleOf rule? (trim line) = none := by
  obtain ⟨before, after, hs, hs'⟩ := h.exists_trimmedLines
  rw [entriesOf_eq, entriesOf_eq, hs, hs', List.filterMap_append, List.filterMap_append,
    List.append_right_inj, List.filterMap_cons]
  cases ruleOf rule? (trim line) with
  | none => exact iff_of_true rfl rfl
  | some x => exact iff_of_false (List.cons_ne_self x _) nofun

end

/-! ### Parts read by lines -/

/-- The part is read line by line: the entries of a directory are those of its files on their own, in the order of
their names, and those of a file do not change when a line is taken out, exactly if the line is void. -/
structure IsReadByLines (name : String) (parse : Text → List α) (IsRefused : List Text → Prop) : Prop where
  file {d : Disk} {root s : Text} (h : d.find? (Path.child root name) = some (.file (some s))) :
    contentPart d root name parse = .ok (parse s)
  directory {d : Disk} {root : Text} {entries : List (Text × FileTree)} {l : List α}
    (hdir : d.find? (Path.child root name) = some (.dir entries)) (h : contentPart d root name parse = .ok l) :
    ∃ files, Disk.AreConfigFiles entries files ∧ l = files.flatMap fun f => parse f.2
  readable {d : Disk} {root : Text} {entries : List (Text × FileTree)}
    (hdir : d.find? (Path.child root name) = some (.dir entries)) :
    (∃ l, contentPart d root name parse = .ok l) ↔
      ∀ e ∈ entries, Disk.isConfigName e.1 = true → e.2.isFile = true → ∃ s, e.2 = .file (some s)
  line {line s s' : Text} (h : DropsLine line s s') : parse s = parse s' ↔ IsVoid IsRefused line

theorem isReadByLines_entriesOf (name : String) {rule? : Text → Option α} {IsRefused : List Text → Prop}
    (h : Reads rule? IsRefused) : IsReadByLines name (entriesOf rule?) IsRefused where
  file := contentPart_of_file
  directory hdir hl := by
    obtain ⟨files, hfiles, rfl⟩ := exists_files_of_contentPart hdir hl
    exact ⟨files, hfiles, by rw [entriesOf_flatMap, List.flatMap_map]⟩
  readable := exists_contentPart_iff _
  line hdrops := (entriesOf_eq_iff_of_dropsLine hdrops).trans (ruleOf_trim_eq_none_iff h _)

theorem packageParts_areReadByLines :
    IsReadByLines "package.use" parseUse (· = []) ∧
      IsReadByLines "package.accept_keywords" parseKeywords (fun ws => ∃ e, ws.mapM Keyword.parse = .error e) ∧
      IsReadByLines "package.license" parseLicenses (· = []) ∧
      ∀ d root c, load d root = .ok c →
        contentPart d root "package.use" parseUse = .ok c.packageUse ∧
          contentPart d root "package.accept_keywords" parseKeywords = .ok c.packageKeywords ∧
          contentPart d root "package.license" parseLicenses = .ok c.packageLicenses := by
  refine ⟨isReadByLines_entriesOf _ reads_useEntry?, isReadByLines_entriesOf _ reads_keywordEntry?,
    isReadByLines_entriesOf _ reads_licenseEntry?, fun d root c h => ?_⟩
  obtain ⟨huse, hkeywords, hlicenses, _⟩ := contentParts_of_load h
  exact ⟨huse, hkeywords, hlicenses⟩

def linkedLine : Text := "cat/a[ssl] ssl".toList

def useFiles : List (Text × FileTree) :=
  [("a".toList, .file (some (linkedLine ++ '\n' :: "cat/a ssl".toList))),
    ("b".toList, .file (some "cat/b -ssl\n".toList))]

/-- A configuration directory with two files of USE flags. The first has no line feed at its end, and its first line
is no entry. -/
def useDisk : Disk where
  root := .dir [("package.use".toList, .dir useFiles)]
  here := []

theorem find?_useDisk : useDisk.find? (Path.child "/".toList "package.use") = some (.dir useFiles) := rfl

def useText : Text := "cat/a[ssl] ssl\ncat/a ssl\ncat/b -ssl\n\n".toList

def useConfig : UserConfig :=
  { default "/".toList with packageUse := parseUse useText }

theorem load_useDisk : load useDisk "/".toList = .ok useConfig := by
  have hordered : useFiles.Pairwise fun a b => Text.le a.1 b.1 = true := by decide
  have hread : useDisk.readConfig (Path.child "/".toList "package.use") = .ok useText := by
    rw [Disk.readConfig_of_pairwise find?_useDisk hordered]
    rfl
  have huse : contentPart useDisk "/".toList "package.use" parseUse = .ok (parseUse useText) :=
    (contentPart_eq_ok_iff (holds_of_find? find?_useDisk)).mpr ⟨useText, hread, rfl⟩
  rw [load, huse]
  rfl

theorem isVoid_linkedLine : IsVoid (· = []) linkedLine := by
  have hwords : words linkedLine = ["cat/a[ssl]".toList, "ssl".toList] := by decide +kernel
  have hparse : Atom.parse "cat/a[ssl]".toList = .ok (resultOf (Atom.parse "cat/a[ssl]".toList) (by decide +kernel)) :=
    eq_ok_resultOf _
  exact .idle (.restricted hwords hparse (by decide +kernel))

theorem packageParts_areReadByLines_useDisk :
    load useDisk "/".toList = .ok useConfig ∧
      (∃ files, Disk.AreConfigFiles useFiles files ∧ useConfig.packageUse = files.flatMap fun f => parseUse f.2) ∧
      useConfig.packageUse.length = 2 ∧
      parseUse (linkedLine ++ '\n' :: "cat/a ssl".toList) = parseUse "cat/a ssl".toList := by
  obtain ⟨huse, _, _, hload⟩ := packageParts_areReadByLines
  have hdrops : DropsLine linkedLine ([] ++ (linkedLine ++ '\n' :: "cat/a ssl".toList)) ([] ++ "cat/a ssl".toList) :=
    .ended _ rfl (by decide)
  exact ⟨load_useDisk, huse.directory find?_useDisk (hload _ _ _ load_useDisk).1, by decide +kernel,
    (huse.line hdrops).mpr isVoid_linkedLine⟩

end PackagePolicy.UserConfig
