import PackagePolicy.Proofs.Config.Parts
import PackagePolicy.Proofs.Mask.Blocks

/-!
# Directories of masks

The files of a directory are read as one text. A file that is empty or ends with a line feed leaves no
comments open, but the comments of any other file go on into the first block of the next one. Main
statements: `masks_areOfFiles`, and `exists_masked_reason_ofOtherFile` on a directory of two files.
-/

namespace PackagePolicy
open Text

/-! ### Files one after the other -/

namespace Mask

/-- The masks of a file before its first blank line. -/
def firstBlock (s : Text) : List Mask := ofLines .none (firstLines (trimmedLines s))

def otherBlocks (s : Text) : List Mask := ofLines .none (otherLines (trimmedLines s))

/-- The comments that are open behind a file: none, if nothing is behind its last line feed. -/
def Comments.leftBy (c : Comments) (s : Text) : Comments :=
  if isEnded s then .none else c.after (trimmedLines s)

/-- The masks of files, the first block of each below the comments that the files before it left open. -/
def ofFiles (c : Comments) : List Text → List Mask
  | [] => []
  | s :: texts => (firstBlock s).map (below c) ++ otherBlocks s ++ ofFiles (c.leftBy s) texts

theorem ofLines_trimmedLines (c : Comments) (s : Text) :
    ofLines c (trimmedLines s) = (firstBlock s).map (below c) ++ otherBlocks s := by
  have h := ofLines_followedBy c .none (trimmedLines s)
  rwa [Comments.followedBy_none] at h

theorem hides_none (m : Mask) : Hides .none m := ⟨rfl, .inl rfl⟩

theorem parseFile_eq (s : Text) : parseFile s = firstBlock s ++ otherBlocks s := by
  have hself : (firstBlock s).map (below .none) = firstBlock s := by
    rw [List.map_congr_left fun m _ => below_eq_self_iff.mpr (hides_none m), List.map_id']
  have h := ofLines_trimmedLines .none s
  rwa [hself] at h

theorem ofLines_flatMap (c : Comments) (texts : List Text) :
    ofLines c (texts.flatMap fun s => trimmedLines s ++ if isEnded s then [[]] else []) =
      ofFiles c texts := by
  induction texts generalizing c with
  | nil => rfl
  | cons s texts ih =>
    have hleft : c.after (trimmedLines s ++ if isEnded s then [[]] else []) = c.leftBy s := by
      rw [after_append, Comments.leftBy]
      split <;> rfl
    have hend (k : Comments) : ofLines k (if isEnded s then [[]] else []) = [] := by
      split <;> rfl
    rw [List.flatMap_cons, ofLines_append, hleft, ih, ofLines_append, hend, List.append_nil,
      ofLines_trimmedLines, ofFiles]

theorem parseFile_flatMap (texts : List Text) :
    parseFile (texts.flatMap (· ++ ['\n'])) = ofFiles .none texts := by
  rw [← ofLines_flatMap, ← trimmedLines_flatMap]
  rfl

theorem map_atom_ofFiles (c : Comments) (texts : List Text) :
    (ofFiles c texts).map Mask.atom = (texts.flatMap parseFile).map Mask.atom := by
  have hbelow (c : Comments) : Mask.atom ∘ below c = Mask.atom := rfl
  induction texts generalizing c with
  | nil => rfl
  | cons s texts ih =>
    rw [ofFiles, List.flatMap_cons, parseFile_eq, List.map_append, List.map_append, List.map_append,
      List.map_append, List.map_map, hbelow, ih]

theorem map_below_eq_self_iff {c : Comments} {ms : List Mask} :
    ms.map (below c) = ms ↔ ∀ m ∈ ms, Hides c m := by
  have h : ms.map (below c) = ms.map id ↔ ∀ m ∈ ms, m.below c = m := List.map_inj_left
  rw [List.map_id] at h
  exact h.trans (forall₂_congr fun m _ => below_eq_self_iff)

theorem ofFiles_eq_flatMap_iff {c : Comments} {texts : List Text} :
    ofFiles c texts = texts.flatMap parseFile ↔ ∀ before s after, texts = before ++ s :: after →
      ∀ m ∈ firstBlock s, Hides (before.foldl Comments.leftBy c) m := by
  induction texts generalizing c with
  | nil => simp [ofFiles]
  | cons t texts ih =>
    have hlength : ((firstBlock t).map (below c) ++ otherBlocks t).length = (parseFile t).length := by
      rw [parseFile_eq, List.length_append, List.length_append, List.length_map]
    rw [ofFiles, List.flatMap_cons, List.append_eq_append_iff_of_size_eq_left hlength, ih, parseFile_eq,
      List.append_left_inj, map_below_eq_self_iff]
    constructor
    · intro h before s after heq
      cases before with
      | nil =>
        cases heq
        exact h.1
      | cons x before =>
        cases heq
        exact h.2 before s after rfl
    · intro h
      refine ⟨h [] t texts rfl, fun before s after heq => ?_⟩
      exact h (t :: before) s after (by rw [heq, List.cons_append])

theorem foldl_leftBy_of_isEnded {texts : List Text} (h : ∀ s ∈ texts, isEnded s = true) :
    texts.foldl Comments.leftBy .none = .none := by
  induction texts with
  | nil => rfl
  | cons s texts ih =>
    rw [List.forall_mem_cons] at h
    rw [List.foldl_cons, Comments.leftBy, if_pos h.1, ih h.2]

theorem ofFiles_eq_flatMap_of_isEnded {texts : List Text} (h : ∀ s ∈ texts.dropLast, isEnded s = true) :
    ofFiles .none texts = texts.flatMap parseFile := by
  refine ofFiles_eq_flatMap_iff.mpr fun before s after heq m _ => ?_
  have hbefore : ∀ t ∈ before, isEnded t = true := by
    intro t ht
    refine h t ?_
    rw [heq, List.dropLast_append_cons]
    exact List.mem_append_left _ ht
  rw [foldl_leftBy_of_isEnded hbefore]
  exact hides_none m

end Mask

/-! ### The directories of a configuration -/

namespace UserConfig
variable {d : Disk} {root : Text} {entries : List (Text × FileTree)}

/- The atoms are those of the files on their own. So are the reasons and authors if each file but the last
leaves no comments open, and otherwise if the open comments do not show in the next files. -/
theorem masks_areOfFiles {c : UserConfig} (h : load d root = .ok c) :
    ∀ part ∈ [("package.mask", c.masks.masked), ("package.unmask", c.masks.unmasked)],
      d.find? (Path.child root part.1) = some (.dir entries) →
        ∃ files texts, Disk.AreConfigFiles entries files ∧ texts = files.map Prod.snd ∧
          part.2 = Mask.ofFiles .none texts ∧
          part.2.map Mask.atom = (texts.flatMap Mask.parseFile).map Mask.atom ∧
          ((∀ s ∈ texts.dropLast, isEnded s = true) → part.2 = texts.flatMap Mask.parseFile) ∧
          (part.2 = texts.flatMap Mask.parseFile ↔ ∀ before s after, texts = before ++ s :: after →
            ∀ m ∈ Mask.firstBlock s, Mask.Hides (before.foldl Mask.Comments.leftBy .none) m) := by
  obtain ⟨_, _, _, hmasked, hunmasked⟩ := contentParts_of_load h
  intro part hpart hdir
  have hcontent : contentPart d root part.1 Mask.parseFile = .ok part.2 := by
    rcases List.mem_pair.mp hpart with rfl | rfl
    · exact hmasked
    · exact hunmasked
  obtain ⟨files, hfiles, hms⟩ := exists_files_of_contentPart hdir hcontent
  refine ⟨files, files.map Prod.snd, hfiles, rfl, ?_⟩
  rw [hms, Mask.parseFile_flatMap]
  exact ⟨rfl, Mask.map_atom_ofFiles _ _, Mask.ofFiles_eq_flatMap_of_isEnded,
    Mask.ofFiles_eq_flatMap_iff⟩

def maskFiles : List (Text × FileTree) :=
  [("a".toList, .file (some "# Broken.\ncat/a".toList)), ("b".toList, .file (some "cat/b\n".toList))]

/-- A configuration directory with two files of masks, the first without a line feed at its end. -/
def maskDisk : Disk where
  root := .dir [("package.mask".toList, .dir maskFiles)]
  here := []

def maskText : Text := "# Broken.\ncat/a\ncat/b\n\n".toList

theorem find?_maskDisk :
    maskDisk.find? (Path.child "/".toList "package.mask") = some (.dir maskFiles) := rfl

theorem readConfig_maskDisk :
    maskDisk.readConfig (Path.child "/".toList "package.mask") = .ok maskText := by
  have hordered : maskFiles.Pairwise fun a b => Text.le a.1 b.1 = true := by decide
  rw [Disk.readConfig_of_pairwise find?_maskDisk hordered]
  rfl

def maskConfig : UserConfig :=
  { default "/".toList with masks := ⟨Mask.parseFile maskText, []⟩ }

theorem load_maskDisk : load maskDisk "/".toList = .ok maskConfig := by
  have hmasked : contentPart maskDisk "/".toList "package.mask" Mask.parseFile =
      .ok (Mask.parseFile maskText) :=
    (contentPart_eq_ok_iff (holds_of_find? find?_maskDisk)).mpr ⟨maskText, readConfig_maskDisk, rfl⟩
  rw [load, hmasked]
  rfl

theorem masked_areOfFiles_maskDisk :
    load maskDisk "/".toList = .ok maskConfig ∧
      maskDisk.find? (Path.child "/".toList "package.mask") = some (.dir maskFiles) ∧
      ∃ files, Disk.AreConfigFiles maskFiles files ∧
        maskConfig.masks.masked = Mask.ofFiles .none (files.map Prod.snd) := by
  obtain ⟨files, _, hfiles, rfl, hmasked, _⟩ :=
    masks_areOfFiles load_maskDisk _ List.mem_cons_self find?_maskDisk
  exact ⟨load_maskDisk, find?_maskDisk, files, hfiles, hmasked⟩

theorem exists_masked_reason_ofOtherFile :
    ∃ c, load maskDisk "/".toList = .ok c ∧
      c.masks.masked.map Mask.reason = [some "Broken.".toList, some "Broken.".toList] ∧
      (Mask.parseFile "# Broken.\ncat/a".toList ++ Mask.parseFile "cat/b\n".toList).map Mask.reason =
        [some "Broken.".toList, none] :=
  ⟨maskConfig, load_maskDisk, by decide +kernel, by decide +kernel⟩

end UserConfig
end PackagePolicy
