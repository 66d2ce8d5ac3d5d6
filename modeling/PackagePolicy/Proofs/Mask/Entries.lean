import Mathlib.Data.List.Induction
import Mathlib.Data.List.Infix
import PackagePolicy.Proofs.Atom.WellFormed
import PackagePolicy.Proofs.Mask.Blocks
import PackagePolicy.Result

/-!
# Entries of mask files

A mask has its reason and its author from the comments above it in its block, and from nothing else: what stands
before a blank line or behind the mask, and lines that are no masks themselves, do not matter to it. Main statement:
`parseFile_readsBlocks`.
-/

namespace PackagePolicy

namespace Mask
open Text

/-! ### Lines above a line -/

/-- The lines that are above a line in its block: those behind the last blank line. -/
def blockAbove (above : List Text) : List Text := (above.reverse.takeWhile (· ≠ [])).reverse

def comment? : Text → Option Text
  | '#' :: text => some (trim text)
  | _ => none

def commentsOf (block : List Text) : List Text := block.filterMap comment?

def reasonsOf (block : List Text) : List Text :=
  (commentsOf block).filter fun comment => !Comments.isAuthor comment && !comment.isEmpty

def authorsOf (block : List Text) : List Text := (commentsOf block).filter Comments.isAuthor

/-- The mask that a trimmed line is, below the lines `above` of its file. -/
def maskOf? (above : List Text) (line : Text) : Option Mask :=
  if line.head? = some '#' then none
  else
    match Atom.parse line with
    | .error _ => none
    | .ok atom =>
      if atom.useDeps.isEmpty then
        some {
          atom
          reason :=
            if (reasonsOf (blockAbove above)).isEmpty then none
            else some (join [' '] (reasonsOf (blockAbove above)))
          author := (authorsOf (blockAbove above)).getLast?
        }
      else none

/-- The line is neither blank nor a comment nor an atom without USE dependencies. -/
structure IsVoid (line : Text) : Prop where
  blank : line ≠ []
  comment : line.head? ≠ some '#'
  atom (atom : Atom) : Atom.parse line = .ok atom → atom.useDeps ≠ []

/-! ### Comments of a block -/

theorem blockAbove_concat_blank (above : List Text) : blockAbove (above ++ [[]]) = [] := by
  rw [blockAbove, List.reverse_concat]
  rfl

theorem blockAbove_concat {line : Text} (h : line ≠ []) (above : List Text) :
    blockAbove (above ++ [line]) = blockAbove above ++ [line] := by
  have hline : decide (line ≠ []) = true := decide_eq_true h
  rw [blockAbove, List.reverse_concat, List.takeWhile_cons, if_pos hline, List.reverse_cons, blockAbove]

theorem isEmpty_join {parts : List Text} (h : ∀ w ∈ parts, w ≠ []) :
    (join [' '] parts).isEmpty = parts.isEmpty := by
  rcases List.eq_nil_or_concat' parts with rfl | ⟨parts, v, rfl⟩
  · rfl
  · have hv : v ≠ [] := h v List.mem_concat_self
    rw [join_concat, List.isEmpty_eq_false_iff.mpr (List.append_ne_nil_of_right_ne_nil _ hv),
      List.isEmpty_eq_false_iff.mpr (List.concat_ne_nil v parts)]

theorem join_space_concat {parts : List Text} (h : ∀ w ∈ parts, w ≠ []) {w : Text} (hw : w ≠ []) :
    join [' '] (parts ++ [w]) = joinReasons (join [' '] parts) w := by
  rw [joinReasons, isEmpty_join h, List.isEmpty_eq_false_iff.mpr hw]
  rcases List.eq_nil_or_concat' parts with rfl | ⟨parts, v, rfl⟩
  · exact List.intercalate_singleton
  · rw [List.isEmpty_eq_false_iff.mpr (List.concat_ne_nil v parts), join_concat, join_concat, List.flatMap_append,
      List.flatMap_singleton]
    simp only [Bool.false_eq_true, if_false, List.append_assoc, List.singleton_append]

theorem ne_nil_of_mem_reasonsOf {block : List Text} : ∀ comment ∈ reasonsOf block, comment ≠ [] := by
  intro comment h
  have hboth := (List.mem_filter.mp h).2
  rw [Bool.and_eq_true, Bool.not_eq_true', Bool.not_eq_true'] at hboth
  exact List.isEmpty_eq_false_iff.mp hboth.2

/-- The comments of a block as they are read. -/
def Comments.ofBlock (block : List Text) : Comments := ⟨join [' '] (reasonsOf block), (authorsOf block).getLast?⟩

theorem commentsOf_concat_comment (block : List Text) (text : Text) :
    commentsOf (block ++ ['#' :: text]) = commentsOf block ++ [trim text] := List.filterMap_append

theorem reasonsOf_concat_comment (block : List Text) (text : Text) :
    reasonsOf (block ++ ['#' :: text]) =
      if Comments.isAuthor (trim text) = true ∨ trim text = [] then reasonsOf block
      else reasonsOf block ++ [trim text] := by
  rw [reasonsOf, commentsOf_concat_comment, List.filter_append, ← reasonsOf]
  split
  next h =>
    rcases h with h | h
    · simp [h]
    · simp [h]
  next h =>
    rw [not_or] at h
    simp [h]

theorem authorsOf_concat_comment (block : List Text) (text : Text) :
    authorsOf (block ++ ['#' :: text]) =
      if Comments.isAuthor (trim text) = true then authorsOf block ++ [trim text] else authorsOf block := by
  rw [authorsOf, commentsOf_concat_comment, List.filter_append, ← authorsOf]
  split
  next h => rw [List.filter_cons_of_pos h, List.filter_nil]
  next h => rw [List.filter_cons_of_neg h, List.filter_nil, List.append_nil]

theorem ofBlock_concat_comment (block : List Text) (text : Text) :
    Comments.ofBlock (block ++ ['#' :: text]) = (Comments.ofBlock block).add (trim text) := by
  rw [Comments.add_eq, Comments.ofBlock, reasonsOf_concat_comment, authorsOf_concat_comment]
  by_cases hauthor : Comments.isAuthor (trim text) = true
  · rw [if_pos (.inl hauthor), if_pos hauthor, if_pos hauthor, List.getLast?_concat]
    rfl
  · by_cases hempty : trim text = []
    · rw [if_pos (.inr hempty), if_neg hauthor, if_neg hauthor, hempty, joinReasons_nil]
      rfl
    · have hread : ¬ (Comments.isAuthor (trim text) = true ∨ trim text = []) := not_or.mpr ⟨hauthor, hempty⟩
      rw [if_neg hread, if_neg hauthor, if_neg hauthor, join_space_concat ne_nil_of_mem_reasonsOf hempty]
      rfl

theorem ofBlock_concat_other (block : List Text) {line : Text} (h : comment? line = none) :
    Comments.ofBlock (block ++ [line]) = Comments.ofBlock block := by
  have hcomments : commentsOf (block ++ [line]) = commentsOf block := by
    rw [commentsOf, List.filterMap_append, List.filterMap_cons_none h, List.filterMap_nil, List.append_nil, commentsOf]
  rw [Comments.ofBlock, reasonsOf, authorsOf, hcomments]
  rfl

theorem ofBlock_concat (block : List Text) {line : Text} (h : line ≠ []) :
    Comments.ofBlock (block ++ [line]) = (Comments.ofBlock block).next (.read line) := by
  unfold Line.read
  split
  · exact absurd rfl h
  · exact ofBlock_concat_comment block _
  next hcomment =>
    have hnone : comment? line = none := by
      unfold comment?
      split
      next text _ => exact absurd rfl (hcomment text)
      · rfl
    rw [ofBlock_concat_other block hnone]
    split <;> rfl

theorem after_eq_ofBlock (above : List Text) : Comments.none.after above = .ofBlock (blockAbove above) := by
  induction above using List.reverseRecOn with
  | nil => rfl
  | append_singleton above line ih =>
    rw [after_append, ih]
    show (Comments.ofBlock (blockAbove above)).next (.read line) = _
    by_cases hline : line = []
    · subst hline
      rw [blockAbove_concat_blank]
      rfl
    · rw [blockAbove_concat hline, ofBlock_concat _ hline]

theorem masks_ofBlock (above : List Text) (line : Text) :
    (Comments.ofBlock (blockAbove above)).masks (.read line) = (maskOf? above line).toList := by
  unfold Line.read
  split
  · rfl
  · rfl
  next hblank hcomment =>
    have hhead : line.head? ≠ some '#' := by
      intro h
      obtain ⟨text, htext⟩ := List.head?_eq_some_iff.mp h
      exact hcomment text htext
    rw [maskOf?, if_neg hhead]
    cases hparse : Atom.parse line with
    | error e =>
      rw [Atom.parseRestriction_of_parse_error hparse]
      rfl
    | ok atom =>
      rw [Atom.parseRestriction_of_parse hparse, ← isEmpty_join ne_nil_of_mem_reasonsOf]
      by_cases huse : atom.useDeps.isEmpty = true
      · simp only [huse, if_true]
        rfl
      · simp only [huse, Bool.false_eq_true, if_false]
        rfl

theorem ofLines_after (above lines : List Text) :
    ofLines (Comments.none.after above) lines =
      ((lines.inits.map (above ++ ·)).zip lines).filterMap fun p => maskOf? p.1 p.2 := by
  induction lines generalizing above with
  | nil => rfl
  | cons line lines ih =>
    have hnext : (Comments.none.after above).next (.read line) = Comments.none.after (above ++ [line]) := by
      rw [after_append]
      rfl
    have hinits : (line :: lines).inits.map (above ++ ·) = above :: lines.inits.map (above ++ [line] ++ ·) := by
      rw [List.inits_cons, List.map_cons, List.append_nil, List.map_map]
      simp [Function.comp_def]
    rw [ofLines_cons, hnext, ih, hinits, List.zip_cons_cons, List.filterMap_cons, after_eq_ofBlock, masks_ofBlock]
    cases maskOf? above line <;> rfl

theorem parseFile_eq_ofLines (s : Text) : parseFile s = ofLines .none (trimmedLines s) := rfl

theorem parseFile_eq_filterMap (s : Text) :
    parseFile s = ((trimmedLines s).inits.zip (trimmedLines s)).filterMap fun p => maskOf? p.1 p.2 := by
  have hinits : (trimmedLines s).inits.map ([] ++ ·) = (trimmedLines s).inits := List.map_id _
  rw [parseFile_eq_ofLines, ← hinits]
  exact ofLines_after [] (trimmedLines s)

/-! ### Blank lines and void lines -/

theorem parseFile_append_blankLine (a b : Text) :
    parseFile (a ++ "\n\n".toList ++ b) = parseFile a ++ parseFile b := by
  have hlines : trimmedLines (a ++ "\n\n".toList ++ b) =
      trimmedLines a ++ (if isEnded a then [[]] else []) ++ [] :: trimmedLines b := by
    rw [← map_trim_splitOn, List.append_assoc]
    exact (trimmedLines_append_cons a ('\n' :: b)).trans (congrArg _ (trimmedLines_append_cons [] b))
  have hend (c : Comments) : ofLines c (if isEnded a then [[]] else []) = [] := by
    split <;> rfl
  rw [parseFile_eq_ofLines, hlines, ofLines_append, ofLines_append, hend, List.append_nil, ofLines]
  rfl

theorem read_of_isVoid {line : Text} (h : IsVoid line) : Line.read line = .void := by
  unfold Line.read
  split
  · exact absurd rfl h.blank
  · exact absurd rfl h.comment
  · cases hparse : Atom.parse line with
    | error e => rw [Atom.parseRestriction_of_parse_error hparse]
    | ok atom => rw [Atom.parseRestriction_of_parse hparse, if_neg (mt List.isEmpty_iff.mp (h.atom atom hparse))]

theorem maskOf?_of_isVoid {line : Text} (h : IsVoid line) (above : List Text) : maskOf? above line = none := by
  rw [maskOf?, if_neg h.comment]
  cases hparse : Atom.parse line with
  | error e => rfl
  | ok atom =>
    dsimp only
    rw [if_neg (mt List.isEmpty_iff.mp (h.atom atom hparse))]

theorem parseFile_eq_of_isVoid {line s s' : Text} {before after : List Text} (h : IsVoid line)
    (hs : trimmedLines s = before ++ line :: after) (hs' : trimmedLines s' = before ++ after) :
    parseFile s = parseFile s' := by
  rw [parseFile_eq_ofLines, parseFile_eq_ofLines, hs, hs', ofLines_append, ofLines_append, ofLines_cons,
    read_of_isVoid h]
  rfl

/- Each line is read with the lines above it, of which only those of its own block count. -/
theorem parseFile_readsBlocks :
    (∀ a b, parseFile (a ++ "\n\n".toList ++ b) = parseFile a ++ parseFile b) ∧
      (∀ s, parseFile s = ((trimmedLines s).inits.zip (trimmedLines s)).filterMap fun p => maskOf? p.1 p.2) ∧
      ∀ line, IsVoid line → (∀ above, maskOf? above line = none) ∧
        ∀ s s' before after, trimmedLines s = before ++ line :: after → trimmedLines s' = before ++ after →
          parseFile s = parseFile s' := by
  refine ⟨parseFile_append_blankLine, parseFile_eq_filterMap, fun line h => ⟨maskOf?_of_isVoid h, ?_⟩⟩
  intro s s' before after hs hs'
  exact parseFile_eq_of_isVoid h hs hs'

/-- A block with an atom that has USE dependencies between the comments. -/
def restrictedBlock : Text :=
  "# Jane <jane@example.org>\n# Breaks.\ncat/a[ssl]\n#\n\t# More. \r\ncat/b\n# Late.".toList

def plainBlock : Text := "# Jane <jane@example.org>\n# Breaks.\n#\n# More.\ncat/b\n# Late.".toList

theorem parseFile_readsBlocks_restrictedBlock :
    IsVoid "cat/a[ssl]".toList ∧
      parseFile (restrictedBlock ++ "\n\n".toList ++ "cat/c".toList) =
        parseFile plainBlock ++ parseFile "cat/c".toList ∧
      (parseFile plainBlock).map (fun m => (m.reason, m.author)) =
        [(some "Breaks. More.".toList, some "Jane <jane@example.org>".toList)] ∧
      (parseFile "cat/c".toList).map (fun m => (m.reason, m.author)) = [(none, none)] := by
  have hvoid : IsVoid "cat/a[ssl]".toList := by
    refine ⟨by decide, by decide, fun atom hatom huse => ?_⟩
    have hparsed : (Atom.parse "cat/a[ssl]".toList).toOption.map (·.useDeps.isEmpty) = some false := by decide +kernel
    rw [hatom] at hparsed
    simp [Except.toOption, huse] at hparsed
  obtain ⟨happend, _, hremoved⟩ := parseFile_readsBlocks
  have hblock : parseFile restrictedBlock = parseFile plainBlock :=
    (hremoved _ hvoid).2 _ _ (trimmedLines "# Jane <jane@example.org>\n# Breaks.".toList)
      (trimmedLines "#\n# More.\ncat/b\n# Late.".toList) (by decide +kernel) (by decide +kernel)
  exact ⟨hvoid, by rw [happend, hblock], by decide +kernel, by decide +kernel⟩

end Mask
end PackagePolicy
