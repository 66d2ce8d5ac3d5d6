import Mathlib.Data.List.Basic
import PackagePolicy.Proofs.Text.Cuts

/-!
# Lines

The lines of texts that were put together with a line feed after each are the lines of the texts, but a
text that is empty or already ends with a line feed has one more, which is empty
(`trimmedLines_flatMap`).
-/

namespace PackagePolicy.Text

/-! ### Pieces -/

theorem splitOn_flatMap_concat (sep : Char) (texts : List Text) :
    (texts.flatMap (· ++ [sep])).splitOn sep = texts.flatMap (·.splitOn sep) ++ [[]] := by
  induction texts with
  | nil => rfl
  | cons s texts ih =>
    rw [List.flatMap_cons, List.append_assoc, List.singleton_append, List.splitOn_append_cons_self, ih,
      List.flatMap_cons, List.append_assoc]

theorem join_concat (sep last : Text) (parts : List Text) :
    join sep (parts ++ [last]) = parts.flatMap (· ++ sep) ++ last := by
  unfold join
  induction parts with
  | nil => exact List.intercalate_singleton
  | cons s parts ih =>
    have hne : parts ++ [last] ≠ [] := List.concat_ne_nil last parts
    obtain ⟨s', parts', h⟩ := List.exists_cons_of_ne_nil hne
    rw [List.cons_append, h, List.intercalate_cons_cons, ← h, ih, List.flatMap_cons, List.append_assoc,
      List.append_assoc, List.append_assoc]

/- A text is the pieces that end with the mark, and what is behind them. -/
theorem exists_splitOn_eq_concat (sep : Char) (s : Text) :
    ∃ parts last, s.splitOn sep = parts ++ [last] ∧ s = parts.flatMap (· ++ [sep]) ++ last ∧ sep ∉ last := by
  rcases List.eq_nil_or_concat' (s.splitOn sep) with h | ⟨parts, last, h⟩
  · exact absurd h (List.splitOnP_ne_nil _ s)
  · refine ⟨parts, last, h, ?_, ?_⟩
    · rw [← join_concat, ← h, join_splitOn]
    · have hlast : last ∈ s.splitOn sep := by
        rw [h]
        exact List.mem_append_right parts List.mem_cons_self
      intro hsep
      exact absurd (mem_of_mem_splitOnP hlast sep hsep).2 (by simp)

/-! ### Line ends -/

/-- Nothing is behind the last line feed of the text. -/
def isEnded (s : Text) : Bool := s.getLast?.all (· == '\n')

theorem isEnded_flatMap_append {parts : List Text} {last : Text} (h : '\n' ∉ last) :
    isEnded (parts.flatMap (· ++ ['\n']) ++ last) = last.isEmpty := by
  rcases List.eq_nil_or_concat' last with rfl | ⟨front, c, rfl⟩
  · rcases List.eq_nil_or_concat' parts with rfl | ⟨parts, part, rfl⟩
    · rfl
    · rw [isEnded, List.append_nil, List.flatMap_append, List.flatMap_singleton, ← List.append_assoc,
        List.getLast?_concat]
      rfl
  · have hc : c ≠ '\n' := by
      rintro rfl
      exact h List.mem_concat_self
    rw [isEnded, ← List.append_assoc, List.getLast?_concat, Option.all_some, beq_eq_false_iff_ne.mpr hc]
    exact (List.isEmpty_eq_false_iff.mpr (List.concat_ne_nil c front)).symm

theorem linesOfPieces_concat (parts : List Text) (last : Text) :
    linesOfPieces (parts ++ [last]) =
      parts.map withoutReturn ++ if last.isEmpty then [] else [last] := by
  induction parts with
  | nil => rfl
  | cons s parts ih =>
    have hne : parts ++ [last] ≠ [] := List.concat_ne_nil last parts
    obtain ⟨s', parts', h⟩ := List.exists_cons_of_ne_nil hne
    rw [List.cons_append, h, linesOfPieces, ← h, ih, List.map_cons, List.cons_append]
    exact List.cons_ne_nil s' parts'

theorem trim_append_blanks {s right : Text} (h : IsBlanks right) : trim (s ++ right) = trim s := by
  obtain ⟨front, back, hfront, hback, hs⟩ := exists_trim_append s
  have hblanks : IsBlanks (back ++ right) := by
    intro c hc
    exact (List.mem_append.mp hc).elim (hback c) (h c)
  calc trim (s ++ right)
      = trim (front ++ trim s ++ (back ++ right)) := by rw [← List.append_assoc, ← hs]
    _ = trim s := trim_blanks_append hfront hblanks (isTrimmed_trim s)

theorem trim_withoutReturn (s : Text) : trim (withoutReturn s) = trim s := by
  unfold withoutReturn
  split
  next h =>
    obtain ⟨body, rfl⟩ := List.getLast?_eq_some_iff.mp h
    have hreturn : IsBlanks ['\r'] := List.forall_mem_singleton.mpr rfl
    rw [List.dropLast_concat, trim_append_blanks hreturn]
  · rfl

/-! ### Trimmed lines -/

/-- The lines of a text without the blanks around them. -/
def trimmedLines (s : Text) : List Text := (lines s).map trim

theorem trimmedLines_eq {s last : Text} {parts : List Text} (h : s.splitOn '\n' = parts ++ [last]) :
    trimmedLines s = parts.map trim ++ if last.isEmpty then [] else [trim last] := by
  have hreturn : trim ∘ withoutReturn = trim := funext trim_withoutReturn
  rw [trimmedLines, lines, h, linesOfPieces_concat, List.map_append, List.map_map, hreturn]
  split <;> rfl

theorem map_trim_splitOn (s : Text) :
    (s.splitOn '\n').map trim = trimmedLines s ++ if isEnded s then [[]] else [] := by
  obtain ⟨parts, last, hsplit, hs, hlast⟩ := exists_splitOn_eq_concat '\n' s
  have hended : isEnded s = last.isEmpty := by
    rw [hs]
    exact isEnded_flatMap_append hlast
  rw [trimmedLines_eq hsplit, hended, hsplit, List.map_append]
  cases last with
  | nil => simp only [List.isEmpty_nil, if_true, List.append_nil]; rfl
  | cons c last => simp only [List.isEmpty_cons, Bool.false_eq_true, if_false, List.append_nil]; rfl

theorem trimmedLines_flatMap (texts : List Text) :
    trimmedLines (texts.flatMap (· ++ ['\n'])) =
      texts.flatMap fun s => trimmedLines s ++ if isEnded s then [[]] else [] := by
  rw [trimmedLines_eq (splitOn_flatMap_concat '\n' texts), List.map_flatMap]
  simp only [map_trim_splitOn, List.isEmpty_nil, if_true, List.append_nil]

theorem trimmedLines_append_cons (a b : Text) :
    trimmedLines (a ++ '\n' :: b) = (a.splitOn '\n').map trim ++ trimmedLines b := by
  obtain ⟨parts, last, hb, _, _⟩ := exists_splitOn_eq_concat '\n' b
  have hsplit : (a ++ '\n' :: b).splitOn '\n' = (a.splitOn '\n' ++ parts) ++ [last] := by
    rw [List.splitOn_append_cons_self, hb, List.append_assoc]
  rw [trimmedLines_eq hsplit, trimmedLines_eq hb, List.map_append, List.append_assoc]

/-! ### Lines taken out -/

theorem trimmedLines_append_of_isEnded {a : Text} (h : isEnded a = true) (b : Text) :
    trimmedLines (a ++ b) = trimmedLines a ++ trimmedLines b := by
  rcases List.eq_nil_or_concat' a with rfl | ⟨body, c, rfl⟩
  · rfl
  · rw [isEnded, List.getLast?_concat, Option.all_some, beq_iff_eq] at h
    rw [h, List.append_assoc, List.singleton_append, trimmedLines_append_cons, trimmedLines_append_cons,
      List.append_assoc]
    rfl

theorem trimmedLines_line {line : Text} (hline : '\n' ∉ line) (hne : line ≠ []) :
    trimmedLines line = [trim line] := by
  have hsplit : line.splitOn '\n' = [] ++ [line] := List.splitOn_eq_singleton hline
  rw [trimmedLines_eq hsplit, List.isEmpty_eq_false_iff.mpr hne]
  rfl

/-- The line is taken out of the first text, with its line feed if it has one. -/
inductive DropsLine (line : Text) : Text → Text → Prop
  | ended {front : Text} (back : Text) (hfront : isEnded front = true) (hline : '\n' ∉ line) :
      DropsLine line (front ++ (line ++ '\n' :: back)) (front ++ back)
  | last {front : Text} (hfront : isEnded front = true) (hline : '\n' ∉ line) (hne : line ≠ []) :
      DropsLine line (front ++ line) front

theorem DropsLine.exists_trimmedLines {line s s' : Text} (h : DropsLine line s s') :
    ∃ before after, trimmedLines s = before ++ trim line :: after ∧ trimmedLines s' = before ++ after := by
  cases h with
  | ended back hfront hline =>
    refine ⟨_, trimmedLines back, ?_, trimmedLines_append_of_isEnded hfront back⟩
    rw [trimmedLines_append_of_isEnded hfront, trimmedLines_append_cons, List.splitOn_eq_singleton hline]
    rfl
  | last hfront hline hne =>
    refine ⟨_, [], ?_, (List.append_nil _).symm⟩
    rw [trimmedLines_append_of_isEnded hfront, trimmedLines_line hline hne]

end PackagePolicy.Text
