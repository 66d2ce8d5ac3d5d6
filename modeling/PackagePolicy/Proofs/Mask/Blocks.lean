import PackagePolicy.Mask
import PackagePolicy.Proofs.Text.Lines

/-!
# Blocks of masks

Reading a mask file goes from line to line with the comments read so far. Comments that are open before
a file are joined to those of its first block and of no other (`ofLines_followedBy`), so that the masks
of files one after the other depend only on what each file leaves open (`parseFile_flatMap`).
-/

namespace PackagePolicy.Mask
open Text

/-! ### Lines -/

/-- What a trimmed line of a mask file is. -/
inductive Line where
  | blank
  | comment (text : Text)
  | mask (atom : Atom)
  | void

def Line.read : Text → Line
  | [] => .blank
  | '#' :: text => .comment (trim text)
  | line =>
    match Atom.parseRestriction line with
    | .ok atom => .mask atom
    | .error _ => .void

theorem read_eq_blank_iff {line : Text} : Line.read line = .blank ↔ line = [] := by
  unfold Line.read
  split
  · exact iff_of_true rfl rfl
  · exact iff_of_false nofun (List.cons_ne_nil _ _)
  next hne _ =>
    refine iff_of_false ?_ hne
    split <;> nofun

namespace Comments

def next (c : Comments) : Line → Comments
  | .blank => .none
  | .comment text => c.add text
  | .mask _ => c
  | .void => c

def mask (c : Comments) (atom : Atom) : Mask :=
  ⟨atom, if c.reason.isEmpty then Option.none else some c.reason, c.author⟩

def masks (c : Comments) : Line → List Mask
  | .blank => []
  | .comment _ => []
  | .mask atom => [c.mask atom]
  | .void => []

/-- The comments that are open behind these lines. -/
def after (c : Comments) (lines : List Text) : Comments := lines.foldl (fun c line => c.next (.read line)) c

end Comments

theorem ofLines_cons (c : Comments) (line : Text) (lines : List Text) :
    ofLines c (line :: lines) = c.masks (.read line) ++ ofLines (c.next (.read line)) lines := by
  unfold Line.read
  split
  · rfl
  · rfl
  next hblank hcomment =>
    rw [ofLines]
    · cases Atom.parseRestriction line <;> rfl
    · exact hblank
    · exact hcomment

theorem ofLines_append (c : Comments) (before after : List Text) :
    ofLines c (before ++ after) = ofLines c before ++ ofLines (c.after before) after := by
  induction before generalizing c with
  | nil => rfl
  | cons line before ih =>
    rw [List.cons_append, ofLines_cons, ofLines_cons, ih, List.append_assoc]
    rfl

/- Which atoms are masked does not depend on the comments. -/
theorem exists_mem_ofLines_iff {c : Comments} {lines : List Text} {p : Atom → Prop} :
    (∃ mask ∈ ofLines c lines, p mask.atom) ↔ ∃ line ∈ lines, ∃ a, Line.read line = .mask a ∧ p a := by
  induction lines generalizing c with
  | nil => simp [ofLines]
  | cons line lines ih =>
    have hline : (∃ mask ∈ c.masks (.read line), p mask.atom) ↔ ∃ a, Line.read line = .mask a ∧ p a := by
      cases Line.read line <;> simp [Comments.masks, Comments.mask]
    rw [ofLines_cons]
    simp only [List.mem_append, List.mem_cons, or_and_right, exists_or, exists_eq_left, hline, ih]

theorem after_append (c : Comments) (before after : List Text) :
    c.after (before ++ after) = (c.after before).after after := List.foldl_append

/-! ### Comments above comments -/

def joinReasons (a b : Text) : Text :=
  if a.isEmpty then b else if b.isEmpty then a else a ++ ' ' :: b

theorem joinReasons_nil (a : Text) : joinReasons a [] = a := by
  cases a <;> rfl

theorem joinReasons_assoc (a b d : Text) :
    joinReasons (joinReasons a b) d = joinReasons a (joinReasons b d) := by
  cases a with
  | nil => rfl
  | cons x a =>
    cases b with
    | nil => rfl
    | cons y b =>
      cases d with
      | nil => rfl
      | cons z d => simp [joinReasons]

theorem joinReasons_eq_right_iff {a b : Text} : joinReasons a b = b ↔ a = [] := by
  cases a with
  | nil => exact iff_of_true rfl rfl
  | cons x a =>
    refine iff_of_false (fun h => ?_) (List.cons_ne_nil x a)
    cases b with
    | nil => cases h
    | cons y b =>
      have hlength := congrArg List.length h
      simp only [joinReasons, List.isEmpty_cons, Bool.false_eq_true, if_false, List.length_append,
        List.length_cons] at hlength
      omega

namespace Comments

def isAuthor (comment : Text) : Bool := comment.contains '<' && comment.contains '@'

theorem add_eq (c : Comments) (comment : Text) :
    c.add comment =
      if isAuthor comment then { c with author := some comment }
      else { c with reason := joinReasons c.reason comment } := by
  unfold add isAuthor
  split
  · rfl
  · cases comment with
    | nil =>
      rw [joinReasons_nil]
      rfl
    | cons x comment => cases c.reason <;> rfl

/-- Comments with more comments below them. -/
def followedBy (c k : Comments) : Comments := ⟨joinReasons c.reason k.reason, k.author.or c.author⟩

theorem followedBy_none (c : Comments) : c.followedBy .none = c := by
  rw [followedBy, none, joinReasons_nil, Option.none_or]

theorem followedBy_add (c k : Comments) (comment : Text) :
    (c.followedBy k).add comment = c.followedBy (k.add comment) := by
  rw [add_eq, add_eq]
  split
  · rfl
  · rw [followedBy, followedBy, joinReasons_assoc]

end Comments

/-- The mask as it is below more comments. -/
def below (c : Comments) (m : Mask) : Mask where
  atom := m.atom
  reason :=
    match m.reason with
    | none => (c.mask m.atom).reason
    | some reason => some (joinReasons c.reason reason)
  author := m.author.or c.author

theorem mask_followedBy (c k : Comments) (atom : Atom) :
    (c.followedBy k).mask atom = (k.mask atom).below c := by
  cases hk : k.reason with
  | nil => simp [Comments.mask, Comments.followedBy, below, hk, joinReasons_nil]
  | cons x reason =>
    have hne : (joinReasons c.reason (x :: reason)).isEmpty = false := by
      cases c.reason <;> rfl
    simp [Comments.mask, Comments.followedBy, below, hk, hne]

/-- Nothing of the comments shows in the mask below them. -/
def Hides (c : Comments) (m : Mask) : Prop := c.reason = [] ∧ (c.author = none ∨ m.author ≠ none)

theorem below_eq_self_iff {c : Comments} {m : Mask} : m.below c = m ↔ Hides c m := by
  obtain ⟨atom, reason, author⟩ := m
  have hreason : (below c ⟨atom, reason, author⟩).reason = reason ↔ c.reason = [] := by
    cases reason with
    | none => simp [below, Comments.mask]
    | some reason => simp [below, joinReasons_eq_right_iff]
  have hauthor : (below c ⟨atom, reason, author⟩).author = author ↔ c.author = none ∨ author ≠ none := by
    cases author with
    | none => simp [below]
    | some author => simp [below]
  rw [Hides, ← hreason, ← hauthor, below, mk.injEq]
  exact and_iff_right rfl

/-! ### Blocks -/

/-- The trimmed lines before the first blank line. -/
def firstLines (lines : List Text) : List Text := lines.takeWhile (· ≠ [])

def otherLines (lines : List Text) : List Text := lines.dropWhile (· ≠ [])

theorem ofLines_followedBy (c k : Comments) (lines : List Text) :
    ofLines (c.followedBy k) lines =
      (ofLines k (firstLines lines)).map (below c) ++ ofLines .none (otherLines lines) := by
  induction lines generalizing k with
  | nil => rfl
  | cons line lines ih =>
    by_cases hline : line = []
    · subst hline
      rfl
    · have hfirst : firstLines (line :: lines) = line :: firstLines lines :=
        List.takeWhile_cons_of_pos (decide_eq_true hline)
      have hother : otherLines (line :: lines) = otherLines lines :=
        List.dropWhile_cons_of_pos (decide_eq_true hline)
      have hread : Line.read line ≠ .blank := mt read_eq_blank_iff.mp hline
      rw [hfirst, hother, ofLines_cons, ofLines_cons, List.map_append, List.append_assoc]
      cases h : Line.read line with
      | blank => exact absurd h hread
      | comment text =>
        rw [Comments.next, Comments.followedBy_add, ih]
        rfl
      | mask atom =>
        rw [Comments.next, ih, Comments.masks, mask_followedBy]
        rfl
      | void =>
        rw [Comments.next, ih]
        rfl

end PackagePolicy.Mask
