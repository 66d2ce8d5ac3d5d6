import PackagePolicy.Atom.Parser

/-!
# Masks

Lists of atoms that mask packages or lift masks. A mask file holds one atom a line; the comment lines
above it, back to the last blank line, give the reason and the author of its masks.
-/

namespace PackagePolicy

structure Mask where
  atom : Atom
  reason : Option Text
  author : Option Text
deriving BEq, Repr

structure MaskRules where
  masked : List Mask
  unmasked : List Mask
deriving Repr

namespace Mask
open Text

/-- The comments above the line being read. -/
structure Comments where
  reason : Text
  author : Option Text
deriving DecidableEq, Repr

def Comments.none : Comments := ⟨[], Option.none⟩

/-- A comment with an e-mail address names the author, any other is part of the reason. -/
def Comments.add (comment : Text) (c : Comments) : Comments :=
  if comment.contains '<' && comment.contains '@' then { c with author := some comment }
  else if comment.isEmpty then c
  else if c.reason.isEmpty then { c with reason := comment }
  else { c with reason := c.reason ++ ' ' :: comment }

/-- The masks of trimmed lines, below the comments read so far. A line that is no atom is left out. -/
def ofLines (c : Comments) : List Text → List Mask
  | [] => []
  | [] :: lines => ofLines .none lines
  | ('#' :: comment) :: lines => ofLines (c.add (trim comment)) lines
  | line :: lines =>
    match Atom.parseRestriction line with
    | .ok atom =>
      ⟨atom, if c.reason.isEmpty then Option.none else some c.reason, c.author⟩ :: ofLines c lines
    | .error _ => ofLines c lines

def parseFile (s : Text) : List Mask := ofLines .none ((lines s).map trim)

def ofAtom (atom : Atom) (reason : Option Text) : Mask := ⟨atom, reason, none⟩

end Mask

namespace MaskRules

def none : MaskRules := ⟨[], []⟩

def find? (r : MaskRules) (p : Candidate) : Option Mask := r.masked.find? (·.atom.isMatch p)

def isUnmasked (r : MaskRules) (p : Candidate) : Bool := r.unmasked.any (·.atom.isMatch p)

end MaskRules
end PackagePolicy
