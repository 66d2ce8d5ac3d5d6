import PackagePolicy.Error

/-!
# Specification trees

A specification is a tree of groups with leaves of some kind: license names in a license expression,
atoms in a package set. A group asks for all of its children, for any one of them, or for all of them
where a USE condition holds.

Leaves and conditions are decided by callbacks in any monad, so that a callback may fail or keep a
record of the calls.
-/

namespace PackagePolicy

inductive Group where
  | all
  | any
  /-- all children, where the flag is on or, if negated, off -/
  | conditional (flag : Text) (negated : Bool)
deriving DecidableEq, Repr

inductive SpecTree (α : Type) where
  | leaf (value : α)
  | group (kind : Group) (children : List (SpecTree α))
deriving Repr

namespace SpecTree
variable {α : Type}

/-! ### Leaves -/

mutual

def leaves : SpecTree α → List α
  | .leaf a => [a]
  | .group _ children => leavesOf children

def leavesOf : List (SpecTree α) → List α
  | [] => []
  | t :: ts => leaves t ++ leavesOf ts

end

def isEmpty (t : SpecTree α) : Bool := t.leaves.isEmpty

/-! ### Evaluation -/

variable {m : Type → Type} [Monad m]

mutual

/-- Whether a tree is satisfied. Children are visited from left to right until the group is decided.
A group whose condition does not hold is satisfied, and so is a group of alternatives without any. -/
def evaluate (leaf : α → m Bool) (use : Text → m Bool) : SpecTree α → m Bool
  | .leaf a => leaf a
  | .group .all children => evaluateAll leaf use children
  | .group .any [] => pure true
  | .group .any (t :: ts) => evaluateAny leaf use (t :: ts)
  | .group (.conditional flag negated) children => do
    if (← use flag) == negated then pure true else evaluateAll leaf use children

def evaluateAll (leaf : α → m Bool) (use : Text → m Bool) : List (SpecTree α) → m Bool
  | [] => pure true
  | t :: ts => do if ← evaluate leaf use t then evaluateAll leaf use ts else pure false

def evaluateAny (leaf : α → m Bool) (use : Text → m Bool) : List (SpecTree α) → m Bool
  | [] => pure false
  | t :: ts => do if ← evaluate leaf use t then pure true else evaluateAny leaf use ts

end

end SpecTree
end PackagePolicy
