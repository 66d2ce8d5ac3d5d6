import PackagePolicy.Disk.Basic

/-!
# Walks through directories

A walk comes upon a directory before its entries, and upon these in the order of their names. It has a
least depth, above which it passes through directories without a report, and a number of levels below
its start. Of what is reported, a test says what is kept; a directory that is not kept is not entered.
-/

namespace PackagePolicy

/-- What a walk comes upon: the names that lead there, and what is there. -/
structure WalkItem where
  names : List Text
  tree : FileTree
deriving Repr

namespace WalkItem

def depth (x : WalkItem) : Nat := x.names.length

def children (x : WalkItem) : List WalkItem :=
  x.tree.sortedEntries.map fun e => ⟨x.names ++ [e.1], e.2⟩

/-- The items that are reported and kept on a walk from an item through a number of levels below it. -/
def walk (keep : WalkItem → Bool) (least : Nat) : Nat → WalkItem → List WalkItem
  | 0, x => if least ≤ x.depth && keep x then [x] else []
  | levels + 1, x =>
    let below := x.children.flatMap (walk keep least levels)
    if least ≤ x.depth then if keep x then x :: below else [] else below

end WalkItem
end PackagePolicy
