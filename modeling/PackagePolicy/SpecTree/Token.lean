import PackagePolicy.SpecTree.Basic
import PackagePolicy.Text.Blank

/-!
# Reading and writing specification trees

A specification is written as words between blanks: `( a b )` asks for all, `|| ( a b )` for any, and
`flag? ( a )` or `!flag? ( a )` is a group under a condition. The words are read from left to right
with a stack of the groups that are still open.
-/

namespace PackagePolicy
namespace SpecTree
open Text
variable {α : Type}

/-! ### Writing -/

def groupLead : Group → Text
  | .all => []
  | .any => "|| ".toList
  | .conditional flag negated => (if negated then ['!'] else []) ++ flag ++ "? ".toList

mutual

def render (leaf : α → Text) : SpecTree α → Text
  | .leaf a => leaf a
  | .group kind children => groupLead kind ++ '(' :: renderList leaf children ++ " )".toList

def renderList (leaf : α → Text) : List (SpecTree α) → Text
  | [] => []
  | t :: ts => ' ' :: render leaf t ++ renderList leaf ts

end

/-! ### Reading -/

/-- A group that is still open: what it asks for, and the trees before it in reverse order. -/
structure Open (α : Type) where
  kind : Group
  before : List (SpecTree α)
deriving Repr

def conditionParts : Text → Bool × Text
  | '!' :: flag => (true, flag)
  | flag => (false, flag)

def readWord (leaf : Text → Except Error α) (source word : Text) :
    Except Error (Group ⊕ SpecTree α) :=
  if word = ['|', '|'] then .ok (.inl .any)
  else
    match before? ['?'] word with
    | some condition =>
      let (negated, flag) := conditionParts condition
      if flag.isEmpty then .error (.spec .emptyCondition source)
      else .ok (.inl (.conditional flag negated))
    | none => (leaf word).map fun a => .inr (.leaf a)

/-- Reads words. `pending` is a group whose parenthesis has yet to come, `stack` the open groups from
the innermost outwards, and `items` the trees of the innermost group in reverse order. -/
def readWords (leaf : Text → Except Error α) (source : Text) (pending : Option Group)
    (stack : List (Open α)) (items : List (SpecTree α)) :
    List Text → Except Error (List (SpecTree α))
  | [] =>
    match pending, stack with
    | some _, _ => .error (.spec .expectedOpen source)
    | none, _ :: _ => .error (.spec .missingClose source)
    | none, [] => .ok items.reverse
  | word :: words =>
    match pending with
    | some kind =>
      if word = ['('] then readWords leaf source none (⟨kind, items⟩ :: stack) [] words
      else .error (.spec .expectedOpen source)
    | none =>
      if word = [')'] then
        match stack with
        | [] => .error (.spec .unbalanced source)
        | g :: stack =>
          readWords leaf source none stack (.group g.kind items.reverse :: g.before) words
      else if word = ['('] then readWords leaf source none (⟨.all, items⟩ :: stack) [] words
      else
        match readWord leaf source word with
        | .error e => .error e
        | .ok (.inl kind) => readWords leaf source (some kind) stack items words
        | .ok (.inr tree) => readWords leaf source none stack (tree :: items) words

/-- Reads a specification; its trees become one group that asks for all of them. -/
def parse (leaf : Text → Except Error α) (s : Text) : Except Error (SpecTree α) :=
  (readWords leaf s none [] [] (words s)).map (.group .all)

def parseLicense (s : Text) : Except Error (SpecTree Text) := parse .ok s

def renderLicense (t : SpecTree Text) : Text := render id t

end SpecTree
end PackagePolicy
