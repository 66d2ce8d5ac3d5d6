import PackagePolicy.Database

/-!
# Expansion of package sets

A set name stands for a tree: the atoms of the set, followed by the trees of the sets it refers to. The
sets `everything` and `system` are built from the repositories; any other name is looked up among the
sets of the user and then among those of the repositories by rank. Expansion follows references with the
names on the way to the set at hand; a name that is already on the way is an error. Since a name that is
looked up is new on the way and one of finitely many, expansion ends.
-/

namespace PackagePolicy

def isSetNameStart (c : Char) : Bool :=
  Text.isAsciiDigit c || ('a' ≤ c && c ≤ 'z') || ('A' ≤ c && c ≤ 'Z') || c == '_'

def isSetNameChar (c : Char) : Bool := isSetNameStart c || c == '+' || c == '.' || c == '-'

def isSetName : Text → Bool
  | [] => false
  | c :: s => isSetNameStart c && s.all isSetNameChar

structure SetName where
  text : Text
  wellFormed : isSetName text = true
deriving DecidableEq, Repr

/-- Reads the name of a set; one `@` before it does not count. -/
def SetName.parse (s : Text) : Except Error SetName :=
  if h : isSetName (Text.dropLead '@' s) = true then .ok ⟨Text.dropLead '@' s, h⟩
  else .error (.setName (Text.dropLead '@' s))

structure SetScope where
  database : Database
  userSets : Option SetTable
deriving Repr

namespace SetScope

def everythingName : Text := "everything".toList

def systemName : Text := "system".toList

/-- The sets that can be looked up; of sets with one name the first counts. -/
def sets (s : SetScope) : List PackageSet :=
  (match s.userSets with
    | some table => table.sets
    | none => []) ++ s.database.repositories.flatMap (·.sets.sets)

def find? (s : SetScope) (name : Text) : Option PackageSet := s.sets.find? (·.name == name)

def packageIds (s : SetScope) : List PackageId :=
  ((s.database.repositories.flatMap (·.packageIds)).mergeSort
    fun a b => (a.order b).isLE).eraseDups

def everything (s : SetScope) : SpecTree Atom :=
  .group .all (s.packageIds.map fun p => .leaf (.unversioned p.category p.name))

def addAtom (atoms : List Atom) (a : Atom) : List Atom :=
  if atoms.contains a then atoms else atoms ++ [a]

def system (s : SetScope) : SpecTree Atom :=
  .group .all (((s.database.repositories.flatMap (·.system)).foldl addAtom []).map .leaf)

/-- The names that can be looked up and are not on the way. -/
def unvisited (s : SetScope) (way : List Text) : List Text :=
  (s.sets.map (·.name)).filter fun name => !way.contains name

theorem unvisited_lt {s : SetScope} {way : List Text} {name : Text} {set : PackageSet}
    (new : name ∉ way) (found : s.find? name = some set) :
    (s.unvisited (name :: way)).length < (s.unvisited way).length := by
  have known : name ∈ s.sets.map (·.name) := by
    have h := List.find?_some found
    simp only [beq_iff_eq] at h
    exact h ▸ List.mem_map_of_mem (List.mem_of_find?_eq_some found)
  have split : s.unvisited (name :: way) = (s.unvisited way).filter (· != name) := by
    simp only [unvisited, List.filter_filter]
    congr 1
    funext x
    by_cases hx : x = name <;> simp [hx]
  rw [split]
  refine List.length_filter_lt_length_iff_exists.2 ⟨name, ?_, by simp⟩
  simp [unvisited, new, known]

/-- Expands a set. `way` holds the names that lead to it, the last first. -/
def expand (s : SetScope) (way : List Text) (name : SetName) : Except Error (SpecTree Atom) :=
  if _new : name.text ∈ way then .error (.setCycle name.text way.reverse)
  else if name.text = everythingName then .ok s.everything
  else if name.text = systemName then .ok s.system
  else
    match _found : s.find? name.text with
    | none => .error (.setName name.text)
    | some set => do
      let nested ← set.references.mapM fun reference => do
        expand s (name.text :: way) (← SetName.parse reference)
      return .group .all (set.atoms.map .leaf ++ nested)
termination_by (s.unvisited way).length
decreasing_by exact unvisited_lt _new _found

def resolve (s : SetScope) (name : Text) : Except Error (SpecTree Atom) := do
  s.expand [] (← SetName.parse name)

def names (s : SetScope) : List Text :=
  (Text.sorted (everythingName :: systemName :: s.sets.map (·.name))).eraseDups

end SetScope
end PackagePolicy
