import PackagePolicy.Atom.Basic

/-!
# Hashing

What versions and atoms feed to a hasher, one value after the other. A version is fed part by part in its
normal form, so that the spellings of one version are the same to a hasher. Only the later components stand
there without their number; each is fed with a mark that tells it from what follows.
-/

namespace PackagePolicy

/-- A value as it is fed to a hasher. -/
inductive HashValue where
  | text (s : Text)
  | char (c : Char)
  | number (n : Nat)
  | flag (b : Bool)
  /-- which one of several forms a part has -/
  | variant (n : Nat)
  | length (n : Nat)
deriving DecidableEq, Repr

namespace HashValue
variable {α : Type}

def ofOption (f : α → List HashValue) : Option α → List HashValue
  | none => [.variant 0]
  | some a => .variant 1 :: f a

def ofList (f : α → List HashValue) (as : List α) : List HashValue := .length as.length :: as.flatMap f

end HashValue

/-! ### Versions -/

def Suffix.hashValues (s : Suffix) : List HashValue := [.variant s.kind.rank, .number s.number]

namespace Version

def componentHashValues (c : Bool × Text) : List HashValue := [.flag c.1, .text c.2]

def Key.hashValues (k : Key) : List HashValue :=
  .text k.first :: (k.later.flatMap componentHashValues
    ++ (HashValue.ofOption (fun c => [.char c]) k.letter
    ++ (HashValue.ofList Suffix.hashValues k.suffixes ++ [.number k.revision])))

def hashValues (v : Version) : List HashValue := v.key.hashValues

end Version

/-! ### Atoms -/

def Operator.index : Operator → Nat
  | .any => 0
  | .equal => 1
  | .greater => 2
  | .greaterEqual => 3
  | .less => 4
  | .lessEqual => 5
  | .textStart => 6
  | .sameBase => 7

def UseDep.hashValues (d : UseDep) : List HashValue :=
  .text d.flag :: .flag d.enabled
    :: (HashValue.ofOption (fun b => [.flag b]) d.default ++ [.flag d.conditional])

def Atom.hashValues (a : Atom) : List HashValue :=
  .variant a.operator.index :: .text a.category :: .text a.name
    :: (HashValue.ofOption Version.hashValues a.version
    ++ (HashValue.ofOption (fun s => [.text s]) a.slot
    ++ (HashValue.ofOption (fun s => [.text s]) a.subslot
    ++ (HashValue.ofOption (fun s => [.text s]) a.repository
    ++ HashValue.ofList UseDep.hashValues a.useDeps))))

end PackagePolicy
