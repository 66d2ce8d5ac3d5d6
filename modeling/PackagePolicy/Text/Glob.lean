import PackagePolicy.Text.Basic

/-!
# Glob patterns

Patterns with `?` for one character, `*` for any text, character classes `[…]` and `[!…]`, and `**`
for any number of whole path components. A pattern is a list of tokens. Matching goes from the last
token to the first and keeps, for every ending of the text, the verdict whether the tokens so far can
be read as that ending, so that the work grows with the product of both lengths.
-/

namespace PackagePolicy

structure CharRange where
  first : Char
  last : Char
deriving DecidableEq, Repr

inductive GlobToken where
  /-- exactly this character -/
  | literal (c : Char)
  /-- one character -/
  | anyChar
  /-- any text -/
  | anyText
  /-- the empty text, any text that ends with a slash, or all that is left -/
  | anyComponents
  /-- one character, in a class or, if negated, outside it -/
  | oneOf (negated : Bool) (ranges : List CharRange)
deriving DecidableEq, Repr

namespace Glob
open Text

def inClass (ranges : List CharRange) (c : Char) : Bool :=
  ranges.any fun r => r.first ≤ c && c ≤ r.last

/-! ### Reading patterns -/

def ranges : Text → List CharRange
  | a :: '-' :: b :: s => ⟨a, b⟩ :: ranges s
  | a :: s => ⟨a, a⟩ :: ranges s
  | [] => []

/-- The text inside a character class and the text after it; a bracket that is the first character
of the class does not close it. -/
def classBody : Text → Option (Text × Text)
  | [] => none
  | c :: s => (cut ']' s).map fun p => (c :: p.1, p.2)

theorem length_lt_of_classBody {s a b : Text} (h : classBody s = some (a, b)) :
    b.length < s.length := by
  cases s with
  | nil => simp [classBody] at h
  | cons c s =>
    simp only [classBody, Option.map_eq_some_iff, Prod.mk.injEq] at h
    obtain ⟨⟨a', b'⟩, h, _, rfl⟩ := h
    have := length_lt_of_cut h
    simp only [List.length_cons]
    omega

/-- Tokens of a pattern; `start` says that what follows begins a path component. A run of two stars
must be a whole component, and longer runs are refused. -/
def tokens? (start : Bool) : Text → Option (List GlobToken)
  | [] => some []
  | '?' :: s => (tokens? false s).map (.anyChar :: ·)
  | '*' :: '*' :: '*' :: _ => none
  | '*' :: '*' :: '/' :: s => if start then (tokens? true s).map (.anyComponents :: ·) else none
  | ['*', '*'] => if start then some [.anyComponents] else none
  | '*' :: '*' :: _ => none
  | '*' :: s => (tokens? false s).map (.anyText :: ·)
  | '[' :: '!' :: s =>
    match _h : classBody s with
    | some (body, rest) => (tokens? false rest).map (.oneOf true (ranges body) :: ·)
    | none => none
  | '[' :: s =>
    match _h : classBody s with
    | some (body, rest) => (tokens? false rest).map (.oneOf false (ranges body) :: ·)
    | none => none
  | c :: s => (tokens? (c == '/') s).map (.literal c :: ·)
termination_by s => s.length
decreasing_by
  all_goals
    simp only [List.length_cons]
    try have := length_lt_of_classBody _h
    omega

/-! ### Matching

The endings of a text are the text itself, the text without its first character, and so on down to
the empty text. A list of verdicts has one for each ending, the longest first. -/

def ended (s : Text) : List Bool := s.map (fun _ => false) ++ [true]

def afterOne (p : Char → Bool) : Text → List Bool → List Bool
  | c :: s, _ :: verdicts => (p c && verdicts.headD false) :: afterOne p s verdicts
  | _, _ => [false]

/-- The verdict holds of the ending or of a shorter one. -/
def afterText : List Bool → List Bool
  | [] => []
  | v :: verdicts =>
    let shorter := afterText verdicts
    (v || shorter.headD false) :: shorter

/-- The verdict holds of what follows one of the slashes of the ending, or of the empty text. -/
def afterSlash : Text → List Bool → List Bool
  | c :: s, _ :: verdicts =>
    let shorter := afterSlash s verdicts
    ((c == '/' && verdicts.headD false) || shorter.headD false) :: shorter
  | _, verdicts => verdicts

/-- The verdicts on reading a token and then what the given verdicts are about. -/
def before (s : Text) (token : GlobToken) (verdicts : List Bool) : List Bool :=
  match token with
  | .literal c => afterOne (· == c) s verdicts
  | .anyChar => afterOne (fun _ => true) s verdicts
  | .oneOf negated ranges => afterOne (fun c => inClass ranges c != negated) s verdicts
  | .anyText => afterText verdicts
  | .anyComponents => verdicts.zipWith (· || ·) (afterSlash s verdicts)

def run (tokens : List GlobToken) (s : Text) : Bool :=
  (tokens.foldr (before s) (ended s)).headD false

def isPattern (s : Text) : Bool := s.any fun c => c == '*' || c == '?' || c == '['

/-- A text without pattern characters matches itself only, a pattern what its tokens match, and a
text that is no well-formed pattern matches nothing. -/
def isMatch (pattern s : Text) : Bool :=
  if isPattern pattern then
    match tokens? true pattern with
    | some tokens => run tokens s
    | none => false
  else pattern == s

end Glob
end PackagePolicy
