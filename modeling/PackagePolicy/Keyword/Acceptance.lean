import PackagePolicy.Atom.Basic
import PackagePolicy.Keyword.Basic

/-!
# Accepted keywords

Which keywords are accepted: everywhere, and for the packages that an atom matches.
-/

namespace PackagePolicy

structure PackageKeywords where
  atom : Atom
  keywords : List Keyword
deriving Repr

structure KeywordRules where
  arch : Text
  /-- keywords accepted everywhere, each once -/
  accepted : List Keyword
  package : List PackageKeywords
deriving Repr

namespace KeywordRules
open Text

def none : KeywordRules := ⟨[], [], []⟩

def ofArch (arch : Text) : KeywordRules := ⟨arch, [⟨arch, .stable⟩], []⟩

def accept (k : Keyword) (r : KeywordRules) : KeywordRules :=
  if r.accepted.contains k then r else { r with accepted := r.accepted ++ [k] }

def withdraw (k : Keyword) (r : KeywordRules) : KeywordRules :=
  { r with accepted := r.accepted.filter (· != k) }

def acceptTesting (r : KeywordRules) : KeywordRules := r.accept ⟨r.arch, .testing⟩

inductive Change where
  | clear
  | withdraw (k : Keyword)
  | accept (k : Keyword)
deriving DecidableEq, Repr

/-- Reads a change: `-*` withdraws everything, `-k` one keyword, and `k` accepts it. -/
def Change.parse (s : Text) : Except ConfigError Change :=
  if s = ['-', '*'] then .ok .clear
  else
    match s with
    | '-' :: s => (Keyword.parse s).map .withdraw
    | s => (Keyword.parse s).map .accept

def apply (r : KeywordRules) : Change → KeywordRules
  | .clear => { r with accepted := [] }
  | .withdraw k => r.withdraw k
  | .accept k => r.accept k

/-- Carries out the changes of a text in order, up to the first that cannot be read; the error comes
with what was reached by then. -/
def applyWords (r : KeywordRules) : List Text → KeywordRules × Option ConfigError
  | [] => (r, Option.none)
  | w :: ws =>
    match Change.parse w with
    | .ok change => applyWords (r.apply change) ws
    | .error e => (r, some e)

def applyText (r : KeywordRules) (s : Text) : KeywordRules × Option ConfigError :=
  r.applyWords (words s)

def addPackage (atom : Atom) (keywords : List Keyword) (r : KeywordRules) : KeywordRules :=
  { r with package := r.package ++ [⟨atom, keywords⟩] }

def acceptsGlobally (r : KeywordRules) (declared : Keyword) : Bool :=
  r.accepted.any (·.accepts declared)

def acceptsFor (r : KeywordRules) (declared : Keyword) (p : Candidate) : Bool :=
  ((r.package.filter fun e => e.atom.isMatch p).flatMap (·.keywords)).any (·.accepts declared)

end KeywordRules
end PackagePolicy
