import PackagePolicy.ConfigError
import PackagePolicy.Result
import PackagePolicy.Text.Blank

/-!
# Keywords

A keyword says how far a package version has been tested on an architecture: `amd64` stable, `~amd64`
testing, `-amd64` broken. In a list of accepted keywords `*` and `~*` stand for every architecture
and `**` for everything. Keywords are compared by their parts: accepting `amd64` says nothing about
`~amd64`, nor the other way round.
-/

namespace PackagePolicy

inductive Stability where
  | stable
  | testing
  | broken
  /-- the stability of `**` -/
  | any
deriving DecidableEq, Repr

structure Keyword where
  arch : Text
  stability : Stability
deriving DecidableEq, Repr

namespace Keyword
open Text

def splitStability : Text → Stability × Text
  | '~' :: arch => (.testing, arch)
  | '-' :: arch => (.broken, arch)
  | arch => (.stable, arch)

def isArch : Text → Bool
  | [] => false
  | c :: s => c != '~' && c != '-' && !(c :: s).any isBlank

def parse (s : Text) : Except ConfigError Keyword :=
  let text := trim s
  if text = ['*', '*'] then .ok ⟨['*'], .any⟩
  else
    let (stability, arch) := splitStability text
    if isArch arch then .ok ⟨arch, stability⟩ else .error (.keyword text)

def IsRead (k : Keyword) : Prop := ∃ s, parse s = .ok k

def render (k : Keyword) : Text :=
  match k.stability with
  | .stable => k.arch
  | .testing => '~' :: k.arch
  | .broken => '-' :: k.arch
  | .any => ['*', '*']

def parseList (s : Text) : Except ConfigError (List Keyword) := (words s).mapM parse

theorem isRead_of_parseList {s : Text} {ks : List Keyword} (h : parseList s = .ok ks) :
    ∀ k ∈ ks, k.IsRead := by
  intro k hk
  obtain ⟨w, _, hw⟩ := exists_of_mem_mapM h k hk
  exact ⟨w, hw⟩

/-- The keywords among some words; a word that is malformed does not count. -/
def ofWords (ws : List Text) : List Keyword := ws.filterMap fun w => (parse w).toOption

theorem isRead_of_mem_ofWords {ws : List Text} {k : Keyword} (hk : k ∈ ofWords ws) : k.IsRead := by
  obtain ⟨w, _, hw⟩ := List.mem_filterMap.mp hk
  cases h : parse w with
  | error e => simp [h, Except.toOption] at hw
  | ok k' =>
    simp only [h, Except.toOption, Option.some.injEq] at hw
    exact ⟨w, hw ▸ h⟩

def isWildcard (k : Keyword) : Bool := k.arch == ['*']

/-- Accepting `k` accepts what is declared as `declared`. Nothing accepts a broken version, and `**`
accepts everything else. -/
def accepts (k declared : Keyword) : Bool :=
  if declared.stability = .broken then false
  else
    match k.stability with
    | .any => true
    | .broken => false
    | stability => if k.isWildcard then stability == declared.stability else k == declared

end Keyword
end PackagePolicy
