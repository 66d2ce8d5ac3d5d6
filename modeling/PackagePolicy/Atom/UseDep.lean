import PackagePolicy.ConfigError
import PackagePolicy.Text.Blank

/-!
# USE dependencies

The entries of the bracketed list at the end of an atom, such as `ssl`, `-gtk`, `doc(+)?`.
-/

namespace PackagePolicy

structure UseDep where
  flag : Text
  enabled : Bool
  /-- the state to assume where the flag does not exist -/
  default : Option Bool
  /-- the dependency depends on the state of the flag itself -/
  conditional : Bool
deriving DecidableEq, Repr

namespace UseDep
open Text

def splitDefault (s : Text) : Option Bool × Text :=
  match before? "(+)".toList s with
  | some flag => (some true, flag)
  | none =>
    match before? "(-)".toList s with
    | some flag => (some false, flag)
    | none => (none, s)

def splitSign : Text → Bool × Text
  | '-' :: flag => (false, flag)
  | '!' :: flag => (false, flag)
  | flag => (true, flag)

def parse (s : Text) : Except ConfigError UseDep :=
  let text := trim s
  if text.isEmpty then .error .emptyUseFlag
  else
    let (conditional, body) :=
      match before? ['?'] text with
      | some body => (true, body)
      | none => (false, text)
    let (default, signed) := splitDefault body
    let (enabled, flag) := splitSign signed
    if flag.isEmpty then .error (.useFlag text)
    else .ok { flag, enabled, default, conditional }

def render (d : UseDep) : Text :=
  (if d.enabled then [] else ['-']) ++ d.flag
    ++ (match d.default with
      | some true => "(+)".toList
      | some false => "(-)".toList
      | none => [])
    ++ (if d.conditional then ['?'] else [])

end UseDep
end PackagePolicy
