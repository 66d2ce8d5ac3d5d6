import PackagePolicy.Text.Basic

/-!
# Paths

A path is a text with slashes between its parts. Paths are shown as they were put together: joining
two of them never simplifies the result. Where a path is taken apart, empty parts and parts `.` do
not count, except for a `.` at the front of a relative path.
-/

namespace PackagePolicy
namespace Path
open Text

def isAbsolute (p : Text) : Bool := p.head? == some '/'

/-- The path `p` seen from `base`; an absolute path does not depend on where it is seen from. -/
def join (base p : Text) : Text :=
  if isAbsolute p || base.isEmpty then p
  else if base.getLast? == some '/' then base ++ p
  else base ++ '/' :: p

def child (base : Text) (name : String) : Text := join base name.toList

def isVoid (part : Text) : Bool := part.isEmpty || part == ['.']

/-- Follows one part of a path from the names before it, the innermost first. -/
def follow (names : List Text) (part : Text) : List Text :=
  if isVoid part then names else if part = ['.', '.'] then names.tail else part :: names

def names (p : Text) : List Text := ((p.splitOn '/').foldl follow []).reverse

/-- The parts in reverse order without those at the end of the path that do not count; the first
part of the path is kept. -/
def dropVoid : List Text → List Text
  | [] => []
  | [part] => [part]
  | part :: parts => if isVoid part then dropVoid parts else part :: parts

/-- The last part of the path and the parts before it in reverse order. There is no last part in the
empty path and in the root. -/
def splitLast? (p : Text) : Option (Text × List Text) :=
  match dropVoid (p.splitOn '/').reverse with
  | [] => none
  | part :: parts => if part.isEmpty then none else some (part, parts)

def name? (p : Text) : Option Text :=
  match splitLast? p with
  | some (part, _) => if part == ['.'] || part == ['.', '.'] then none else some part
  | none => none

def parent? (p : Text) : Option Text :=
  (splitLast? p).map fun (_, parts) =>
    match dropVoid parts with
    | [[]] => ['/']
    | parts => Text.join ['/'] parts.reverse

/-- The name without its extension, and the extension: what follows the last dot, where that dot is
not at the front. -/
def splitExtension (name : Text) : Text × Option Text :=
  if name == ['.', '.'] then (name, none)
  else
    match cutAtLast ['.'] name with
    | some (stem, extension) => if stem.isEmpty then (name, none) else (stem, some extension)
    | none => (name, none)

end Path
end PackagePolicy
