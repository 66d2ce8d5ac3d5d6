import PackagePolicy.Version.Basic
import PackagePolicy.Text.Blank

/-!
# Reading versions

The written form of a version, and the cut of a package name from the version after it.
-/

namespace PackagePolicy
namespace Version
open Text

def parse? (s : Text) : Option Version :=
  let text := trim s
  match reads : parts? text with
  | some parts => some { parts with text, reads }
  | none => none

end Version

namespace Text

/-- The last dash before an ASCII digit cuts a text in two. -/
def cutLastVersionDash : Text → Option (Text × Text)
  | [] => none
  | c :: s =>
    match cutLastVersionDash s with
    | some p => some (c :: p.1, p.2)
    | none =>
      if c == '-' && (s.head?.map isAsciiDigit).getD false then some ([], s) else none

def splitNameVersion (s : Text) : Option (Text × Text) :=
  (cutLastVersionDash s).filter fun p => !p.1.isEmpty

end Text
end PackagePolicy
