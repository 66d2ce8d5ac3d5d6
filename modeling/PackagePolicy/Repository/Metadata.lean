import PackagePolicy.Keyword.Basic
import PackagePolicy.SpecTree.Token

/-!
# Package metadata

What a package version declares: its keywords, its license expression and its slot.
-/

namespace PackagePolicy

structure Metadata where
  keywords : List Keyword
  /-- the keywords are read from texts -/
  keywords_read : ∀ k ∈ keywords, k.IsRead
  license : Option (SpecTree Text)
  slot : Text
deriving Repr

namespace Metadata
open Text

def defaultSlot : Text := ['0']

/-- Metadata from a list of keywords and a license expression, either of which may be blank. -/
def parse (keywords license : Text) : Except Error Metadata :=
  match h : Keyword.parseList keywords with
  | .error e => .error (.config e)
  | .ok keywords => do
    let license ←
      if (trim license).isEmpty then pure none else (SpecTree.parseLicense license).map some
    return { keywords, keywords_read := Keyword.isRead_of_parseList h, license, slot := defaultSlot }

end Metadata
end PackagePolicy
