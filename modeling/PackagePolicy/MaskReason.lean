import PackagePolicy.Json.Basic

/-!
# Mask reasons

Why a package version is not available. There are four independent reasons, so a set of them is told by
four truth values.
-/

namespace PackagePolicy

inductive MaskReason where
  /-- no keyword that it declares is accepted -/
  | keyword
  /-- its license expression is not satisfied -/
  | license
  /-- the profile of its repository masks it -/
  | profile
  /-- the user masks it -/
  | user
deriving DecidableEq, Repr

structure MaskReasons where
  keyword : Bool
  license : Bool
  profile : Bool
  user : Bool
deriving DecidableEq, Repr

def MaskReason.name : MaskReason → Text
  | keyword => "keyword".toList
  | license => "license".toList
  | profile => "profile".toList
  | user => "user".toList

namespace MaskReasons

def none : MaskReasons := ⟨false, false, false, false⟩

def insert (m : MaskReasons) : MaskReason → MaskReasons
  | .keyword => { m with keyword := true }
  | .license => { m with license := true }
  | .profile => { m with profile := true }
  | .user => { m with user := true }

def contains (m : MaskReasons) : MaskReason → Bool
  | .keyword => m.keyword
  | .license => m.license
  | .profile => m.profile
  | .user => m.user

/-- The reasons of the set, in a fixed order. -/
def toList (m : MaskReasons) : List MaskReason :=
  [MaskReason.keyword, .license, .profile, .user].filter m.contains

def isEmpty (m : MaskReasons) : Bool := m.toList.isEmpty

def size (m : MaskReasons) : Nat := m.toList.length

def render (m : MaskReasons) : Text :=
  '\x7b' :: Text.join ", ".toList (m.toList.map MaskReason.name) ++ ['\x7d']

def toJson (m : MaskReasons) : Json := .array (m.toList.map fun r => .string r.name)

end MaskReasons
end PackagePolicy
