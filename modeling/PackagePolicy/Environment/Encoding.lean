import PackagePolicy.Environment.Basic

/-!
# Answers as JSON

The JSON forms of atoms and specification trees. Fields stand in the order of their declarations.
-/

namespace PackagePolicy

def Operator.jsonName : Operator → String
  | .any => "Any"
  | .equal => "Equal"
  | .greater => "Greater"
  | .greaterEqual => "GreaterEqual"
  | .less => "Less"
  | .lessEqual => "LessEqual"
  | .textStart => "GlobEqual"
  | .sameBase => "RevisionBump"

def UseDep.toJson (d : UseDep) : Json :=
  .record [("flag", .string d.flag), ("enabled", .bool d.enabled),
    ("default", match d.default with
      | some b => .bool b
      | none => .null),
    ("conditional", .bool d.conditional)]

def Atom.toJson (a : Atom) : Json :=
  .record [("operator", .string a.operator.jsonName.toList), ("category", .string a.category),
    ("name", .string a.name), ("version", .ofOption (a.version.map Version.text)),
    ("slot", .ofOption a.slot), ("subslot", .ofOption a.subslot),
    ("repository", .ofOption a.repository), ("use_deps", .array (a.useDeps.map UseDep.toJson))]

namespace SpecTree
variable {α : Type}

def groupJson (children : List Json) : Group → Json
  | .all => .record [("all", .array children)]
  | .any => .record [("any", .array children)]
  | .conditional flag negated =>
    .record [("conditional",
      .record [("flag", .string flag), ("negated", .bool negated), ("children", .array children)])]

mutual

def toJson (leaf : α → Json) : SpecTree α → Json
  | .leaf a => .record [("leaf", leaf a)]
  | .group kind children => groupJson (listJson leaf children) kind

def listJson (leaf : α → Json) : List (SpecTree α) → List Json
  | [] => []
  | t :: ts => toJson leaf t :: listJson leaf ts

end

end SpecTree
end PackagePolicy
