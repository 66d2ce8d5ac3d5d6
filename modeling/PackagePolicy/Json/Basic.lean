import PackagePolicy.Text.Digit

/-!
# JSON values

The values in which a call by name takes its arguments and gives its answer, and their written form.
An object is a list of fields, and answers are written in the order of that list; `sortFields` puts
the fields of all objects into the order of their names.
-/

namespace PackagePolicy

/-- A JSON value. A number is kept as it was written. -/
inductive Json where
  | null
  | bool (b : Bool)
  | number (text : Text)
  | string (s : Text)
  | array (items : List Json)
  | object (fields : List (Text × Json))
deriving Repr, Inhabited

namespace Json

def typeName : Json → Text
  | null => "null".toList
  | bool _ => "boolean".toList
  | number _ => "number".toList
  | string _ => "string".toList
  | array _ => "array".toList
  | object _ => "object".toList

def ofOption : Option Text → Json
  | some s => string s
  | none => null

def record (fields : List (String × Json)) : Json :=
  object (fields.map fun f => (f.1.toList, f.2))

/-- The text in the field of an object; of fields with one name the last counts. -/
def textField? (name : String) (fields : List (Text × Json)) : Option Text :=
  match (fields.reverse.lookup name.toList) with
  | some (string s) => some s
  | _ => none

/-! ### Order of fields -/

/-- Puts a field before the first field of a greater name, unless there is one of the same name. -/
def insertField (f : Text × Json) : List (Text × Json) → List (Text × Json)
  | [] => [f]
  | g :: fields =>
    match compare f.1 g.1 with
    | .lt => f :: g :: fields
    | .eq => g :: fields
    | .gt => g :: insertField f fields

mutual

def sortFields : Json → Json
  | array items => array (sortItems items)
  | object fields => object (sortEach fields)
  | v => v

def sortItems : List Json → List Json
  | [] => []
  | v :: items => sortFields v :: sortItems items

def sortEach : List (Text × Json) → List (Text × Json)
  | [] => []
  | (name, v) :: fields => insertField (name, sortFields v) (sortEach fields)

end

/-! ### Writing -/

/-- The two characters that stand for a control character, if there are such, or its number. -/
def escapeControl (c : Char) : Text :=
  if c = '\n' then "\\n".toList
  else if c = '\r' then "\\r".toList
  else if c = '\t' then "\\t".toList
  else if c = '\x08' then "\\b".toList
  else if c = '\x0c' then "\\f".toList
  else "\\u00".toList ++ [Nat.digitChar (c.toNat / 16), Nat.digitChar (c.toNat % 16)]

def escape (c : Char) : Text :=
  if c = '"' then "\\\"".toList
  else if c = '\\' then "\\\\".toList
  else if c.toNat < 0x20 then escapeControl c
  else [c]

def quote (s : Text) : Text := '"' :: s.flatMap escape ++ ['"']

def newline (depth : Nat) : Text := '\n' :: List.replicate (2 * depth) ' '

mutual

/-- The written form of a value at a depth of nesting: each item and each field on a line of its own,
two blanks deeper than the value around it. -/
def render (depth : Nat) : Json → Text
  | null => "null".toList
  | bool true => "true".toList
  | bool false => "false".toList
  | number text => text
  | string s => quote s
  | array [] => "[]".toList
  | array (v :: items) =>
    '[' :: newline (depth + 1) ++ render (depth + 1) v ++ renderItems (depth + 1) items
      ++ newline depth ++ [']']
  | object [] => ['\x7b', '\x7d']
  | object ((name, v) :: fields) =>
    '\x7b' :: newline (depth + 1) ++ quote name ++ ": ".toList ++ render (depth + 1) v
      ++ renderFields (depth + 1) fields ++ newline depth ++ ['\x7d']

def renderItems (depth : Nat) : List Json → Text
  | [] => []
  | v :: items => ',' :: newline depth ++ render depth v ++ renderItems depth items

def renderFields (depth : Nat) : List (Text × Json) → Text
  | [] => []
  | (name, v) :: fields =>
    ',' :: newline depth ++ quote name ++ ": ".toList ++ render depth v ++ renderFields depth fields

end

end Json
end PackagePolicy
