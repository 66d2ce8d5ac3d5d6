import PackagePolicy.Environment.Call
import PackagePolicy.Proofs.Lists
import PackagePolicy.Proofs.SpecTree.Evaluation

/-!
# JSON of answers

What the JSON of an answer has to show: the names of mask reasons, a tree of atoms, or a repository. Names are spelled
out in relations of their own. Each answer is shown by one JSON value only, the one that is made of it: the lemmas
`isShownBy_iff`.
-/

namespace PackagePolicy

/-! ### Shapes of values -/

namespace Json

def IsText (s : Text) (j : Json) : Prop := j = .string s

def IsTruth (b : Bool) (j : Json) : Prop := j = .bool b

theorem isText_iff (s : Text) (j : Json) : IsText s j ↔ j = .string s := Iff.rfl

theorem isTruth_iff (b : Bool) (j : Json) : IsTruth b j ↔ j = .bool b := Iff.rfl

section
variable {α : Type}

/-- What may be absent is `null` if it is. -/
inductive IsOptional (shows : α → Json → Prop) : Option α → Json → Prop
  | absent : IsOptional shows none .null
  | present {a : α} {j : Json} (h : shows a j) : IsOptional shows (some a) j

/-- An array with an item for each member of the list, in the order of the list. -/
inductive IsArray (shows : α → Json → Prop) : List α → Json → Prop
  | intro {as : List α} {items : List Json} (h : List.Forall₂ shows as items) : IsArray shows as (.array items)

/-- A field of an object has this name, and its value is as told. -/
def IsField (f : String × (Json → Prop)) (v : Text × Json) : Prop := v.1 = f.1.toList ∧ f.2 v.2

/-- An object with these fields and no others, in this order. -/
inductive IsObject (fields : List (String × (Json → Prop))) : Json → Prop
  | intro {values : List (Text × Json)} (h : List.Forall₂ IsField fields values) : IsObject fields (.object values)

variable {shows : α → Json → Prop} {encode : α → Json} {j : Json}

theorem isOptional_iff (h : ∀ a j, shows a j ↔ j = encode a) {x : Option α} :
    IsOptional shows x j ↔ j = (x.map encode).getD .null := by
  cases x with
  | none =>
    constructor
    · intro hj
      cases hj
      rfl
    · rintro rfl
      exact .absent
  | some a =>
    constructor
    · intro hj
      cases hj with
      | present hj => exact (h a j).mp hj
    · rintro rfl
      exact .present ((h a _).mpr rfl)

theorem isOptional_isText_iff {x : Option Text} : IsOptional IsText x j ↔ j = .ofOption x := by
  rw [isOptional_iff isText_iff]
  cases x <;> rfl

theorem isArray_iff {as : List α} (h : ∀ a ∈ as, ∀ j, shows a j ↔ j = encode a) :
    IsArray shows as j ↔ j = .array (as.map encode) := by
  constructor
  · intro hj
    cases hj with
    | intro hitems => rw [(forall₂_iff_eq_map h).mp hitems]
  · rintro rfl
    exact .intro ((forall₂_iff_eq_map h).mpr rfl)

section
variable {fields : List (String × (Json → Prop))} {values : List (String × Json)}

theorem forall₂_isField_iff (h : List.Forall₂ (fun f v => f.1 = v.1 ∧ ∀ j, f.2 j ↔ j = v.2) fields values)
    (vs : List (Text × Json)) :
    List.Forall₂ IsField fields vs ↔ vs = values.map fun f => (f.1.toList, f.2) := by
  induction h generalizing vs with
  | nil => exact List.forall₂_nil_left_iff
  | @cons f v fields values hf _ ih =>
    rw [List.forall₂_cons_left_iff, List.map_cons]
    constructor
    · intro hvs
      obtain ⟨⟨name, w⟩, rest, ⟨hname, hw⟩, hrest, rfl⟩ := hvs
      rw [(ih rest).mp hrest, (hf.2 w).mp hw, ← hf.1, ← hname]
    · rintro rfl
      exact ⟨_, _, ⟨by rw [hf.1], (hf.2 _).mpr rfl⟩, (ih _).mpr rfl, rfl⟩

theorem isObject_iff (h : List.Forall₂ (fun f v => f.1 = v.1 ∧ ∀ j, f.2 j ↔ j = v.2) fields values) :
    IsObject fields j ↔ j = .record values := by
  constructor
  · intro hj
    cases hj with
    | intro hvs => rw [(forall₂_isField_iff h _).mp hvs, record]
  · rintro rfl
    exact .intro ((forall₂_isField_iff h _).mpr rfl)

end
end

/-- The name of the type of a value. -/
inductive HasTypeName : Json → Text → Prop
  | null : HasTypeName .null "null".toList
  | bool {b : Bool} : HasTypeName (.bool b) "boolean".toList
  | number {text : Text} : HasTypeName (.number text) "number".toList
  | string {s : Text} : HasTypeName (.string s) "string".toList
  | array {items : List Json} : HasTypeName (.array items) "array".toList
  | object {fields : List (Text × Json)} : HasTypeName (.object fields) "object".toList

theorem hasTypeName_iff {j : Json} {t : Text} : j.HasTypeName t ↔ t = j.typeName := by
  constructor
  · intro h
    cases h <;> rfl
  · rintro rfl
    cases j <;> constructor

end Json

/-! ### Mask reasons -/

inductive MaskReason.IsNamed : MaskReason → Json → Prop
  | keyword : IsNamed .keyword (.string "keyword".toList)
  | license : IsNamed .license (.string "license".toList)
  | profile : IsNamed .profile (.string "profile".toList)
  | user : IsNamed .user (.string "user".toList)

theorem MaskReason.isNamed_iff (r : MaskReason) (j : Json) : r.IsNamed j ↔ j = .string r.name := by
  constructor
  · intro h
    cases h <;> rfl
  · rintro rfl
    cases r <;> constructor

namespace MaskReasons

/-- The names of the reasons of the set and no others, in the order keyword, license, profile, user. -/
def IsShownBy (m : MaskReasons) (j : Json) : Prop :=
  ∃ reasons : List MaskReason, reasons.Sublist [.keyword, .license, .profile, .user] ∧
    (∀ r, r ∈ reasons ↔ m.contains r = true) ∧ Json.IsArray MaskReason.IsNamed reasons j

theorem eq_toList_iff {m : MaskReasons} {reasons : List MaskReason} :
    reasons = m.toList ↔
      reasons.Sublist [.keyword, .license, .profile, .user] ∧ ∀ r, r ∈ reasons ↔ m.contains r = true := by
  have hall : ∀ r : MaskReason, r ∈ [MaskReason.keyword, .license, .profile, .user] := by
    intro r
    cases r <;> decide
  rw [toList, eq_filter_iff_sublist (by decide)]
  refine and_congr_right fun _ => ?_
  exact ⟨fun h r => h r (hall r), fun h r _ => h r⟩

theorem isShownBy_iff (m : MaskReasons) (j : Json) : m.IsShownBy j ↔ j = m.toJson := by
  have harray (reasons : List MaskReason) : Json.IsArray MaskReason.IsNamed reasons j ↔
      j = .array (reasons.map fun r => .string r.name) := Json.isArray_iff fun r _ => r.isNamed_iff
  constructor
  · intro h
    obtain ⟨reasons, hsub, hmem, hj⟩ := h
    rw [(harray reasons).mp hj, eq_toList_iff.mpr ⟨hsub, hmem⟩, toJson]
  · rintro rfl
    obtain ⟨hsub, hmem⟩ := eq_toList_iff.mp (rfl : m.toList = m.toList)
    exact ⟨m.toList, hsub, hmem, (harray _).mpr rfl⟩

end MaskReasons

/-! ### Atoms -/

inductive Operator.IsNamed : Operator → Json → Prop
  | any : IsNamed .any (.string "Any".toList)
  | equal : IsNamed .equal (.string "Equal".toList)
  | greater : IsNamed .greater (.string "Greater".toList)
  | greaterEqual : IsNamed .greaterEqual (.string "GreaterEqual".toList)
  | less : IsNamed .less (.string "Less".toList)
  | lessEqual : IsNamed .lessEqual (.string "LessEqual".toList)
  | textStart : IsNamed .textStart (.string "GlobEqual".toList)
  | sameBase : IsNamed .sameBase (.string "RevisionBump".toList)

theorem Operator.isNamed_iff (o : Operator) (j : Json) : o.IsNamed j ↔ j = .string o.jsonName.toList := by
  constructor
  · intro h
    cases h <;> rfl
  · rintro rfl
    cases o <;> constructor

namespace UseDep

def IsShownBy (d : UseDep) : Json → Prop :=
  Json.IsObject [("flag", Json.IsText d.flag), ("enabled", Json.IsTruth d.enabled),
    ("default", Json.IsOptional Json.IsTruth d.default), ("conditional", Json.IsTruth d.conditional)]

theorem isShownBy_iff (d : UseDep) (j : Json) : d.IsShownBy j ↔ j = d.toJson := by
  have hdefault (j : Json) : Json.IsOptional Json.IsTruth d.default j ↔ j = (d.default.map Json.bool).getD .null :=
    Json.isOptional_iff Json.isTruth_iff
  have htoJson : d.toJson = .record [("flag", .string d.flag), ("enabled", .bool d.enabled),
      ("default", (d.default.map Json.bool).getD .null), ("conditional", .bool d.conditional)] := by
    rw [toJson]
    cases d.default <;> rfl
  rw [htoJson]
  exact Json.isObject_iff (.cons ⟨rfl, fun _ => Iff.rfl⟩ (.cons ⟨rfl, fun _ => Iff.rfl⟩
    (.cons ⟨rfl, hdefault⟩ (.cons ⟨rfl, fun _ => Iff.rfl⟩ .nil))))

end UseDep

namespace Atom

/-- The version is shown by its text. -/
def IsShownBy (a : Atom) : Json → Prop :=
  Json.IsObject [("operator", a.operator.IsNamed), ("category", Json.IsText a.category),
    ("name", Json.IsText a.name), ("version", Json.IsOptional (fun v : Version => Json.IsText v.text) a.version),
    ("slot", Json.IsOptional Json.IsText a.slot), ("subslot", Json.IsOptional Json.IsText a.subslot),
    ("repository", Json.IsOptional Json.IsText a.repository),
    ("use_deps", Json.IsArray UseDep.IsShownBy a.useDeps)]

theorem isShownBy_iff (a : Atom) (j : Json) : a.IsShownBy j ↔ j = a.toJson := by
  have hversion (j : Json) : Json.IsOptional (fun v : Version => Json.IsText v.text) a.version j ↔
      j = .ofOption (a.version.map Version.text) := by
    rw [Json.isOptional_iff fun v : Version => Json.isText_iff v.text]
    cases a.version <;> rfl
  have hdeps (j : Json) : Json.IsArray UseDep.IsShownBy a.useDeps j ↔ j = .array (a.useDeps.map UseDep.toJson) :=
    Json.isArray_iff fun d _ => d.isShownBy_iff
  exact Json.isObject_iff (.cons ⟨rfl, a.operator.isNamed_iff⟩ (.cons ⟨rfl, fun _ => Iff.rfl⟩
    (.cons ⟨rfl, fun _ => Iff.rfl⟩ (.cons ⟨rfl, hversion⟩ (.cons ⟨rfl, fun _ => Json.isOptional_isText_iff⟩
    (.cons ⟨rfl, fun _ => Json.isOptional_isText_iff⟩ (.cons ⟨rfl, fun _ => Json.isOptional_isText_iff⟩
    (.cons ⟨rfl, hdeps⟩ .nil))))))))

end Atom

/-! ### Trees -/

namespace SpecTree
variable {α : Type} {shows : α → Json → Prop} {encode : α → Json}

/-- A tree is an object with one field, which has the name of the kind of the tree. -/
inductive IsShownBy (shows : α → Json → Prop) : SpecTree α → Json → Prop
  | leaf {a : α} {j : Json} (h : shows a j) : IsShownBy shows (.leaf a) (.object [("leaf".toList, j)])
  | all {ts : List (SpecTree α)} {items : List Json} (h : List.Forall₂ (IsShownBy shows) ts items) :
    IsShownBy shows (.group .all ts) (.object [("all".toList, .array items)])
  | any {ts : List (SpecTree α)} {items : List Json} (h : List.Forall₂ (IsShownBy shows) ts items) :
    IsShownBy shows (.group .any ts) (.object [("any".toList, .array items)])
  | conditional {flag : Text} {negated : Bool} {ts : List (SpecTree α)} {items : List Json}
    (h : List.Forall₂ (IsShownBy shows) ts items) :
    IsShownBy shows (.group (.conditional flag negated) ts) (.object [("conditional".toList,
      .object [("flag".toList, .string flag), ("negated".toList, .bool negated), ("children".toList, .array items)])])

theorem listJson_eq_map (ts : List (SpecTree α)) : listJson encode ts = ts.map (toJson encode) := by
  induction ts with
  | nil => rfl
  | cons t ts ih => rw [listJson, ih, List.map_cons]

theorem isShownBy_iff (h : ∀ a j, shows a j ↔ j = encode a) (t : SpecTree α) :
    ∀ j, IsShownBy shows t j ↔ j = t.toJson encode := by
  induction t using SpecTree.induction with
  | leaf a =>
    intro j
    constructor
    · intro hj
      cases hj with
      | leaf hj =>
        rw [(h a _).mp hj]
        rfl
    · rintro rfl
      exact .leaf ((h a _).mpr rfl)
  | group kind ts ih =>
    have hitems (items : List Json) : List.Forall₂ (IsShownBy shows) ts items ↔ items = listJson encode ts := by
      rw [listJson_eq_map]
      exact forall₂_iff_eq_map ih
    intro j
    constructor
    · intro hj
      cases hj with
      | all hj | any hj | conditional hj =>
        rw [(hitems _).mp hj]
        rfl
    · rintro rfl
      cases kind with
      | all => exact .all ((hitems _).mpr rfl)
      | any => exact .any ((hitems _).mpr rfl)
      | conditional flag negated => exact .conditional ((hitems _).mpr rfl)

end SpecTree

/-! ### Repositories -/

namespace Repository

def IsShownBy (r : Repository) : Json → Prop :=
  Json.IsObject [("name", Json.IsText r.name), ("location", Json.IsOptional Json.IsText r.location)]

theorem isShownBy_iff (r : Repository) (j : Json) : r.IsShownBy j ↔ j = Environment.repositoryJson r :=
  Json.isObject_iff (.cons ⟨rfl, fun _ => Iff.rfl⟩ (.cons ⟨rfl, fun _ => Json.isOptional_isText_iff⟩ .nil))

end Repository
end PackagePolicy
