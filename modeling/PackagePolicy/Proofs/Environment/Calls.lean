import PackagePolicy.Proofs.Environment.Answers
import PackagePolicy.Proofs.Environment.MaskReasons
import PackagePolicy.Proofs.PackageSet.References

/-!
# Outcomes of calls

What is wrong with a call is reported in a fixed order: the name of the method, the number of the arguments, the type
of the text, the type of the entry, the contents of the entry. A call with nothing wrong is the query that its
arguments describe: its result is JSON that shows the answer of the query, or the error of the query. Main statement:
`call_eq_iff_outcome`.
-/

namespace PackagePolicy.Environment

/-! ### Methods -/

namespace Method

inductive IsNamed : Method → Text → Prop
  | queryUse : IsNamed .queryUse "query_use".toList
  | acceptKeyword : IsNamed .acceptKeyword "accept_keyword".toList
  | acceptLicense : IsNamed .acceptLicense "accept_license".toList
  | maskReasons : IsNamed .maskReasons "mask_reasons".toList
  | packageSet : IsNamed .packageSet "package_set".toList
  | fetchRepository : IsNamed .fetchRepository "fetch_repository".toList

theorem isNamed_iff {m : Method} {name : Text} : m.IsNamed name ↔ name = m.name := by
  constructor
  · intro h
    cases h <;> rfl
  · rintro rfl
    cases m <;> constructor

theorem ofName?_eq_some_iff {m : Method} {name : Text} : ofName? name = some m ↔ m.IsNamed name := by
  rw [isNamed_iff]
  constructor
  · intro h
    exact (beq_iff_eq.mp (List.find?_some (p := fun m : Method => m.name == name) h)).symm
  · rintro rfl
    cases m <;> rfl

theorem ofName?_eq_none_iff {name : Text} : ofName? name = none ↔ ∀ m : Method, ¬ m.IsNamed name := by
  rw [Option.eq_none_iff_forall_ne_some]
  exact forall_congr' fun m => not_congr ofName?_eq_some_iff

/-- The greatest number of arguments of a method. The least is one. -/
def most : Method → Nat
  | queryUse | acceptKeyword | acceptLicense => 2
  | maskReasons | packageSet | fetchRepository => 1

def Takes (m : Method) (count : Nat) : Prop := 1 ≤ count ∧ count ≤ m.most

/-- Which argument of a method is an entry, if it is given. -/
def entryPosition? : Method → Option Nat
  | queryUse | acceptKeyword | acceptLicense => some 1
  | maskReasons => some 0
  | packageSet | fetchRepository => none

end Method

/-! ### Arguments -/

/-- The value is the entry as a text or as an object. -/
inductive Describes : Json → Entry → Prop
  | text {s : Text} {e : Entry} (h : Entry.parse s = .ok e) : Describes (.string s) e
  | object {fields : List (Text × Json)} {e : Entry} (h : Entry.ofFields fields = .ok e) : Describes (.object fields) e

/-- The value is a text or an object but no entry. -/
inductive IsMalformed : Json → Error → Prop
  | text {s : Text} {error : Error} (h : Entry.parse s = .error error) : IsMalformed (.string s) error
  | object {fields : List (Text × Json)} {error : Error} (h : Entry.ofFields fields = .error error) :
    IsMalformed (.object fields) error

/-- The value is neither a text nor an object. -/
structure IsForeign (a : Json) : Prop where
  text (s : Text) : a ≠ .string s
  object (fields : List (Text × Json)) : a ≠ .object fields

/-- A query with all that it is about. -/
inductive Request where
  | queryUse (flag : Text) (e : Option Entry)
  | acceptKeyword (keyword : Text) (e : Option Entry)
  | acceptLicense (license : Text) (e : Option Entry)
  | maskReasons (e : Entry)
  | packageSet (name : Text)
  | fetchRepository (name : Text)

namespace Request

def method : Request → Method
  | queryUse .. => .queryUse
  | acceptKeyword .. => .acceptKeyword
  | acceptLicense .. => .acceptLicense
  | maskReasons _ => .maskReasons
  | packageSet _ => .packageSet
  | fetchRepository _ => .fetchRepository

def IsTextAndEntry (args : List Json) (text : Text) : Option Entry → Prop
  | none => args = [.string text]
  | some e => ∃ a, args = [.string text, a] ∧ Describes a e

/-- The arguments are those of the request. -/
def IsGivenBy (args : List Json) : Request → Prop
  | queryUse text e | acceptKeyword text e | acceptLicense text e => IsTextAndEntry args text e
  | maskReasons e => ∃ a, args = [a] ∧ Describes a e
  | packageSet name | fetchRepository name => args = [.string name]

end Request

/-! ### Answers -/

/-- The result of a call shows the answer of a query, or is the same error. -/
inductive IsResultOf {α : Type} (shows : α → Json → Prop) (x : Except Error α) : Except Error Json → Prop
  | error {e : Error} (h : x = .error e) : IsResultOf shows x (.error e)
  | ok {a : α} {j : Json} (h : x = .ok a) (hj : shows a j) : IsResultOf shows x (.ok j)

theorem isResultOf_iff {α : Type} {shows : α → Json → Prop} {encode : α → Json}
    (h : ∀ a j, shows a j ↔ j = encode a) {x : Except Error α} {r : Except Error Json} :
    IsResultOf shows x r ↔ r = x.map encode := by
  constructor
  · intro hr
    cases hr with
    | error hx =>
      rw [hx]
      rfl
    | ok hx hj =>
      rw [hx, (h _ _).mp hj]
      rfl
  · rintro rfl
    cases x with
    | error e => exact .error rfl
    | ok a => exact .ok rfl ((h a _).mpr rfl)

namespace Request

/-- The result is that of the query. -/
def IsAnsweredBy (env : Environment) : Request → Except Error Json → Prop
  | queryUse flag e => IsResultOf Json.IsTruth (env.queryUse flag e)
  | acceptKeyword keyword e => IsResultOf Json.IsTruth (env.acceptKeyword keyword e)
  | acceptLicense license e => IsResultOf Json.IsTruth (env.acceptLicense license e)
  | maskReasons e => IsResultOf MaskReasons.IsShownBy (env.maskReasons e)
  | packageSet name => IsResultOf (SpecTree.IsShownBy Atom.IsShownBy) (env.packageSet name)
  | fetchRepository name => IsResultOf Repository.IsShownBy (env.database.fetch name)

/-- The result as it is made by the encoders. -/
def answer (env : Environment) : Request → Except Error Json
  | queryUse flag e => (env.queryUse flag e).map .bool
  | acceptKeyword keyword e => (env.acceptKeyword keyword e).map .bool
  | acceptLicense license e => (env.acceptLicense license e).map .bool
  | maskReasons e => (env.maskReasons e).map MaskReasons.toJson
  | packageSet name => (env.packageSet name).map fun t => t.toJson Atom.toJson
  | fetchRepository name => (env.database.fetch name).map repositoryJson

theorem isAnsweredBy_iff {env : Environment} {q : Request} {r : Except Error Json} :
    q.IsAnsweredBy env r ↔ r = q.answer env := by
  cases q with
  | queryUse | acceptKeyword | acceptLicense => exact isResultOf_iff Json.isTruth_iff
  | maskReasons => exact isResultOf_iff MaskReasons.isShownBy_iff
  | packageSet => exact isResultOf_iff (SpecTree.isShownBy_iff Atom.isShownBy_iff)
  | fetchRepository => exact isResultOf_iff Repository.isShownBy_iff

end Request

/-! ### Outcomes -/

/-- The number of the arguments is right, and so is the type of the text. -/
structure IsRead (m : Method) (args : List Json) : Prop where
  count : m.Takes args.length
  text (a : Json) : m ≠ .maskReasons → args[0]? = some a → ∃ s, a = .string s

/-- What is wrong with the arguments, each fault only where those before it are not found. -/
inductive Faults (m : Method) (method : Text) (args : List Json) : Error → Prop
  | count (h : ¬ m.Takes args.length) : Faults m method args (.argument method 1 m.most args.length)
  | text {a : Json} {t : Text} (hcount : m.Takes args.length) (hm : m ≠ .maskReasons) (ha : args[0]? = some a)
    (h : ∀ s, a ≠ .string s) (ht : a.HasTypeName t) : Faults m method args (.type method .string t)
  | entryType {i : Nat} {a : Json} {t : Text} (hread : IsRead m args) (hi : m.entryPosition? = some i)
    (ha : args[i]? = some a) (h : IsForeign a) (ht : a.HasTypeName t) : Faults m method args (.type method .entry t)
  | entry {i : Nat} {a : Json} {error : Error} (hread : IsRead m args) (hi : m.entryPosition? = some i)
    (ha : args[i]? = some a) (h : IsMalformed a error) : Faults m method args error

inductive Outcome (env : Environment) (method : Text) (args : List Json) : Except Error Json → Prop
  | unknown (h : ∀ m : Method, ¬ m.IsNamed method) : Outcome env method args (.error (.noMethod method))
  | fault {m : Method} {error : Error} (hm : m.IsNamed method) (h : Faults m method args error) :
    Outcome env method args (.error error)
  | answer {q : Request} {r : Except Error Json} (hm : q.method.IsNamed method) (h : q.IsGivenBy args)
    (hr : q.IsAnsweredBy env r) : Outcome env method args r

/-! ### Reading requests -/

def readRequest (m : Method) (args : List Json) : Except Error Request :=
  match m with
  | .queryUse => (textAndEntry m args).map fun p => .queryUse p.1 p.2
  | .acceptKeyword => (textAndEntry m args).map fun p => .acceptKeyword p.1 p.2
  | .acceptLicense => (textAndEntry m args).map fun p => .acceptLicense p.1 p.2
  | .maskReasons => (onlyArgument m args >>= entryArgument m).map .maskReasons
  | .packageSet => (onlyArgument m args >>= textArgument m).map .packageSet
  | .fetchRepository => (onlyArgument m args >>= textArgument m).map .fetchRepository

theorem callMethod_eq (env : Environment) (m : Method) (args : List Json) :
    env.callMethod m args = readRequest m args >>= Request.answer env := by
  cases m with
  | queryUse | acceptKeyword | acceptLicense =>
    rw [callMethod, readRequest]
    cases textAndEntry _ args <;> rfl
  | maskReasons =>
    rw [callMethod, readRequest]
    cases onlyArgument .maskReasons args with
    | error e => rfl
    | ok a =>
      rw [ok_bind, ok_bind]
      cases entryArgument .maskReasons a <;> rfl
  | packageSet | fetchRepository =>
    rw [callMethod, readRequest]
    cases onlyArgument _ args with
    | error e => rfl
    | ok a =>
      rw [ok_bind, ok_bind]
      cases textArgument _ a <;> rfl

section
variable {m : Method} {args : List Json} {a : Json} {e : Entry} {error : Error}

theorem textArgument_of_ne (h : ∀ s, a ≠ .string s) :
    textArgument m a = .error (.type m.name .string a.typeName) := by
  unfold textArgument
  split
  next s => exact absurd rfl (h s)
  · rfl

theorem entryArgument_of_isForeign (h : IsForeign a) :
    entryArgument m a = .error (.type m.name .entry a.typeName) := by
  unfold entryArgument
  split
  next s => exact absurd rfl (h.text s)
  next fields => exact absurd rfl (h.object fields)
  · rfl

theorem entryArgument_of_isMalformed (h : IsMalformed a error) : entryArgument m a = .error error := by
  cases h with
  | text h => exact h
  | object h => exact h

theorem entryArgument_of_describes (h : Describes a e) : entryArgument m a = .ok e := by
  cases h with
  | text h => exact h
  | object h => exact h

theorem isForeign_or_isMalformed_or_describes (a : Json) :
    IsForeign a ∨ (∃ error, IsMalformed a error) ∨ ∃ e, Describes a e := by
  cases a with
  | string s =>
    cases h : Entry.parse s with
    | error error => exact .inr (.inl ⟨error, .text h⟩)
    | ok e => exact .inr (.inr ⟨e, .text h⟩)
  | object fields =>
    cases h : Entry.ofFields fields with
    | error error => exact .inr (.inl ⟨error, .object h⟩)
    | ok e => exact .inr (.inr ⟨e, .object h⟩)
  | _ => exact .inl ⟨nofun, nofun⟩

theorem textAndEntry_of_count (h : ¬ (1 ≤ args.length ∧ args.length ≤ 2)) :
    textAndEntry m args = .error (.argument m.name 1 2 args.length) := by
  unfold textAndEntry
  split
  · exact absurd ⟨Nat.le_refl 1, Nat.le_succ 1⟩ h
  · exact absurd ⟨Nat.le_succ 1, Nat.le_refl 2⟩ h
  · rfl

theorem onlyArgument_of_count (h : ¬ (1 ≤ args.length ∧ args.length ≤ 1)) :
    onlyArgument m args = .error (.argument m.name 1 1 args.length) := by
  unfold onlyArgument
  split
  · exact absurd ⟨Nat.le_refl 1, Nat.le_refl 1⟩ h
  · rfl

theorem eq_singleton_of_length (hlength : args.length ≤ 1) (ha : args[0]? = some a) : args = [a] := by
  match args with
  | [] => cases ha
  | [b] =>
    cases ha
    rfl
  | b :: c :: rest => exact absurd hlength (by simp)

theorem eq_pair_of_length (hlength : args.length ≤ 2) (ha : args[1]? = some a) : ∃ b, args = [b, a] := by
  match args with
  | [] => cases ha
  | [b] => cases ha
  | [b, c] =>
    cases ha
    exact ⟨b, rfl⟩
  | b :: c :: d :: rest => exact absurd hlength (by simp)

theorem textAndEntry_of_ne (hlength : args.length ≤ 2) (ha : args[0]? = some a) (h : ∀ s, a ≠ .string s) :
    textAndEntry m args = .error (.type m.name .string a.typeName) := by
  match args with
  | [] => cases ha
  | [b] =>
    cases ha
    rw [textAndEntry, textArgument_of_ne h]
    rfl
  | [b, c] =>
    cases ha
    rw [textAndEntry, textArgument_of_ne h]
    rfl
  | b :: c :: d :: rest => exact absurd hlength (by simp)

theorem readRequest_of_text (hcount : m.Takes args.length) (hm : m ≠ .maskReasons) (ha : args[0]? = some a)
    (h : ∀ s, a ≠ .string s) : readRequest m args = .error (.type m.name .string a.typeName) := by
  cases m with
  | queryUse | acceptKeyword | acceptLicense =>
    rw [readRequest, textAndEntry_of_ne hcount.2 ha h]
    rfl
  | maskReasons => exact absurd rfl hm
  | packageSet | fetchRepository =>
    obtain rfl := eq_singleton_of_length hcount.2 ha
    rw [readRequest, onlyArgument, ok_bind, textArgument_of_ne h]
    rfl

/- The argument in the place of an entry is looked at when all else is right. -/
theorem readRequest_of_entryArgument {i : Nat} (hread : IsRead m args) (hi : m.entryPosition? = some i)
    (ha : args[i]? = some a) (h : entryArgument m a = .error error) : readRequest m args = .error error := by
  cases m with
  | queryUse | acceptKeyword | acceptLicense =>
    cases hi
    obtain ⟨b, rfl⟩ := eq_pair_of_length hread.count.2 ha
    obtain ⟨s, rfl⟩ := hread.text b nofun rfl
    rw [readRequest, textAndEntry, textArgument, ok_bind, h]
    rfl
  | maskReasons =>
    cases hi
    obtain rfl := eq_singleton_of_length hread.count.2 ha
    rw [readRequest, onlyArgument, ok_bind, h]
    rfl
  | packageSet | fetchRepository => cases hi

theorem readRequest_of_faults (h : Faults m m.name args error) : readRequest m args = .error error := by
  cases h with
  | count h =>
    cases m with
    | queryUse | acceptKeyword | acceptLicense =>
      rw [readRequest, textAndEntry_of_count h]
      rfl
    | maskReasons | packageSet | fetchRepository =>
      rw [readRequest, onlyArgument_of_count h]
      rfl
  | text hcount hm ha h ht =>
    rw [Json.hasTypeName_iff.mp ht]
    exact readRequest_of_text hcount hm ha h
  | entryType hread hi ha h ht =>
    rw [Json.hasTypeName_iff.mp ht]
    exact readRequest_of_entryArgument hread hi ha (entryArgument_of_isForeign h)
  | entry hread hi ha h => exact readRequest_of_entryArgument hread hi ha (entryArgument_of_isMalformed h)

theorem textAndEntry_of_isTextAndEntry {text : Text} {e : Option Entry} (h : Request.IsTextAndEntry args text e) :
    textAndEntry m args = .ok (text, e) := by
  cases e with
  | none =>
    cases h
    rfl
  | some e =>
    obtain ⟨a, rfl, ha⟩ := h
    rw [textAndEntry, textArgument, ok_bind, entryArgument_of_describes ha]
    rfl

theorem readRequest_of_isGivenBy {q : Request} (h : q.IsGivenBy args) : readRequest q.method args = .ok q := by
  cases q with
  | queryUse | acceptKeyword | acceptLicense =>
    rw [Request.method, readRequest, textAndEntry_of_isTextAndEntry h]
    rfl
  | maskReasons e =>
    obtain ⟨a, rfl, ha⟩ := h
    rw [Request.method, readRequest, onlyArgument, ok_bind, entryArgument_of_describes ha]
    rfl
  | packageSet | fetchRepository =>
    cases h
    rfl

/-! ### Every call has an outcome -/

variable {method : Text}

theorem exists_head_of_takes (h : m.Takes args.length) : ∃ a, args[0]? = some a :=
  ⟨_, List.getElem?_eq_getElem h.1⟩

theorem faults_or_isRead (m : Method) (method : Text) (args : List Json) :
    (∃ error, Faults m method args error) ∨ IsRead m args := by
  by_cases hcount : m.Takes args.length
  · obtain ⟨a, ha⟩ := exists_head_of_takes hcount
    by_cases htext : m ≠ .maskReasons ∧ ∀ s, a ≠ .string s
    · exact .inl ⟨_, .text hcount htext.1 ha htext.2 (Json.hasTypeName_iff.mpr rfl)⟩
    · refine .inr ⟨hcount, fun b hm hb => ?_⟩
      obtain rfl := Option.some.inj (ha.symm.trans hb)
      exact not_forall_not.mp fun h => htext ⟨hm, h⟩
  · exact .inl ⟨_, .count hcount⟩

theorem faults_or_describes {i : Nat} (hread : IsRead m args) (hi : m.entryPosition? = some i)
    (ha : args[i]? = some a) : (∃ error, Faults m method args error) ∨ ∃ e, Describes a e := by
  rcases isForeign_or_isMalformed_or_describes a with h | ⟨error, h⟩ | h
  · exact .inl ⟨_, .entryType hread hi ha h (Json.hasTypeName_iff.mpr rfl)⟩
  · exact .inl ⟨error, .entry hread hi ha h⟩
  · exact .inr h

theorem faults_or_isTextAndEntry (hread : IsRead m args) (hi : m.entryPosition? = some 1) (hmost : m.most = 2) :
    (∃ error, Faults m method args error) ∨ ∃ text e, Request.IsTextAndEntry args text e := by
  have hm : m ≠ .maskReasons := by
    rintro rfl
    cases hi
  have hlength : args.length ≤ 2 := hmost ▸ hread.count.2
  obtain ⟨a, ha⟩ := exists_head_of_takes hread.count
  obtain ⟨s, rfl⟩ := hread.text a hm ha
  cases hb : args[1]? with
  | none =>
    have hone : args.length ≤ 1 := List.getElem?_eq_none_iff.mp hb
    exact .inr ⟨s, none, eq_singleton_of_length hone ha⟩
  | some b =>
    obtain ⟨a, rfl⟩ := eq_pair_of_length hlength hb
    cases ha
    refine (faults_or_describes hread hi hb).imp_right fun h => ?_
    obtain ⟨e, he⟩ := h
    exact ⟨s, some e, b, rfl, he⟩

theorem faults_or_isGivenBy (m : Method) (method : Text) (args : List Json) :
    (∃ error, Faults m method args error) ∨ ∃ q : Request, q.method = m ∧ q.IsGivenBy args := by
  rcases faults_or_isRead m method args with h | hread
  · exact .inl h
  obtain ⟨a, ha⟩ := exists_head_of_takes hread.count
  cases m with
  | queryUse =>
    refine (faults_or_isTextAndEntry hread rfl rfl).imp_right fun h => ?_
    obtain ⟨text, e, h⟩ := h
    exact ⟨.queryUse text e, rfl, h⟩
  | acceptKeyword =>
    refine (faults_or_isTextAndEntry hread rfl rfl).imp_right fun h => ?_
    obtain ⟨text, e, h⟩ := h
    exact ⟨.acceptKeyword text e, rfl, h⟩
  | acceptLicense =>
    refine (faults_or_isTextAndEntry hread rfl rfl).imp_right fun h => ?_
    obtain ⟨text, e, h⟩ := h
    exact ⟨.acceptLicense text e, rfl, h⟩
  | maskReasons =>
    refine (faults_or_describes hread rfl ha).imp_right fun h => ?_
    obtain ⟨e, he⟩ := h
    exact ⟨.maskReasons e, rfl, a, eq_singleton_of_length hread.count.2 ha, he⟩
  | packageSet =>
    obtain ⟨s, rfl⟩ := hread.text a nofun ha
    exact .inr ⟨.packageSet s, rfl, eq_singleton_of_length hread.count.2 ha⟩
  | fetchRepository =>
    obtain ⟨s, rfl⟩ := hread.text a nofun ha
    exact .inr ⟨.fetchRepository s, rfl, eq_singleton_of_length hread.count.2 ha⟩

end

/-! ### Calls -/

theorem call_of_isNamed {env : Environment} {m : Method} {method : Text} (hm : m.IsNamed method) (args : List Json) :
    env.call method args = readRequest m args >>= Request.answer env := by
  rw [call, Method.ofName?_eq_some_iff.mpr hm]
  exact callMethod_eq env m args

theorem call_of_outcome {env : Environment} {method : Text} {args : List Json} {r : Except Error Json}
    (h : Outcome env method args r) : env.call method args = r := by
  cases h with
  | unknown h => rw [call, Method.ofName?_eq_none_iff.mpr h]
  | fault hm h =>
    obtain rfl := Method.isNamed_iff.mp hm
    rw [call_of_isNamed hm, readRequest_of_faults h]
    rfl
  | answer hm h hr => rw [call_of_isNamed hm, readRequest_of_isGivenBy h, ok_bind, Request.isAnsweredBy_iff.mp hr]

theorem exists_outcome (env : Environment) (method : Text) (args : List Json) : ∃ r, Outcome env method args r := by
  by_cases hmethod : ∃ m : Method, m.IsNamed method
  · obtain ⟨m, hm⟩ := hmethod
    rcases faults_or_isGivenBy m method args with ⟨error, h⟩ | ⟨q, rfl, h⟩
    · exact ⟨_, .fault hm h⟩
    · exact ⟨_, .answer hm h (Request.isAnsweredBy_iff.mpr rfl)⟩
  · exact ⟨_, .unknown (not_exists.mp hmethod)⟩

/- An environment cannot be made by a call, and a call with the right number of arguments has a first one. -/
theorem call_eq_iff_outcome (env : Environment) :
    (∀ method args r, env.call method args = r ↔ Outcome env method args r) ∧
      (∀ args, env.call "new".toList args = .error (.noMethod "new".toList)) ∧
      ∀ (m : Method) (args : List Json), m.Takes args.length → ∃ a, args[0]? = some a := by
  have hiff (method : Text) (args : List Json) (r : Except Error Json) :
      env.call method args = r ↔ Outcome env method args r := by
    refine ⟨?_, call_of_outcome⟩
    rintro rfl
    obtain ⟨r, h⟩ := exists_outcome env method args
    rwa [call_of_outcome h]
  have hnew : ∀ m : Method, ¬ m.IsNamed "new".toList := by
    intro m h
    cases h
  exact ⟨hiff, fun args => (hiff _ _ _).mpr (.unknown hnew), fun _ _ => exists_head_of_takes⟩

/-- An atom with all of its parts. -/
def wholeAtom : Atom := resultOf (Atom.parse ">=cat/pkg-1.0:2/5::main[ssl(+),-doc?]".toList) (by decide +kernel)

/-- One of the repositories has been read from a directory, and the user has a set. -/
def calledEnvironment : Environment :=
  { slottedEnvironment with
    database := ⟨[slottedRepository, { Repository.empty "extra".toList with location := some "/srv/extra".toList }]⟩
    userSets := some ⟨[⟨"editors".toList, [wholeAtom], []⟩]⟩ }

def absentEntry : Entry := resultOf (Entry.parse "cat/pkg-1.5::main".toList) (by decide +kernel)

/- The faults of the first call are found one after the other as they are mended, and each query has its kind of
answer. -/
theorem call_eq_iff_outcome_calledEnvironment :
    calledEnvironment.call "query_use".toList [.null, .bool true, .null] =
        .error (.argument "query_use".toList 1 2 3) ∧
      calledEnvironment.call "query_use".toList [.null, .bool true] =
        .error (.type "query_use".toList .string "null".toList) ∧
      calledEnvironment.call "query_use".toList [.string "ssl".toList, .bool true] =
        .error (.type "query_use".toList .entry "boolean".toList) ∧
      calledEnvironment.call "query_use".toList [.string "ssl".toList, .object []] = .error (.object .fields) ∧
      calledEnvironment.call "query_use".toList [.string "ssl".toList] = .ok (.bool false) ∧
      calledEnvironment.call "accept_keyword".toList
        [.string "~amd64".toList, .string "cat/pkg-1.0-r0::main".toList] = .ok (.bool true) ∧
      calledEnvironment.call "accept_license".toList [.string "EVIL".toList] = .ok (.bool false) ∧
      calledEnvironment.call "mask_reasons".toList [.string "cat/pkg-1.0-r0::main".toList] =
        .ok (.array [.string "license".toList, .string "profile".toList, .string "user".toList]) ∧
      calledEnvironment.call "mask_reasons".toList [.object [("name".toList, .string "cat/pkg".toList),
          ("version".toList, .string "1.5".toList), ("repository".toList, .string "main".toList)]] =
        .ok (.array [.string "keyword".toList, .string "profile".toList]) ∧
      calledEnvironment.call "package_set".toList [.string "editors".toList] =
        .ok (.object [("all".toList, .array [.object [("leaf".toList, .object
          [("operator".toList, .string "GreaterEqual".toList), ("category".toList, .string "cat".toList),
            ("name".toList, .string "pkg".toList), ("version".toList, .string "1.0".toList),
            ("slot".toList, .string "2".toList), ("subslot".toList, .string "5".toList),
            ("repository".toList, .string "main".toList), ("use_deps".toList, .array
              [.object [("flag".toList, .string "ssl".toList), ("enabled".toList, .bool true),
                ("default".toList, .bool true), ("conditional".toList, .bool false)],
              .object [("flag".toList, .string "doc".toList), ("enabled".toList, .bool false),
                ("default".toList, .null), ("conditional".toList, .bool true)]])])]])]) ∧
      calledEnvironment.call "fetch_repository".toList [.string "main".toList] =
        .ok (.object [("name".toList, .string "main".toList), ("location".toList, .null)]) ∧
      calledEnvironment.call "fetch_repository".toList [.string "extra".toList] =
        .ok (.object [("name".toList, .string "extra".toList), ("location".toList, .string "/srv/extra".toList)]) ∧
      calledEnvironment.call "fetch_repository".toList [.string "gone".toList] =
        .error (.noSuchRepository "gone".toList) := by
  have hcall {method : Text} {args : List Json} {r : Except Error Json} (h : Outcome calledEnvironment method args r) :
      calledEnvironment.call method args = r := ((call_eq_iff_outcome calledEnvironment).1 method args r).mpr h
  have hcount (a b : Json) : Method.queryUse.Takes [a, b].length := ⟨Nat.le_succ 1, Nat.le_refl 2⟩
  have hread (a : Json) : IsRead .queryUse [.string "ssl".toList, a] := by
    refine ⟨hcount _ a, fun b _ hb => ?_⟩
    cases hb
    exact ⟨_, rfl⟩
  have hslotted : Describes (.string "cat/pkg-1.0-r0::main".toList) slottedEntry := .text (eq_ok_resultOf _)
  have habsent : Describes (.object [("name".toList, .string "cat/pkg".toList),
      ("version".toList, .string "1.5".toList), ("repository".toList, .string "main".toList)]) absentEntry :=
    .object rfl
  have hkeyword : calledEnvironment.acceptKeyword "~amd64".toList (some slottedEntry) = .ok true :=
    eq_ok_of_toOption (by decide +kernel)
  have hreasons : calledEnvironment.maskReasons slottedEntry = .ok ⟨false, true, true, true⟩ :=
    eq_ok_of_toOption (by decide +kernel)
  have habsentReasons : calledEnvironment.maskReasons absentEntry = .ok ⟨true, false, true, false⟩ :=
    eq_ok_of_toOption (by decide +kernel)
  have hset : calledEnvironment.packageSet "editors".toList = .ok (.group .all [.leaf wholeAtom]) := by
    have hname : SetName.parse "editors".toList = .ok ⟨"editors".toList, by decide⟩ := rfl
    rw [packageSet, SetScope.resolve, hname, ok_bind, SetScope.expand_eq]
    rfl
  refine ⟨?_, ?_, ?_, ?_, ?_, ?_, ?_, ?_, ?_, ?_, ?_, ?_, ?_⟩
  · exact hcall (.fault .queryUse (.count fun h => absurd h.2 (by decide)))
  · exact hcall (.fault .queryUse (.text (hcount _ _) nofun rfl nofun .null))
  · exact hcall (.fault .queryUse (.entryType (hread _) rfl rfl ⟨nofun, nofun⟩ .bool))
  · exact hcall (.fault .queryUse (.entry (hread _) rfl rfl (.object rfl)))
  · exact hcall (.answer (q := .queryUse "ssl".toList none) .queryUse rfl (.ok rfl rfl))
  · exact hcall (.answer (q := .acceptKeyword _ (some slottedEntry)) .acceptKeyword ⟨_, rfl, hslotted⟩
      (.ok hkeyword rfl))
  · exact hcall (.answer (q := .acceptLicense "EVIL".toList none) .acceptLicense rfl (.ok rfl rfl))
  · exact hcall (.answer (q := .maskReasons slottedEntry) .maskReasons ⟨_, rfl, hslotted⟩
      (.ok hreasons ((MaskReasons.isShownBy_iff _ _).mpr rfl)))
  · exact hcall (.answer (q := .maskReasons absentEntry) .maskReasons ⟨_, rfl, habsent⟩
      (.ok habsentReasons ((MaskReasons.isShownBy_iff _ _).mpr rfl)))
  · exact hcall (.answer (q := .packageSet "editors".toList) .packageSet rfl
      (.ok hset ((SpecTree.isShownBy_iff Atom.isShownBy_iff _ _).mpr rfl)))
  · exact hcall (.answer (q := .fetchRepository "main".toList) .fetchRepository rfl
      (.ok rfl ((Repository.isShownBy_iff _ _).mpr rfl)))
  · exact hcall (.answer (q := .fetchRepository "extra".toList) .fetchRepository rfl
      (.ok rfl ((Repository.isShownBy_iff _ _).mpr rfl)))
  · exact hcall (.answer (q := .fetchRepository "gone".toList) .fetchRepository rfl (.error rfl))

end PackagePolicy.Environment
