import Mathlib.Data.List.Flatten
import PackagePolicy.Proofs.Lists
import PackagePolicy.Proofs.SpecTree.Evaluation
import PackagePolicy.SpecTree.Token

/-!
# The calls of an evaluation

Callbacks may fail, and a record tells which of them are called and in which order. The children of a group
are visited up to the first that decides about the group, every call but the last succeeds, and an
evaluation fails exactly by the failure of its last call. Main statement: `evaluate_callsInOrder`.
-/

namespace PackagePolicy

/-- A call of one of the two callbacks. -/
inductive Call (α : Type) where
  | leaf (value : α)
  | condition (flag : Text)
deriving DecidableEq, Repr

namespace Call
variable {α ε : Type}

def leaf? : Call α → Option α
  | .leaf a => some a
  | .condition _ => none

def answer (leaf : α → Except ε Bool) (use : Text → Except ε Bool) : Call α → Except ε Bool
  | .leaf a => leaf a
  | .condition flag => use flag

end Call

/-- Computations that may fail and keep a record of the calls that they make. -/
abbrev Recorded (α ε : Type) := ExceptT ε (StateM (List (Call α)))

/-- A call that is put on record and then answered. -/
def Recorded.call {α ε : Type} (c : Call α) (answer : Except ε Bool) : Recorded α ε Bool := do
  modify (· ++ [c])
  ExceptT.mk (pure answer)

namespace SpecTree
variable {α ε : Type}

section
variable (leaf : α → Except ε Bool) (use : Text → Except ε Bool)

/-- The evaluation of a tree that records its calls. -/
def recorded (t : SpecTree α) : Recorded α ε Bool :=
  t.evaluate (fun a => .call (.leaf a) (leaf a)) (fun flag => .call (.condition flag) (use flag))

def calls (t : SpecTree α) : List (Call α) := ((t.recorded leaf use).run.run []).2

/-- The trees of a list up to the first whose answer is another one, or which fails, and with it. -/
def visited (answer : Bool) : List (SpecTree α) → List (SpecTree α)
  | [] => []
  | t :: ts => if (t.evaluate leaf use).toOption = some answer then t :: visited answer ts else [t]

end

/-! ### One answer after another -/

section
variable {m : Type → Type} [Monad m] (leaf : α → m Bool) (use : Text → m Bool)

/-- The answer of the first tree of a list whose answer is another one, if there is such a tree. -/
def evaluateWhile (answer : Bool) : List (SpecTree α) → m Bool
  | [] => pure answer
  | t :: ts => do
    let b ← t.evaluate leaf use
    if b = answer then evaluateWhile answer ts else pure b

theorem evaluateAll_eq (ts : List (SpecTree α)) :
    evaluateAll leaf use ts = evaluateWhile leaf use true ts := by
  induction ts with
  | nil => rw [evaluateAll, evaluateWhile]
  | cons t ts ih =>
    rw [evaluateAll, evaluateWhile, ih]
    refine bind_congr fun b => ?_
    cases b <;> rfl

theorem evaluateAny_eq (ts : List (SpecTree α)) :
    evaluateAny leaf use ts = evaluateWhile leaf use false ts := by
  induction ts with
  | nil => rw [evaluateAny, evaluateWhile]
  | cons t ts ih =>
    rw [evaluateAny, evaluateWhile, ih]
    refine bind_congr fun b => ?_
    cases b <;> rfl

end

/-! ### Calls and results -/

def Succeed (answer : Call α → Except ε Bool) (calls : List (Call α)) : Prop :=
  ∀ c ∈ calls, ∃ b, answer c = .ok b

/-- The last call gives the error, and all calls before it succeed. -/
def FailLast (answer : Call α → Except ε Bool) (calls : List (Call α)) (e : ε) : Prop :=
  ∃ before last, calls = before ++ [last] ∧ Succeed answer before ∧ answer last = .error e

/-- The calls succeed where there is an answer, and end with the failure where there is none. -/
def Explain (answer : Call α → Except ε Bool) (calls : List (Call α)) : Except ε Bool → Prop
  | .ok _ => Succeed answer calls
  | .error e => FailLast answer calls e

theorem Succeed.append {answer : Call α → Except ε Bool} {calls calls' : List (Call α)}
    (h : Succeed answer calls) (h' : Succeed answer calls') : Succeed answer (calls ++ calls') :=
  List.forall_mem_append.mpr ⟨h, h'⟩

theorem Explain.append {answer : Call α → Except ε Bool} {calls calls' : List (Call α)}
    {result : Except ε Bool} (h : Succeed answer calls) (h' : Explain answer calls' result) :
    Explain answer (calls ++ calls') result := by
  cases result with
  | ok b => exact h.append h'
  | error e =>
    obtain ⟨before, last, rfl, hbefore, hlast⟩ := h'
    exact ⟨calls ++ before, last, (List.append_assoc _ _ _).symm, h.append hbefore, hlast⟩

/-- The computation makes the calls, whatever was recorded before, and has the result that they explain. -/
structure Makes (answer : Call α → Except ε Bool) (x : Recorded α ε Bool) (calls : List (Call α))
    (result : Except ε Bool) : Prop where
  run : ∀ before, x.run.run before = (result, before ++ calls)
  explain : Explain answer calls result

namespace Makes
variable {answer : Call α → Except ε Bool} {x : Recorded α ε Bool} {f : Bool → Recorded α ε Bool}
  {c c' : List (Call α)} {result : Except ε Bool} {b : Bool} {e : ε}

theorem pure (b : Bool) : Makes answer (Pure.pure b) [] (.ok b) where
  run before := by
    rw [List.append_nil]
    rfl
  explain := nofun

theorem call (c : Call α) : Makes answer (.call c (answer c)) [c] (answer c) where
  run _ := rfl
  explain := by
    cases h : answer c with
    | ok b => exact List.forall_mem_singleton.mpr ⟨b, h⟩
    | error e => exact ⟨[], c, rfl, nofun, h⟩

theorem bind_ok (hx : Makes answer x c (.ok b)) (hf : Makes answer (f b) c' result) :
    Makes answer (x >>= f) (c ++ c') result where
  run before := by
    have hrun : (x >>= f).run.run before = (f b).run.run (before ++ c) := by
      rw [ExceptT.run_bind, StateT.run_bind, hx.run before]
      rfl
    rw [hrun, hf.run, List.append_assoc]
  explain := .append hx.explain hf.explain

theorem bind_error (hx : Makes answer x c (.error e)) : Makes answer (x >>= f) c (.error e) where
  run before := by
    rw [ExceptT.run_bind, StateT.run_bind, hx.run before]
    rfl
  explain := hx.explain

end Makes

section
variable {leaf leaf' : α → Except ε Bool} {use use' : Text → Except ε Bool} {ts : List (SpecTree α)}

/-! ### Visited children -/

/-- The children that are visited in a group: all of them, or those up to the first that decides, by another
answer or a failure. -/
structure AreVisited (leaf : α → Except ε Bool) (use : Text → Except ε Bool) (answer : Bool)
    (ts visited : List (SpecTree α)) : Prop where
  isPrefix : visited <+: ts
  undecided : ∀ t ∈ visited.dropLast, t.evaluate leaf use = .ok answer
  decided : visited ≠ ts → ∃ t ∈ visited.getLast?, t.evaluate leaf use ≠ .ok answer

section
variable {t : SpecTree α} {answer : Bool}

theorem visited_cons_of_eq (h : t.evaluate leaf use = .ok answer) (ts : List (SpecTree α)) :
    visited leaf use answer (t :: ts) = t :: visited leaf use answer ts :=
  if_pos (toOption_eq_some_iff.mpr h)

theorem visited_cons_of_ne (h : t.evaluate leaf use ≠ .ok answer) (ts : List (SpecTree α)) :
    visited leaf use answer (t :: ts) = [t] :=
  if_neg (mt toOption_eq_some_iff.mp h)

theorem AreVisited.cons {visited : List (SpecTree α)} (h : AreVisited leaf use answer ts visited)
    (ht : t.evaluate leaf use = .ok answer) : AreVisited leaf use answer (t :: ts) (t :: visited) := by
  cases visited with
  | nil =>
    -- nothing was visited, so there was nothing to visit
    have hnil : ts = [] := by
      by_contra hne
      obtain ⟨_, hlast, _⟩ := h.decided (Ne.symm hne)
      cases hlast
    exact ⟨hnil ▸ List.prefix_rfl, nofun, fun hne => absurd (hnil ▸ rfl) hne⟩
  | cons t' visited =>
    refine ⟨(List.prefix_cons_inj t).mpr h.isPrefix, ?_, fun hne => ?_⟩
    · rw [List.dropLast_cons_cons]
      exact List.forall_mem_cons.mpr ⟨ht, h.undecided⟩
    · rw [List.getLast?_cons_cons]
      exact h.decided fun heq => hne (heq ▸ rfl)

end

theorem areVisited_visited (answer : Bool) (ts : List (SpecTree α)) :
    AreVisited leaf use answer ts (visited leaf use answer ts) := by
  induction ts with
  | nil => exact ⟨List.prefix_rfl, nofun, fun h => absurd rfl h⟩
  | cons t ts ih =>
    by_cases h : t.evaluate leaf use = .ok answer
    · rw [visited_cons_of_eq h]
      exact ih.cons h
    · rw [visited_cons_of_ne h]
      exact ⟨⟨ts, rfl⟩, nofun, fun _ => ⟨t, rfl, h⟩⟩

/-! ### Calls of a group -/

theorem Makes.calls_eq {t : SpecTree α} {c : List (Call α)} {result : Except ε Bool}
    (h : Makes (Call.answer leaf use) (t.recorded leaf use) c result) : t.calls leaf use = c := by
  rw [calls, h.run, List.nil_append]

/-- The recorded evaluation has the result of the evaluation. -/
def IsRecorded (leaf : α → Except ε Bool) (use : Text → Except ε Bool) (t : SpecTree α) : Prop :=
  Makes (Call.answer leaf use) (t.recorded leaf use) (t.calls leaf use) (t.evaluate leaf use)

theorem makes_evaluateWhile (answer : Bool) (h : ∀ t ∈ ts, IsRecorded leaf use t) :
    Makes (Call.answer leaf use)
      (evaluateWhile (fun a => .call (.leaf a) (leaf a)) (fun flag => .call (.condition flag) (use flag))
        answer ts)
      ((visited leaf use answer ts).flatMap (calls leaf use)) (evaluateWhile leaf use answer ts) := by
  induction ts with
  | nil => exact .pure answer
  | cons t ts ih =>
    have ht := h t List.mem_cons_self
    unfold IsRecorded at ht
    unfold evaluateWhile
    cases heval : t.evaluate leaf use with
    | error e =>
      have hne : t.evaluate leaf use ≠ .ok answer := by rw [heval]; nofun
      rw [heval] at ht
      rw [visited_cons_of_ne hne, List.flatMap_singleton]
      exact ht.bind_error
    | ok b =>
      rw [heval] at ht
      by_cases hb : b = answer
      · subst hb
        rw [visited_cons_of_eq heval, List.flatMap_cons, ok_bind, if_pos rfl]
        refine ht.bind_ok ?_
        rw [if_pos rfl]
        exact ih fun t' ht' => h t' (List.mem_cons_of_mem t ht')
      · have hne : t.evaluate leaf use ≠ .ok answer := by
          rw [heval]
          exact fun heq => hb (Except.ok.inj heq)
        rw [visited_cons_of_ne hne, List.flatMap_singleton, ← List.append_nil (t.calls leaf use), ok_bind,
          if_neg hb]
        refine ht.bind_ok ?_
        rw [if_neg hb]
        exact .pure b

/-- The calls of a group, by those of its children. -/
def groupCalls (leaf : α → Except ε Bool) (use : Text → Except ε Bool) (ts : List (SpecTree α)) :
    Group → List (Call α)
  | .all => (visited leaf use true ts).flatMap (calls leaf use)
  | .any => (visited leaf use false ts).flatMap (calls leaf use)
  | .conditional flag negated =>
    .condition flag ::
      if (use flag).toOption = some (!negated) then (visited leaf use true ts).flatMap (calls leaf use) else []

theorem makes_group (kind : Group) (h : ∀ t ∈ ts, IsRecorded leaf use t) :
    Makes (Call.answer leaf use) (recorded leaf use (.group kind ts)) (groupCalls leaf use ts kind)
      (evaluate leaf use (.group kind ts)) := by
  cases kind with
  | all =>
    rw [recorded, evaluate, evaluate, evaluateAll_eq, evaluateAll_eq]
    exact makes_evaluateWhile true h
  | any =>
    cases ts with
    | nil =>
      rw [recorded, evaluate, evaluate]
      exact .pure true
    | cons t ts =>
      rw [recorded, evaluate, evaluate, evaluateAny_eq, evaluateAny_eq]
      exact makes_evaluateWhile false h
  | conditional flag negated =>
    have hflag : Makes (Call.answer leaf use) (.call (.condition flag) (use flag)) [.condition flag] (use flag) :=
      .call (.condition flag)
    rw [recorded, evaluate, evaluate, evaluateAll_eq, evaluateAll_eq, groupCalls, ← List.singleton_append]
    cases huse : use flag with
    | error e =>
      rw [huse] at hflag
      exact hflag.bind_error
    | ok b =>
      rw [huse] at hflag
      refine hflag.bind_ok ?_
      -- the condition is met where the flag and the negation differ
      cases b <;> cases negated
      · exact .pure true
      · exact makes_evaluateWhile true h
      · exact makes_evaluateWhile true h
      · exact .pure true

theorem isRecorded (t : SpecTree α) : IsRecorded leaf use t := by
  induction t using induction with
  | leaf a =>
    have h : Makes (Call.answer leaf use) (recorded leaf use (.leaf a)) [.leaf a]
        (evaluate leaf use (.leaf a)) := by
      rw [recorded, evaluate, evaluate]
      exact .call (.leaf a)
    rw [IsRecorded, h.calls_eq]
    exact h
  | group kind ts ih =>
    have h := makes_group kind ih
    rw [IsRecorded, h.calls_eq]
    exact h

theorem calls_leaf (a : α) : calls leaf use (.leaf a) = [.leaf a] := by
  rw [calls, recorded, evaluate]
  rfl

theorem calls_group (kind : Group) (ts : List (SpecTree α)) :
    calls leaf use (.group kind ts) = groupCalls leaf use ts kind :=
  (makes_group kind fun t _ => isRecorded t).calls_eq

theorem calls_conditional_of_met {flag : Text} {negated : Bool} (h : use flag = .ok (!negated))
    (ts : List (SpecTree α)) : calls leaf use (.group (.conditional flag negated) ts) =
      .condition flag :: (visited leaf use true ts).flatMap (calls leaf use) := by
  rw [calls_group, groupCalls, if_pos (toOption_eq_some_iff.mpr h)]

theorem calls_conditional_of_unmet {flag : Text} {negated : Bool} (h : use flag ≠ .ok (!negated))
    (ts : List (SpecTree α)) :
    calls leaf use (.group (.conditional flag negated) ts) = [.condition flag] := by
  rw [calls_group, groupCalls, if_neg (mt toOption_eq_some_iff.mp h)]

/-! ### Leaves -/

theorem filterMap_calls_sublist (t : SpecTree α) :
    ((t.calls leaf use).filterMap Call.leaf?).Sublist t.leaves := by
  induction t using induction with
  | leaf a =>
    rw [calls_leaf, leaves]
    exact List.Sublist.refl [a]
  | group kind ts ih =>
    have hvisited (answer : Bool) :
        (((visited leaf use answer ts).flatMap (calls leaf use)).filterMap Call.leaf?).Sublist
          (leavesOf ts) := by
      have hvisits : AreVisited leaf use answer ts (visited leaf use answer ts) := areVisited_visited answer ts
      have hbegin := hvisits.isPrefix
      rw [List.filterMap_flatMap, leavesOf_eq_flatMap]
      refine (hbegin.sublist.flatMap _).trans ?_
      exact List.Sublist.flatMap_right ts ih
    rw [calls_group, leaves]
    cases kind with
    | all => exact hvisited true
    | any => exact hvisited false
    | conditional flag negated =>
      rw [groupCalls, List.filterMap_cons_none rfl]
      split
      · exact hvisited true
      · exact List.nil_sublist _

/-! ### Other answers in place of failures -/

/-- The second computation has a result wherever the first has one, and then the same. -/
def Extends (x x' : Except ε Bool) : Prop := ∀ b, x = .ok b → x' = .ok b

theorem Extends.bind {x x' : Except ε Bool} {f f' : Bool → Except ε Bool} (hx : Extends x x')
    (hf : ∀ b, Extends (f b) (f' b)) : Extends (x >>= f) (x' >>= f') := by
  intro b h
  obtain ⟨b', hb', h⟩ := exists_of_bind_eq_ok h
  rw [hx b' hb', ok_bind]
  exact hf b' b h

theorem evaluateWhile_extends (answer : Bool)
    (h : ∀ t ∈ ts, Extends (t.evaluate leaf use) (t.evaluate leaf' use')) :
    Extends (evaluateWhile leaf use answer ts) (evaluateWhile leaf' use' answer ts) := by
  induction ts with
  | nil => exact fun _ => id
  | cons t ts ih =>
    unfold evaluateWhile
    refine (h t List.mem_cons_self).bind fun b => ?_
    split
    · exact ih fun t' ht' => h t' (List.mem_cons_of_mem t ht')
    · exact fun _ => id

theorem evaluate_extends (hleaf : ∀ a, Extends (leaf a) (leaf' a))
    (huse : ∀ flag, Extends (use flag) (use' flag)) (t : SpecTree α) :
    Extends (t.evaluate leaf use) (t.evaluate leaf' use') := by
  induction t using induction with
  | leaf a =>
    rw [evaluate, evaluate]
    exact hleaf a
  | group kind ts ih =>
    have hall : Extends (evaluateAll leaf use ts) (evaluateAll leaf' use' ts) := by
      rw [evaluateAll_eq, evaluateAll_eq]
      exact evaluateWhile_extends true ih
    cases kind with
    | all =>
      rw [evaluate, evaluate]
      exact hall
    | any =>
      cases ts with
      | nil =>
        rw [evaluate, evaluate]
        exact fun _ => id
      | cons t ts =>
        rw [evaluate, evaluate, evaluateAny_eq, evaluateAny_eq]
        exact evaluateWhile_extends false ih
    | conditional flag negated =>
      rw [evaluate, evaluate]
      refine (huse flag).bind fun b => ?_
      split
      · exact fun _ => id
      · exact hall

/-! ### Evaluations that may fail -/

/-- A tree visits the children of its groups from left to right, as long as they leave the group undecided,
and those of a group under a condition only where the condition is met. -/
structure VisitsInOrder (leaf : α → Except ε Bool) (use : Text → Except ε Bool) : Prop where
  single : ∀ a, calls leaf use (.leaf a) = [.leaf a]
  all : ∀ ts, ∃ visited, AreVisited leaf use true ts visited ∧
    calls leaf use (.group .all ts) = visited.flatMap (calls leaf use)
  any : ∀ ts, ∃ visited, AreVisited leaf use false ts visited ∧
    calls leaf use (.group .any ts) = visited.flatMap (calls leaf use)
  met : ∀ flag negated ts, use flag = .ok (!negated) → ∃ visited, AreVisited leaf use true ts visited ∧
    calls leaf use (.group (.conditional flag negated) ts) =
      .condition flag :: visited.flatMap (calls leaf use)
  unmet : ∀ flag negated ts, use flag ≠ .ok (!negated) →
    calls leaf use (.group (.conditional flag negated) ts) = [.condition flag]

theorem visitsInOrder (leaf : α → Except ε Bool) (use : Text → Except ε Bool) : VisitsInOrder leaf use where
  single := calls_leaf
  all ts := ⟨_, areVisited_visited true ts, calls_group .all ts⟩
  any ts := ⟨_, areVisited_visited false ts, calls_group .any ts⟩
  met _ _ ts h := ⟨_, areVisited_visited true ts, calls_conditional_of_met h ts⟩
  unmet _ _ ts h := calls_conditional_of_unmet h ts

/- A result does not depend on what a failing callback would have answered, and an error is that of the last
call. -/
theorem evaluate_callsInOrder (t : SpecTree α) (leaf : α → Except ε Bool) (use : Text → Except ε Bool) :
    (t.recorded leaf use).run.run [] = (t.evaluate leaf use, t.calls leaf use) ∧
      (∀ b, t.evaluate leaf use = .ok b → Succeed (Call.answer leaf use) (t.calls leaf use) ∧
        ∀ leaf' use', (∀ a, Extends (leaf a) (leaf' a)) → (∀ flag, Extends (use flag) (use' flag)) →
          t.evaluate leaf' use' = .ok b) ∧
      (∀ e, t.evaluate leaf use = .error e → FailLast (Call.answer leaf use) (t.calls leaf use) e) ∧
      ((t.calls leaf use).filterMap Call.leaf?).Sublist t.leaves ∧
      VisitsInOrder leaf use := by
  have hrecorded : IsRecorded leaf use t := isRecorded t
  obtain ⟨hrun, hexplain⟩ := hrecorded
  refine ⟨hrun [], fun b hb => ⟨?_, fun leaf' use' hleaf huse => ?_⟩, fun e he => ?_,
    filterMap_calls_sublist t, visitsInOrder leaf use⟩
  · rwa [hb] at hexplain
  · exact evaluate_extends hleaf huse t b hb
  · rwa [he] at hexplain

end

/-! ### Callbacks that fail -/

def lostLicense (license : Text) : Except Error Bool :=
  if license = "MIT".toList then .ok true else .error (.noSuchRepository license)

def docOff (flag : Text) : Except Error Bool :=
  if flag = "doc".toList then .ok false else .error (.noSuchRepository flag)

/-- All lost licenses stand behind what decides about their groups. -/
def guardedTree : SpecTree Text :=
  resultOf (parseLicense "|| ( MIT EVIL ) doc? ( FDL )".toList) (by decide +kernel)

def exposedTree : SpecTree Text :=
  resultOf (parseLicense "|| ( MIT EVIL ) !doc? ( FDL MIT ) MIT".toList) (by decide +kernel)

theorem evaluate_callsInOrder_guardedTree_exposedTree :
    guardedTree.evaluate lostLicense docOff = .ok true ∧
      guardedTree.evaluate (fun license => .ok (license == "MIT".toList)) docOff = .ok true ∧
      exposedTree.evaluate lostLicense docOff = .error (.noSuchRepository "FDL".toList) ∧
      exposedTree.calls lostLicense docOff =
        [.leaf "MIT".toList, .condition "doc".toList, .leaf "FDL".toList] ∧
      FailLast (Call.answer lostLicense docOff) (exposedTree.calls lostLicense docOff)
        (.noSuchRepository "FDL".toList) ∧
      docOff "doc".toList = .ok (!true) ∧
      (∃ visited, AreVisited lostLicense docOff true [.leaf "FDL".toList, .leaf "MIT".toList] visited ∧
        calls lostLicense docOff
            (.group (.conditional "doc".toList true) [.leaf "FDL".toList, .leaf "MIT".toList]) =
          .condition "doc".toList :: visited.flatMap (calls lostLicense docOff)) ∧
      docOff "doc".toList ≠ .ok (!false) ∧
      calls lostLicense docOff (.group (.conditional "doc".toList false) [.leaf "FDL".toList]) =
        [.condition "doc".toList] := by
  have hguarded : guardedTree.evaluate lostLicense docOff = .ok true := by decide +kernel
  have hexposed : exposedTree.evaluate lostLicense docOff = .error (.noSuchRepository "FDL".toList) := by
    decide +kernel
  have hmet : docOff "doc".toList = .ok (!true) := by decide +kernel
  have hunmet : docOff "doc".toList ≠ .ok (!false) := by decide +kernel
  have hanswers (license : Text) :
      Extends (lostLicense license) (.ok (license == "MIT".toList)) := by
    intro b hb
    unfold lostLicense at hb
    split at hb
    next hmit =>
      cases hb
      rw [hmit, beq_self_eq_true]
    · cases hb
  obtain ⟨_, hok, _, _, hvisits⟩ := evaluate_callsInOrder guardedTree lostLicense docOff
  obtain ⟨_, _, herror, _, _⟩ := evaluate_callsInOrder exposedTree lostLicense docOff
  exact ⟨hguarded, (hok true hguarded).2 _ docOff hanswers fun _ _ => id, hexposed, by decide +kernel,
    herror _ hexposed, hmet, hvisits.met _ _ _ hmet, hunmet, hvisits.unmet _ _ _ hunmet⟩

end SpecTree
end PackagePolicy
