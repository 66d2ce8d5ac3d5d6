import PackagePolicy.Proofs.Lists
import PackagePolicy.Proofs.SpecTree.Evaluation
import PackagePolicy.SpecTree.Token

/-!
# Conditions in specification trees

Once it is known which USE flags are on, a tree can be written without conditions. A group whose
condition holds asks for all of its children. A group whose condition does not hold is idle: it is
left out where all trees of a group are asked for, but among alternatives it counts as satisfied and
so satisfies the group. Main statements: `evaluate_eq_evaluate_reduce`, and
`evaluate_ne_evaluate_reduce_alternatives` on what deleting idle alternatives would change.
-/

namespace PackagePolicy.SpecTree
variable {α : Type}

/-- The tree is a group whose condition does not hold. -/
def isIdle (use : Text → Bool) : SpecTree α → Bool
  | .group (.conditional flag negated) _ => use flag == negated
  | _ => false

mutual

/-- The tree without conditions. Idle groups are deleted from their groups, except from groups of
alternatives unless `alternatives` is set; there, and at the root, a group that asks for nothing
stands in their place. -/
def reduce (alternatives : Bool) (use : Text → Bool) : SpecTree α → SpecTree α
  | .leaf a => .leaf a
  | .group .all ts => .group .all (reduceList alternatives use true ts)
  | .group .any ts => .group .any (reduceList alternatives use alternatives ts)
  | .group (.conditional flag negated) ts =>
    .group .all (if use flag == negated then [] else reduceList alternatives use true ts)

/-- The children of a group without conditions, and without those that are idle if `delete` is set. -/
def reduceList (alternatives : Bool) (use : Text → Bool) (delete : Bool) :
    List (SpecTree α) → List (SpecTree α)
  | [] => []
  | t :: ts =>
    if delete && t.isIdle use then reduceList alternatives use delete ts
    else reduce alternatives use t :: reduceList alternatives use delete ts

end

mutual

/-- Some group of alternatives that counts has an idle alternative. -/
def hasIdleAlternative (use : Text → Bool) : SpecTree α → Bool
  | .leaf _ => false
  | .group .all ts => hasIdleAlternativeList use ts
  | .group .any ts => ts.any (isIdle use) || hasIdleAlternativeList use ts
  | .group (.conditional flag negated) ts => use flag != negated && hasIdleAlternativeList use ts

def hasIdleAlternativeList (use : Text → Bool) : List (SpecTree α) → Bool
  | [] => false
  | t :: ts => hasIdleAlternative use t || hasIdleAlternativeList use ts

end

section
variable (leaf : α → Bool) (use use' : Text → Bool)

theorem satisfied_of_isIdle {t : SpecTree α} (h : t.isIdle use = true) :
    t.satisfied leaf use = true := by
  cases t with
  | leaf a => cases h
  | group kind ts =>
    cases kind with
    | all => cases h
    | any => cases h
    | conditional flag negated =>
      have hflag : (use flag == negated) = true := h
      rw [satisfied_conditional, hflag, Bool.true_or]

theorem hasIdleAlternativeList_eq_false {ts : List (SpecTree α)} :
    hasIdleAlternativeList use ts = false ↔ ∀ t ∈ ts, t.hasIdleAlternative use = false := by
  induction ts with
  | nil => simp [hasIdleAlternativeList]
  | cons t ts ih => simp [hasIdleAlternativeList, ih]

theorem reduceList_eq (alternatives delete : Bool) (ts : List (SpecTree α)) :
    reduceList alternatives use delete ts =
      (ts.filter fun t => !(delete && t.isIdle use)).map (reduce alternatives use) := by
  induction ts with
  | nil => rfl
  | cons t ts ih =>
    rw [reduceList, List.filter_cons, ih]
    cases delete && t.isIdle use <;> rfl

theorem reduceList_eq_map {alternatives delete : Bool} {ts : List (SpecTree α)}
    (h : delete = true → ∀ t ∈ ts, t.isIdle use = false) :
    reduceList alternatives use delete ts = ts.map (reduce alternatives use) := by
  rw [reduceList_eq, List.filter_eq_self.mpr]
  intro t ht
  cases delete with
  | false => rfl
  | true => rw [h rfl t ht, Bool.and_false, Bool.not_false]

/- An idle child is satisfied, so among trees that are all asked for it may be deleted. -/
theorem all_reduceList {alternatives : Bool} {ts : List (SpecTree α)}
    (h : ∀ t ∈ ts, (t.reduce alternatives use).satisfied leaf use' = t.satisfied leaf use) :
    (reduceList alternatives use true ts).all (satisfied leaf use') =
      ts.all (satisfied leaf use) := by
  rw [reduceList_eq, List.all_map, List.all_filter]
  refine all_congr fun t ht => ?_
  rw [Function.comp, h t ht, Bool.true_and, Bool.not_not]
  cases hidle : t.isIdle use with
  | true => rw [Bool.true_or, satisfied_of_isIdle leaf use hidle]
  | false => rw [Bool.false_or]

theorem satisfied_reduce (alternatives : Bool) (t : SpecTree α)
    (h : alternatives = true → t.hasIdleAlternative use = false) :
    (t.reduce alternatives use).satisfied leaf use' = t.satisfied leaf use := by
  induction t using induction with
  | leaf a => rw [reduce, satisfied_leaf, satisfied_leaf]
  | group kind ts ih =>
    cases kind with
    | all =>
      simp only [hasIdleAlternative, hasIdleAlternativeList_eq_false] at h
      rw [reduce, satisfied_all, satisfied_all]
      exact all_reduceList leaf use use' fun t ht => ih t ht fun ha => h ha t ht
    | any =>
      simp only [hasIdleAlternative, Bool.or_eq_false_iff, hasIdleAlternativeList_eq_false,
        List.any_eq_false, Bool.not_eq_true] at h
      rw [reduce, satisfied_any, satisfied_any, reduceList_eq_map use fun ha => (h ha).1,
        List.isEmpty_map, List.any_map]
      congr 1
      exact any_congr fun t ht => ih t ht fun ha => (h ha).2 t ht
    | conditional flag negated =>
      rw [reduce, satisfied_all, satisfied_conditional]
      cases hflag : use flag == negated with
      | true => rfl
      | false =>
        have hne : (use flag != negated) = true := by rw [bne, hflag, Bool.not_false]
        simp only [hasIdleAlternative, hne, Bool.true_and, hasIdleAlternativeList_eq_false] at h
        rw [Bool.false_or]
        exact all_reduceList leaf use use' fun t ht => ih t ht fun ha => h ha t ht

/- Deleting idle alternatives never satisfies more: a group that loses one was satisfied by it. -/
theorem satisfied_of_satisfied_reduce (t : SpecTree α)
    (h : (t.reduce true use).satisfied leaf use' = true) : t.satisfied leaf use = true := by
  induction t using induction with
  | leaf a => rwa [reduce, satisfied_leaf] at h
  | group kind ts ih =>
    have hall (hts : (reduceList true use true ts).all (satisfied leaf use') = true) :
        ts.all (satisfied leaf use) = true := by
      rw [reduceList_eq, List.all_map, List.all_filter] at hts
      rw [List.all_eq_true] at hts ⊢
      intro t ht
      cases hidle : t.isIdle use with
      | true => exact satisfied_of_isIdle leaf use hidle
      | false =>
        have hred := hts t ht
        rw [hidle] at hred
        exact ih t ht hred
    cases kind with
    | all =>
      rw [reduce, satisfied_all] at h
      rw [satisfied_all, hall h]
    | any =>
      rw [reduce, satisfied_any, reduceList_eq, List.isEmpty_map, List.any_map, List.any_filter] at h
      rw [satisfied_any]
      rcases Bool.or_eq_true_iff.mp h with hempty | hsome
      · -- every alternative was deleted, so a first one, if there is any, satisfies the group
        cases ts with
        | nil => rfl
        | cons t ts =>
          rw [List.isEmpty_iff, List.filter_eq_nil_iff] at hempty
          have hidle : t.isIdle use = true := by simpa using hempty t List.mem_cons_self
          rw [List.any_cons, satisfied_of_isIdle leaf use hidle, Bool.true_or, Bool.or_true]
      · obtain ⟨t, ht, hkept⟩ := List.any_eq_true.mp hsome
        have hred := ih t ht (Bool.and_eq_true_iff.mp hkept).2
        rw [List.any_eq_true.mpr ⟨t, ht, hred⟩, Bool.or_true]
    | conditional flag negated =>
      rw [reduce, satisfied_all] at h
      rw [satisfied_conditional]
      cases hflag : use flag == negated with
      | true => rfl
      | false =>
        rw [hflag] at h
        exact hall h

/- Without conditions: exactly what the tree asks for if idle alternatives count as satisfied, the
same with idle alternatives deleted if there are none, and never less than the tree asks for. -/
theorem evaluate_eq_evaluate_reduce (t : SpecTree α) :
    t.evaluate (Except.ok ∘ leaf) (Except.ok ∘ use) =
        ((t.reduce false use).evaluate (Except.ok ∘ leaf) (Except.ok ∘ use') : Except Error Bool) ∧
      (t.hasIdleAlternative use = false →
        t.evaluate (Except.ok ∘ leaf) (Except.ok ∘ use) =
          ((t.reduce true use).evaluate (Except.ok ∘ leaf) (Except.ok ∘ use') :
            Except Error Bool)) ∧
      ((t.reduce true use).evaluate (Except.ok ∘ leaf) (Except.ok ∘ use') =
          (Except.ok true : Except Error Bool) →
        t.evaluate (Except.ok ∘ leaf) (Except.ok ∘ use) = (Except.ok true : Except Error Bool)) := by
  have hsatisfied (use : Text → Bool) (t : SpecTree α) :
      t.evaluate (Except.ok ∘ leaf) (Except.ok ∘ use) =
        (Except.ok (t.satisfied leaf use) : Except Error Bool) := evaluate_pure leaf use t
  simp only [hsatisfied, Except.ok.injEq]
  refine ⟨?_, fun h => ?_, satisfied_of_satisfied_reduce leaf use use' t⟩
  · exact (satisfied_reduce leaf use use' false t nofun).symm
  · exact (satisfied_reduce leaf use use' true t fun _ => h).symm

/- With `doc` off, deleting the idle alternative of this expression leaves the license `EVIL`. -/
theorem evaluate_ne_evaluate_reduce_alternatives :
    ¬ ∀ (source : Text) (t : SpecTree Text) (leaf use : Text → Bool),
      parseLicense source = .ok t →
        t.evaluate (Except.ok ∘ leaf) (Except.ok ∘ use) =
          ((t.reduce true use).evaluate (Except.ok ∘ leaf) (Except.ok ∘ use) : Except Error Bool) := by
  intro h
  have hevil : (Except.ok true : Except Error Bool) = .ok false :=
    h "|| ( EVIL doc? ( MIT ) )".toList
      (.group .all [.group .any
        [.leaf "EVIL".toList, .group (.conditional "doc".toList false) [.leaf "MIT".toList]]])
      (· != "EVIL".toList) (fun _ => false) rfl
  cases hevil

end
end PackagePolicy.SpecTree
