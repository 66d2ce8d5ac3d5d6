import PackagePolicy.SpecTree.Basic

/-!
# Evaluation without failures

Where the callbacks always answer, evaluation answers, and what it answers is a Boolean function of
the tree: `satisfied`, with one equation for each kind of group.
-/

namespace PackagePolicy.SpecTree
variable {α : Type}

@[elab_as_elim]
theorem induction {motive : SpecTree α → Prop} (leaf : ∀ a, motive (.leaf a))
    (group : ∀ kind ts, (∀ t ∈ ts, motive t) → motive (.group kind ts)) : ∀ t, motive t
  | .leaf a => leaf a
  | .group kind ts => group kind ts fun t _ => induction leaf group t

theorem leavesOf_eq_flatMap (ts : List (SpecTree α)) : leavesOf ts = ts.flatMap leaves := by
  induction ts with
  | nil => rfl
  | cons t ts ih => rw [leavesOf, ih, List.flatMap_cons]

theorem mem_leaves_group {kind : Group} {ts : List (SpecTree α)} {t : SpecTree α} {a : α} (ht : t ∈ ts)
    (ha : a ∈ t.leaves) : a ∈ leaves (.group kind ts) := by
  rw [leaves, leavesOf_eq_flatMap]
  exact List.mem_flatMap_of_mem ht ha

/-- The tree is satisfied for Boolean callbacks. -/
def satisfied (leaf : α → Bool) (use : Text → Bool) (t : SpecTree α) : Bool :=
  Id.run (t.evaluate (fun a => pure (leaf a)) (fun flag => pure (use flag)))

/-! ### Callbacks that always answer -/

section
variable {m : Type → Type} [Monad m] [LawfulMonad m] (leaf : α → Bool) (use : Text → Bool)

theorem evaluateAll_pure {ts : List (SpecTree α)}
    (h : ∀ t ∈ ts, t.evaluate (fun a => pure (leaf a)) (fun flag => pure (use flag)) =
      (pure (t.satisfied leaf use) : m Bool)) :
    evaluateAll (fun a => pure (leaf a)) (fun flag => pure (use flag)) ts =
      (pure (ts.all (satisfied leaf use)) : m Bool) := by
  induction ts with
  | nil => rw [evaluateAll, List.all_nil]
  | cons t ts ih =>
    rw [evaluateAll, h t List.mem_cons_self, pure_bind, List.all_cons,
      ih fun t' ht => h t' (List.mem_cons_of_mem t ht)]
    cases t.satisfied leaf use <;> rfl

theorem evaluateAny_pure {ts : List (SpecTree α)}
    (h : ∀ t ∈ ts, t.evaluate (fun a => pure (leaf a)) (fun flag => pure (use flag)) =
      (pure (t.satisfied leaf use) : m Bool)) :
    evaluateAny (fun a => pure (leaf a)) (fun flag => pure (use flag)) ts =
      (pure (ts.any (satisfied leaf use)) : m Bool) := by
  induction ts with
  | nil => rw [evaluateAny, List.any_nil]
  | cons t ts ih =>
    rw [evaluateAny, h t List.mem_cons_self, pure_bind, List.any_cons,
      ih fun t' ht => h t' (List.mem_cons_of_mem t ht)]
    cases t.satisfied leaf use <;> rfl

@[simp] theorem satisfied_leaf (a : α) : satisfied leaf use (.leaf a) = leaf a := by
  rw [satisfied, evaluate, Id.run_pure]

@[simp] theorem satisfied_all (ts : List (SpecTree α)) :
    satisfied leaf use (.group .all ts) = ts.all (satisfied leaf use) := by
  rw [satisfied, evaluate, evaluateAll_pure leaf use fun _ _ => rfl, Id.run_pure]

@[simp] theorem satisfied_any (ts : List (SpecTree α)) :
    satisfied leaf use (.group .any ts) = (ts.isEmpty || ts.any (satisfied leaf use)) := by
  cases ts with
  | nil => rw [satisfied, evaluate, Id.run_pure, List.isEmpty_nil, Bool.true_or]
  | cons t ts =>
    rw [satisfied, evaluate, evaluateAny_pure leaf use fun _ _ => rfl, Id.run_pure,
      List.isEmpty_cons, Bool.false_or]

@[simp] theorem satisfied_conditional (flag : Text) (negated : Bool) (ts : List (SpecTree α)) :
    satisfied leaf use (.group (.conditional flag negated) ts) =
      (use flag == negated || ts.all (satisfied leaf use)) := by
  rw [satisfied, evaluate, evaluateAll_pure leaf use fun _ _ => rfl, pure_bind]
  cases use flag == negated <;> rfl

theorem evaluate_pure (t : SpecTree α) :
    t.evaluate (fun a => pure (leaf a)) (fun flag => pure (use flag)) =
      (pure (t.satisfied leaf use) : m Bool) := by
  induction t using induction with
  | leaf a => rw [evaluate, satisfied_leaf]
  | group kind ts ih =>
    cases kind with
    | all => rw [evaluate, satisfied_all, evaluateAll_pure leaf use ih]
    | any =>
      cases ts with
      | nil => rw [evaluate, satisfied_any, List.isEmpty_nil, Bool.true_or]
      | cons t ts =>
        rw [evaluate, satisfied_any, evaluateAny_pure leaf use ih, List.isEmpty_cons, Bool.false_or]
    | conditional flag negated =>
      rw [evaluate, pure_bind, satisfied_conditional, evaluateAll_pure leaf use ih]
      cases use flag == negated <;> rfl

end

/-! ### Accepting more leaves -/

section
variable {leaf leaf' : α → Bool} {use : Text → Bool}

theorem satisfied_mono {t : SpecTree α} (h : ∀ a ∈ t.leaves, leaf a = true → leaf' a = true)
    (ht : t.satisfied leaf use = true) : t.satisfied leaf' use = true := by
  induction t using induction with
  | leaf a =>
    rw [satisfied_leaf] at ht ⊢
    exact h a (List.mem_singleton.mpr rfl) ht
  | group kind ts ih =>
    have hchild : ∀ t ∈ ts, t.satisfied leaf use = true → t.satisfied leaf' use = true :=
      fun t ht => ih t ht fun a ha => h a (mem_leaves_group ht ha)
    have hall (hts : ts.all (satisfied leaf use) = true) : ts.all (satisfied leaf' use) = true :=
      List.all_eq_true.mpr fun t ht => hchild t ht (List.all_eq_true.mp hts t ht)
    cases kind with
    | all =>
      rw [satisfied_all] at ht ⊢
      exact hall ht
    | any =>
      rw [satisfied_any, Bool.or_eq_true, List.any_eq_true] at ht ⊢
      refine ht.imp_right fun hsome => ?_
      obtain ⟨t, ht, htrue⟩ := hsome
      exact ⟨t, ht, hchild t ht htrue⟩
    | conditional flag negated =>
      rw [satisfied_conditional, Bool.or_eq_true] at ht ⊢
      exact ht.imp_right hall

theorem satisfied_of_forall_leaves {t : SpecTree α} (h : ∀ a ∈ t.leaves, leaf a = true) :
    t.satisfied leaf use = true := by
  induction t using induction with
  | leaf a =>
    rw [satisfied_leaf]
    exact h a (List.mem_singleton.mpr rfl)
  | group kind ts ih =>
    have hchild : ∀ t ∈ ts, t.satisfied leaf use = true :=
      fun t ht => ih t ht fun a ha => h a (mem_leaves_group ht ha)
    have hall : ts.all (satisfied leaf use) = true := List.all_eq_true.mpr hchild
    cases kind with
    | all => rw [satisfied_all, hall]
    | any =>
      rw [satisfied_any]
      cases ts with
      | nil => rfl
      | cons t ts => rw [List.any_cons, hchild t List.mem_cons_self, Bool.true_or, Bool.or_true]
    | conditional flag negated => rw [satisfied_conditional, hall, Bool.or_true]

end
end PackagePolicy.SpecTree
