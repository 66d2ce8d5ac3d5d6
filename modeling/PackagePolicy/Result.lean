/-!
# Results

What the success of a computation that can fail says about its steps.
-/

namespace PackagePolicy
variable {ε α β : Type}

/-- The result of a computation that has one. -/
def resultOf (x : Except ε α) (h : x.toOption.isSome = true) : α := x.toOption.get h

theorem eq_ok_of_toOption {x : Except ε α} {a : α} (h : x.toOption = some a) : x = .ok a := by
  cases x with
  | error e => cases h
  | ok b =>
    cases h
    rfl

theorem eq_ok_resultOf {x : Except ε α} (h : x.toOption.isSome = true) : x = .ok (resultOf x h) :=
  eq_ok_of_toOption (Option.some_get h).symm

theorem exists_of_bind_eq_ok {x : Except ε α} {f : α → Except ε β} {b : β}
    (h : x >>= f = .ok b) : ∃ a, x = .ok a ∧ f a = .ok b := by
  cases x with
  | error e => cases h
  | ok a => exact ⟨a, rfl, h⟩

theorem exists_of_mem_mapM {f : α → Except ε β} {as : List α} {bs : List β}
    (h : as.mapM f = .ok bs) : ∀ b ∈ bs, ∃ a ∈ as, f a = .ok b := by
  induction as generalizing bs with
  | nil =>
    intro b hb
    cases h
    cases hb
  | cons a as ih =>
    rw [List.mapM_cons] at h
    obtain ⟨c, hc, h⟩ := exists_of_bind_eq_ok h
    obtain ⟨cs, hcs, h⟩ := exists_of_bind_eq_ok h
    cases h
    intro b hb
    cases hb with
    | head => exact ⟨a, List.mem_cons_self, hc⟩
    | tail _ hb =>
      obtain ⟨a', ha', hb⟩ := ih hcs b hb
      exact ⟨a', List.mem_cons_of_mem a ha', hb⟩

theorem anyM_eq_ok {f : α → Except ε Bool} {p : α → Bool} {as : List α}
    (h : ∀ a ∈ as, f a = .ok (p a)) : as.anyM f = .ok (as.any p) := by
  induction as with
  | nil => rfl
  | cons a as ih =>
    rw [List.anyM, h a List.mem_cons_self, List.any_cons,
      ih fun a' ha' => h a' (List.mem_cons_of_mem a ha')]
    cases p a <;> rfl

end PackagePolicy
