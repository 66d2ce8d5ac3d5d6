import Mathlib.Data.List.Basic
import Mathlib.Data.List.Induction

/-!
# Precedence

What is configured is often said more than once. Within a list the last word counts: what a member makes so stands
until a later member undoes it (`Stands`). A fold over the list ends with what stands as soon as each of its steps
does (`foldl_iff_stands`). Among several layers the first that says anything decides (`Decides`).
-/

namespace PackagePolicy
variable {α σ : Type}

/-! ### The last word -/

/-- Some member makes it so, and no later member undoes it. -/
def Stands (makes undoes : α → Prop) (l : List α) : Prop :=
  ∃ before a after, l = before ++ a :: after ∧ makes a ∧ ∀ b ∈ after, ¬ undoes b

section
variable {makes undoes : α → Prop} {l : List α} {a : α}

theorem not_stands_nil : ¬ Stands makes undoes [] := by
  intro h
  obtain ⟨before, a, after, hnil, _⟩ := h
  exact absurd hnil.symm (List.append_ne_nil_of_right_ne_nil before (List.cons_ne_nil a after))

theorem stands_concat_iff :
    Stands makes undoes (l ++ [a]) ↔ makes a ∨ Stands makes undoes l ∧ ¬ undoes a := by
  constructor
  · intro h
    obtain ⟨before, b, after, hsplit, hb, hafter⟩ := h
    -- the member that makes it so is the last one, or what is behind it ends with the last one
    rcases List.eq_nil_or_concat' after with rfl | ⟨rest, c, rfl⟩
    · obtain ⟨_, rfl⟩ := List.append_singleton_inj.mp hsplit
      exact .inl hb
    · rw [← List.cons_append, ← List.append_assoc] at hsplit
      obtain ⟨rfl, rfl⟩ := List.append_singleton_inj.mp hsplit
      rw [List.forall_mem_append, List.forall_mem_singleton] at hafter
      exact .inr ⟨⟨before, b, rest, rfl, hb, hafter.1⟩, hafter.2⟩
  · intro h
    rcases h with ha | ⟨⟨before, b, after, rfl, hb, hafter⟩, ha⟩
    · exact ⟨l, a, [], rfl, ha, nofun⟩
    · refine ⟨before, b, after ++ [a], by rw [List.append_assoc, List.cons_append], hb, ?_⟩
      rw [List.forall_mem_append, List.forall_mem_singleton]
      exact ⟨hafter, ha⟩

theorem stands_congr {makes' undoes' : α → Prop}
    (h : ∀ a ∈ l, (makes a ↔ makes' a) ∧ (undoes a ↔ undoes' a)) :
    Stands makes undoes l ↔ Stands makes' undoes' l := by
  induction l using List.reverseRecOn with
  | nil => exact iff_of_false not_stands_nil not_stands_nil
  | append_singleton l a ih =>
    rw [List.forall_mem_append, List.forall_mem_singleton] at h
    rw [stands_concat_iff, stands_concat_iff, ih h.1, h.2.1, h.2.2]

/- What holds of a list by its last member, or else by the members before it, is what stands in the list. -/
theorem iff_stands (holds : List α → Prop) (hnil : ¬ holds [])
    (hconcat : ∀ l a, holds (l ++ [a]) ↔ makes a ∨ holds l ∧ ¬ undoes a) (l : List α) :
    holds l ↔ Stands makes undoes l := by
  induction l using List.reverseRecOn with
  | nil => exact iff_of_false hnil not_stands_nil
  | append_singleton l a ih => rw [hconcat, stands_concat_iff, ih]

theorem foldl_iff_stands (step : σ → α → σ) (holds : σ → Prop) {s : σ} (hs : ¬ holds s)
    (hstep : ∀ s a, holds (step s a) ↔ makes a ∨ holds s ∧ ¬ undoes a) (l : List α) :
    holds (l.foldl step s) ↔ Stands makes undoes l :=
  iff_stands (fun l => holds (l.foldl step s)) hs (fun l a => by rw [List.foldl_concat, hstep]) l

end

/-! ### Layers -/

/-- The first layer that says anything decides; where none does, the answer is no. -/
inductive Decides : List (Bool → Prop) → Bool → Prop
  | silent : Decides [] false
  | first {layer : Bool → Prop} {layers : List (Bool → Prop)} {b : Bool} (h : layer b) :
      Decides (layer :: layers) b
  | later {layer : Bool → Prop} {layers : List (Bool → Prop)} {b : Bool} (hsilent : ∀ b, ¬ layer b)
      (h : Decides layers b) : Decides (layer :: layers) b

theorem ite_eq_some_iff {c : Prop} [Decidable c] {b d : Bool} :
    (if c then some d else none) = some b ↔ b = d ∧ c := by
  rw [Option.ite_none_right_eq_some, Option.some.injEq, and_comm, eq_comm]

theorem decides_nil_iff {b : Bool} : none.getD false = b ↔ Decides [] b := by
  constructor
  · rintro rfl
    exact .silent
  · intro h
    cases h
    rfl

/- A layer that is told by an optional state says nothing when there is no state. -/
theorem getD_or_iff_decides {state rest : Option Bool} {layer : Bool → Prop} {layers : List (Bool → Prop)}
    (hlayer : ∀ b, state = some b ↔ layer b) (hrest : ∀ b, rest.getD false = b ↔ Decides layers b) (b : Bool) :
    (state.or rest).getD false = b ↔ Decides (layer :: layers) b := by
  cases hstate : state with
  | some c =>
    have hc : layer c := (hlayer c).mp hstate
    constructor
    · rintro rfl
      exact .first hc
    · intro h
      cases h with
      | first hb => exact Option.some.inj (hstate.symm.trans ((hlayer b).mpr hb))
      | later hsilent => exact absurd hc (hsilent c)
  | none =>
    have hsilent : ∀ b, ¬ layer b := fun b hb => nomatch hstate.symm.trans ((hlayer b).mpr hb)
    rw [Option.none_or, hrest]
    constructor
    · exact .later hsilent
    · intro h
      cases h with
      | first hb => exact absurd hb (hsilent b)
      | later _ h => exact h

theorem getD_iff_decides {state : Option Bool} {layer : Bool → Prop} (hlayer : ∀ b, state = some b ↔ layer b)
    (b : Bool) : state.getD false = b ↔ Decides [layer] b := by
  rw [← getD_or_iff_decides hlayer (fun b => decides_nil_iff) b, Option.or_none]

end PackagePolicy
