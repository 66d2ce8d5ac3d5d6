import Mathlib.Data.List.Forall2
import PackagePolicy.Result

/-!
# Lists

Tests that agree on the members of a list give the same answer about it, a list whose members are all
related has no member besides one that is related to none, a computation on every member of a list has a
result exactly when it has one on each member, and a sublist of a list without doubles and a list in strictly
ascending order are determined by their members.
-/

namespace PackagePolicy

/-! ### Tests -/

section
variable {α : Type} {p q : α → Bool}

theorem any_congr {l : List α} (h : ∀ a ∈ l, p a = q a) : l.any p = l.any q := by
  rw [Bool.eq_iff_iff, List.any_eq_true, List.any_eq_true]
  exact exists_congr fun a => and_congr_right fun ha => by rw [h a ha]

theorem all_congr {l : List α} (h : ∀ a ∈ l, p a = q a) : l.all p = l.all q := by
  rw [List.all_eq_not_any_not, List.all_eq_not_any_not, any_congr fun a ha => by rw [h a ha]]

theorem find?_congr {l : List α} (h : ∀ a ∈ l, p a = q a) : l.find? p = l.find? q := by
  rw [← List.head?_filter, ← List.head?_filter, List.filter_congr h]

end

/-! ### Members that are not related -/

theorem eq_singleton_of_pairwise {α : Type} {R : α → α → Prop} {l : List α} (hl : l.Pairwise R) {a : α}
    (ha : a ∈ l) (h : ∀ b ∈ l, ¬ R a b ∧ ¬ R b a) : l = [a] := by
  obtain ⟨before, after, rfl⟩ := List.append_of_mem ha
  rw [List.pairwise_append, List.pairwise_cons] at hl
  obtain ⟨_, ⟨hafter, _⟩, hbefore⟩ := hl
  have hbefore : before = [] := List.eq_nil_iff_forall_not_mem.mpr fun b hb =>
    (h b (List.mem_append_left _ hb)).2 (hbefore b hb a List.mem_cons_self)
  have hafter : after = [] := List.eq_nil_iff_forall_not_mem.mpr fun b hb =>
    (h b (List.mem_append_right _ (List.mem_cons_of_mem a hb))).1 (hafter b hb)
  rw [hbefore, hafter, List.nil_append]

/-! ### Sublists -/

/- A sublist of a list without doubles is determined by its members. -/
theorem eq_filter_iff_sublist {α : Type} {p : α → Bool} {l m : List α} (hm : m.Nodup) :
    l = m.filter p ↔ l.Sublist m ∧ ∀ a ∈ m, a ∈ l ↔ p a = true := by
  constructor
  · rintro rfl
    refine ⟨List.filter_sublist, fun a ha => ?_⟩
    rw [List.mem_filter]
    exact and_iff_right ha
  · intro h
    obtain ⟨hl, hmem⟩ := h
    have hall : ∀ a ∈ l, p a = true := fun a ha => (hmem a (hl.subset ha)).mp ha
    have hsub : l.Sublist (m.filter p) := by
      rw [← List.filter_eq_self.mpr hall]
      exact hl.filter p
    have hperm : l.Perm (m.filter p) := by
      refine (List.perm_ext_iff_of_nodup (hl.nodup hm) (hm.filter p)).mpr fun a => ?_
      rw [List.mem_filter]
      exact ⟨fun ha => ⟨hl.subset ha, hall a ha⟩, fun ha => (hmem a ha.1).mpr ha.2⟩
    exact hsub.eq_of_length hperm.length_eq

/-! ### Computations -/

section
variable {ε α β : Type} {f : α → Except ε β} {as : List α}

theorem ok_bind (a : α) : Except.ok a >>= f = f a := rfl

theorem toOption_eq_some_iff {x : Except ε α} {a : α} : x.toOption = some a ↔ x = .ok a := by
  constructor
  · exact eq_ok_of_toOption
  · rintro rfl
    rfl

theorem eq_map_of_cases {x : Except ε α} {y : Except ε β} {g : α → β} (herror : ∀ e, x = .error e → y = .error e)
    (hok : ∀ a, x = .ok a → y = .ok (g a)) : y = x.map g := by
  cases x with
  | error e => exact herror e rfl
  | ok a => exact hok a rfl

theorem exists_of_bind_eq_error {x : Except ε α} {e : ε} (h : x >>= f = .error e) :
    x = .error e ∨ ∃ a, x = .ok a ∧ f a = .error e := by
  cases x with
  | error e' =>
    cases h
    exact .inl rfl
  | ok a => exact .inr ⟨a, rfl, h⟩

theorem eq_ok_of_mapError_eq_ok {ε' : Type} {x : Except ε' α} {f : ε' → ε} {a : α} (h : x.mapError f = .ok a) :
    x = .ok a := by
  cases x with
  | error e' => cases h
  | ok a' =>
    cases h
    rfl

theorem exists_of_mapError_eq_error {ε' : Type} {x : Except ε' α} {f : ε' → ε} {e : ε}
    (h : x.mapError f = .error e) : ∃ e', e = f e' := by
  cases x with
  | error e' =>
    cases h
    exact ⟨e', rfl⟩
  | ok a => cases h

theorem mapM_eq_ok_iff {bs : List β} :
    as.mapM f = .ok bs ↔ List.Forall₂ (fun a b => f a = .ok b) as bs := by
  induction as generalizing bs with
  | nil =>
    rw [List.mapM_nil, List.forall₂_nil_left_iff]
    exact ⟨fun h => by cases h; rfl, fun h => by rw [h]; rfl⟩
  | cons a as ih =>
    rw [List.mapM_cons, List.forall₂_cons_left_iff]
    constructor
    · intro h
      obtain ⟨b, hb, h⟩ := exists_of_bind_eq_ok h
      obtain ⟨rest, hrest, h⟩ := exists_of_bind_eq_ok h
      cases h
      exact ⟨b, rest, hb, ih.mp hrest, rfl⟩
    · intro h
      obtain ⟨b, rest, hb, hrest, rfl⟩ := h
      rw [hb, ih.mpr hrest]
      rfl

theorem exists_mem_of_forall₂ {R : α → β → Prop} {bs : List β} (h : List.Forall₂ R as bs) :
    ∀ a ∈ as, ∃ b ∈ bs, R a b := by
  induction h with
  | nil => nofun
  | cons hab _ ih =>
    rw [List.forall_mem_cons]
    refine ⟨⟨_, List.mem_cons_self, hab⟩, fun a ha => ?_⟩
    obtain ⟨b, hb, hR⟩ := ih a ha
    exact ⟨b, List.mem_cons_of_mem _ hb, hR⟩

theorem exists_forall₂_iff {R : α → β → Prop} : (∃ bs, List.Forall₂ R as bs) ↔ ∀ a ∈ as, ∃ b, R a b := by
  induction as with
  | nil => exact ⟨fun _ => nofun, fun _ => ⟨[], .nil⟩⟩
  | cons a as ih =>
    rw [List.forall_mem_cons, ← ih]
    simp only [List.forall₂_cons_left_iff]
    constructor
    · intro h
      obtain ⟨_, b, bs, hb, hbs, rfl⟩ := h
      exact ⟨⟨b, hb⟩, ⟨bs, hbs⟩⟩
    · intro h
      obtain ⟨⟨b, hb⟩, ⟨bs, hbs⟩⟩ := h
      exact ⟨b :: bs, b, bs, hb, hbs, rfl⟩

theorem forall₂_iff_eq_map {R : α → β → Prop} {g : α → β} (h : ∀ a ∈ as, ∀ b, R a b ↔ b = g a) {bs : List β} :
    List.Forall₂ R as bs ↔ bs = as.map g := by
  induction as generalizing bs with
  | nil => exact List.forall₂_nil_left_iff
  | cons a as ih =>
    rw [List.forall_mem_cons] at h
    rw [List.forall₂_cons_left_iff, List.map_cons]
    constructor
    · intro hbs
      obtain ⟨b, rest, hb, hrest, rfl⟩ := hbs
      rw [(h.1 b).mp hb, (ih h.2).mp hrest]
    · rintro rfl
      exact ⟨_, _, (h.1 _).mpr rfl, (ih h.2).mpr rfl, rfl⟩

theorem exists_mapM_eq_ok_iff :
    (∃ bs, as.mapM f = .ok bs) ↔ ∀ a ∈ as, ∃ b, f a = .ok b := by
  simp only [mapM_eq_ok_iff]
  exact exists_forall₂_iff

theorem exists_of_mapM_eq_error {e : ε} (h : as.mapM f = .error e) : ∃ a ∈ as, f a = .error e := by
  induction as with
  | nil => cases h
  | cons a as ih =>
    rw [List.mapM_cons] at h
    cases ha : f a with
    | error e' =>
      rw [ha] at h
      cases h
      exact ⟨a, List.mem_cons_self, ha⟩
    | ok b =>
      rw [ha] at h
      cases hrest : as.mapM f with
      | error e' =>
        rw [hrest] at h
        cases h
        obtain ⟨a', ha', herror⟩ := ih hrest
        exact ⟨a', List.mem_cons_of_mem a ha', herror⟩
      | ok bs =>
        rw [hrest] at h
        cases h

theorem mapM_eq_some_iff {f : α → Option β} {bs : List β} :
    as.mapM f = some bs ↔ List.Forall₂ (fun a b => f a = some b) as bs := by
  induction as generalizing bs with
  | nil =>
    rw [List.mapM_nil, List.forall₂_nil_left_iff, eq_comm]
    exact Option.some_inj
  | cons a as ih =>
    rw [List.mapM_cons, List.forall₂_cons_left_iff]
    constructor
    · intro h
      obtain ⟨b, hb, h⟩ := Option.bind_eq_some_iff.mp h
      obtain ⟨rest, hrest, h⟩ := Option.bind_eq_some_iff.mp h
      cases h
      exact ⟨b, rest, hb, ih.mp hrest, rfl⟩
    · intro h
      obtain ⟨b, rest, hb, hrest, rfl⟩ := h
      rw [hb, ih.mpr hrest]
      rfl

theorem exists_of_mem_of_mapM {f : α → Option β} {bs : List β} (h : as.mapM f = some bs) :
    ∀ a ∈ as, ∃ b, f a = some b :=
  exists_forall₂_iff.mp ⟨bs, mapM_eq_some_iff.mp h⟩

end

/-! ### Ascending lists -/

section
variable {α κ : Type} [Ord κ] [Std.TransOrd κ] {key : α → κ} {l m : List α}

/-- The keys of the members are in strictly ascending order. -/
def Ascends (key : α → κ) (l : List α) : Prop := l.Pairwise fun a b => compare (key a) (key b) = .lt

theorem Ascends.nodup (h : Ascends key l) : l.Nodup := by
  refine h.imp ?_
  rintro a b hab rfl
  exact absurd hab (Std.OrientedCmp.not_lt_of_lt hab)

theorem Ascends.eq_of_mem_iff (hl : Ascends key l) (hm : Ascends key m) (h : ∀ a, a ∈ l ↔ a ∈ m) :
    l = m := by
  have hperm : l.Perm m := (List.perm_ext_iff_of_nodup hl.nodup hm.nodup).mpr h
  refine hperm.eq_of_pairwise ?_ hl hm
  intro a b _ _ hab hba
  exact absurd hba (Std.OrientedCmp.not_lt_of_lt hab)

theorem pairwise_mergeSort_key (l : List α) :
    (l.mergeSort fun a b => (compare (key a) (key b)).isLE).Pairwise
      fun a b => (compare (key a) (key b)).isLE = true := by
  refine List.pairwise_mergeSort (fun a b c => Std.TransCmp.isLE_trans) (fun a b => ?_) l
  have hswap : compare (key b) (key a) = (compare (key a) (key b)).swap := Std.OrientedCmp.eq_swap
  rw [hswap]
  cases compare (key a) (key b) <;> rfl

variable [Std.LawfulEqOrd κ]

theorem ascends_mergeSort (h : (l.map key).Nodup) :
    Ascends key (l.mergeSort fun a b => (compare (key a) (key b)).isLE) := by
  have hne : (l.mergeSort fun a b => (compare (key a) (key b)).isLE).Pairwise
      fun a b => key a ≠ key b :=
    List.pairwise_map.mp (((List.mergeSort_perm l _).map key).nodup_iff.mpr h)
  refine ((pairwise_mergeSort_key l).and hne).imp ?_
  intro a b h
  cases hab : compare (key a) (key b) with
  | lt => rfl
  | eq => exact absurd (Std.LawfulEqCmp.eq_of_compare hab) h.2
  | gt =>
    rw [hab] at h
    cases h.1

end
end PackagePolicy
