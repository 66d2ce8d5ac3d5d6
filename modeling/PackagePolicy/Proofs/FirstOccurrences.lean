import Mathlib.Data.List.Basic
import Mathlib.Data.List.Induction

/-!
# First occurrences

Members of a list may be equal (`==`) without being the same, so that it matters which of them is kept where equal
ones are listed once. Whatever is put behind what is there, unless something equal is there already, lists the first
of equal members (`foldl_eq_firstOccurrences`).
-/

namespace PackagePolicy
variable {α : Type} [BEq α]

/-- The members that equal no member before them, in their order. -/
def firstOccurrences (l : List α) : List α :=
  (l.zipIdx.filter fun x => !(l.take x.2).contains x.1).map Prod.fst

theorem firstOccurrences_concat (l : List α) (a : α) :
    firstOccurrences (l ++ [a]) = firstOccurrences l ++ if l.contains a then [] else [a] := by
  have hbefore : l.zipIdx.filter (fun x => !((l ++ [a]).take x.2).contains x.1) =
      l.zipIdx.filter fun x => !(l.take x.2).contains x.1 := by
    apply List.filter_congr
    intro x hx
    have hlt := List.snd_lt_of_mem_zipIdx hx
    rw [List.take_append_of_le_length (by omega)]
  have hlast : (l ++ [a]).take l.length = l := List.take_left
  have hpositions : (l ++ [a]).zipIdx = l.zipIdx ++ [(a, l.length)] := by
    rw [List.zipIdx_append, Nat.zero_add, List.zipIdx_singleton]
  rw [firstOccurrences, hpositions, List.filter_append, List.map_append, hbefore, List.filter_singleton, hlast]
  cases l.contains a <;> rfl

theorem firstOccurrences_sublist (l : List α) : (firstOccurrences l).Sublist l := by
  have h := (List.filter_sublist (p := fun x => !(l.take x.2).contains x.1) (l := l.zipIdx)).map Prod.fst
  rwa [List.zipIdx_map_fst] at h

/- What is new is put at the end. -/
theorem mem_addNew_iff [LawfulBEq α] {l : List α} {a b : α} :
    a ∈ (if l.contains b then l else l ++ [b]) ↔ b = a ∨ a ∈ l := by
  split
  next hb =>
    constructor
    · exact .inr
    · rintro (rfl | ha)
      · exact List.contains_iff_mem.mp hb
      · exact ha
  · rw [List.mem_append, List.mem_singleton, or_comm, eq_comm]

theorem eraseDups_eq_firstOccurrences [LawfulBEq α] (l : List α) : l.eraseDups = firstOccurrences l := by
  induction l using List.reverseRecOn with
  | nil => rfl
  | append_singleton l a ih =>
    have hlast : [a].removeAll l = if l.contains a then [] else [a] := by
      by_cases ha : a ∈ l <;> simp [List.removeAll, ha]
    rw [List.eraseDups_append, ih, firstOccurrences_concat, hlast]
    cases l.contains a <;> rfl

variable [PartialEquivBEq α]

theorem contains_firstOccurrences (l : List α) (a : α) : (firstOccurrences l).contains a = l.contains a := by
  induction l using List.reverseRecOn with
  | nil => rfl
  | append_singleton l b ih =>
    rw [firstOccurrences_concat, List.contains_append, List.contains_append, ih]
    cases hb : l.contains b with
    | false => rfl
    | true =>
      -- what equals the last member equals one before it
      rw [if_pos rfl, List.contains_nil, Bool.or_false, Bool.eq_iff_iff, Bool.or_eq_true]
      constructor
      · exact .inl
      · intro h
        rcases h with h | h
        · exact h
        · rw [List.contains_iff_exists_mem_beq] at hb h ⊢
          obtain ⟨c, hc, hbc⟩ := hb
          obtain ⟨b', hb', hab⟩ := h
          obtain rfl := List.mem_singleton.mp hb'
          exact ⟨c, hc, PartialEquivBEq.trans hab hbc⟩

theorem pairwise_firstOccurrences (l : List α) :
    (firstOccurrences l).Pairwise fun a b => (a == b) = false := by
  induction l using List.reverseRecOn with
  | nil => exact .nil
  | append_singleton l b ih =>
    rw [firstOccurrences_concat]
    cases hb : l.contains b with
    | true => rwa [if_pos rfl, List.append_nil]
    | false =>
      rw [if_neg Bool.false_ne_true, List.pairwise_append]
      refine ⟨ih, List.pairwise_singleton _ b, ?_⟩
      intro a ha b' hb'
      obtain rfl := List.mem_singleton.mp hb'
      rw [Bool.eq_false_iff]
      intro hab
      have hmem : l.contains b' = true :=
        List.contains_iff_exists_mem_beq.mpr
          ⟨a, (firstOccurrences_sublist l).mem ha, PartialEquivBEq.symm hab⟩
      rw [hb] at hmem
      cases hmem

theorem foldl_eq_firstOccurrences {add : List α → α → List α}
    (hadd : ∀ kept a, add kept a = if kept.contains a then kept else kept ++ [a]) (l : List α) :
    l.foldl add [] = firstOccurrences l := by
  induction l using List.reverseRecOn with
  | nil => rfl
  | append_singleton l a ih =>
    rw [List.foldl_concat, ih, hadd, firstOccurrences_concat, contains_firstOccurrences]
    cases l.contains a with
    | true => exact (List.append_nil _).symm
    | false => rfl

end PackagePolicy
