import PackagePolicy.Keyword.Basic
import PackagePolicy.Proofs.Lists
import PackagePolicy.Proofs.Text.Words

/-!
# Keywords as texts

The written forms of keywords overlap: `*`, `~*` and `-*` have an architecture of one star, `~**` has one of two and
`***` one of three, but `**` is no architecture of two stars. Still a keyword that was read from a text is read back
from its written form, since this is the text without the blanks around it (`parse_eq_ok_iff`). No other keyword is
(`parse_render_iff`), and which ones these are is told by their parts (`isRead_iff`).
-/

namespace PackagePolicy.Keyword
open Text
variable {s : Text} {k : Keyword}

/-! ### The text of a keyword that was read -/

theorem render_splitStability (text : Text) :
    render ⟨(splitStability text).2, (splitStability text).1⟩ = text := by
  unfold splitStability
  split <;> rfl

theorem render_of_parse (h : parse s = .ok k) : k.render = trim s := by
  simp only [parse] at h
  split at h
  next hstars =>
    cases h
    exact hstars.symm
  next =>
    split at h
    next =>
      cases h
      exact render_splitStability (trim s)
    next => cases h

theorem parse_trim (s : Text) : parse (trim s) = parse s := by
  simp only [parse, trim_of_isTrimmed (isTrimmed_trim s)]

theorem parse_render (h : k.IsRead) : parse k.render = .ok k := by
  obtain ⟨s, hs⟩ := h
  rw [render_of_parse hs, parse_trim, hs]

theorem parse_eq_ok_iff : parse s = .ok k ↔ k.IsRead ∧ trim s = k.render := by
  constructor
  · intro h
    exact ⟨⟨s, h⟩, (render_of_parse h).symm⟩
  · intro h
    rw [← parse_trim, h.2, parse_render h.1]

/-! ### Which keywords can be read -/

theorem stability_splitStability_ne (text : Text) : (splitStability text).1 ≠ .any := by
  unfold splitStability
  split <;> exact nofun

theorem splitStability_render (harch : isArch k.arch = true) (hany : k.stability ≠ .any) :
    splitStability k.render = (k.stability, k.arch) := by
  obtain ⟨arch, stability⟩ := k
  cases stability with
  | testing => rfl
  | broken => rfl
  | any => exact absurd rfl hany
  | stable =>
    -- an architecture does not begin with a mark
    change splitStability arch = (.stable, arch)
    unfold splitStability
    split
    · cases harch
    · cases harch
    · rfl

theorem noBlank_of_isArch {arch : Text} (h : isArch arch) : ∀ c ∈ arch, isBlank c = false := by
  cases arch with
  | nil => cases h
  | cons c s =>
    have hnone := (Bool.and_eq_true_iff.mp h).2
    intro d hd
    rw [Bool.not_eq_true', List.any_eq_false] at hnone
    exact Bool.eq_false_iff.mpr (hnone d hd)

/- A mark is no blank, so that what is written has as little to trim as the architecture. -/
theorem noBlank_render (h : isArch k.arch = true) : ∀ c ∈ k.render, isBlank c = false := by
  have harch := noBlank_of_isArch h
  unfold render
  split
  · exact harch
  · exact List.forall_mem_cons.mpr ⟨rfl, harch⟩
  · exact List.forall_mem_cons.mpr ⟨rfl, harch⟩
  · rw [List.forall_mem_cons, List.forall_mem_singleton]
    exact ⟨rfl, rfl⟩

/- Two stars without a mark are the only architecture that cannot be read. -/
theorem isRead_iff : k.IsRead ↔ k = ⟨['*'], .any⟩ ∨
    isArch k.arch = true ∧ k.stability ≠ .any ∧ k ≠ ⟨['*', '*'], .stable⟩ := by
  constructor
  · intro h
    obtain ⟨s, hs⟩ := h
    have hrender := render_of_parse hs
    simp only [parse] at hs
    split at hs
    next =>
      cases hs
      exact .inl rfl
    next hstars =>
      split at hs
      next harch =>
        cases hs
        exact .inr ⟨harch, stability_splitStability_ne (trim s), fun h => hstars (by rw [← hrender, h]; rfl)⟩
      next => cases hs
  · intro h
    obtain rfl | ⟨harch, hany, hne⟩ := h
    · exact ⟨['*', '*'], rfl⟩
    · have hsplit := splitStability_render harch hany
      have hstars : k.render ≠ ['*', '*'] := by
        intro h
        rw [h] at hsplit
        obtain ⟨hstability, harch⟩ := Prod.mk.inj hsplit
        exact hne (by cases k; cases hstability; cases harch; rfl)
      refine ⟨k.render, ?_⟩
      simp only [parse, trim_eq_self (noBlank_render harch), if_neg hstars, hsplit, if_pos harch]

instance (k : Keyword) : Decidable k.IsRead := decidable_of_iff _ isRead_iff.symm

example : ¬ (⟨['*', '*'], .stable⟩ : Keyword).IsRead := by decide

theorem parse_render_iff : parse k.render = .ok k ↔ k.IsRead :=
  ⟨fun h => ⟨k.render, h⟩, parse_render⟩

example : ["*", "~*", "**", "-*", "~**", "***"].map (fun s => (parse s.toList).toOption) =
    [some ⟨['*'], .stable⟩, some ⟨['*'], .testing⟩, some ⟨['*'], .any⟩, some ⟨['*'], .broken⟩,
      some ⟨['*', '*'], .testing⟩, some ⟨['*', '*', '*'], .stable⟩] := by
  decide

/-! ### Lists of keywords -/

theorem render_of_parse_word {w : Text} (hw : IsWord w) (h : parse w = .ok k) : k.render = w := by
  rw [render_of_parse h, trim_eq_self hw.blank]

theorem map_render_of_forall₂ {ws : List Text} {ks : List Keyword}
    (h : List.Forall₂ (fun w k => parse w = .ok k) ws ks) (hwords : ∀ w ∈ ws, IsWord w) : ks.map render = ws := by
  induction h with
  | nil => rfl
  | cons hk _ ih =>
    rw [List.forall_mem_cons] at hwords
    rw [List.map_cons, render_of_parse_word hwords.1 hk, ih hwords.2]

theorem map_render_of_parseList {ks : List Keyword} (h : parseList s = .ok ks) : ks.map render = words s :=
  map_render_of_forall₂ (mapM_eq_ok_iff.mp h) fun _ => isWord_of_mem_words

/-- The text is that of a keyword. -/
def isLegible (w : Text) : Bool := (parse w).toOption.isSome

theorem map_render_ofWords {ws : List Text} (hwords : ∀ w ∈ ws, IsWord w) :
    (ofWords ws).map render = ws.filter isLegible := by
  unfold ofWords
  induction ws with
  | nil => rfl
  | cons w ws ih =>
    rw [List.forall_mem_cons] at hwords
    cases h : parse w with
    | error e =>
      have hno : ¬ isLegible w = true := by
        rw [isLegible, h]
        exact nofun
      rw [List.filterMap_cons, h, List.filter_cons_of_neg hno]
      exact ih hwords.2
    | ok k =>
      have hyes : isLegible w = true := by
        rw [isLegible, h]
        rfl
      rw [List.filterMap_cons, h, List.filter_cons_of_pos hyes, ← ih hwords.2, ← render_of_parse_word hwords.1 h]
      rfl

end PackagePolicy.Keyword
