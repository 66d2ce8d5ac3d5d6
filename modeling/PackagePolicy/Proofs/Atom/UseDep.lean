import PackagePolicy.Atom.UseDep
import PackagePolicy.Proofs.Text.Cuts

/-!
# Spellings of USE dependencies

A dependency is written with blanks around it, and with `!` or `-` before a flag that is to be off. Main
statement: `parse_eq_ok_iff`, by which exactly these spellings are read.
-/

namespace PackagePolicy.UseDep
open Text

def defaultMark : Option Bool → Text
  | some true => ['(', '+', ')']
  | some false => ['(', '-', ')']
  | none => []

/-- The written form with a given sign for a flag that is to be off. -/
def renderWith (sign : Char) (d : UseDep) : Text :=
  (if d.enabled then [] else [sign]) ++ d.flag ++ defaultMark d.default
    ++ (if d.conditional then ['?'] else [])

def signs : Text := ['-', '!']

/-- The text is a written form of the dependency, with any sign and with blanks around it. -/
def Spells (d : UseDep) (w : Text) : Prop := ∃ sign ∈ signs, trim w = d.renderWith sign

/-- Nothing in the flag counts as a sign, a default or a condition. -/
structure IsRead (d : UseDep) : Prop where
  flag_ne : d.flag ≠ []
  sign : d.enabled = true → ∀ c ∈ d.flag.head?, c ∉ signs
  default : d.default = none → ¬ defaultMark (some true) <:+ d.flag ∧ ¬ defaultMark (some false) <:+ d.flag
  condition : d.default = none → d.conditional = false → ¬ ['?'] <:+ d.flag

theorem renderWith_dash (d : UseDep) : d.renderWith '-' = d.render := by
  obtain ⟨flag, enabled, default, conditional⟩ := d
  rcases default with _ | _ | _ <;> rfl

/-! ### Parts -/

theorem splitSign_eq_iff {s flag : Text} {enabled : Bool} :
    splitSign s = (enabled, flag) ↔
      (enabled = true → ∀ c ∈ flag.head?, c ∉ signs) ∧
        ∃ sign ∈ signs, s = (if enabled then [] else [sign]) ++ flag := by
  constructor
  · intro h
    unfold splitSign at h
    split at h
    · cases h
      exact ⟨nofun, '-', by decide, rfl⟩
    · cases h
      exact ⟨nofun, '!', by decide, rfl⟩
    next hdash hbang =>
      cases h
      refine ⟨fun _ c hc hsign => ?_, '-', by decide, rfl⟩
      obtain ⟨rest, rfl⟩ : ∃ rest, s = c :: rest := by
        cases s with
        | nil => cases hc
        | cons d rest =>
          cases hc
          exact ⟨rest, rfl⟩
      rcases List.mem_cons.mp hsign with rfl | hsign
      · exact hdash rest rfl
      · cases List.mem_singleton.mp hsign
        exact hbang rest rfl
  · intro h
    obtain ⟨henabled, sign, hsign, rfl⟩ := h
    cases enabled with
    | false =>
      rcases List.mem_cons.mp hsign with rfl | hsign
      · rfl
      · cases List.mem_singleton.mp hsign
        rfl
    | true =>
      show splitSign flag = (true, flag)
      unfold splitSign
      split
      · exact absurd (by decide) (henabled rfl '-' rfl)
      · exact absurd (by decide) (henabled rfl '!' rfl)
      · rfl

theorem splitDefault_eq (s : Text) :
    splitDefault s =
      match before? (defaultMark (some true)) s with
      | some flag => (some true, flag)
      | none =>
        match before? (defaultMark (some false)) s with
        | some flag => (some false, flag)
        | none => (none, s) := rfl

theorem splitDefault_eq_iff {s flag : Text} {default : Option Bool} :
    splitDefault s = (default, flag) ↔
      (default = none → ¬ defaultMark (some true) <:+ flag ∧ ¬ defaultMark (some false) <:+ flag) ∧
        s = flag ++ defaultMark default := by
  have hmarks (a b : Text) : a ++ defaultMark (some false) ≠ b ++ defaultMark (some true) := by
    intro h
    cases (List.append_inj' h rfl).2
  constructor
  · intro h
    rw [splitDefault_eq] at h
    split at h
    next body hplus =>
      cases h
      exact ⟨nofun, before?_eq_some_iff.mp hplus⟩
    next hplus =>
      split at h
      next body hminus =>
        cases h
        exact ⟨nofun, before?_eq_some_iff.mp hminus⟩
      next hminus =>
        cases h
        refine ⟨fun _ => ?_, (List.append_nil s).symm⟩
        exact ⟨before?_eq_none_iff.mp hplus, before?_eq_none_iff.mp hminus⟩
  · intro h
    obtain ⟨hnone, rfl⟩ := h
    rw [splitDefault_eq]
    rcases default with _ | _ | _
    · obtain ⟨hplus, hminus⟩ := hnone rfl
      rw [show flag ++ defaultMark none = flag from List.append_nil flag,
        before?_eq_none_iff.mpr hplus, before?_eq_none_iff.mpr hminus]
    · have hplus : ¬ defaultMark (some true) <:+ flag ++ defaultMark (some false) := by
        intro h
        obtain ⟨body, hbody⟩ := h
        exact hmarks flag body hbody.symm
      have hminus := before?_append flag (defaultMark (some false))
      rw [before?_eq_none_iff.mpr hplus, hminus]
    · have hplus := before?_append flag (defaultMark (some true))
      rw [hplus]

/-- Cuts the mark of a condition off. -/
def splitCondition (s : Text) : Bool × Text :=
  match before? ['?'] s with
  | some body => (true, body)
  | none => (false, s)

theorem splitCondition_eq_iff {s body : Text} {conditional : Bool} :
    splitCondition s = (conditional, body) ↔
      (conditional = false → ¬ ['?'] <:+ body) ∧ s = body ++ (if conditional then ['?'] else []) := by
  constructor
  · intro h
    unfold splitCondition at h
    split at h
    next body hmark =>
      cases h
      exact ⟨nofun, before?_eq_some_iff.mp hmark⟩
    next hmark =>
      cases h
      exact ⟨fun _ => before?_eq_none_iff.mp hmark, (List.append_nil s).symm⟩
  · intro h
    obtain ⟨hnone, rfl⟩ := h
    unfold splitCondition
    cases conditional with
    | true =>
      rw [if_pos rfl, before?_append]
    | false =>
      rw [if_neg Bool.false_ne_true, List.append_nil, before?_eq_none_iff.mpr (hnone rfl)]

/-! ### Reading -/

theorem parse_eq (s : Text) :
    parse s =
      if (trim s).isEmpty then .error .emptyUseFlag
      else
        let (conditional, body) := splitCondition (trim s)
        let (default, signed) := splitDefault body
        let (enabled, flag) := splitSign signed
        if flag.isEmpty then .error (.useFlag (trim s))
        else .ok { flag, enabled, default, conditional } := by
  rfl

/- A mark that ends a signed flag ends the flag, since no mark begins with a sign. -/
theorem suffix_of_signed {mark flag : Text} {m sign : Char} {enabled : Bool} (hmark : m ∉ signs)
    (hsign : sign ∈ signs) (h : m :: mark <:+ (if enabled then [] else [sign]) ++ flag) :
    m :: mark <:+ flag := by
  cases enabled with
  | true => exact h
  | false =>
    rcases List.suffix_cons_iff.mp h with heq | h
    · cases heq
      exact absurd hsign hmark
    · exact h

theorem suffix_of_defaultMark {s : Text} {default : Option Bool}
    (h : ['?'] <:+ s ++ defaultMark default) : default = none ∧ ['?'] <:+ s := by
  obtain ⟨t, ht⟩ := h
  have hlast := congrArg List.getLast? ht
  rcases default with _ | _ | _
  · rw [defaultMark, List.append_nil] at ht
    exact ⟨rfl, t, ht⟩
  · simp [defaultMark] at hlast
  · simp [defaultMark] at hlast

theorem parse_eq_ok_iff {s : Text} {d : UseDep} : parse s = .ok d ↔ d.IsRead ∧ d.Spells s := by
  rw [parse_eq]
  constructor
  · intro h
    rcases hcondition : splitCondition (trim s) with ⟨conditional, body⟩
    rcases hdefault : splitDefault body with ⟨default, signed⟩
    rcases hsigned : splitSign signed with ⟨enabled, flag⟩
    simp only [hcondition, hdefault, hsigned] at h
    split at h
    · cases h
    · split at h
      · cases h
      next hflag =>
        cases h
        obtain ⟨hsign, sign, hmem, rfl⟩ := splitSign_eq_iff.mp hsigned
        obtain ⟨hnone, rfl⟩ := splitDefault_eq_iff.mp hdefault
        obtain ⟨hmark, htrim⟩ := splitCondition_eq_iff.mp hcondition
        refine ⟨⟨?_, hsign, fun hd => ?_, fun hd hc hflag => ?_⟩, sign, hmem, htrim⟩
        · exact fun hnil => hflag (List.isEmpty_iff.mpr hnil)
        · have hflags (mark : Text) : mark <:+ flag → mark <:+ (if enabled then [] else [sign]) ++ flag :=
            fun hmark => hmark.trans (List.suffix_append _ _)
          exact ⟨mt (hflags _) (hnone hd).1, mt (hflags _) (hnone hd).2⟩
        · refine hmark hc ?_
          have hd : default = none := hd
          rw [hd, show defaultMark none = [] from rfl, List.append_nil]
          exact hflag.trans (List.suffix_append _ _)
  · intro h
    obtain ⟨hread, sign, hmem, htrim⟩ := h
    have hsigned := splitSign_eq_iff.mpr ⟨hread.sign, sign, hmem, rfl⟩
    have hdefault : splitDefault ((if d.enabled then [] else [sign]) ++ d.flag ++ defaultMark d.default) =
        (d.default, (if d.enabled then [] else [sign]) ++ d.flag) := by
      refine splitDefault_eq_iff.mpr ⟨fun hd => ?_, rfl⟩
      obtain ⟨hplus, hminus⟩ := hread.default hd
      exact ⟨mt (suffix_of_signed (by decide) hmem) hplus,
        mt (suffix_of_signed (by decide) hmem) hminus⟩
    have hcondition : splitCondition (trim s) = (d.conditional,
        (if d.enabled then [] else [sign]) ++ d.flag ++ defaultMark d.default) := by
      refine splitCondition_eq_iff.mpr ⟨fun hc hmark => ?_, htrim⟩
      obtain ⟨hd, hmark⟩ := suffix_of_defaultMark hmark
      exact hread.condition hd hc (suffix_of_signed (by decide) hmem hmark)
    have hne : (trim s).isEmpty = false := by
      rw [List.isEmpty_eq_false_iff, htrim, renderWith]
      simp [hread.flag_ne]
    have hflag : d.flag.isEmpty = false := List.isEmpty_eq_false_iff.mpr hread.flag_ne
    simp only [hne, hcondition, hdefault, hsigned, hflag, Bool.false_eq_true, if_false]

/-! ### Characters -/

def marks : Text := ['-', '!', '(', '+', ')', '?']

theorem mem_flag_or_mem_marks {d : UseDep} {sign c : Char} (hsign : sign ∈ signs)
    (h : c ∈ d.renderWith sign) : c ∈ d.flag ∨ c ∈ marks := by
  have hsigns : signs ⊆ marks := by decide
  have hdefault : defaultMark d.default ⊆ marks := by
    rcases d.default with _ | _ | _ <;> decide
  simp only [renderWith, List.mem_append] at h
  rcases h with ((h | h) | h) | h
  · cases hd : d.enabled with
    | true => simp [hd] at h
    | false =>
      rw [hd, if_neg Bool.false_ne_true, List.mem_singleton] at h
      exact .inr (h ▸ hsigns hsign)
  · exact .inl h
  · exact .inr (hdefault h)
  · cases hd : d.conditional with
    | true =>
      rw [hd, if_pos rfl, List.mem_singleton] at h
      rw [h]
      exact .inr (by decide)
    | false => simp [hd] at h

theorem notMem_iff_of_spells {d : UseDep} {w : Text} {c : Char} (h : d.Spells w) (hmarks : c ∉ marks)
    (hblank : isBlank c = false) : c ∉ w ↔ c ∉ d.flag := by
  obtain ⟨sign, hsign, htrim⟩ := h
  obtain ⟨left, right, hleft, hright, hw⟩ := exists_trim_append w
  rw [htrim] at hw
  refine not_congr ⟨fun hc => ?_, fun hc => ?_⟩
  · rw [hw, List.mem_append, List.mem_append] at hc
    rcases hc with (hc | hc) | hc
    · exact absurd (hleft c hc) (Bool.eq_false_iff.mp hblank)
    · exact (mem_flag_or_mem_marks hsign hc).resolve_right hmarks
    · exact absurd (hright c hc) (Bool.eq_false_iff.mp hblank)
  · rw [hw, renderWith]
    simp [hc]

/-! ### The canonical spelling -/

theorem Spells.render {d : UseDep} {w : Text} (h : d.Spells w) (hflag : d.flag ≠ []) :
    d.Spells d.render := by
  obtain ⟨sign, _, htrim⟩ := h
  have htrimmed : IsTrimmed (d.renderWith sign) := htrim ▸ isTrimmed_trim w
  refine ⟨'-', by decide, ?_⟩
  rw [← renderWith_dash]
  refine trim_of_isTrimmed ?_
  cases hd : d.enabled with
  | true =>
    have hsame : d.renderWith '-' = d.renderWith sign := by simp only [renderWith, hd, if_true]
    rw [hsame]
    exact htrimmed
  | false =>
    have hcons (x : Char) : d.renderWith x =
        x :: (d.flag ++ defaultMark d.default ++ (if d.conditional then ['?'] else [])) := by
      simp [renderWith, hd]
    have hne : d.flag ++ defaultMark d.default ++ (if d.conditional then ['?'] else []) ≠ [] := by
      simp [hflag]
    rw [hcons] at htrimmed ⊢
    refine ⟨fun c hc => ?_, fun c hc => htrimmed.last c ?_⟩
    · cases hc
      decide
    · rwa [List.getLast?_cons_of_ne_nil hne] at hc ⊢

end PackagePolicy.UseDep
