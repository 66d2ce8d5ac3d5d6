import PackagePolicy.Proofs.Precedence
import PackagePolicy.Proofs.Text.Words
import PackagePolicy.UseFlag

/-!
# Histories of USE flags

The states of USE flags come from texts and from entries for packages, in the order of the calls. The state for all
packages is told by the words of the texts, from the last `-*` on; that for a package version by the flags of the
entries whose atoms match it. In both the last mention of a flag decides.
-/

namespace PackagePolicy
open Text

/-! ### Words -/

namespace UseFlag
variable {flag s w : Text} {b : Bool}

/-- The word turns the flag on or off. -/
inductive Mentions (flag : Text) : Text → Bool → Prop
  | minus : Mentions flag ('-' :: flag) false
  | plus : Mentions flag ('+' :: flag) true
  | plain (hminus : flag.head? ≠ some '-') (hplus : flag.head? ≠ some '+') : Mentions flag flag true

theorem mentions_minus_iff : Mentions flag ('-' :: s) b ↔ s = flag ∧ false = b := by
  constructor
  · intro h
    cases h with
    | minus => exact ⟨rfl, rfl⟩
    | plain hminus => exact absurd rfl hminus
  · rintro ⟨rfl, rfl⟩
    exact .minus

theorem mentions_plus_iff : Mentions flag ('+' :: s) b ↔ s = flag ∧ true = b := by
  constructor
  · intro h
    cases h with
    | plus => exact ⟨rfl, rfl⟩
    | plain _ hplus => exact absurd rfl hplus
  · rintro ⟨rfl, rfl⟩
    exact .plus

theorem mentions_plain_iff (hminus : w.head? ≠ some '-') (hplus : w.head? ≠ some '+') :
    Mentions flag w b ↔ w = flag ∧ true = b := by
  constructor
  · intro h
    cases h with
    | minus => exact absurd rfl hminus
    | plus => exact absurd rfl hplus
    | plain => exact ⟨rfl, rfl⟩
  · rintro ⟨rfl, rfl⟩
    exact .plain hminus hplus

theorem parse_eq_iff_mentions (h : IsWord w) : parse w = ⟨flag, b⟩ ↔ Mentions flag w b := by
  have htrim : trim w = w := trim_eq_self h.blank
  unfold parse
  rw [htrim]
  split
  next s => rw [mentions_minus_iff, UseFlag.mk.injEq]
  next hno =>
    have hminus : w.head? ≠ some '-' := by
      intro hhead
      obtain ⟨s, heq⟩ := List.head?_eq_some_iff.mp hhead
      exact hno s heq
    rw [UseFlag.mk.injEq]
    by_cases hplus : w.head? = some '+'
    · obtain ⟨s, rfl⟩ := List.head?_eq_some_iff.mp hplus
      rw [mentions_plus_iff, dropLead_cons]
    · rw [mentions_plain_iff hminus hplus, dropLead_of_head?_ne hplus]

theorem parse_name_eq_iff (h : IsWord w) : (parse w).name = flag ↔ ∃ b, Mentions flag w b := by
  simp only [← parse_eq_iff_mentions h]
  constructor
  · rintro rfl
    exact ⟨_, rfl⟩
  · intro hparse
    obtain ⟨b, hb⟩ := hparse
    rw [hb]

/-- The word that takes every state away. -/
def reset : Text := ['-', '*']

theorem parse_eq_reset_iff (h : IsWord w) : parse w = ⟨['*'], false⟩ ↔ w = reset := by
  rw [parse_eq_iff_mentions h]
  constructor
  · intro hmentions
    cases hmentions
    rfl
  · rintro rfl
    exact .minus

end UseFlag

namespace UseRules
variable {flag : Text} {b : Bool} {p : Candidate}

/-! ### Histories -/

/-- A call that configures USE flags. -/
inductive Step where
  | text (s : Text)
  | package (atom : Atom) (flags : List UseFlag)
deriving Repr

def step (r : UseRules) : Step → UseRules
  | .text s => r.applyText s
  | .package atom flags => r.addPackage atom flags

/-- The rules after some calls. -/
def ofSteps (steps : List Step) : UseRules := steps.foldl step none

def Step.words : Step → List Text
  | .text s => Text.words s
  | .package _ _ => []

def Step.entries : Step → List PackageUse
  | .text _ => []
  | .package atom flags => [⟨atom, flags⟩]

/-- The words of all texts. -/
def textWords (steps : List Step) : List Text := steps.flatMap Step.words

/-- The entries for packages, in the order in which they were added. -/
def entries (steps : List Step) : List PackageUse := steps.flatMap Step.entries

theorem foldl_step_eq (r : UseRules) (steps : List Step) :
    steps.foldl step r = ⟨((textWords steps).map UseFlag.parse).foldl applyFlag r.global,
      r.package ++ entries steps⟩ := by
  induction steps generalizing r with
  | nil => exact congrArg (UseRules.mk r.global) (List.append_nil r.package).symm
  | cons call steps ih =>
    rw [List.foldl_cons, ih]
    cases call with
    | text s =>
      have hwords : textWords (.text s :: steps) = Text.words s ++ textWords steps := List.flatMap_cons
      rw [hwords, List.map_append, List.foldl_append]
      rfl
    | package atom flags => exact congrArg (UseRules.mk _) (List.append_assoc r.package [⟨atom, flags⟩] _)

theorem package_ofSteps (steps : List Step) : (ofSteps steps).package = entries steps :=
  congrArg UseRules.package (foldl_step_eq none steps)

theorem global_ofSteps (steps : List Step) :
    (ofSteps steps).global = (textWords steps).foldl (fun flags w => applyFlag flags (UseFlag.parse w)) [] := by
  rw [← List.foldl_map]
  exact congrArg UseRules.global (foldl_step_eq none steps)

/-! ### States for all packages -/

def stateIn (flags : List UseFlag) (flag : Text) : Option Bool :=
  (flags.find? (·.name == flag)).map (·.enabled)

theorem stateIn_cons (f : UseFlag) (flags : List UseFlag) (flag : Text) :
    stateIn (f :: flags) flag = if f.name = flag then some f.enabled else stateIn flags flag := by
  rw [stateIn, List.find?_cons]
  by_cases h : f.name = flag
  · rw [if_pos h, beq_iff_eq.mpr h]
    rfl
  · rw [if_neg h, beq_eq_false_iff_ne.mpr h]
    rfl

theorem stateIn_set (f : UseFlag) (flags : List UseFlag) (flag : Text) :
    stateIn (set f flags) flag = if f.name = flag then some f.enabled else stateIn flags flag := by
  induction flags with
  | nil => exact stateIn_cons f [] flag
  | cons g flags ih =>
    rw [set]
    split
    next hname =>
      rw [stateIn_cons, stateIn_cons, hname]
      split <;> rfl
    next hname =>
      rw [stateIn_cons, stateIn_cons, ih]
      by_cases hg : g.name = flag
      · rw [if_pos hg, if_pos hg, if_neg fun hf => hname (hg.trans hf.symm)]
      · rw [if_neg hg, if_neg hg]

theorem stateIn_applyFlag_eq_some_iff {flags : List UseFlag} {f : UseFlag} :
    stateIn (applyFlag flags f) flag = some b ↔
      (f ≠ ⟨['*'], false⟩ ∧ f = ⟨flag, b⟩) ∨
        stateIn flags flag = some b ∧ ¬ (f = ⟨['*'], false⟩ ∨ f.name = flag) := by
  obtain ⟨name, enabled⟩ := f
  unfold applyFlag
  by_cases hreset : name = ['*'] ∧ enabled = false
  · obtain ⟨rfl, rfl⟩ := hreset
    simp [stateIn]
  · have hne : (⟨name, enabled⟩ : UseFlag) ≠ ⟨['*'], false⟩ := by
      rwa [ne_eq, UseFlag.mk.injEq]
    have hno : ¬ (decide (name = ['*']) && !enabled) = true := by
      rwa [Bool.and_eq_true, decide_eq_true_iff, Bool.not_eq_true']
    rw [if_neg hno, stateIn_set, and_iff_right hne, or_iff_right hne, UseFlag.mk.injEq]
    by_cases hname : name = flag <;> simp [hname]

/-- The last mention of the flag since the last reset gives the state. -/
def LastSet (flag : Text) (words : List Text) (b : Bool) : Prop :=
  Stands (fun w => w ≠ UseFlag.reset ∧ UseFlag.Mentions flag w b)
    (fun w => w = UseFlag.reset ∨ ∃ b, UseFlag.Mentions flag w b) words

theorem isWord_of_mem_textWords {steps : List Step} {w : Text} (h : w ∈ textWords steps) : IsWord w := by
  obtain ⟨call, _, hw⟩ := List.mem_flatMap.mp h
  cases call with
  | text s => exact isWord_of_mem_words hw
  | package => cases hw

theorem globalState_eq_some_iff (steps : List Step) :
    (ofSteps steps).globalState flag = some b ↔ LastSet flag (textWords steps) b := by
  have hnil : ¬ stateIn [] flag = some b := nofun
  have hparsed := foldl_iff_stands (fun flags w => applyFlag flags (UseFlag.parse w))
    (fun flags => stateIn flags flag = some b) hnil (fun _ _ => stateIn_applyFlag_eq_some_iff) (textWords steps)
  rw [← global_ofSteps] at hparsed
  -- the fold sees what the words are read as, which for words is what they mention
  refine hparsed.trans (stands_congr fun w hw => ?_)
  have hword := isWord_of_mem_textWords hw
  rw [ne_eq, UseFlag.parse_eq_reset_iff hword, UseFlag.parse_eq_iff_mentions hword,
    UseFlag.parse_name_eq_iff hword]
  exact ⟨Iff.rfl, Iff.rfl⟩

/-! ### States for a package version -/

/-- The flags of all entries, each with the atom of its entry. -/
def mentions (entries : List PackageUse) : List (Atom × UseFlag) :=
  entries.flatMap fun entry => entry.flags.map (entry.atom, ·)

/-- The flag is mentioned for the package version, by an atom with a pattern or by one without. -/
def IsMention (flag : Text) (p : Candidate) (wildcard : Bool) (m : Atom × UseFlag) : Prop :=
  m.1.isWildcard = wildcard ∧ m.1.isMatch p = true ∧ m.2.name = flag

/-- The last mention of the flag for the package version gives the state. -/
def LastMention (flag : Text) (p : Candidate) (wildcard : Bool) (entries : List PackageUse) (b : Bool) : Prop :=
  Stands (fun m => IsMention flag p wildcard m ∧ m.2.enabled = b) (IsMention flag p wildcard) (mentions entries)

theorem flatMap_filter_eq_map (q : Atom → Bool) (entries : List PackageUse) :
    (entries.filter fun e => q e.atom).flatMap (·.flags) =
      ((mentions entries).filter fun m => q m.1).map Prod.snd := by
  induction entries with
  | nil => rfl
  | cons entry entries ih =>
    have hmentions : mentions (entry :: entries) = entry.flags.map (entry.atom, ·) ++ mentions entries :=
      List.flatMap_cons
    rw [hmentions, List.filter_append, List.map_append, ← ih, List.filter_map, List.map_map, List.filter_cons]
    by_cases hq : q entry.atom = true <;> simp [Function.comp_def, hq]

theorem lastState_concat (name : Text) (flags : List UseFlag) (f : UseFlag) :
    lastState name (flags ++ [f]) = if f.name = name then some f.enabled else lastState name flags := by
  rw [lastState, List.filter_append, List.filter_cons]
  by_cases h : f.name = name <;> simp [lastState, h]

theorem packageState_eq_some_iff {r : UseRules} {wildcard : Bool} :
    r.packageState flag p wildcard = some b ↔ LastMention flag p wildcard r.package b := by
  have hnil : ¬ lastState flag [] = some b := nofun
  rw [packageState, flatMap_filter_eq_map fun a => a.isWildcard == wildcard && a.isMatch p]
  refine iff_stands (fun l => lastState flag ((l.filter fun m => m.1.isWildcard == wildcard &&
    m.1.isMatch p).map Prod.snd) = some b) hnil (fun l m => ?_) (mentions r.package)
  rw [List.filter_append, List.map_append, List.filter_singleton]
  by_cases hatom : m.1.isWildcard = wildcard ∧ m.1.isMatch p = true
  · have hkept : (m.1.isWildcard == wildcard && m.1.isMatch p) = true := by
      rw [hatom.1, hatom.2, beq_self_eq_true, Bool.and_true]
    rw [hkept, cond_true, List.map_singleton, lastState_concat, IsMention, and_iff_right hatom.1,
      and_iff_right hatom.2]
    by_cases hname : m.2.name = flag <;> simp [hname]
  -- other atoms leave the state as it was
  · have hdropped : (m.1.isWildcard == wildcard && m.1.isMatch p) = false := by
      rwa [Bool.eq_false_iff, ne_eq, Bool.and_eq_true, beq_iff_eq]
    have hno : ¬ IsMention flag p wildcard m := fun h => hatom ⟨h.1, h.2.1⟩
    rw [hdropped, cond_false, List.map_nil, List.append_nil, or_iff_right fun h => hno h.1, and_iff_left hno]

end UseRules
end PackagePolicy
