import PackagePolicy.Proofs.Text.Cuts

/-!
# Words

What reads a text by its words does not see its blanks: the words of a text are those of its words with
one space between them (`words_collapse`).
-/

namespace PackagePolicy.Text

/-- The text is one word. -/
structure IsWord (w : Text) : Prop where
  ne : w ≠ []
  blank : ∀ c ∈ w, isBlank c = false

theorem isWord_of_mem_words {s w : Text} (h : w ∈ words s) : IsWord w := by
  obtain ⟨hw, hne⟩ := List.mem_filter.mp h
  rw [Bool.not_eq_true', List.isEmpty_eq_false_iff] at hne
  exact ⟨hne, fun c hc => (mem_of_mem_splitOnP hw c hc).2⟩

theorem words_of_isWord {w : Text} (h : IsWord w) : words w = [w] := by
  have hne : w.isEmpty = false := List.isEmpty_eq_false_iff.mpr h.ne
  rw [words, List.splitOnP_eq_singleton h.blank, List.filter_cons, hne]
  rfl

theorem words_append_blank_cons {w s : Text} {c : Char} (h : IsWord w) (hc : isBlank c = true) :
    words (w ++ c :: s) = w :: words s := by
  have hne : w.isEmpty = false := List.isEmpty_eq_false_iff.mpr h.ne
  rw [words, List.splitOnP_append_cons_of_forall_mem h.blank c hc, List.filter_cons, hne]
  rfl

theorem words_join {ws : List Text} (h : ∀ w ∈ ws, IsWord w) : words (join [' '] ws) = ws := by
  unfold join
  induction ws with
  | nil => rfl
  | cons w ws ih =>
    rw [List.forall_mem_cons] at h
    cases ws with
    | nil => rw [List.intercalate_singleton, words_of_isWord h.1]
    | cons w' ws =>
      rw [List.intercalate_cons_cons, List.append_assoc, List.singleton_append,
        words_append_blank_cons h.1 rfl, ih h.2]

theorem words_collapse (s : Text) : words (collapse s) = words s :=
  words_join fun _ => isWord_of_mem_words

theorem collapse_of_isWord {w : Text} (h : IsWord w) : collapse w = w := by
  rw [collapse, words_of_isWord h, join, List.intercalate_singleton]

/-! ### Words between blanks -/

/-- What is behind a word: nothing, or a text that begins with a blank. -/
def IsApart (rest : Text) : Prop := ∀ c ∈ rest.head?, isBlank c = true

theorem words_blank_cons {c : Char} (hc : isBlank c = true) (s : Text) : words (c :: s) = words s := by
  have hnil : ∀ c ∈ ([] : Text), isBlank c = false := nofun
  have hpieces : (c :: s).splitOnP isBlank = [] :: s.splitOnP isBlank :=
    List.splitOnP_append_cons_of_forall_mem hnil c hc s
  rw [words, hpieces]
  rfl

theorem words_append_of_isApart {w rest : Text} (hw : IsWord w) (h : IsApart rest) :
    words (w ++ rest) = w :: words rest := by
  cases rest with
  | nil =>
    rw [List.append_nil, words_of_isWord hw]
    rfl
  | cons c s =>
    have hc : isBlank c = true := h c rfl
    rw [words_append_blank_cons hw hc, words_blank_cons hc]

/-! ### Blank texts -/

theorem words_eq_nil_iff {s : Text} : words s = [] ↔ IsBlanks s := by
  unfold words
  induction s with
  | nil => exact iff_of_true rfl isBlanks_nil
  | cons c s ih =>
    rw [List.splitOnP_cons_eq_if_modifyHead, IsBlanks, List.forall_mem_cons]
    by_cases hc : isBlank c = true
    · rw [if_pos hc, and_iff_right hc]
      exact ih
    · rw [if_neg hc]
      refine iff_of_false ?_ fun h => hc h.1
      -- the character stays in the first piece, which is no longer empty
      cases hpieces : s.splitOnP isBlank with
      | nil => exact absurd hpieces (List.splitOnP_ne_nil _ _)
      | cons w ws => exact List.cons_ne_nil _ _

theorem trim_eq_nil_iff {s : Text} : trim s = [] ↔ IsBlanks s := by
  constructor
  · intro h
    obtain ⟨left, right, hleft, hright, hs⟩ := exists_trim_append s
    rw [h, List.append_nil] at hs
    intro c hc
    rw [hs, List.mem_append] at hc
    exact hc.elim (hleft c) (hright c)
  · intro h
    have htrimmed : IsTrimmed [] := ⟨nofun, nofun⟩
    have htrim := trim_blanks_append h isBlanks_nil htrimmed
    rwa [List.append_nil, List.append_nil] at htrim

theorem collapse_eq_nil_iff {s : Text} : collapse s = [] ↔ IsBlanks s := by
  rw [← words_eq_nil_iff]
  constructor
  · intro h
    rw [← words_collapse, h]
    rfl
  · intro h
    rw [collapse, h]
    rfl

/-! ### Runs of blanks -/

/-- The words stand in the text in this order, one blank or more between two of them, and nothing else is in it. -/
inductive HasWords : Text → List Text → Prop
  | blanks {s : Text} (h : IsBlanks s) : HasWords s []
  | word {gap w rest : Text} {ws : List Text} (hgap : IsBlanks gap) (hw : IsWord w) (hapart : IsApart rest)
      (hrest : HasWords rest ws) : HasWords (gap ++ (w ++ rest)) (w :: ws)

/-- Every run of blanks in the text is one space in the other, and those at its ends are gone. -/
def IsCollapsed (s v : Text) : Prop := ∃ ws, HasWords s ws ∧ v = join [' '] ws

theorem words_blanks_append {gap : Text} (hgap : IsBlanks gap) (s : Text) : words (gap ++ s) = words s := by
  induction gap with
  | nil => rfl
  | cons c gap ih =>
    obtain ⟨hc, hgap⟩ := List.forall_mem_cons.mp hgap
    rw [List.cons_append, words_blank_cons hc, ih hgap]

theorem HasWords.words_eq {s : Text} {ws : List Text} (h : HasWords s ws) : words s = ws := by
  induction h with
  | blanks h => exact words_eq_nil_iff.mpr h
  | word hgap hw hapart _ ih => rw [words_blanks_append hgap, words_append_of_isApart hw hapart, ih]

theorem HasWords.blank_cons {s : Text} {ws : List Text} {c : Char} (hc : isBlank c = true) (h : HasWords s ws) :
    HasWords (c :: s) ws := by
  cases h with
  | blanks h => exact .blanks (List.forall_mem_cons.mpr ⟨hc, h⟩)
  | @word gap _ _ _ hgap hw hapart hrest =>
    have hgap' : IsBlanks (c :: gap) := List.forall_mem_cons.mpr ⟨hc, hgap⟩
    exact .word hgap' hw hapart hrest

/- A character that is no blank begins a word of its own or lengthens the word behind it. -/
theorem HasWords.exists_cons {s : Text} {ws : List Text} {c : Char} (hc : isBlank c = false) (h : HasWords s ws) :
    ∃ ws', HasWords (c :: s) ws' := by
  have hword : IsWord [c] := ⟨List.cons_ne_nil c [], List.forall_mem_singleton.mpr hc⟩
  cases h with
  | blanks h =>
    have hapart : IsApart s := fun d hd => h d (List.mem_of_mem_head? hd)
    exact ⟨[[c]], .word isBlanks_nil hword hapart (.blanks h)⟩
  | @word gap w rest ws hgap hw hapart hrest =>
    cases gap with
    | nil =>
      have hlonger : IsWord (c :: w) := ⟨List.cons_ne_nil c w, List.forall_mem_cons.mpr ⟨hc, hw.blank⟩⟩
      exact ⟨(c :: w) :: ws, .word isBlanks_nil hlonger hapart hrest⟩
    | cons d gap =>
      have hapart' : IsApart (d :: gap ++ (w ++ rest)) := by
        rintro _ ⟨⟩
        exact hgap d List.mem_cons_self
      exact ⟨[c] :: w :: ws, .word isBlanks_nil hword hapart' (.word hgap hw hapart hrest)⟩

theorem exists_hasWords (s : Text) : ∃ ws, HasWords s ws := by
  induction s with
  | nil => exact ⟨[], .blanks isBlanks_nil⟩
  | cons c s ih =>
    obtain ⟨ws, h⟩ := ih
    cases hc : isBlank c with
    | true => exact ⟨ws, h.blank_cons hc⟩
    | false => exact h.exists_cons hc

theorem collapse_eq_iff {s v : Text} : collapse s = v ↔ IsCollapsed s v := by
  constructor
  · rintro rfl
    obtain ⟨ws, h⟩ := exists_hasWords s
    exact ⟨ws, h, by rw [collapse, h.words_eq]⟩
  · intro h
    obtain ⟨ws, hws, rfl⟩ := h
    rw [collapse, hws.words_eq]

theorem HasWords.append_blanks {s right : Text} {ws : List Text} (hright : IsBlanks right) (h : HasWords s ws) :
    HasWords (s ++ right) ws := by
  induction h with
  | blanks h => exact .blanks (List.forall_mem_append.mpr ⟨h, hright⟩)
  | @word gap w rest ws hgap hw hapart _ ih =>
    have hapart' : IsApart (rest ++ right) := by
      cases rest with
      | nil => exact fun c hc => hright c (List.mem_of_mem_head? hc)
      | cons c rest => exact hapart
    rw [List.append_assoc, List.append_assoc]
    exact .word hgap hw hapart' ih

theorem words_trim (s : Text) : words (trim s) = words s := by
  obtain ⟨left, right, hleft, hright, hs⟩ := exists_trim_append s
  obtain ⟨ws, h⟩ := exists_hasWords (trim s)
  calc words (trim s)
      = words (trim s ++ right) := h.words_eq.trans (h.append_blanks hright).words_eq.symm
    _ = words (left ++ (trim s ++ right)) := (words_blanks_append hleft _).symm
    _ = words s := by rw [← List.append_assoc, ← hs]

end PackagePolicy.Text
