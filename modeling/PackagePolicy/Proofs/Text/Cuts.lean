import PackagePolicy.Text.Blank

/-!
# Cuts and ends of texts

A cut finds the first mark, so that a text without the mark may be put before or taken from what is cut.
Trimming removes blanks at the ends and nothing else.
-/

namespace PackagePolicy.Text

/-! ### Cuts at a character -/

theorem cut_append {c : Char} {a : Text} (h : c ∉ a) (s : Text) :
    cut c (a ++ s) = (cut c s).map fun p => (a ++ p.1, p.2) := by
  induction a with
  | nil => simp
  | cons x a ih =>
    rw [List.mem_cons, not_or] at h
    rw [List.cons_append, cut, if_neg (Ne.symm h.1), ih h.2, Option.map_map]
    rfl

theorem cut_append_cons {c : Char} {a : Text} (h : c ∉ a) (b : Text) :
    cut c (a ++ c :: b) = some (a, b) := by
  simp [cut_append h, cut]

theorem cut_eq_none_iff {c : Char} {s : Text} : cut c s = none ↔ c ∉ s := by
  induction s with
  | nil => simp [cut]
  | cons x s ih =>
    by_cases hx : x = c
    · simp [cut, hx]
    · simp [cut, hx, ih, Ne.symm hx]

theorem notMem_of_cut {c : Char} {s a b : Text} (h : cut c s = some (a, b)) : c ∉ a := by
  induction s generalizing a with
  | nil => cases h
  | cons x s ih =>
    by_cases hx : x = c
    · simp only [cut, hx, if_true, Option.some.injEq, Prod.mk.injEq] at h
      simp [← h.1]
    · simp only [cut, hx, if_false, Option.map_eq_some_iff, Prod.mk.injEq] at h
      obtain ⟨⟨a', b'⟩, h', rfl, rfl⟩ := h
      rw [List.mem_cons, not_or]
      exact ⟨Ne.symm hx, ih h'⟩

theorem cut_eq_some_iff {c : Char} {s a b : Text} :
    cut c s = some (a, b) ↔ s = a ++ c :: b ∧ c ∉ a :=
  ⟨fun h => ⟨cut_eq_append h, notMem_of_cut h⟩, fun ⟨h, hc⟩ => by rw [h, cut_append_cons hc]⟩

/-! ### Cuts at a longer mark -/

theorem cutAt_eq_none_iff {mark s : Text} (hmark : mark ≠ []) :
    cutAt mark s = none ↔ ¬ mark <:+: s := by
  induction s with
  | nil => simp [cutAt, hmark]
  | cons x s ih =>
    unfold cutAt
    rw [List.infix_cons_iff, ← List.isPrefixOf_iff_prefix]
    cases mark.isPrefixOf (x :: s) with
    | true => simp
    | false => simp [ih]

theorem prefix_append_iff {mark : Text} (hmark : mark ≠ []) (c : Char) (a b : Text) :
    mark <+: c :: (a ++ mark ++ b) ↔ mark <+: c :: (a ++ mark.dropLast) := by
  have hshort : c :: (a ++ mark.dropLast) <+: c :: (a ++ mark ++ b) := by
    refine List.cons_prefix_cons.mpr ⟨rfl, ?_⟩
    rw [List.append_assoc, List.prefix_append_right_inj]
    exact (List.dropLast_prefix mark).trans (List.prefix_append mark b)
  have hlength : mark.length ≤ (c :: (a ++ mark.dropLast)).length := by
    have := List.length_pos_iff.mpr hmark
    rw [List.length_cons, List.length_append, List.length_dropLast]
    omega
  exact ⟨fun h => List.prefix_of_prefix_length_le h hshort hlength, fun h => h.trans hshort⟩

/- The mark that is found is the first one, so that none is in the text before it or reaches into it. -/
theorem cutAt_eq_some_iff {mark s a b : Text} (hmark : mark ≠ []) :
    cutAt mark s = some (a, b) ↔ s = a ++ mark ++ b ∧ ¬ mark <:+: a ++ mark.dropLast := by
  induction s generalizing a with
  | nil => simp [cutAt, hmark]
  | cons x s ih =>
    simp only [cutAt, List.isPrefixOf_iff_prefix]
    cases a with
    | nil =>
      have hnone : ¬ mark <:+: [] ++ mark.dropLast := by
        intro h
        have hpos := List.length_pos_iff.mpr hmark
        have hle := h.length_le
        rw [List.nil_append, List.length_dropLast] at hle
        omega
      rw [List.nil_append, and_iff_left hnone]
      split
      next hprefix =>
        obtain ⟨t, ht⟩ := hprefix
        rw [← ht, List.drop_left, Option.some.injEq, Prod.mk.injEq, List.append_right_inj]
        exact and_iff_right rfl
      next hprefix =>
        refine ⟨fun h => ?_, fun h => absurd ⟨b, h.symm⟩ hprefix⟩
        obtain ⟨p, _, hp⟩ := Option.map_eq_some_iff.mp h
        cases hp
    | cons y a =>
      rw [List.cons_append, List.cons_append, List.cons_append, List.cons.injEq, List.infix_cons_iff,
        not_or]
      split
      next hprefix =>
        refine ⟨nofun, ?_⟩
        intro h
        obtain ⟨⟨rfl, rfl⟩, hnone, _⟩ := h
        exact absurd ((prefix_append_iff hmark x a b).mp hprefix) hnone
      next hprefix =>
        rw [Option.map_eq_some_iff]
        constructor
        · intro h
          obtain ⟨p, hp, heq⟩ := h
          cases heq
          obtain ⟨rfl, hnone⟩ := ih.mp hp
          exact ⟨⟨rfl, rfl⟩, mt (prefix_append_iff hmark x p.1 p.2).mpr hprefix, hnone⟩
        · intro h
          obtain ⟨⟨rfl, hs⟩, _, hnone⟩ := h
          exact ⟨(a, b), ih.mpr ⟨hs, hnone⟩, rfl⟩

theorem cutAtLast_eq_none_iff {mark s : Text} (hmark : mark ≠ []) :
    cutAtLast mark s = none ↔ ¬ mark <:+: s := by
  induction s with
  | nil => simp [cutAtLast, hmark]
  | cons x s ih =>
    unfold cutAtLast
    rw [List.infix_cons_iff, ← List.isPrefixOf_iff_prefix]
    cases hcut : cutAtLast mark s with
    | some p =>
      rw [hcut] at ih
      have hwithin : mark <:+: s := Decidable.not_not.mp fun h => nomatch ih.mpr h
      simp [hwithin]
    | none =>
      rw [or_iff_left (ih.mp hcut)]
      cases mark.isPrefixOf (x :: s) <;> simp

theorem cutAtLast_cons (mark : Text) (x : Char) (s : Text) :
    cutAtLast mark (x :: s) =
      match cutAtLast mark s with
      | some p => some (x :: p.1, p.2)
      | none => if mark <+: x :: s then some ([], (x :: s).drop mark.length) else none := by
  rw [cutAtLast]
  cases cutAtLast mark s with
  | some p => rfl
  | none => simp only [List.isPrefixOf_iff_prefix]

/- The mark that is found is the last one, so that none is in the text after it or reaches into it. -/
theorem cutAtLast_eq_some_iff {m : Char} {mark s a b : Text} :
    cutAtLast (m :: mark) s = some (a, b) ↔
      s = a ++ m :: (mark ++ b) ∧ ¬ m :: mark <:+: mark ++ b := by
  have hnone (t : Text) : cutAtLast (m :: mark) t = none ↔ ¬ m :: mark <:+: t :=
    cutAtLast_eq_none_iff (List.cons_ne_nil m mark)
  induction s generalizing a with
  | nil => simp [cutAtLast]
  | cons x s ih =>
    rw [cutAtLast_cons]
    cases hcut : cutAtLast (m :: mark) s with
    | some p =>
      cases a with
      | nil =>
        refine iff_of_false nofun fun h => ?_
        obtain ⟨hs, hlast⟩ := h
        rw [List.nil_append, List.cons.injEq] at hs
        rw [← hs.2, ← hnone, hcut] at hlast
        cases hlast
      | cons y a =>
        rw [List.cons_append, List.cons.injEq, and_assoc]
        constructor
        · intro h
          cases h
          exact ⟨rfl, ih.mp hcut⟩
        · intro h
          cases hcut.symm.trans (ih.mpr h.2)
          rw [h.1]
    | none =>
      have hs := (hnone s).mp hcut
      cases a with
      | nil =>
        rw [List.nil_append, ← List.cons_append]
        constructor
        · intro h
          obtain ⟨⟨t, ht⟩, hb⟩ := Option.ite_none_right_eq_some.mp h
          rw [← ht, List.drop_left] at hb
          cases hb
          refine ⟨ht.symm, ?_⟩
          rw [List.cons_append, List.cons.injEq] at ht
          exact ht.2 ▸ hs
        · intro h
          rw [h.1, if_pos (List.prefix_append _ _), List.drop_left]
      | cons y a =>
        refine iff_of_false (fun h => ?_) fun h => ?_
        · cases (Option.ite_none_right_eq_some.mp h).2
        · rw [List.cons_append, List.cons.injEq] at h
          exact hs ⟨a, b, by rw [h.1.2, List.append_assoc, List.cons_append]⟩

theorem toList_doubleColon : "::".toList = [':', ':'] := rfl

theorem infix_append_iff {m : Char} {a : Text} (h : m ∉ a) (mark s : Text) :
    m :: mark <:+: a ++ s ↔ m :: mark <:+: s := by
  induction a with
  | nil => rfl
  | cons x a ih =>
    rw [List.mem_cons, not_or] at h
    rw [List.cons_append, List.infix_cons_iff, List.cons_prefix_cons, ih h.2]
    exact or_iff_right fun hprefix => h.1 hprefix.1

/-! ### Joined texts -/

theorem mem_of_mem_join {sep : Text} {parts : List Text} {c : Char} (h : c ∈ join sep parts) :
    c ∈ sep ∨ ∃ w ∈ parts, c ∈ w := by
  unfold join at h
  induction parts with
  | nil => cases h
  | cons w parts ih =>
    cases parts with
    | nil =>
      rw [List.intercalate_singleton] at h
      exact .inr ⟨w, List.mem_cons_self, h⟩
    | cons w' parts =>
      rw [List.intercalate_cons_cons, List.mem_append, List.mem_append] at h
      rcases h with (h | h) | h
      · exact .inr ⟨w, List.mem_cons_self, h⟩
      · exact .inl h
      · refine (ih h).imp_right ?_
        intro h
        obtain ⟨v, hv, hc⟩ := h
        exact ⟨v, List.mem_cons_of_mem w hv, hc⟩

theorem mem_join_of_mem {sep w : Text} {parts : List Text} (hw : w ∈ parts) : ∀ c ∈ w, c ∈ join sep parts := by
  unfold join
  intro c hc
  induction parts with
  | nil => cases hw
  | cons w' parts ih =>
    cases parts with
    | nil =>
      rwa [List.intercalate_singleton, ← List.mem_singleton.mp hw]
    | cons w'' parts =>
      rw [List.intercalate_cons_cons, List.mem_append, List.mem_append]
      rcases List.mem_cons.mp hw with rfl | hw
      · exact .inl (.inl hc)
      · exact .inr (ih hw)

theorem cons_join (sep : Char) (w : Text) (parts : List Text) :
    sep :: join [sep] (w :: parts) = (w :: parts).flatMap (sep :: ·) := by
  unfold join
  induction parts generalizing w with
  | nil => rw [List.intercalate_singleton, List.flatMap_singleton]
  | cons w' parts ih =>
    rw [List.intercalate_cons_cons, List.append_assoc, List.singleton_append, ih]
    rfl

theorem splitOn_join {sep : Char} {parts : List Text} (h : ∀ w ∈ parts, sep ∉ w) (hne : parts ≠ []) :
    (join [sep] parts).splitOn sep = parts :=
  List.splitOn_intercalate sep h hne

theorem join_splitOn (sep : Char) (s : Text) : join [sep] (s.splitOn sep) = s :=
  List.intercalate_splitOn sep

/-! ### Parts cut off an end -/

theorem dropLead_cons (c : Char) (s : Text) : dropLead c (c :: s) = s := if_pos rfl

theorem dropLead_of_head?_ne {c : Char} {s : Text} (h : s.head? ≠ some c) : dropLead c s = s := by
  cases s with
  | nil => rfl
  | cons d s => rw [dropLead, if_neg fun hd => h (congrArg some hd)]

theorem after?_eq_some_iff {lead s body : Text} : after? lead s = some body ↔ s = lead ++ body := by
  unfold after?
  split
  next hprefix =>
    obtain ⟨t, rfl⟩ := List.isPrefixOf_iff_prefix.mp hprefix
    rw [List.drop_left, Option.some.injEq, List.append_right_inj]
  next hprefix =>
    refine ⟨nofun, ?_⟩
    rintro rfl
    exact absurd (List.isPrefixOf_iff_prefix.mpr (List.prefix_append lead body)) hprefix

theorem before?_eq_some_iff {tail s body : Text} : before? tail s = some body ↔ s = body ++ tail := by
  unfold before?
  split
  next hsuffix =>
    obtain ⟨t, rfl⟩ := List.isSuffixOf_iff_suffix.mp hsuffix
    rw [List.length_append, Nat.add_sub_cancel, List.take_left, Option.some.injEq,
      List.append_left_inj]
  next hsuffix =>
    refine ⟨nofun, ?_⟩
    rintro rfl
    exact absurd (List.isSuffixOf_iff_suffix.mpr (List.suffix_append body tail)) hsuffix

theorem before?_eq_none_iff {tail s : Text} : before? tail s = none ↔ ¬ tail <:+ s := by
  unfold before?
  rw [← List.isSuffixOf_iff_suffix]
  split <;> simp_all

theorem before?_append (body tail : Text) : before? tail (body ++ tail) = some body :=
  before?_eq_some_iff.mpr rfl

/-! ### Spans -/

section
variable {p : Char → Bool} {s rest : Text}

theorem dropWhile_of_head (h : ∀ c ∈ s.head?, p c = false) : s.dropWhile p = s := by
  cases s with
  | nil => rfl
  | cons c s => rw [List.dropWhile_cons, h c rfl, if_neg Bool.false_ne_true]

theorem takeWhile_of_head (h : ∀ c ∈ s.head?, p c = false) : s.takeWhile p = [] := by
  cases s with
  | nil => rfl
  | cons c s => rw [List.takeWhile_cons, h c rfl, if_neg Bool.false_ne_true]

theorem takeWhile_append_of_head (hs : ∀ c ∈ s, p c = true) (h : ∀ c ∈ rest.head?, p c = false) :
    (s ++ rest).takeWhile p = s := by
  rw [List.takeWhile_append_of_pos hs, takeWhile_of_head h, List.append_nil]

theorem dropWhile_append_of_head (hs : ∀ c ∈ s, p c = true) (h : ∀ c ∈ rest.head?, p c = false) :
    (s ++ rest).dropWhile p = rest := by
  rw [List.dropWhile_append_of_pos hs, dropWhile_of_head h]

end

/-! ### Blanks -/

def IsBlanks (s : Text) : Prop := ∀ c ∈ s, isBlank c = true

/-- The text neither begins nor ends with a blank. -/
structure IsTrimmed (s : Text) : Prop where
  head : ∀ c ∈ s.head?, isBlank c = false
  last : ∀ c ∈ s.getLast?, isBlank c = false

theorem isBlanks_takeWhile (s : Text) : IsBlanks (s.takeWhile isBlank) :=
  List.all_eq_true.mp List.all_takeWhile

theorem isBlanks_nil : IsBlanks [] := nofun

theorem dropWhile_isBlank_head (s : Text) : ∀ c ∈ (s.dropWhile isBlank).head?, isBlank c = false := by
  intro c hc
  have h := List.head?_dropWhile_not isBlank s
  rw [hc] at h
  exact h

theorem exists_dropTail_append (s : Text) :
    ∃ right, IsBlanks right ∧ s = dropTail isBlank s ++ right := by
  refine ⟨(s.reverse.takeWhile isBlank).reverse, ?_, ?_⟩
  · intro c hc
    exact isBlanks_takeWhile _ c (List.mem_reverse.mp hc)
  · rw [dropTail, ← List.reverse_append, List.takeWhile_append_dropWhile, List.reverse_reverse]

theorem exists_trim_append (s : Text) :
    ∃ left right, IsBlanks left ∧ IsBlanks right ∧ s = left ++ trim s ++ right := by
  obtain ⟨right, hright, h⟩ := exists_dropTail_append (s.dropWhile isBlank)
  refine ⟨s.takeWhile isBlank, right, isBlanks_takeWhile s, hright, ?_⟩
  rw [trim, List.append_assoc, ← h, List.takeWhile_append_dropWhile]

theorem isTrimmed_trim (s : Text) : IsTrimmed (trim s) where
  head c hc := by
    -- what is left begins like the text without its leading blanks
    obtain ⟨right, _, h⟩ := exists_dropTail_append (s.dropWhile isBlank)
    refine dropWhile_isBlank_head s c ?_
    rw [h, List.head?_append]
    have hc' : (dropTail isBlank (s.dropWhile isBlank)).head? = some c := hc
    rw [hc']
    rfl
  last c hc := by
    rw [trim, dropTail, List.getLast?_reverse] at hc
    exact dropWhile_isBlank_head _ c hc

theorem trim_blanks_append {left s right : Text} (hleft : IsBlanks left) (hright : IsBlanks right)
    (hs : IsTrimmed s) : trim (left ++ s ++ right) = s := by
  have hdrop : (left ++ s ++ right).dropWhile isBlank = (s ++ right).dropWhile isBlank := by
    rw [List.append_assoc, List.dropWhile_append_of_pos hleft]
  rw [trim, hdrop]
  cases s with
  | nil =>
    have hnil : right.dropWhile isBlank = [] := by
      rw [← List.append_nil right, List.dropWhile_append_of_pos hright]
      rfl
    rw [List.nil_append, hnil]
    rfl
  | cons c s =>
    have hhead : (c :: s ++ right).dropWhile isBlank = c :: s ++ right :=
      dropWhile_of_head fun d hd => hs.head d hd
    have hlast : ∀ d ∈ (c :: s).reverse.head?, isBlank d = false := by
      rw [List.head?_reverse]
      exact hs.last
    have hright' : ∀ d ∈ right.reverse, isBlank d = true :=
      fun d hd => hright d (List.mem_reverse.mp hd)
    rw [hhead, dropTail, List.reverse_append, List.dropWhile_append_of_pos hright',
      dropWhile_of_head hlast, List.reverse_reverse]

theorem exists_trim_append_of_head {s : Text} (h : ∀ c ∈ s.head?, isBlank c = false) :
    ∃ gap, IsBlanks gap ∧ s = trim s ++ gap := by
  rw [trim, dropWhile_of_head h]
  exact exists_dropTail_append s

theorem trim_of_isTrimmed {s : Text} (hs : IsTrimmed s) : trim s = s := by
  have h := trim_blanks_append isBlanks_nil isBlanks_nil hs
  rwa [List.nil_append, List.append_nil] at h

end PackagePolicy.Text
