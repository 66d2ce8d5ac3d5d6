import PackagePolicy.Proofs.Version.Order
import PackagePolicy.Proofs.Version.Text

/-!
# Longer versions

What is written behind a version tells how the longer version compares with it. Main statement:
`extensions_areOrdered`.
-/

namespace PackagePolicy.Version
open Text

/-! ### What may be written behind a version -/

/-- The text of a version with a further suffix, or with none, and a revision. -/
def extension (v : Version) (kind : Option SuffixKind) (number revision : Text) : Text :=
  match kind with
  | none => v.text ++ revision
  | some kind => v.text ++ ('_' :: (kind.name ++ number) ++ revision)

/-- The order of two texts that are versions. -/
def compareTexts (s t : Text) : Option Ordering := do return order (← parse? s) (← parse? t)

/-! ### Longer texts are read -/

theorem suffixes?_append {marks x : Text} {xs : List Suffix} {y : Suffix}
    (hmarks : suffixes? marks = some xs) (hx : suffix? x = some y) (hmark : '_' ∉ x) :
    suffixes? (marks ++ '_' :: x) = some (xs ++ [y]) := by
  have hlast : (x.splitOn '_').mapM suffix? = some [y] := by
    rw [List.splitOn_eq_singleton hmark, List.mapM_cons, hx]
    rfl
  unfold suffixes? at hmarks
  split at hmarks
  · cases hmarks
    exact hlast
  next s =>
    show ((s ++ '_' :: x).splitOn '_').mapM suffix? = _
    rw [List.splitOn_append_cons_self, List.mapM_append, hmarks, hlast]
    rfl
  · cases hmarks

theorem eq_nil_of_suffixes? {marks : Text} (h : suffixes? marks = some []) : marks = [] := by
  unfold suffixes? at h
  split at h
  · rfl
  next s =>
    obtain ⟨x, xs, hsplit⟩ := List.exists_cons_of_ne_nil (List.splitOnP_ne_nil (· == '_') s)
    rw [List.splitOn, hsplit, List.mapM_cons] at h
    obtain ⟨y, _, h⟩ := Option.bind_eq_some_iff.mp h
    obtain ⟨ys, _, h⟩ := Option.bind_eq_some_iff.mp h
    cases h
  · cases h

theorem components?_append {front x first : Text} {later : List Text}
    (hfront : components? front = some (first, later)) (hx : IsNumeral x) :
    components? (front ++ '.' :: x) = some (first, later ++ [x]) := by
  have hdot : '.' ∉ x := fun hmem => absurd (hx.2 '.' hmem) (by decide)
  unfold components? at hfront ⊢
  rw [List.splitOn_append_cons_self, List.splitOn_eq_singleton hdot]
  split at hfront
  · cases hfront
  next first' later' hsplit =>
    split at hfront
    · cases hfront
    next hempty =>
      cases hfront
      have hempty' : ((first :: later) ++ [x]).any List.isEmpty = false := by
        rw [List.any_append, Bool.eq_false_iff.mpr hempty, List.any_cons,
          List.isEmpty_eq_false_iff.mpr hx.1]
        rfl
      rw [hsplit]
      exact if_neg (Bool.eq_false_iff.mp hempty')

section
variable {v : Version} {front marks tail : Text} {p : Parts}

theorem exists_spells_of_notMem_dash (h : '-' ∉ v.text) :
    ∃ front marks, Spells front marks [] v.toParts ∧
      v.text = front ++ (v.letter.toList ++ marks) := by
  obtain ⟨front, marks, tail, hspells, htext⟩ := exists_spells_of_parts? v.reads
  cases tail with
  | nil =>
    rw [List.append_nil] at htext
    exact ⟨front, marks, hspells, htext⟩
  | cons c tail =>
    refine absurd ?_ h
    rw [htext, head?_of_revision? hspells.revision c rfl]
    simp

theorem Spells.revised (h : Spells front marks tail p) {revision : Text} {n : Nat}
    (hrevision : OptionalNumber "-r".toList revision n) :
    Spells front marks revision { p with revision := n } :=
  { h with revision := revision?_eq_some_iff.mpr hrevision }

theorem Spells.suffixed (h : Spells front marks tail p) {number : Text} {n : Nat}
    (hnumber : OptionalNumber [] number n) (kind : SuffixKind) :
    Spells front (marks ++ '_' :: (kind.name ++ number)) tail
      { p with suffixes := p.suffixes ++ [⟨kind, n⟩] } := by
  have hname : '-' ∉ kind.name ∧ '_' ∉ kind.name := by
    cases kind <;> decide
  have hnotMem {c : Char} (hc : isAsciiDigit c = false) (hkind : c ∉ kind.name) :
      c ∉ kind.name ++ number := by
    intro hmem
    rcases List.mem_append.mp hmem with hmem | hmem
    · exact hkind hmem
    · rcases hnumber.mem c hmem with hnil | hdigit
      · cases hnil
      · rw [hdigit] at hc
        cases hc
  have hx : suffix? (kind.name ++ number) = some ⟨kind, n⟩ :=
    suffix?_eq_some_iff.mpr ⟨number, rfl, hnumber⟩
  refine { h with
    notMem_dash := ?_
    suffixes := suffixes?_append h.suffixes hx (hnotMem rfl hname.2) }
  rw [List.mem_append, List.mem_cons, not_or, not_or]
  exact ⟨h.notMem_dash, by decide, hnotMem rfl hname.1⟩

theorem parts?_extension (hv : '-' ∉ v.text) (kind : Option SuffixKind) {number revision : Text}
    {m n : Nat} (hnumber : OptionalNumber [] number m)
    (hrevision : OptionalNumber "-r".toList revision n) :
    parts? (extension v kind number revision) = some { v.toParts with
      suffixes := v.suffixes ++ (kind.map fun k => ⟨k, m⟩).toList
      revision := n } := by
  obtain ⟨front, marks, hspells, htext⟩ := exists_spells_of_notMem_dash hv
  cases kind with
  | none =>
    have h := (hspells.revised hrevision).parts?_eq
    rw [extension, htext, List.append_assoc, List.append_assoc, h]
    simp
  | some kind =>
    have h := ((hspells.suffixed hnumber kind).revised hrevision).parts?_eq
    rw [extension, htext, List.append_assoc, List.append_assoc, ← List.append_assoc marks]
    exact h

end

/-! ### The order of longer versions -/

theorem parse?_of_parts? {s : Text} {p : Parts} (h : parts? s = some p) :
    parse? s = some { p with text := s, reads := h } :=
  parse?_eq_some_iff.mpr (trim_of_isTrimmed (isTrimmed_text ⟨p, s, h⟩))

theorem compareTexts_eq {s t : Text} {p q : Parts} (hp : parts? s = some p) (hq : parts? t = some q) :
    compareTexts s t = some ((compareNumerals p.first q.first).then
      ((compareLater p.later q.later).then
        ((compare p.letter q.letter).then
          ((compareSuffixes p.suffixes q.suffixes).then (compare p.revision q.revision))))) := by
  rw [compareTexts, parse?_of_parts? hp, parse?_of_parts? hq]
  exact congrArg some (order_eq_then _ _)

theorem compareNumerals_self (s : Text) : compareNumerals s s = .eq := by
  rw [compareNumerals_eq]
  exact Std.ReflCmp.compare_self

theorem compareLater_append (as bs cs : List Text) :
    compareLater (as ++ bs) (as ++ cs) = compareLater bs cs := by
  induction as with
  | nil => rfl
  | cons a as ih =>
    have hself : compareComponent a a = .eq := by
      unfold compareComponent
      split
      · exact Std.ReflCmp.compare_self
      · exact compareNumerals_self a
    rw [List.cons_append, List.cons_append, compareLater, hself, ih, Ordering.eq_then]

theorem compareLater_self (as : List Text) : compareLater as as = .eq := by
  have h := compareLater_append as [] []
  rwa [List.append_nil] at h

theorem compareSuffixes_append (as bs cs : List Suffix) :
    compareSuffixes (as ++ bs) (as ++ cs) = compareSuffixes bs cs := by
  induction as with
  | nil => rfl
  | cons a as ih =>
    have hself : compareSuffix a a = .eq := by
      rw [compareSuffix_eq]
      exact Std.ReflCmp.compare_self
    rw [List.cons_append, List.cons_append, compareSuffixes, hself, ih, Ordering.eq_then]

theorem compareSuffixes_toList (x y : Option Suffix) :
    compareSuffixes x.toList y.toList = placeOrder (suffixPlace x) (suffixPlace y) := by
  cases x with
  | none =>
    cases y with
    | none => rfl
    | some b => exact (placeOrder_end_suffix b).symm
  | some a =>
    cases y with
    | none => exact (placeOrder_suffix_end a).symm
    | some b =>
      rw [← compareSuffix_eq]
      exact Ordering.then_eq

section
variable {v : Version} {number number' revision revision' : Text} {m m' n n' : Nat}

/- No suffix has a place among the kinds, too. -/
theorem compareTexts_extension (hv : '-' ∉ v.text) (kind kind' : Option SuffixKind)
    (hnumber : OptionalNumber [] number m) (hnumber' : OptionalNumber [] number' m')
    (hrevision : OptionalNumber "-r".toList revision n)
    (hrevision' : OptionalNumber "-r".toList revision' n') :
    compareTexts (extension v kind number revision) (extension v kind' number' revision') =
      some ((placeOrder (suffixPlace (kind.map fun k => ⟨k, m⟩))
        (suffixPlace (kind'.map fun k => ⟨k, m'⟩))).then (compare n n')) := by
  have hletter : compare v.letter v.letter = .eq := Std.ReflCmp.compare_self
  rw [compareTexts_eq (parts?_extension hv kind hnumber hrevision)
    (parts?_extension hv kind' hnumber' hrevision'), compareNumerals_self, compareLater_self, hletter,
    compareSuffixes_append, compareSuffixes_toList]
  rfl

def kindRank (kind : Option SuffixKind) : Nat := (suffixPlace (kind.map fun k => ⟨k, 0⟩)).1

theorem placeOrder_of_kindRank_lt {kind kind' : Option SuffixKind} (h : kindRank kind < kindRank kind')
    (m m' : Nat) : placeOrder (suffixPlace (kind.map fun k => ⟨k, m⟩))
      (suffixPlace (kind'.map fun k => ⟨k, m'⟩)) = .lt := by
  have hfst (kind : Option SuffixKind) (m : Nat) :
      (suffixPlace (kind.map fun k => ⟨k, m⟩)).1 = kindRank kind := by
    cases kind <;> rfl
  have hlt : compare (kindRank kind) (kindRank kind') = .lt := Nat.compare_eq_lt.mpr h
  rw [placeOrder, compareLex, compareOn, hfst, hfst, hlt]
  rfl

theorem spells_text (hv : '-' ∉ v.text) (hletter : v.letter = none) (hsuffixes : v.suffixes = []) :
    Spells v.text [] [] v.toParts := by
  obtain ⟨front, marks, hspells, htext⟩ := exists_spells_of_notMem_dash hv
  have hmarks : marks = [] := by
    apply eq_nil_of_suffixes?
    rw [hspells.suffixes, hsuffixes]
  rw [hletter, hmarks] at htext
  rw [hmarks] at hspells
  rwa [htext, Option.toList_none, List.append_nil, List.append_nil]

theorem compareTexts_letter (hv : '-' ∉ v.text) (hletter : v.letter = none)
    (hsuffixes : v.suffixes = []) {c : Char} (hc : isLetter c = true)
    (hrevision : OptionalNumber "-r".toList revision n)
    (hrevision' : OptionalNumber "-r".toList revision' n') :
    compareTexts (v.text ++ revision) (v.text ++ c :: revision') = some .lt := by
  have hspells := spells_text hv hletter hsuffixes
  have hlettered : Spells v.text [] [] { v.toParts with letter := some c } := by
    refine { hspells with letter := ?_ }
    intro d hd
    cases hd
    exact hc
  have hshort := parts?_extension hv none .absent hrevision
  have hlong := (hlettered.revised hrevision').parts?_eq
  have hlt : compare v.letter (some c) = .lt := by
    rw [hletter]
    rfl
  refine (compareTexts_eq hshort hlong).trans ?_
  rw [compareNumerals_self, compareLater_self, hlt]
  rfl

theorem compareTexts_component (hv : '-' ∉ v.text) (hletter : v.letter = none)
    (hsuffixes : v.suffixes = []) {x : Text} (hx : IsNumeral x)
    (hrevision : OptionalNumber "-r".toList revision n)
    (hrevision' : OptionalNumber "-r".toList revision' n') :
    compareTexts (v.text ++ revision) (v.text ++ ('.' :: x ++ revision')) = some .lt := by
  have hspells := spells_text hv hletter hsuffixes
  have hdotted : Spells (v.text ++ '.' :: x) [] [] { v.toParts with later := v.later ++ [x] } := by
    refine { hspells with
      componentChars := ?_
      components := components?_append hspells.components hx }
    intro c hc
    rcases List.mem_append.mp hc with hc | hc
    · exact hspells.componentChars c hc
    · rcases List.mem_cons.mp hc with rfl | hc
      · decide
      · exact Bool.or_eq_true_iff.mpr (.inl (hx.2 c hc))
  have hshort := parts?_extension hv none .absent hrevision
  have hlong := (hdotted.revised hrevision').parts?_eq
  rw [hletter, Option.toList_none, List.nil_append, List.nil_append, List.append_assoc] at hlong
  have hlater : compareLater v.later (v.later ++ [x]) = .lt := by
    have h := compareLater_append v.later [] [x]
    rwa [List.append_nil] at h
  refine (compareTexts_eq hshort hlong).trans ?_
  rw [compareNumerals_self, hlater]
  rfl

end

/-- Every longer version is read, and is where its suffix, its revision, its letter or its further
component puts it. -/
structure ExtensionsAreOrdered (v : Version) : Prop where
  kinds {number revision : Option SuffixKind → Text}
    (hnumber : ∀ kind, ∃ n, OptionalNumber [] (number kind) n)
    (hrevision : ∀ kind, ∃ n, OptionalNumber "-r".toList (revision kind) n) :
    ([some .alpha, some .beta, some .pre, some .rc, none, some .patch].map fun kind =>
      extension v kind (number kind) (revision kind)).Pairwise fun s t => compareTexts s t = some .lt
  numbers (kind : SuffixKind) {number number' revision revision' : Text} {m m' n n' : Nat}
    (hnumber : OptionalNumber [] number m) (hnumber' : OptionalNumber [] number' m')
    (hrevision : OptionalNumber "-r".toList revision n)
    (hrevision' : OptionalNumber "-r".toList revision' n') :
    compareTexts (extension v (some kind) number revision) (extension v (some kind) number' revision') =
      some ((compare m m').then (compare n n'))
  revisions {revision revision' : Text} {n n' : Nat}
    (hrevision : OptionalNumber "-r".toList revision n)
    (hrevision' : OptionalNumber "-r".toList revision' n') :
    compareTexts (v.text ++ revision) (v.text ++ revision') = some (compare n n')
  letter (hletter : v.letter = none) (hsuffixes : v.suffixes = []) {c : Char} {revision revision' : Text}
    {n n' : Nat} (hc : isLetter c = true) (hrevision : OptionalNumber "-r".toList revision n)
    (hrevision' : OptionalNumber "-r".toList revision' n') :
    compareTexts (v.text ++ revision) (v.text ++ c :: revision') = some .lt
  component (hletter : v.letter = none) (hsuffixes : v.suffixes = []) {x revision revision' : Text}
    {n n' : Nat} (hx : IsNumeral x) (hrevision : OptionalNumber "-r".toList revision n)
    (hrevision' : OptionalNumber "-r".toList revision' n') :
    compareTexts (v.text ++ revision) (v.text ++ ('.' :: x ++ revision')) = some .lt

theorem extensions_areOrdered (v : Version) (hv : '-' ∉ v.text) : ExtensionsAreOrdered v where
  kinds {number revision} hnumber hrevision := by
    have hranks : [some .alpha, some .beta, some .pre, some .rc, none, some .patch].Pairwise
        fun kind kind' => kindRank kind < kindRank kind' := by decide
    rw [List.pairwise_map]
    refine hranks.imp ?_
    intro kind kind' hrank
    obtain ⟨m, hm⟩ := hnumber kind
    obtain ⟨m', hm'⟩ := hnumber kind'
    obtain ⟨n, hn⟩ := hrevision kind
    obtain ⟨n', hn'⟩ := hrevision kind'
    rw [compareTexts_extension hv kind kind' hm hm' hn hn', placeOrder_of_kindRank_lt hrank]
    rfl
  numbers kind _ _ _ _ m m' _ _ hnumber hnumber' hrevision hrevision' := by
    rw [compareTexts_extension hv (some kind) (some kind) hnumber hnumber' hrevision hrevision']
    have hplace : placeOrder (suffixPlace (some ⟨kind, m⟩)) (suffixPlace (some ⟨kind, m'⟩)) =
        compare m m' := by
      rw [← compareSuffix_eq, compareSuffix, Nat.compare_eq_eq.mpr rfl]
      rfl
    rw [Option.map_some, Option.map_some, hplace]
  revisions hrevision hrevision' :=
    compareTexts_extension hv none none .absent .absent hrevision hrevision'
  letter hletter hsuffixes _ _ _ _ _ hc := compareTexts_letter hv hletter hsuffixes hc
  component hletter hsuffixes _ _ _ _ _ hx := compareTexts_component hv hletter hsuffixes hx

def patched : Version := (parse? "1.2b_p3".toList).get (by decide +kernel)

def plain : Version := (parse? "01.2".toList).get (by decide +kernel)

theorem extensions_areOrdered_patched_plain :
    compareTexts "1.2b_p3_rc07-r5".toList "1.2b_p3_rc8".toList = some .lt ∧
      compareTexts "01.2-r3".toList "01.2a".toList = some .lt ∧ ExtensionsAreOrdered patched := by
  have hpatched := extensions_areOrdered patched (by decide +kernel)
  have hplain := extensions_areOrdered plain (by decide +kernel)
  have hseven : OptionalNumber [] "07".toList 7 := suffixNumber?_eq_some_iff.mp rfl
  have height : OptionalNumber [] "8".toList 8 := suffixNumber?_eq_some_iff.mp rfl
  have hfive : OptionalNumber "-r".toList "-r5".toList 5 := revision?_eq_some_iff.mp rfl
  have hthree : OptionalNumber "-r".toList "-r3".toList 3 := revision?_eq_some_iff.mp rfl
  exact ⟨hpatched.numbers .rc hseven height hfive .absent,
    hplain.letter (c := 'a') rfl rfl rfl hthree .absent, hpatched⟩

end PackagePolicy.Version
