import Mathlib.Algebra.Order.Field.Rat
import Mathlib.Data.List.DropRight
import Mathlib.Tactic.FieldSimp
import Mathlib.Tactic.Linarith
import Mathlib.Tactic.Positivity
import PackagePolicy.Proofs.Text.Decimal
import PackagePolicy.Proofs.Version.Order
import PackagePolicy.Result

/-!
# Components as numbers

Components are compared by their lengths and characters, so that no numeral is too long. For numerals of
ASCII digits this is the order of what they denote: natural numbers, or decimal fractions where one of
two later components starts with `0`. Main statement: `order_eq_of_components`.
-/

namespace PackagePolicy.Version
open Text

/-! ### Digit by digit -/

/-- The fraction that a numeral denotes behind a decimal point. -/
def fractionValue (s : Text) : ℚ := decimalValue s / 10 ^ s.length

theorem compare_map {α β : Type} [LinearOrder α] [LinearOrder β] {f : α → β} (hf : StrictMono f)
    (x y : α) : compare (f x) (f y) = compare x y := by
  rw [← cmp_eq_compare, ← cmp_eq_compare, hf.cmp_map_eq]

theorem compare_digit {m n : Nat} {x y : ℚ} (hx : 0 ≤ x ∧ x < 1) (hy : 0 ≤ y ∧ y < 1) :
    compare ((m + x) / 10) ((n + y) / 10) = (compare m n).then (compare x y) := by
  rcases Nat.lt_trichotomy m n with h | rfl | h
  · have hstep : (m : ℚ) + 1 ≤ n := by exact_mod_cast h
    have hlt : (m + x) / 10 < (n + y) / 10 := by linarith
    rw [Nat.compare_eq_lt.mpr h, compare_lt_iff_lt.mpr hlt]
    rfl
  · have hmono : StrictMono fun z : ℚ => (m + z) / 10 := by
      intro z z' hz
      show (m + z) / 10 < (m + z') / 10
      linarith
    rw [Nat.compare_eq_eq.mpr rfl, Ordering.eq_then]
    exact compare_map hmono x y
  · have hstep : (n : ℚ) + 1 ≤ m := by exact_mod_cast h
    have hlt : (n + y) / 10 < (m + x) / 10 := by linarith
    rw [Nat.compare_eq_gt.mpr h, compare_gt_iff_gt.mpr hlt]
    rfl

section
variable {s t : Text}

theorem fractionValue_nil : fractionValue [] = 0 := by
  show ((0 : Nat) : ℚ) / 10 ^ 0 = 0
  norm_num

theorem fractionValue_cons (c : Char) (s : Text) :
    fractionValue (c :: s) = (digitValue c + fractionValue s) / 10 := by
  rw [fractionValue, fractionValue, decimalValue_cons, List.length_cons, pow_succ]
  push_cast
  field_simp

theorem fractionValue_nonneg (s : Text) : 0 ≤ fractionValue s := by
  unfold fractionValue
  positivity

theorem fractionValue_lt_one (hs : ∀ c ∈ s, isAsciiDigit c = true) : fractionValue s < 1 := by
  have hlt : (decimalValue s : ℚ) < 10 ^ s.length := by exact_mod_cast decimalValue_lt hs
  rw [fractionValue, div_lt_one (by positivity)]
  exact hlt

theorem getLast?_ne_of_cons {c z : Char} (h : (c :: s).getLast? ≠ some z) : s.getLast? ≠ some z := by
  intro hs
  apply h
  rw [List.getLast?_cons, hs]
  rfl

theorem fractionValue_pos (hs : ∀ c ∈ s, isAsciiDigit c = true) (hne : s ≠ [])
    (hlast : s.getLast? ≠ some '0') : 0 < fractionValue s := by
  induction s with
  | nil => exact absurd rfl hne
  | cons c s ih =>
    rw [List.forall_mem_cons] at hs
    rw [fractionValue_cons]
    cases s with
    | nil =>
      have hc : c ≠ '0' := fun h => hlast (congrArg some h)
      have hpos : (0 : ℚ) < digitValue c := by exact_mod_cast digitValue_pos hs.1 hc
      have hrest := fractionValue_nonneg []
      linarith
    | cons d s =>
      have hrest := ih hs.2 (List.cons_ne_nil d s) (getLast?_ne_of_cons hlast)
      positivity

/- Texts differ like their fractions at the first digit that differs. Where one of them ends, the other
one is greater, as long as it does not end in zeros. -/
theorem compare_eq_compare_fractionValue (hs : ∀ c ∈ s, isAsciiDigit c = true)
    (ht : ∀ c ∈ t, isAsciiDigit c = true)
    (hend : s.length = t.length ∨ s.getLast? ≠ some '0' ∧ t.getLast? ≠ some '0') :
    compare s t = compare (fractionValue s) (fractionValue t) := by
  induction s generalizing t with
  | nil =>
    cases t with
    | nil => rw [compare_eq_iff_eq.mpr rfl]; rfl
    | cons d t =>
      rcases hend with hlength | hlast
      · cases hlength
      · have hpos := fractionValue_pos ht (List.cons_ne_nil d t) hlast.2
        rw [fractionValue_nil, compare_lt_iff_lt.mpr hpos]
        exact List.compare_nil_cons
  | cons c s ih =>
    cases t with
    | nil =>
      rcases hend with hlength | hlast
      · cases hlength
      · have hpos := fractionValue_pos hs (List.cons_ne_nil c s) hlast.1
        rw [fractionValue_nil, compare_gt_iff_gt.mpr hpos]
        exact List.compare_cons_nil
    | cons d t =>
      rw [List.forall_mem_cons] at hs ht
      have hend' := hend.imp Nat.succ.inj (And.imp getLast?_ne_of_cons getLast?_ne_of_cons)
      have hx := And.intro (fractionValue_nonneg s) (fractionValue_lt_one hs.2)
      have hy := And.intro (fractionValue_nonneg t) (fractionValue_lt_one ht.2)
      rw [List.compare_cons_cons, ih hs.2 ht.2 hend', fractionValue_cons, fractionValue_cons,
        compare_digit hx hy, compare_digitValue hs.1 ht.1]

/-! ### Numerals -/

theorem isAsciiDigit_withoutLeadingZeros (hs : ∀ c ∈ s, isAsciiDigit c = true) :
    ∀ c ∈ withoutLeadingZeros s, isAsciiDigit c = true :=
  fun c hc => hs c ((List.dropWhile_sublist _).mem hc)

theorem decimalValue_withoutLeadingZeros (s : Text) :
    decimalValue (withoutLeadingZeros s) = decimalValue s := by
  induction s with
  | nil => rfl
  | cons c s ih =>
    by_cases hc : c = '0'
    · have hvalue : decimalValue (c :: s) = decimalValue s := by
        rw [hc, decimalValue_cons, show digitValue '0' = 0 from rfl, Nat.zero_mul, Nat.zero_add]
      rw [hvalue, ← ih, withoutLeadingZeros, withoutLeadingZeros,
        List.dropWhile_cons_of_pos (by rwa [beq_iff_eq])]
    · rw [withoutLeadingZeros, List.dropWhile_cons_of_neg (by rwa [beq_iff_eq])]

theorem head?_withoutLeadingZeros (s : Text) : (withoutLeadingZeros s).head? ≠ some '0' := by
  intro h
  have hhead := List.head?_dropWhile_not (· == '0') s
  rw [← withoutLeadingZeros, h] at hhead
  cases hhead

theorem decimalValue_lt_of_length_lt (hs : ∀ c ∈ s, isAsciiDigit c = true)
    (ht : ∀ c ∈ t, isAsciiDigit c = true) (hhead : t.head? ≠ some '0') (h : s.length < t.length) :
    decimalValue s < decimalValue t := by
  cases t with
  | nil => cases h
  | cons d t =>
    have hd : d ≠ '0' := fun h => hhead (congrArg some h)
    have hpos := digitValue_pos (ht d List.mem_cons_self) hd
    have hle : s.length ≤ t.length := Nat.le_of_lt_succ h
    calc decimalValue s
        < 10 ^ s.length := decimalValue_lt hs
      _ ≤ 10 ^ t.length := Nat.pow_le_pow_right (by decide) hle
      _ ≤ digitValue d * 10 ^ t.length := Nat.le_mul_of_pos_left _ hpos
      _ ≤ digitValue d * 10 ^ t.length + decimalValue t := Nat.le_add_right _ _
      _ = decimalValue (d :: t) := (decimalValue_cons d t).symm

theorem compare_eq_compare_decimalValue (hs : ∀ c ∈ s, isAsciiDigit c = true)
    (ht : ∀ c ∈ t, isAsciiDigit c = true) (hlength : s.length = t.length) :
    compare s t = compare (decimalValue s) (decimalValue t) := by
  have hmono : StrictMono fun n : Nat => (n : ℚ) / 10 ^ t.length := by
    intro m n h
    have hlt : (m : ℚ) < n := by exact_mod_cast h
    exact div_lt_div_of_pos_right hlt (by positivity)
  rw [compare_eq_compare_fractionValue hs ht (.inl hlength), fractionValue, fractionValue, hlength]
  exact compare_map hmono _ _

theorem compareNumerals_eq_compare_decimalValue (hs : ∀ c ∈ s, isAsciiDigit c = true)
    (ht : ∀ c ∈ t, isAsciiDigit c = true) :
    compareNumerals s t = compare (decimalValue s) (decimalValue t) := by
  have hs := isAsciiDigit_withoutLeadingZeros hs
  have ht := isAsciiDigit_withoutLeadingZeros ht
  rw [compareNumerals, utf8Length_eq_length hs, utf8Length_eq_length ht,
    ← decimalValue_withoutLeadingZeros s, ← decimalValue_withoutLeadingZeros t]
  rcases Nat.lt_trichotomy (withoutLeadingZeros s).length (withoutLeadingZeros t).length with
    h | h | h
  · have hlt := decimalValue_lt_of_length_lt hs ht (head?_withoutLeadingZeros t) h
    rw [Nat.compare_eq_lt.mpr h, Nat.compare_eq_lt.mpr hlt]
    rfl
  · rw [Nat.compare_eq_eq.mpr h, Ordering.eq_then, compare_eq_compare_decimalValue hs ht h]
  · have hlt := decimalValue_lt_of_length_lt ht hs (head?_withoutLeadingZeros s) h
    rw [Nat.compare_eq_gt.mpr h, Nat.compare_eq_gt.mpr hlt]
    rfl

/-! ### Fractions -/

theorem withoutTrailingZeros_eq_rdropWhile (s : Text) :
    withoutTrailingZeros s = s.rdropWhile (· == '0') := rfl

theorem isAsciiDigit_withoutTrailingZeros (hs : ∀ c ∈ s, isAsciiDigit c = true) :
    ∀ c ∈ withoutTrailingZeros s, isAsciiDigit c = true :=
  fun c hc => hs c ((List.rdropWhile_prefix _ (l := s)).mem hc)

theorem fractionValue_concat_zero (s : Text) : fractionValue (s ++ ['0']) = fractionValue s := by
  induction s with
  | nil =>
    rw [List.nil_append, fractionValue_cons, fractionValue_nil, show digitValue '0' = 0 from rfl]
    norm_num
  | cons c s ih => rw [List.cons_append, fractionValue_cons, fractionValue_cons, ih]

theorem fractionValue_withoutTrailingZeros (s : Text) :
    fractionValue (withoutTrailingZeros s) = fractionValue s := by
  rw [withoutTrailingZeros_eq_rdropWhile]
  induction s using List.reverseRecOn with
  | nil => rfl
  | append_singleton s c ih =>
    by_cases hc : c = '0'
    · rw [List.rdropWhile_concat_pos _ _ _ (by rwa [beq_iff_eq]), ih, hc, fractionValue_concat_zero]
    · rw [List.rdropWhile_concat_neg _ _ _ (by rwa [beq_iff_eq])]

theorem getLast?_withoutTrailingZeros (s : Text) :
    (withoutTrailingZeros s).getLast? ≠ some '0' := by
  intro h
  have hhead := List.head?_dropWhile_not (· == '0') s.reverse
  rw [withoutTrailingZeros, dropTail, List.getLast?_reverse] at h
  rw [h] at hhead
  cases hhead

theorem compare_withoutTrailingZeros (hs : ∀ c ∈ s, isAsciiDigit c = true)
    (ht : ∀ c ∈ t, isAsciiDigit c = true) :
    compare (withoutTrailingZeros s) (withoutTrailingZeros t) =
      compare (fractionValue s) (fractionValue t) := by
  have hs := isAsciiDigit_withoutTrailingZeros hs
  have ht := isAsciiDigit_withoutTrailingZeros ht
  rw [compare_eq_compare_fractionValue hs ht
      (.inr ⟨getLast?_withoutTrailingZeros s, getLast?_withoutTrailingZeros t⟩),
    fractionValue_withoutTrailingZeros, fractionValue_withoutTrailingZeros]

end

/-! ### Lists of components -/

/-- How the components at a position of two versions compare by what they denote. -/
def componentOrderAt (i : Nat) (x y : Text) : Ordering :=
  if i ≠ 0 ∧ (x.head? = some '0' ∨ y.head? = some '0') then
    compare (fractionValue x) (fractionValue y)
  else compare (decimalValue x) (decimalValue y)

/-- The components that two versions both have before a position do not differ. -/
def AgreeBefore (i : Nat) (a b : Version) : Prop :=
  ∀ j < i, ∀ x y, a.components[j]? = some x → b.components[j]? = some y →
    componentOrderAt j x y = .eq

theorem compareComponent_eq_componentOrderAt {x y : Text} (hx : ∀ c ∈ x, isAsciiDigit c = true)
    (hy : ∀ c ∈ y, isAsciiDigit c = true) (i : Nat) :
    compareComponent x y = componentOrderAt (i + 1) x y := by
  have hfraction : (isFraction x || isFraction y) = true ↔
      x.head? = some '0' ∨ y.head? = some '0' := by
    rw [Bool.or_eq_true, isFraction, isFraction, beq_iff_eq, beq_iff_eq]
  by_cases h : x.head? = some '0' ∨ y.head? = some '0'
  · rw [compareComponent, if_pos (hfraction.mpr h), componentOrderAt, if_pos ⟨Nat.succ_ne_zero i, h⟩]
    exact compare_withoutTrailingZeros hx hy
  · rw [compareComponent, if_neg (mt hfraction.mp h), componentOrderAt, if_neg (mt And.right h)]
    exact compareNumerals_eq_compare_decimalValue hx hy

theorem then_of_ne_eq {o p : Ordering} (h : o ≠ .eq) : o.then p = o := by
  cases o with
  | eq => exact absurd rfl h
  | lt => rfl
  | gt => rfl

theorem compareLater_eq_of_getElem? {as bs : List Text} {i : Nat} {x y : Text}
    (hx : as[i]? = some x) (hy : bs[i]? = some y)
    (hagree : ∀ j < i, ∀ x y, as[j]? = some x → bs[j]? = some y → compareComponent x y = .eq)
    (hne : compareComponent x y ≠ .eq) : compareLater as bs = compareComponent x y := by
  induction as generalizing bs i with
  | nil => cases hx
  | cons a as ih =>
    cases bs with
    | nil => cases hy
    | cons b bs =>
      cases i with
      | zero =>
        cases hx
        cases hy
        exact then_of_ne_eq hne
      | succ i =>
        have hhead := hagree 0 (Nat.succ_pos i) a b rfl rfl
        have hrest := ih hx hy fun j hj => hagree (j + 1) (Nat.succ_lt_succ hj)
        rw [compareLater, hhead, Ordering.eq_then, hrest]

theorem compare_length_cons (a b : Text) (as bs : List Text) :
    compare (a :: as).length (b :: bs).length = compare as.length bs.length :=
  compare_map (f := Nat.succ) (fun _ _ => Nat.succ_lt_succ) _ _

theorem compareLater_eq_compare_length {as bs : List Text}
    (hagree : ∀ j < as.length, ∀ x y, as[j]? = some x → bs[j]? = some y →
      compareComponent x y = .eq) : compareLater as bs = compare as.length bs.length := by
  induction as generalizing bs with
  | nil =>
    cases bs with
    | nil => rfl
    | cons b bs => exact (Nat.compare_eq_lt.mpr (Nat.succ_pos _)).symm
  | cons a as ih =>
    cases bs with
    | nil => exact (Nat.compare_eq_gt.mpr (Nat.succ_pos _)).symm
    | cons b bs =>
      have hhead := hagree 0 (Nat.succ_pos _) a b rfl rfl
      have hrest := ih fun j hj => hagree (j + 1) (Nat.succ_lt_succ hj)
      rw [compareLater, hhead, Ordering.eq_then, hrest, compare_length_cons]

section
variable {a b : Version}

/- The first components are told apart from the later ones, as they are no fractions. -/
theorem order_eq_componentOrderAt_then (ha : ∀ x ∈ a.components, ∀ c ∈ x, isAsciiDigit c = true)
    (hb : ∀ y ∈ b.components, ∀ c ∈ y, isAsciiDigit c = true) :
    order a b = (componentOrderAt 0 a.first b.first).then
      ((compareLater a.later b.later).then
        ((compare a.letter b.letter).then
          ((compareSuffixes a.suffixes b.suffixes).then (compare a.revision b.revision)))) := by
  have hx := ha a.first List.mem_cons_self
  have hy := hb b.first List.mem_cons_self
  have hfirst : compareNumerals a.first b.first = componentOrderAt 0 a.first b.first := by
    rw [componentOrderAt, if_neg (fun h => h.1 rfl), compareNumerals_eq_compare_decimalValue hx hy]
  rw [order_eq_then, hfirst]

theorem compareComponent_eq_of_agreeBefore
    (ha : ∀ x ∈ a.components, ∀ c ∈ x, isAsciiDigit c = true)
    (hb : ∀ y ∈ b.components, ∀ c ∈ y, isAsciiDigit c = true) {i : Nat}
    (h : AgreeBefore (i + 1) a b) :
    ∀ j < i, ∀ x y, a.later[j]? = some x → b.later[j]? = some y → compareComponent x y = .eq := by
  intro j hj x y hx hy
  have hxs := ha x (List.mem_cons_of_mem a.first (List.mem_of_getElem? hx))
  have hys := hb y (List.mem_cons_of_mem b.first (List.mem_of_getElem? hy))
  rw [compareComponent_eq_componentOrderAt hxs hys j]
  exact h (j + 1) (Nat.succ_lt_succ hj) x y hx hy

/- The first position at which the components differ decides. If they differ nowhere, the number of
components decides, and then the other parts of the versions. -/
theorem order_eq_of_components (ha : ∀ x ∈ a.components, ∀ c ∈ x, isAsciiDigit c = true)
    (hb : ∀ y ∈ b.components, ∀ c ∈ y, isAsciiDigit c = true) :
    (∀ i x y, a.components[i]? = some x → b.components[i]? = some y → AgreeBefore i a b →
      componentOrderAt i x y ≠ .eq → order a b = componentOrderAt i x y) ∧
    (AgreeBefore a.components.length a b →
      order a b = (compare a.components.length b.components.length).then
        ((compare a.letter b.letter).then
          ((compareSuffixes a.suffixes b.suffixes).then (compare a.revision b.revision)))) := by
  constructor
  · intro i x y hx hy hagree hne
    rw [order_eq_componentOrderAt_then ha hb]
    cases i with
    | zero =>
      cases hx
      cases hy
      exact then_of_ne_eq hne
    | succ i =>
      have hxs := ha x (List.mem_of_getElem? hx)
      have hys := hb y (List.mem_of_getElem? hy)
      have hfirst := hagree 0 (Nat.succ_pos i) a.first b.first rfl rfl
      have hlater : compareLater a.later b.later = compareComponent x y := by
        have hx' : a.later[i]? = some x := hx
        have hy' : b.later[i]? = some y := hy
        apply compareLater_eq_of_getElem? hx' hy' (compareComponent_eq_of_agreeBefore ha hb hagree)
        rwa [compareComponent_eq_componentOrderAt hxs hys i]
      rw [hfirst, Ordering.eq_then, hlater, compareComponent_eq_componentOrderAt hxs hys i,
        then_of_ne_eq hne]
  · intro hagree
    have hfirst := hagree 0 (Nat.succ_pos _) a.first b.first rfl rfl
    have hlater := compareLater_eq_compare_length
      (compareComponent_eq_of_agreeBefore ha hb hagree)
    rw [order_eq_componentOrderAt_then ha hb, hfirst, Ordering.eq_then, hlater, components, components,
      compare_length_cons]

end

def ninth : Version := (parse? "01.010.9-r1".toList).get (by decide +kernel)

def tenth : Version := (parse? "1.01.10".toList).get (by decide +kernel)

def longTenth : Version := (parse? "1.010.10.0".toList).get (by decide +kernel)

theorem agreeBefore_ninth_tenth : AgreeBefore 2 ninth tenth := by
  intro j hj x y hx hy
  match j, hj with
  | 0, _ => cases hx; cases hy; decide +kernel
  | 1, _ => cases hx; cases hy; decide +kernel

theorem agreeBefore_tenth_longTenth : AgreeBefore 3 tenth longTenth := by
  intro j hj x y hx hy
  match j, hj with
  | 0, _ => cases hx; cases hy; decide +kernel
  | 1, _ => cases hx; cases hy; decide +kernel
  | 2, _ => cases hx; cases hy; decide +kernel

theorem order_ninth_tenth_longTenth :
    order ninth tenth = componentOrderAt 2 "9".toList "10".toList ∧ order ninth tenth = .lt ∧
      order tenth longTenth = .lt := by
  have hdigits (v : Version) (h : v.components.all (·.all isAsciiDigit) = true) :
      ∀ x ∈ v.components, ∀ c ∈ x, isAsciiDigit c = true :=
    fun x hx => List.all_eq_true.mp (List.all_eq_true.mp h x hx)
  have hninth := hdigits ninth (by decide +kernel)
  have htenth := hdigits tenth (by decide +kernel)
  have hlongTenth := hdigits longTenth (by decide +kernel)
  have hlt : componentOrderAt 2 "9".toList "10".toList = .lt := by decide +kernel
  have hdiffer : componentOrderAt 2 "9".toList "10".toList ≠ .eq := by
    rw [hlt]
    decide
  have hninth_lt := (order_eq_of_components hninth htenth).1 2 _ _ rfl rfl agreeBefore_ninth_tenth
    hdiffer
  refine ⟨hninth_lt, hninth_lt.trans hlt, ?_⟩
  rw [(order_eq_of_components htenth hlongTenth).2 agreeBefore_tenth_longTenth]
  rfl

end PackagePolicy.Version
