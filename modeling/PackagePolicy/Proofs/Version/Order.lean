import PackagePolicy.Proofs.Text.Decimal
import PackagePolicy.Version.Parser

/-!
# The order of versions

Later components are compared in two ways, and which one depends on both of them. All the same the
order is lawful, because it is an order of keys: a component that starts with `0` comes before every
one that does not, and the end of a list of suffixes has a place between `_rc` and `_p`. Main
statement: `order_isTotalPreorder`.
-/

namespace PackagePolicy.Version
open Text

/-! ### Components are numerals -/

def IsNumeral (s : Text) : Prop := s ≠ [] ∧ ∀ c ∈ s, isDigit c

theorem zero_le_of_isDigit {c : Char} (h : isDigit c) : '0' ≤ c := by
  have hzeros : ∀ z ∈ zeroDigits, '0'.toNat ≤ z := by decide
  obtain ⟨z, hz, hle, _⟩ := isDigit_iff.mp h
  rw [Char.le_def, UInt32.le_iff_toNat_le]
  exact Nat.le_trans (hzeros z hz) hle

theorem isNumeral_of_components? {s : Text} {first : Text} {later : List Text}
    (hs : ∀ c ∈ s, isComponentChar c) (h : components? s = some (first, later)) :
    ∀ w ∈ first :: later, IsNumeral w := by
  unfold components? at h
  split at h
  · cases h
  next first' later' hsplit =>
    split at h
    · cases h
    next hempty =>
      simp only [Option.some.injEq, Prod.mk.injEq] at h
      obtain ⟨rfl, rfl⟩ := h
      simp only [List.any_eq_true, not_exists, not_and, List.isEmpty_iff] at hempty
      intro w hw
      refine ⟨hempty w hw, ?_⟩
      intro c hc
      obtain ⟨hmem, hdot⟩ := mem_of_mem_splitOnP (hsplit ▸ hw) c hc
      simpa [isComponentChar, hdot] using hs c hmem

theorem isNumeral_of_mem_components (v : Version) : ∀ w ∈ v.components, IsNumeral w :=
  isNumeral_of_components? (List.all_eq_true.mp List.all_takeWhile) (components?_of_parts? v.reads)

/-! ### Components are ordered by their keys -/

def digitsOrder : Text → Text → Ordering := compareLex (compareOn utf8Length) compare

/-- Keys of fractions come before those of numbers. -/
def componentOrder : Bool × Text → Bool × Text → Ordering :=
  compareLex (compareOn fun c => !c.1)
    (compareLex (compareOn fun c => if c.1 then 0 else utf8Length c.2) (compareOn fun c => c.2))

instance : Std.TransCmp digitsOrder := by
  unfold digitsOrder
  infer_instance

instance : Std.TransCmp componentOrder := by
  unfold componentOrder
  infer_instance

theorem compareNumerals_eq (a b : Text) :
    compareNumerals a b = digitsOrder (withoutLeadingZeros a) (withoutLeadingZeros b) := rfl

theorem withoutLeadingZeros_of_not_isFraction {s : Text} (h : isFraction s = false) :
    withoutLeadingZeros s = s := by
  cases s with
  | nil => rfl
  | cons c s =>
    have hc : c ≠ '0' := by simpa [isFraction] using h
    simp [withoutLeadingZeros, hc]

/- A fraction comes before a number although both lose their trailing zeros: what is left of the
number starts with a digit after `0`. -/
theorem compare_fraction_number {a b : Text} (ha : isFraction a = true) (hb : isFraction b = false)
    (hn : IsNumeral b) : compare (withoutTrailingZeros a) (withoutTrailingZeros b) = .lt := by
  obtain ⟨a, rfl⟩ : ∃ r, a = '0' :: r := by
    cases a with
    | nil => cases ha
    | cons c a => exact ⟨a, by simpa [isFraction] using ha⟩
  cases b with
  | nil => exact absurd rfl hn.1
  | cons d b =>
    have hd : d ≠ '0' := by simpa [isFraction] using hb
    have hlt : '0' < d := Std.lt_of_le_of_ne (zero_le_of_isDigit (hn.2 d List.mem_cons_self)) hd.symm
    have hcmp : compare '0' d = .lt := compareOfLessAndEq_eq_lt.mpr hlt
    have hb' : withoutTrailingZeros (d :: b) = d :: withoutTrailingZeros b := by
      simp [withoutTrailingZeros, dropTail_cons, hd]
    rw [hb', withoutTrailingZeros, dropTail_cons]
    split
    · exact List.compare_nil_cons
    · rw [List.compare_cons_cons, hcmp]
      rfl

theorem componentOrder_fractions (s t : Text) : componentOrder (true, s) (true, t) = compare s t := rfl

theorem componentOrder_numbers (s t : Text) : componentOrder (false, s) (false, t) = digitsOrder s t := rfl

theorem compareComponent_eq {a b : Text} (ha : IsNumeral a) (hb : IsNumeral b) :
    compareComponent a b = componentOrder (keyComponent a) (keyComponent b) := by
  cases hfa : isFraction a with
  | true =>
    cases hfb : isFraction b with
    | true =>
      simp only [compareComponent, keyComponent, hfa, hfb, componentOrder_fractions, Bool.or_self,
        if_true]
    | false =>
      have hlt := compare_fraction_number hfa hfb hb
      simp only [compareComponent, keyComponent, hfa, hfb, hlt, Bool.or_false, if_true]
      rfl
  | false =>
    cases hfb : isFraction b with
    | true =>
      have hgt := Std.OrientedCmp.gt_of_lt (compare_fraction_number hfb hfa ha)
      simp only [compareComponent, keyComponent, hfa, hfb, hgt, Bool.false_or, if_true]
      rfl
    | false =>
      simp only [compareComponent, keyComponent, hfa, hfb, componentOrder_numbers, Bool.or_self,
        Bool.false_eq_true, if_false]
      rw [compareNumerals_eq, withoutLeadingZeros_of_not_isFraction hfa,
        withoutLeadingZeros_of_not_isFraction hfb]

theorem compareLater_eq {as bs : List Text} (ha : ∀ a ∈ as, IsNumeral a)
    (hb : ∀ b ∈ bs, IsNumeral b) :
    compareLater as bs =
      List.compareLex componentOrder (as.map keyComponent) (bs.map keyComponent) := by
  induction as generalizing bs with
  | nil => cases bs <;> rfl
  | cons a as ih =>
    cases bs with
    | nil => rfl
    | cons b bs =>
      simp only [List.mem_cons, forall_eq_or_imp] at ha hb
      rw [compareLater, List.map_cons, List.map_cons, List.compareLex_cons_cons,
        compareComponent_eq ha.1 hb.1, ih ha.2 hb.2]

/-! ### Suffixes are ordered by their places -/

/-- The place of a suffix, or of the end of the suffixes, which is after `_rc` and before `_p`. -/
def suffixPlace : Option Suffix → Nat × Nat
  | none => (SuffixKind.patch.rank, 0)
  | some s => (if s.kind = .patch then SuffixKind.patch.rank + 1 else s.kind.rank, s.number)

def placeOrder : Nat × Nat → Nat × Nat → Ordering :=
  compareLex (compareOn fun p => p.1) (compareOn fun p => p.2)

instance : Std.TransCmp placeOrder := by
  unfold placeOrder
  infer_instance

def suffixPlaces (ss : List Suffix) : List (Nat × Nat) := (ss.map some ++ [none]).map suffixPlace

theorem compareSuffix_eq (a b : Suffix) :
    compareSuffix a b = placeOrder (suffixPlace (some a)) (suffixPlace (some b)) := by
  obtain ⟨ka, na⟩ := a
  obtain ⟨kb, nb⟩ := b
  cases ka <;> cases kb <;> rfl

theorem placeOrder_end_suffix (b : Suffix) :
    placeOrder (suffixPlace none) (suffixPlace (some b)) = if b.kind = .patch then .lt else .gt := by
  obtain ⟨k, n⟩ := b
  cases k <;> rfl

theorem placeOrder_suffix_end (a : Suffix) :
    placeOrder (suffixPlace (some a)) (suffixPlace none) = if a.kind = .patch then .gt else .lt := by
  obtain ⟨k, n⟩ := a
  cases k <;> rfl

theorem suffixPlaces_cons (a : Suffix) (ss : List Suffix) :
    suffixPlaces (a :: ss) = suffixPlace (some a) :: suffixPlaces ss := rfl

/- The end of a list has a place like any suffix, so that a further suffix is compared with it. -/
theorem compareSuffixes_eq (as bs : List Suffix) :
    compareSuffixes as bs = List.compareLex placeOrder (suffixPlaces as) (suffixPlaces bs) := by
  induction as generalizing bs with
  | nil =>
    cases bs with
    | nil => rfl
    | cons b bs =>
      have h : suffixPlaces [] = [suffixPlace none] := rfl
      rw [h, suffixPlaces_cons, List.compareLex_cons_cons, placeOrder_end_suffix, compareSuffixes]
      split <;> rfl
  | cons a as ih =>
    cases bs with
    | nil =>
      have h : suffixPlaces [] = [suffixPlace none] := rfl
      rw [h, suffixPlaces_cons, List.compareLex_cons_cons, placeOrder_suffix_end, compareSuffixes]
      split <;> rfl
    | cons b bs =>
      rw [suffixPlaces_cons, suffixPlaces_cons, List.compareLex_cons_cons, compareSuffixes,
        compareSuffix_eq, ih]

/-! ### Versions are compared part by part -/

theorem order_eq_then (a b : Version) :
    order a b = (compareNumerals a.first b.first).then
      ((compareLater a.later b.later).then
        ((compare a.letter b.letter).then
          ((compareSuffixes a.suffixes b.suffixes).then (compare a.revision b.revision)))) := by
  simp only [order, compareBase, Ordering.then_assoc]

/-! ### Versions are ordered by their keys -/

def Key.baseOrder : Key → Key → Ordering :=
  compareLex (fun j k => digitsOrder j.first k.first) <|
  compareLex (fun j k => List.compareLex componentOrder j.later k.later) <|
  compareLex (compareOn Key.letter)
    (fun j k => List.compareLex placeOrder (suffixPlaces j.suffixes) (suffixPlaces k.suffixes))

def Key.order : Key → Key → Ordering := compareLex Key.baseOrder (compareOn Key.revision)

theorem transCmp_comap {α β : Type} (f : α → β) (cmp : β → β → Ordering) [Std.TransCmp cmp] :
    Std.TransCmp fun a b => cmp (f a) (f b) where
  eq_swap {a b} := (Std.OrientedCmp.eq_swap : cmp (f a) (f b) = (cmp (f b) (f a)).swap)
  isLE_trans hab hbc := Std.TransCmp.isLE_trans hab hbc

instance : Std.TransCmp Key.baseOrder := by
  have hfirst := transCmp_comap Key.first digitsOrder
  have hlater := transCmp_comap Key.later (List.compareLex componentOrder)
  have hsuffixes := transCmp_comap (fun k : Key => suffixPlaces k.suffixes)
    (List.compareLex placeOrder)
  unfold Key.baseOrder
  infer_instance

instance : Std.TransCmp Key.order := by
  unfold Key.order
  infer_instance

theorem compareBase_eq (a b : Version) : compareBase a b = Key.baseOrder a.key b.key := by
  have ha := fun w hw => isNumeral_of_mem_components a w (List.mem_cons_of_mem a.first hw)
  have hb := fun w hw => isNumeral_of_mem_components b w (List.mem_cons_of_mem b.first hw)
  rw [compareBase, compareNumerals_eq, compareLater_eq ha hb, compareSuffixes_eq]
  rfl

theorem order_eq (a b : Version) : order a b = Key.order a.key b.key := by
  rw [order, compareBase_eq]
  rfl

instance : Std.TransCmp compareBase := by
  rw [show compareBase = fun a b => Key.baseOrder a.key b.key from funext fun a => funext (compareBase_eq a)]
  exact transCmp_comap key Key.baseOrder

instance : Std.TransCmp order := by
  rw [show order = fun a b => Key.order a.key b.key from funext fun a => funext (order_eq a)]
  exact transCmp_comap key Key.order

/- Any three texts that are read as versions, with whatever mixture of fractions and numbers, letters
and suffixes. -/
theorem order_isTotalPreorder (a b c : Version) :
    order a a = .eq ∧ order b a = (order a b).swap ∧
      ((order a b).isLE → (order b c).isLE → (order a c).isLE) ∧
      (order a b = .eq → order b a = .eq) ∧
      (order a b = .eq → order b c = .eq → order a c = .eq) ∧
      (order a b = .eq → order a c = order b c) :=
  ⟨Std.ReflCmp.compare_self, Std.OrientedCmp.eq_swap, Std.TransCmp.isLE_trans,
    Std.OrientedCmp.eq_symm, Std.TransCmp.eq_trans, Std.TransCmp.congr_left⟩

end PackagePolicy.Version
