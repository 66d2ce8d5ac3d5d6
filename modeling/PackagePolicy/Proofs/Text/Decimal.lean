import Mathlib.Data.List.Induction
import Mathlib.Data.Nat.Digits.Defs
import PackagePolicy.Text.Digit

/-!
# Values of numerals

A numeral of ASCII digits is written with its highest digit first. So its value is that of its first
digit, at the place that the length of the rest gives it, and the value of the rest, which is smaller.
-/

namespace PackagePolicy.Text

/-! ### Digits -/

theorem isDigit_iff {c : Char} :
    isDigit c = true ↔ ∃ z ∈ zeroDigits, z ≤ c.toNat ∧ c.toNat < z + 10 := by
  simp only [isDigit, List.any_eq_true, Bool.and_eq_true, decide_eq_true_eq]

theorem isAsciiDigit_iff {c : Char} : isAsciiDigit c = true ↔ 48 ≤ c.toNat ∧ c.toNat ≤ 57 := by
  rw [isAsciiDigit, Bool.and_eq_true, decide_eq_true_eq, decide_eq_true_eq, Char.le_def, Char.le_def,
    UInt32.le_iff_toNat_le, UInt32.le_iff_toNat_le]
  rfl

theorem isDigit_of_isAsciiDigit {c : Char} (h : isAsciiDigit c = true) : isDigit c = true := by
  obtain ⟨hlow, hhigh⟩ := isAsciiDigit_iff.mp h
  have hlt : c.toNat < 48 + 10 := by omega
  exact isDigit_iff.mpr ⟨48, by decide, hlow, hlt⟩

def digitValue (c : Char) : Nat := c.toNat - '0'.toNat

theorem toNat_of_isAsciiDigit {c : Char} (h : isAsciiDigit c = true) :
    c.toNat = 48 + digitValue c ∧ digitValue c < 10 := by
  obtain ⟨hlow, hhigh⟩ := isAsciiDigit_iff.mp h
  have hvalue : digitValue c = c.toNat - 48 := rfl
  omega

theorem digitValue_lt {c : Char} (h : isAsciiDigit c = true) : digitValue c < 10 :=
  (toNat_of_isAsciiDigit h).2

theorem digitValue_inj {c d : Char} (hc : isAsciiDigit c = true) (hd : isAsciiDigit d = true) :
    digitValue c = digitValue d ↔ c = d := by
  have hc := (toNat_of_isAsciiDigit hc).1
  have hd := (toNat_of_isAsciiDigit hd).1
  rw [← Char.toNat_inj]
  omega

theorem compare_digitValue {c d : Char} (hc : isAsciiDigit c = true) (hd : isAsciiDigit d = true) :
    compare (digitValue c) (digitValue d) = compare c d := by
  have heq := digitValue_inj hc hd
  have hlt : digitValue c < digitValue d ↔ c < d := by
    have hc := (toNat_of_isAsciiDigit hc).1
    have hd := (toNat_of_isAsciiDigit hd).1
    show _ ↔ c.toNat < d.toNat
    omega
  show compareOfLessAndEq _ _ = compareOfLessAndEq _ _
  simp only [compareOfLessAndEq, hlt, heq]

theorem digitValue_pos {c : Char} (h : isAsciiDigit c = true) (hc : c ≠ '0') : 0 < digitValue c := by
  apply Nat.pos_of_ne_zero
  intro hzero
  exact hc ((digitValue_inj h (by decide)).mp hzero)

theorem utf8Length_eq_length {s : Text} (h : ∀ c ∈ s, isAsciiDigit c = true) :
    utf8Length s = s.length := by
  induction s with
  | nil => rfl
  | cons c s ih =>
    rw [List.forall_mem_cons] at h
    have hsize : c.utf8Size = 1 := by
      have hvalue := toNat_of_isAsciiDigit h.1
      rw [Char.utf8Size_eq_one_iff, UInt32.le_iff_toNat_le]
      show c.toNat ≤ 127
      omega
    rw [utf8Length, hsize, ih h.2, List.length_cons, Nat.add_comm]

/-! ### Numerals -/

theorem decimalValue_eq_ofDigits (s : Text) :
    decimalValue s = Nat.ofDigits 10 (s.map digitValue).reverse := by
  rw [Nat.ofDigits_eq_foldr, ← List.map_reverse, List.foldr_map, List.foldr_reverse]
  show s.foldl (fun n c => 10 * n + digitValue c) 0 = _
  simp only [Nat.cast_id, Nat.add_comm]

theorem decimalValue_cons (c : Char) (s : Text) :
    decimalValue (c :: s) = digitValue c * 10 ^ s.length + decimalValue s := by
  rw [decimalValue_eq_ofDigits, decimalValue_eq_ofDigits, List.map_cons, Nat.ofDigits_reverse_cons,
    List.length_map, Nat.mul_comm, Nat.add_comm]

theorem decimalValue_lt {s : Text} (h : ∀ c ∈ s, isAsciiDigit c = true) :
    decimalValue s < 10 ^ s.length := by
  have hdigits : ∀ n ∈ (s.map digitValue).reverse, n < 10 := by
    intro n hn
    rw [List.mem_reverse, List.mem_map] at hn
    obtain ⟨c, hc, rfl⟩ := hn
    exact digitValue_lt (h c hc)
  have hlt := Nat.ofDigits_lt_base_pow_length (by decide) hdigits
  rwa [← decimalValue_eq_ofDigits, List.length_reverse, List.length_map] at hlt

theorem decimalValue_concat (s : Text) (c : Char) :
    decimalValue (s ++ [c]) = 10 * decimalValue s + digitValue c := by
  rw [decimalValue, List.foldl_append]
  rfl

theorem digitChar_digitValue {c : Char} (h : isAsciiDigit c = true) : (digitValue c).digitChar = c := by
  obtain ⟨hc, hlt⟩ := toNat_of_isAsciiDigit h
  rw [← Char.toNat_inj, Nat.toNat_digitChar_of_lt_ten hlt, hc]

/- A numeral is that of its value, with zeros before it. -/
theorem exists_eq_replicate_append_ofNat {s : Text} (hne : s ≠ []) (h : ∀ c ∈ s, isAsciiDigit c = true) :
    ∃ zeros, s = List.replicate zeros '0' ++ ofNat (decimalValue s) := by
  induction s using List.reverseRecOn with
  | nil => exact absurd rfl hne
  | append_singleton front c ih =>
    rw [List.forall_mem_append, List.forall_mem_singleton] at h
    have hlast : ofNat (digitValue c) = [c] := by
      rw [ofNat, Nat.toDigits_of_lt_base (digitValue_lt h.2), digitChar_digitValue h.2]
    rw [decimalValue_concat]
    by_cases hfront : front = []
    · subst hfront
      have hzero : decimalValue [] = 0 := rfl
      exact ⟨0, by rw [hzero, Nat.mul_zero, Nat.zero_add, hlast]; rfl⟩
    · obtain ⟨zeros, heq⟩ := ih hfront h.1
      rcases Nat.eq_zero_or_pos (decimalValue front) with hzero | hpos
      · -- the front is a zero behind zeros
        have hzeros : front = List.replicate (zeros + 1) '0' := by
          rw [List.replicate_succ', heq, hzero]
          rfl
        exact ⟨zeros + 1, by rw [hzero, Nat.mul_zero, Nat.zero_add, hlast, ← hzeros]⟩
      · have hdigits : ofNat (10 * decimalValue front + digitValue c) = ofNat (decimalValue front) ++ [c] := by
          rw [← hlast]
          exact (Nat.toDigits_append_toDigits (by decide) hpos (digitValue_lt h.2)).symm
        exact ⟨zeros, by rw [hdigits, ← List.append_assoc, ← heq]⟩

/-! ### Numbers of 64 bits -/

/-- A numeral, however many zeros it begins with, and the number of 64 bits that it denotes. -/
structure Denotes (s : Text) (n : Nat) : Prop where
  ne_nil : s ≠ []
  digits : ∀ c ∈ s, isAsciiDigit c = true
  value : decimalValue s = n
  lt : n < 2 ^ 64

theorem decimal64_eq_some_iff {s : Text} {n : Nat} : decimal64 s = some n ↔ Denotes s n := by
  unfold decimal64 decimalBelow
  constructor
  · intro h
    split at h
    · cases h
    next hdigits =>
      rw [Bool.or_eq_true, not_or, Bool.not_eq_true', Bool.not_eq_false, List.isEmpty_iff] at hdigits
      split at h
      next hlt =>
        cases h
        exact ⟨hdigits.1, List.all_eq_true.mp hdigits.2, rfl, hlt⟩
      · cases h
  · intro h
    have hempty : s.isEmpty = false := List.isEmpty_eq_false_iff.mpr h.ne_nil
    have hdigits : s.all isAsciiDigit = true := List.all_eq_true.mpr h.digits
    rw [hempty, hdigits, h.value]
    exact if_pos h.lt

theorem decimal64_eq_none_iff {s : Text} (hne : s ≠ []) :
    decimal64 s = none ↔ ¬ ((∀ c ∈ s, isAsciiDigit c = true) ∧ decimalValue s < 2 ^ 64) := by
  rw [← not_iff_not, not_not, ← ne_eq, Option.ne_none_iff_exists']
  simp only [decimal64_eq_some_iff]
  constructor
  · intro h
    obtain ⟨n, h⟩ := h
    exact ⟨h.digits, h.value ▸ h.lt⟩
  · intro h
    exact ⟨decimalValue s, hne, h.1, rfl, h.2⟩

/-- A number behind a lead; it counts as 0 where neither is written. -/
inductive OptionalNumber (lead : Text) : Text → Nat → Prop
  | absent : OptionalNumber lead [] 0
  | written {s : Text} {n : Nat} : Denotes s n → OptionalNumber lead (lead ++ s) n

theorem OptionalNumber.mem {lead s : Text} {n : Nat} (h : OptionalNumber lead s n) :
    ∀ c ∈ s, c ∈ lead ∨ isAsciiDigit c = true := by
  cases h with
  | absent => nofun
  | written h => exact fun c hc => (List.mem_append.mp hc).imp_right (h.digits c)

end PackagePolicy.Text
