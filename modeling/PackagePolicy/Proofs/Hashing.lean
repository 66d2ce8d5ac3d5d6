import PackagePolicy.HashValue
import PackagePolicy.Proofs.Atom.EqualVersions

/-!
# Hashing and equality

Versions are compared part by part, and how two components compare depends on both of them, while a hasher
is fed each version by itself. The normal forms that it is fed are the same exactly for equal versions, and
nothing is lost in the sequence of values. Main statement: `hashValues_eq_iff`.
-/

namespace PackagePolicy

/-! ### Equal versions have one normal form -/

namespace Version

instance : Std.LawfulEqCmp digitsOrder where
  eq_of_compare h := Std.LawfulEqCmp.eq_of_compare (Ordering.then_eq_eq.mp h).2

instance : Std.LawfulEqCmp componentOrder where
  eq_of_compare {a b} h := by
    obtain ⟨hmark, hrest⟩ := Ordering.then_eq_eq.mp h
    obtain ⟨_, htext⟩ := Ordering.then_eq_eq.mp hrest
    have hmark : (!a.1) = (!b.1) := Std.LawfulEqCmp.eq_of_compare hmark
    exact Prod.ext (Bool.not_inj hmark) (Std.LawfulEqCmp.eq_of_compare htext)

instance : Std.LawfulEqCmp placeOrder where
  eq_of_compare h :=
    have ⟨hfirst, hsecond⟩ := Ordering.then_eq_eq.mp h
    Prod.ext (Std.LawfulEqCmp.eq_of_compare hfirst) (Std.LawfulEqCmp.eq_of_compare hsecond)

theorem suffixPlace_injective : Function.Injective suffixPlace := by
  intro a b h
  rcases a with _ | ⟨_ | _ | _ | _ | _, m⟩ <;> rcases b with _ | ⟨_ | _ | _ | _ | _, n⟩ <;> cases h <;> rfl

theorem suffixPlaces_injective : Function.Injective suffixPlaces := by
  intro as bs h
  have hplaces := (List.map_inj_right fun _ _ hab => suffixPlace_injective hab).mp h
  exact (List.map_inj_right fun _ _ hab => Option.some.inj hab).mp (List.append_cancel_right hplaces)

theorem Key.order_eq_eq_iff {j k : Key} : j.order k = .eq ↔ j = k := by
  have horder : j.order k = ((digitsOrder j.first k.first).then
      ((List.compareLex componentOrder j.later k.later).then ((compare j.letter k.letter).then
        (List.compareLex placeOrder (suffixPlaces j.suffixes) (suffixPlaces k.suffixes))))).then
          (compare j.revision k.revision) := rfl
  rw [horder]
  simp only [Ordering.then_eq_eq, Std.LawfulEqCmp.compare_eq_iff_eq, suffixPlaces_injective.eq_iff]
  cases j
  cases k
  rw [Key.mk.injEq, and_assoc, and_assoc, and_assoc]

/- The order of versions is an order of keys, so that versions are equal when their keys are the same. -/
theorem key_eq_iff {v w : Version} : v.key = w.key ↔ (v == w) = true := by
  rw [beq_iff, order_eq, Key.order_eq_eq_iff]

end Version

theorem Atom.key_eq_iff {a b : Atom} : a.key = b.key ↔ (a == b) = true := by
  have hversion : a.version.map Version.key = b.version.map Version.key ↔
      (a.version == b.version) = true := by
    cases a.version <;> cases b.version <;> simp [Version.key_eq_iff]
  have hbeq : (a == b) = (a.operator == b.operator && (a.category == b.category && (a.name == b.name &&
      (a.version == b.version && (a.slot == b.slot && (a.subslot == b.subslot &&
        (a.repository == b.repository && a.useDeps == b.useDeps))))))) := rfl
  rw [hbeq, key, key]
  simp only [Prod.mk.injEq, Bool.and_eq_true, beq_iff_eq, hversion]

instance : EquivBEq Atom where
  rfl := Atom.key_eq_iff.mp rfl
  symm h := Atom.key_eq_iff.mp (Atom.key_eq_iff.mpr h).symm
  trans h h' := Atom.key_eq_iff.mp ((Atom.key_eq_iff.mpr h).trans (Atom.key_eq_iff.mpr h'))

/-! ### No value runs into the next one -/

namespace HashValue
variable {α : Type} {f : α → List HashValue} {s t : List HashValue}

/-- The values tell of what they are and where they end. -/
def IsSelfDelimiting (f : α → List HashValue) : Prop :=
  ∀ ⦃a b s t⦄, f a ++ s = f b ++ t → a = b ∧ s = t

theorem IsSelfDelimiting.eq_iff (hf : IsSelfDelimiting f) {a b : α} : f a = f b ↔ a = b := by
  refine ⟨fun h => (hf (s := []) (t := []) ?_).1, congrArg f⟩
  rw [h]

theorem isSelfDelimiting_singleton {g : α → HashValue} (hg : Function.Injective g) :
    IsSelfDelimiting fun a => [g a] := by
  intro a b s t h
  obtain ⟨hhead, htail⟩ := List.cons.inj h
  exact ⟨hg hhead, htail⟩

theorem IsSelfDelimiting.ofOption (hf : IsSelfDelimiting f) : IsSelfDelimiting (ofOption f) := by
  intro a b s t h
  cases a with
  | none =>
    cases b with
    | none => exact ⟨rfl, (List.cons.inj h).2⟩
    | some b => cases (List.cons.inj h).1
  | some a =>
    cases b with
    | none => cases (List.cons.inj h).1
    | some b =>
      obtain ⟨rfl, hrest⟩ := hf (List.cons.inj h).2
      exact ⟨rfl, hrest⟩

theorem IsSelfDelimiting.flatMap (hf : IsSelfDelimiting f) {as bs : List α}
    (hlength : as.length = bs.length) (h : as.flatMap f ++ s = bs.flatMap f ++ t) : as = bs ∧ s = t := by
  induction as generalizing bs with
  | nil =>
    cases List.eq_nil_of_length_eq_zero hlength.symm
    exact ⟨rfl, h⟩
  | cons a as ih =>
    cases bs with
    | nil => cases hlength
    | cons b bs =>
      rw [List.flatMap_cons, List.flatMap_cons, List.append_assoc, List.append_assoc] at h
      obtain ⟨rfl, hrest⟩ := hf h
      obtain ⟨rfl, hend⟩ := ih (Nat.succ.inj hlength) hrest
      exact ⟨rfl, hend⟩

theorem IsSelfDelimiting.ofList (hf : IsSelfDelimiting f) : IsSelfDelimiting (ofList f) := by
  intro as bs s t h
  obtain ⟨hlength, hrest⟩ := List.cons.inj h
  exact hf.flatMap (HashValue.length.inj hlength) hrest

theorem ofOption_map {β : Type} (g : β → α) (o : Option β) :
    ofOption f (o.map g) = ofOption (fun b => f (g b)) o := by
  cases o <;> rfl

/- An optional part begins with no flag. -/
theorem head?_ofOption_append (f : α → List HashValue) (o : Option α) (s : List HashValue) (b : Bool) :
    (ofOption f o ++ s).head? ≠ some (.flag b) := by
  cases o <;> nofun

end HashValue

open HashValue

/-! ### Sequences of values -/

theorem Suffix.isSelfDelimiting_hashValues : IsSelfDelimiting Suffix.hashValues := by
  intro x y s t h
  obtain ⟨kind, number⟩ := x
  obtain ⟨kind', number'⟩ := y
  obtain ⟨hkind, hrest⟩ := List.cons.inj h
  obtain ⟨hnumber, hend⟩ := List.cons.inj hrest
  refine ⟨?_, hend⟩
  cases hnumber
  cases kind <;> cases kind' <;> cases hkind <;> rfl

namespace Version

/- The number of later components is not fed, but after the last of them there is no flag. -/
theorem later_eq_of_append_eq {as bs : List (Bool × Text)} {s t : List HashValue}
    (hs : ∀ b, s.head? ≠ some (.flag b)) (ht : ∀ b, t.head? ≠ some (.flag b))
    (h : as.flatMap componentHashValues ++ s = bs.flatMap componentHashValues ++ t) :
    as = bs ∧ s = t := by
  induction as generalizing bs with
  | nil =>
    cases bs with
    | nil => exact ⟨rfl, h⟩
    | cons b bs =>
      have hhead : s.head? = some (.flag b.1) := congrArg List.head? h
      exact absurd hhead (hs b.1)
  | cons a as ih =>
    cases bs with
    | nil =>
      have hhead : t.head? = some (.flag a.1) := congrArg List.head? h.symm
      exact absurd hhead (ht a.1)
    | cons b bs =>
      obtain ⟨hmark, h⟩ := List.cons.inj h
      obtain ⟨htext, h⟩ := List.cons.inj h
      obtain ⟨rfl, hend⟩ := ih h
      have hcomponent : a = b := Prod.ext (HashValue.flag.inj hmark) (HashValue.text.inj htext)
      exact ⟨congrArg (· :: as) hcomponent, hend⟩

theorem Key.isSelfDelimiting_hashValues : IsSelfDelimiting Key.hashValues := by
  intro j k s t h
  obtain ⟨first, later, letter, suffixes, revision⟩ := j
  obtain ⟨first', later', letter', suffixes', revision'⟩ := k
  simp only [hashValues, List.cons_append, List.append_assoc] at h
  obtain ⟨hfirst, h⟩ := List.cons.inj h
  obtain ⟨hlater, h⟩ := later_eq_of_append_eq (head?_ofOption_append _ _ _) (head?_ofOption_append _ _ _) h
  obtain ⟨hletter, h⟩ := (isSelfDelimiting_singleton fun _ _ => HashValue.char.inj).ofOption h
  obtain ⟨hsuffixes, h⟩ := Suffix.isSelfDelimiting_hashValues.ofList h
  obtain ⟨hrevision, h⟩ := List.cons.inj h
  refine ⟨?_, h⟩
  rw [HashValue.text.inj hfirst, hlater, hletter, hsuffixes, HashValue.number.inj hrevision]

theorem hashValues_eq_iff_key_eq {v w : Version} : v.hashValues = w.hashValues ↔ v.key = w.key :=
  Key.isSelfDelimiting_hashValues.eq_iff

end Version

theorem UseDep.isSelfDelimiting_hashValues : IsSelfDelimiting UseDep.hashValues := by
  intro d e s t h
  obtain ⟨flag, enabled, default, conditional⟩ := d
  obtain ⟨flag', enabled', default', conditional'⟩ := e
  simp only [hashValues, List.cons_append, List.append_assoc] at h
  obtain ⟨hflag, h⟩ := List.cons.inj h
  obtain ⟨henabled, h⟩ := List.cons.inj h
  obtain ⟨hdefault, h⟩ := (isSelfDelimiting_singleton fun _ _ => HashValue.flag.inj).ofOption h
  obtain ⟨hconditional, h⟩ := List.cons.inj h
  refine ⟨?_, h⟩
  rw [HashValue.text.inj hflag, HashValue.flag.inj henabled, hdefault, HashValue.flag.inj hconditional]

theorem Operator.index_injective : Function.Injective Operator.index := by
  intro a b h
  cases a <;> cases b <;> first | rfl | cases h

namespace Atom

theorem hashValues_eq_iff_key_eq {a b : Atom} : a.hashValues = b.hashValues ↔ a.key = b.key := by
  have hform (v : Option Version) :
      HashValue.ofOption Version.hashValues v = HashValue.ofOption Version.Key.hashValues (v.map Version.key) :=
    (ofOption_map Version.key v).symm
  constructor
  · intro h
    simp only [hashValues, hform] at h
    obtain ⟨hoperator, h⟩ := List.cons.inj h
    obtain ⟨hcategory, h⟩ := List.cons.inj h
    obtain ⟨hname, h⟩ := List.cons.inj h
    obtain ⟨hversion, h⟩ := Version.Key.isSelfDelimiting_hashValues.ofOption h
    have htext := isSelfDelimiting_singleton fun _ _ => HashValue.text.inj
    obtain ⟨hslot, h⟩ := htext.ofOption h
    obtain ⟨hsubslot, h⟩ := htext.ofOption h
    obtain ⟨hrepository, h⟩ := htext.ofOption h
    have huse := UseDep.isSelfDelimiting_hashValues.ofList.eq_iff.mp h
    rw [key, key, Operator.index_injective (HashValue.variant.inj hoperator),
      HashValue.text.inj hcategory, HashValue.text.inj hname, hversion, hslot, hsubslot, hrepository, huse]
  · intro h
    simp only [key, Prod.mk.injEq] at h
    obtain ⟨hoperator, hcategory, hname, hversion, hslot, hsubslot, hrepository, huse⟩ := h
    simp only [hashValues, hform, hoperator, hcategory, hname, hversion, hslot, hsubslot, hrepository, huse]

end Atom

/- Whatever mixture of fractions and numbers the components are. -/
theorem hashValues_eq_iff :
    (∀ v w : Version, v.hashValues = w.hashValues ↔ (v == w) = true) ∧
      ∀ a b : Atom, a.hashValues = b.hashValues ↔ (a == b) = true :=
  ⟨fun _ _ => Version.hashValues_eq_iff_key_eq.trans Version.key_eq_iff,
    fun _ _ => Atom.hashValues_eq_iff_key_eq.trans Atom.key_eq_iff⟩

example : ((["1.0", "1.00", "01.0", "1.0-r0", "1.1", "1"].filterMap fun s => Version.parse? s.toList).map
    Version.hashValues).eraseDups.length = 3 := by decide +kernel

end PackagePolicy
