import PackagePolicy.Proofs.PackageSet.References
import PackagePolicy.Proofs.Text.Cuts

/-!
# Names of sets

The names that a scope lists are those of all its sets, whatever they look like, while a name is read before it is
looked up. What can be opened is therefore listed, and what is listed can be opened unless its name is malformed. Main
statements: `opens_iff_listed`, and `exists_mem_names_not_opens` on a set whose name has a blank in it.
-/

namespace PackagePolicy

theorem SetName.eq_of_text_eq {a b : SetName} (h : a.text = b.text) : a = b := by
  cases a
  cases b
  cases h
  rfl

theorem SetName.parse_eq_ok_iff {text : Text} {name : SetName} :
    parse text = .ok name ↔ name.text = Text.dropLead '@' text := by
  unfold parse
  split
  next hread =>
    rw [Except.ok.injEq]
    constructor
    · rintro rfl
      rfl
    · intro h
      exact (eq_of_text_eq h).symm
  next hread =>
    constructor
    · intro h
      cases h
    · intro h
      refine absurd ?_ hread
      rw [← h]
      exact name.wellFormed

theorem SetName.parse_eq_error {text : Text} (h : isSetName (Text.dropLead '@' text) = false) :
    parse text = .error (.setName (Text.dropLead '@' text)) :=
  dif_neg (Bool.eq_false_iff.mp h)

namespace SetScope
open Text
variable {s : SetScope} {n : Text}

/-! ### What is listed -/

theorem mem_names_iff : n ∈ s.names ↔ n = everythingName ∨ n = systemName ∨ ∃ set ∈ s.sets, set.name = n := by
  rw [names, List.mem_eraseDups, sorted, List.mem_mergeSort, List.mem_cons, List.mem_cons, List.mem_map]

theorem isSome_meaning?_iff {name : SetName} : (s.meaning? name).isSome = true ↔ name.text ∈ s.names := by
  rw [mem_names_iff, meaning?]
  split
  next h => exact iff_of_true rfl (.inl h)
  next heverything =>
    split
    next h => exact iff_of_true rfl (.inr (.inl h))
    next hsystem =>
      rw [or_iff_right heverything, or_iff_right hsystem, ← find?_eq_listed?, Option.isSome_map, find?,
        List.find?_isSome]
      simp only [beq_iff_eq]

/-! ### What is opened -/

/-- The error is about a reference of a set that is reached from the name: what it says is malformed, or names no
set, or lies on a cycle. -/
inductive IsReferenceError (s : SetScope) (name : SetName) : Error → Prop
  | malformed {m : SetName} {set : PackageSet} {reference : Text} {e : Error} (hm : s.Reaches name m)
      (hset : s.meaning? m = some (.listed set)) (hreference : reference ∈ set.references)
      (h : SetName.parse reference = .error e) : IsReferenceError s name e
  | unknown {m b : SetName} (hm : s.Reaches name m) (hb : s.Refers m b) (h : s.meaning? b = none) :
      IsReferenceError s name (.setName b.text)
  | cyclic {m b : SetName} {way : List Text} (hm : s.Reaches name m) (hb : s.Refers m b) (h : s.OnCycle b) :
      IsReferenceError s name (.setCycle b.text way)

/-- Resolving gets as far as the references of the set: there is a tree, or an error about a reference. -/
def Opens (s : SetScope) (n : Text) : Prop :=
  (∃ tree, s.resolve n = .ok tree) ∨
    ∃ name e, SetName.parse n = .ok name ∧ s.IsReferenceError name e ∧ s.resolve n = .error e

theorem IsReferenceError.of_refers {a b : SetName} {e : Error} (hb : s.Refers a b)
    (h : s.IsReferenceError b e) : s.IsReferenceError a e := by
  have hreaches (m : SetName) (hm : s.Reaches b m) : s.Reaches a m := reaches_iff.mpr (.inr ⟨b, hb, hm⟩)
  cases h with
  | malformed hm hset hreference h => exact .malformed (hreaches _ hm) hset hreference h
  | unknown hm hb h => exact .unknown (hreaches _ hm) hb h
  | cyclic hm hb h => exact .cyclic (hreaches _ hm) hb h

/- A name that stands for nothing has no references. -/
theorem not_isReferenceError_of_unknown {name : SetName} {e : Error} (h : s.meaning? name = none) :
    ¬ s.IsReferenceError name e := by
  have hrefers (b : SetName) : ¬ s.Refers name b := by
    rintro ⟨set, hset, _⟩
    rw [h] at hset
    cases hset
  have hreaches (m : SetName) (hm : s.Reaches name m) : name = m :=
    (reaches_iff.mp hm).resolve_right fun ⟨b, hb, _⟩ => hrefers b hb
  intro herror
  cases herror with
  | malformed hm hset =>
    rw [← hreaches _ hm, h] at hset
    cases hset
  | unknown hm hb => exact hrefers _ (hreaches _ hm ▸ hb)
  | cyclic hm hb => exact hrefers _ (hreaches _ hm ▸ hb)

theorem expand_eq_error_of_unknown {way : List Text} {name : SetName} (hnew : name.text ∉ way)
    (h : s.meaning? name = none) : s.expand way name = .error (.setName name.text) := by
  rw [expand_eq, if_neg hnew, h]

/- All names on the way reach the name at hand, so that a reference back onto the way closes a cycle. -/
theorem isReferenceError_of_expand {way : List Text} {name : SetName} {e : Error}
    (hway : ∀ w ∈ way, ∃ m : SetName, m.text = w ∧ s.Reaches m name) (hnew : name.text ∉ way)
    (hknown : s.meaning? name ≠ none) (h : s.expand way name = .error e) : s.IsReferenceError name e := by
  induction way, name using expand_induction (s := s) generalizing e with
  | step way name ih =>
    rw [expand_eq, if_neg hnew] at h
    cases hmeaning : s.meaning? name with
    | none => exact absurd hmeaning hknown
    | some meaning =>
      rw [hmeaning] at h
      cases meaning with
      | everything => cases h
      | system => cases h
      | listed set =>
        obtain h | ⟨trees, _, h⟩ := exists_of_bind_eq_error h
        · obtain ⟨reference, hreference, herror⟩ := exists_of_mapM_eq_error h
          obtain herror | ⟨b, hb, herror⟩ := exists_of_bind_eq_error herror
          · exact .malformed .refl hmeaning hreference herror
          · have hrefers : s.Refers name b := ⟨set, hmeaning, reference, hreference, hb⟩
            have hway' : ∀ w ∈ name.text :: way, ∃ m : SetName, m.text = w ∧ s.Reaches m name := by
              rw [List.forall_mem_cons]
              exact ⟨⟨name, rfl, .refl⟩, hway⟩
            by_cases hback : b.text ∈ name.text :: way
            · obtain ⟨m, hm, hreaches⟩ := hway' _ hback
              obtain rfl := SetName.eq_of_text_eq hm
              rw [expand_eq, if_pos hback] at herror
              cases herror
              exact .cyclic .refl hrefers (Relation.TransGen.tail' hreaches hrefers)
            · by_cases hb : s.meaning? b = none
              · rw [expand_eq_error_of_unknown hback hb] at herror
                cases herror
                exact .unknown .refl hrefers hb
              · refine .of_refers hrefers (ih set hnew hmeaning b ?_ hback hb herror)
                intro w hw
                obtain ⟨m, hm, hreaches⟩ := hway' w hw
                exact ⟨m, hm, hreaches.tail hrefers⟩
        · cases h

theorem resolve_of_parse {name : SetName} (h : SetName.parse n = .ok name) : s.resolve n = s.expand [] name := by
  rw [resolve, h]
  rfl

theorem opens_iff_known {name : SetName} (h : SetName.parse n = .ok name) :
    s.Opens n ↔ (s.meaning? name).isSome = true := by
  rw [Opens, resolve_of_parse h, Option.isSome_iff_ne_none]
  constructor
  · rintro (⟨tree, htree⟩ | ⟨name', e, hname', herror, _⟩) hunknown
    · rw [expand_eq_error_of_unknown List.not_mem_nil hunknown] at htree
      cases htree
    · cases h.symm.trans hname'
      exact not_isReferenceError_of_unknown hunknown herror
  · intro hknown
    cases hexpand : s.expand [] name with
    | ok tree => exact .inl ⟨tree, rfl⟩
    | error e =>
      exact .inr ⟨name, e, h, isReferenceError_of_expand (List.forall_mem_nil _) List.not_mem_nil hknown hexpand, rfl⟩

theorem not_opens_of_malformed (h : isSetName (dropLead '@' n) = false) : ¬ s.Opens n := by
  have hparse := SetName.parse_eq_error h
  rintro (⟨tree, htree⟩ | ⟨name, _, hname, _⟩)
  · rw [resolve, hparse] at htree
    cases htree
  · rw [hparse] at hname
    cases hname

theorem opens_iff : s.Opens n ↔ isSetName (dropLead '@' n) = true ∧ dropLead '@' n ∈ s.names := by
  cases hread : isSetName (dropLead '@' n) with
  | false => exact iff_of_false (not_opens_of_malformed hread) fun h => Bool.false_ne_true h.1
  | true =>
    have hparse : SetName.parse n = .ok ⟨dropLead '@' n, hread⟩ := SetName.parse_eq_ok_iff.mpr rfl
    rw [opens_iff_known hparse, isSome_meaning?_iff, eq_self, true_and]

theorem resolve_eq_of_not_opens (h : ¬ s.Opens n) : s.resolve n = .error (.setName (dropLead '@' n)) := by
  cases hread : isSetName (dropLead '@' n) with
  | false =>
    rw [resolve, SetName.parse_eq_error hread]
    rfl
  | true =>
    have hparse : SetName.parse n = .ok ⟨dropLead '@' n, hread⟩ := SetName.parse_eq_ok_iff.mpr rfl
    rw [opens_iff_known hparse, Bool.not_eq_true, Option.isSome_eq_false_iff, Option.isNone_iff_eq_none] at h
    rw [resolve_of_parse hparse, expand_eq_error_of_unknown List.not_mem_nil h]

theorem opens_iff_of_listed (h : n ∈ s.names) :
    s.Opens n ↔ isSetName n = true ∨ ∃ m ∈ s.names, n = '@' :: m ∧ isSetName m = true := by
  rw [opens_iff]
  by_cases hat : n.head? = some '@'
  · obtain ⟨m, rfl⟩ := List.head?_eq_some_iff.mp hat
    have hmalformed : isSetName ('@' :: m) = false := rfl
    rw [dropLead_cons, hmalformed]
    simp [and_comm]
  · have hno : ¬ ∃ m ∈ s.names, n = '@' :: m ∧ isSetName m = true := by
      rintro ⟨m, _, rfl, _⟩
      exact hat rfl
    rw [dropLead_of_head?_ne hat, or_iff_left hno, and_iff_left h]

/- What can be opened is listed. What is listed can be opened if its name is well-formed, or if it is so behind one
`@` and then is the name of another set; it is said to be no set otherwise. -/
theorem opens_iff_listed (s : SetScope) :
    (∀ n, s.Opens n ↔ isSetName (dropLead '@' n) = true ∧ dropLead '@' n ∈ s.names) ∧
      (∀ n ∈ s.names, s.Opens n ↔ isSetName n = true ∨ ∃ m ∈ s.names, n = '@' :: m ∧ isSetName m = true) ∧
      ∀ n, ¬ s.Opens n → s.resolve n = .error (.setName (dropLead '@' n)) :=
  ⟨fun _ => opens_iff, fun _ => opens_iff_of_listed, fun _ => resolve_eq_of_not_opens⟩

/-- Sets with all kinds of names; one refers to a set that does not exist, another to itself. -/
def namedScope : SetScope where
  database := .empty
  userSets := some ⟨[⟨"my editors".toList, [], []⟩, ⟨"@tools".toList, [], []⟩, ⟨"tools".toList, [], ["gone".toList]⟩,
    ⟨"loop".toList, [], ["@loop".toList]⟩]⟩

theorem opens_iff_listed_namedScope :
    (∀ n ∈ ["tools", "@tools", "loop", "my editors"], n.toList ∈ namedScope.names) ∧
      (∀ n ∈ ["tools", "@tools", "loop"], namedScope.Opens n.toList) ∧
      ¬ namedScope.Opens "my editors".toList ∧
      namedScope.resolve "my editors".toList = .error (.setName "my editors".toList) := by
  have hlisted : ∀ n ∈ ["tools", "@tools", "loop", "my editors"], n.toList ∈ namedScope.names := by
    simp only [mem_names_iff]
    decide
  obtain ⟨hopens, hopensListed, hfails⟩ := opens_iff_listed namedScope
  have hclosed : ¬ namedScope.Opens "my editors".toList := by
    rw [hopensListed _ (hlisted "my editors" (by decide))]
    rintro (hread | ⟨m, _, hm, _⟩)
    · cases hread
    · cases hm
  refine ⟨hlisted, ?_, hclosed, hfails _ hclosed⟩
  simp only [hopens, mem_names_iff]
  decide

theorem exists_mem_names_not_opens :
    ∃ s n, n ∈ names s ∧ resolve s n = .error (.setName n) ∧ ¬ Opens s n := by
  refine ⟨namedScope, "my editors".toList, ?_, rfl, not_opens_of_malformed rfl⟩
  rw [mem_names_iff]
  decide

end SetScope
end PackagePolicy
