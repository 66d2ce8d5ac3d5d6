import PackagePolicy.Atom.Parser
import PackagePolicy.Proofs.Lists
import PackagePolicy.Proofs.Version.Text

/-!
# How atoms are cut

An atom is read by a chain of cuts. Each cut is told by what it leaves on its two sides, and an atom is
read exactly when its text has such cuts (`parse_eq_ok_iff_cuts`).
-/

namespace PackagePolicy

/-! ### Operators -/

namespace Operator

/-- The operator that is written before an atom; the star of a text match is not part of it. -/
def withoutStar : Operator → Operator
  | .textStart => .equal
  | operator => operator

/-- The operator is the longest one in front of a text that goes on with the character. -/
def mayPrecede (c : Char) : Operator → Bool
  | .any => !(['<', '>', '~', '='].contains c)
  | .greater => c != '='
  | .less => c != '='
  | _ => true

theorem render_withoutStar (operator : Operator) : operator.withoutStar.render = operator.render := by
  cases operator <;> rfl

theorem mayPrecede_withoutStar (c : Char) (operator : Operator) :
    operator.withoutStar.mayPrecede c = operator.mayPrecede c := by
  cases operator <;> rfl

theorem withoutStar_ne_textStart (operator : Operator) : operator.withoutStar ≠ .textStart := by
  cases operator <;> decide

end Operator

namespace Atom
open Text

theorem head?_ne_iff {c : Char} {s : Text} :
    (∀ d ∈ s.head?, (d != c) = true) ↔ ∀ t, s ≠ c :: t := by
  cases s with
  | nil => exact iff_of_true nofun fun _ => nofun
  | cons d s => simp

theorem splitOperator_eq_iff {s rest : Text} {operator : Operator} :
    splitOperator s = (operator, rest) ↔
      operator ≠ .textStart ∧ s = operator.render ++ rest ∧
        ∀ c ∈ rest.head?, operator.mayPrecede c = true := by
  constructor
  · intro h
    unfold splitOperator at h
    split at h
    case h_3 s hequal =>
      cases h
      exact ⟨by decide, rfl, head?_ne_iff.mpr hequal⟩
    case h_4 s hequal =>
      cases h
      exact ⟨by decide, rfl, head?_ne_iff.mpr hequal⟩
    case h_7 hgreater hless htilde hequal =>
      cases h
      refine ⟨by decide, rfl, fun c hc => ?_⟩
      obtain ⟨t, rfl⟩ := List.head?_eq_some_iff.mp hc
      have hc : c ≠ '<' ∧ c ≠ '>' ∧ c ≠ '~' ∧ c ≠ '=' := by
        refine ⟨?_, ?_, ?_, ?_⟩
        · exact fun hc => hless t (hc ▸ rfl)
        · exact fun hc => hgreater t (hc ▸ rfl)
        · exact fun hc => htilde t (hc ▸ rfl)
        · exact fun hc => hequal t (hc ▸ rfl)
      simp [Operator.mayPrecede, hc]
    all_goals
      cases h
      exact ⟨by decide, rfl, fun _ _ => rfl⟩
  · intro h
    obtain ⟨hstar, rfl, hnext⟩ := h
    cases operator with
    | textStart => exact absurd rfl hstar
    | equal | greaterEqual | lessEqual | sameBase => rfl
    | greater => exact splitOperator.eq_3 rest (head?_ne_iff.mp hnext)
    | less => exact splitOperator.eq_4 rest (head?_ne_iff.mp hnext)
    | any =>
      show splitOperator rest = (.any, rest)
      unfold splitOperator
      split
      case h_7 => rfl
      all_goals cases hnext _ rfl

/-! ### Restrictions behind the version -/

theorem splitUse_eq_ok_iff {whole s before : Text} {deps : List UseDep} :
    splitUse whole s = .ok (deps, before) ↔
      ('[' ∉ s ∧ deps = [] ∧ s = before) ∨
        ∃ inside tail, s = before ++ '[' :: (inside ++ ']' :: tail) ∧ '[' ∉ before ∧ ']' ∉ before ∧
          ']' ∉ inside ∧ (inside.splitOn ',').mapM UseDep.parse = .ok deps := by
  unfold splitUse
  constructor
  · intro h
    split at h
    next hopen =>
      cases h
      exact .inl ⟨cut_eq_none_iff.mp hopen, rfl, rfl⟩
    next before' after hopen =>
      split at h
      · cases h
      next hclosed =>
        split at h
        · cases h
        next inside tail hclose =>
          obtain ⟨deps', hdeps, h⟩ := exists_of_bind_eq_ok h
          cases h
          obtain ⟨rfl, hbefore⟩ := cut_eq_some_iff.mp hopen
          obtain ⟨rfl, hinside⟩ := cut_eq_some_iff.mp hclose
          exact .inr ⟨inside, tail, rfl, hbefore, mt List.contains_iff_mem.mpr hclosed, hinside, hdeps⟩
  · intro h
    rcases h with ⟨hopen, rfl, rfl⟩ | ⟨inside, tail, rfl, hopen, hclosed, hinside, hdeps⟩
    · rw [cut_eq_none_iff.mpr hopen]
    · have hbefore : before.contains ']' = false :=
        Bool.eq_false_iff.mpr (mt List.contains_iff_mem.mp hclosed)
      simp only [cut_append_cons hopen, cut_append_cons hinside, hbefore, hdeps, Bool.false_eq_true,
        if_false]
      rfl

theorem splitRepository_eq_iff {s before : Text} {repository : Option Text} :
    splitRepository s = (repository, before) ↔
      s = before ++ renderPart [':', ':'] repository ∧
        ¬ [':', ':'] <:+: before ++ (if repository.isSome then [':'] else []) := by
  unfold splitRepository
  rw [toList_doubleColon]
  constructor
  · intro h
    split at h
    next before' repository' hcut =>
      cases h
      obtain ⟨hs, hnone⟩ := (cutAt_eq_some_iff (by decide)).mp hcut
      rw [List.append_assoc] at hs
      exact ⟨hs, hnone⟩
    next hcut =>
      cases h
      rw [renderPart, if_neg (by decide), List.append_nil]
      exact ⟨rfl, (cutAt_eq_none_iff (by decide)).mp hcut⟩
  · intro h
    obtain ⟨hs, hnone⟩ := h
    cases repository with
    | none =>
      rw [renderPart, List.append_nil] at hs
      rw [if_neg (by decide), List.append_nil, ← hs] at hnone
      rw [(cutAt_eq_none_iff (by decide)).mpr hnone, hs]
    | some repository =>
      have hcut : cutAt [':', ':'] s = some (before, repository) :=
        (cutAt_eq_some_iff (by decide)).mpr ⟨by rw [hs, List.append_assoc]; rfl, hnone⟩
      rw [hcut]

theorem splitSlot_eq_iff {s before : Text} {a : Atom} :
    splitSlot s = (a.slot, a.subslot, before) ↔
      s = before ++ a.renderSlot ∧ ':' ∉ before ∧ (∀ slot ∈ a.slot, '/' ∉ slot) ∧
        (a.slot = none → a.subslot = none) := by
  obtain ⟨_, _, _, _, slot, subslot, _, _⟩ := a
  unfold splitSlot renderSlot
  cases slot with
  | none =>
    constructor
    · intro h
      split at h
      next hcolon =>
        cases h
        exact ⟨(List.append_nil s).symm, cut_eq_none_iff.mp hcolon, nofun, fun _ => rfl⟩
      · split at h <;> cases h
    · intro h
      obtain ⟨hs, hcolon, _, hnone⟩ := h
      cases hnone rfl
      rw [hs, List.append_nil, cut_eq_none_iff.mpr hcolon]
  | some slot =>
    constructor
    · intro h
      split at h
      · cases h
      next before' slots hcolon =>
        obtain ⟨rfl, hbefore⟩ := cut_eq_some_iff.mp hcolon
        split at h
        next slot' subslot' hslash =>
          obtain ⟨rfl, hslot⟩ := cut_eq_some_iff.mp hslash
          cases h
          refine ⟨rfl, hbefore, fun t ht => ?_, nofun⟩
          cases ht
          exact hslot
        next hslash =>
          cases h
          refine ⟨congrArg _ (List.append_nil _).symm, hbefore, fun t ht => ?_, nofun⟩
          cases ht
          exact cut_eq_none_iff.mp hslash
    · intro h
      obtain ⟨rfl, hcolon, hslash, _⟩ := h
      have hslot : '/' ∉ slot := hslash slot rfl
      simp only [List.cons_append, cut_append_cons hcolon]
      cases subslot with
      | none => simp only [renderPart, List.append_nil, cut_eq_none_iff.mpr hslot]
      | some subslot =>
        simp only [renderPart, List.cons_append, List.nil_append, cut_append_cons hslot]

/-! ### Star, category, name and version -/

def star (operator : Operator) : Text := if operator = .textStart then ['*'] else []

theorem splitStar_equal (s : Text) :
    splitStar .equal s =
      match before? ['*'] s with
      | some body => (.textStart, body)
      | none => (.equal, s) := by
  unfold splitStar
  cases before? ['*'] s <;> rfl

theorem splitStar_of_ne {operator : Operator} (h : operator ≠ .equal) (s : Text) :
    splitStar operator s = (operator, s) := by
  cases operator <;> first | rfl | exact absurd rfl h

theorem splitStar_eq_iff {s body : Text} {written operator : Operator} (h : written ≠ .textStart) :
    splitStar written s = (operator, body) ↔
      written = operator.withoutStar ∧ s = body ++ star operator ∧
        (operator = .equal → ¬ ['*'] <:+ body) := by
  by_cases hequal : written = .equal
  · subst hequal
    rw [splitStar_equal]
    constructor
    · intro hsplit
      split at hsplit
      next body' hstar =>
        cases hsplit
        exact ⟨rfl, before?_eq_some_iff.mp hstar, nofun⟩
      next hstar =>
        cases hsplit
        exact ⟨rfl, (List.append_nil s).symm, fun _ => before?_eq_none_iff.mp hstar⟩
    · intro h
      obtain ⟨hwritten, rfl, hstar⟩ := h
      cases operator with
      | textStart => rw [star, if_pos rfl, before?_append]
      | equal =>
        rw [star, if_neg (by decide), List.append_nil, before?_eq_none_iff.mpr (hstar rfl)]
      | _ => cases hwritten
  · rw [splitStar_of_ne hequal, Prod.mk.injEq]
    have hsame : written = operator ↔ written = operator.withoutStar := by
      cases operator with
      | textStart => exact iff_of_false h hequal
      | _ => rfl
    rw [hsame]
    refine and_congr_right fun hwritten => ?_
    rw [← hsame] at hwritten
    subst hwritten
    rw [star, if_neg h, List.append_nil]
    exact (and_iff_left fun he => absurd he hequal).symm

/-- The version as it is written behind the name, with blanks after it. -/
def versionPart (version : Option Version) (gap : Text) : Text :=
  match version with
  | some v => '-' :: v.text ++ gap
  | none => []

/-- A version is written with an operator and read back from behind the name; without an operator the
name does not end like a version. -/
def VersionIsRead (operator : Operator) (name : Text) : Option Version → Prop
  | some v =>
    operator ≠ .any ∧ splitNameVersion (name ++ '-' :: v.text) = some (name, v.text)
  | none =>
    operator = .any ∧ ∀ p ∈ splitNameVersion name, Version.parse? p.2 = none

theorem splitVersion_eq_ok_iff {whole s name : Text} {operator : Operator} {version : Option Version} :
    splitVersion whole operator s = .ok (name, version) ↔
      VersionIsRead operator name version ∧ ∃ gap, IsBlanks gap ∧ s = name ++ versionPart version gap := by
  unfold splitVersion
  constructor
  · intro h
    split at h
    next hany =>
      split at h
      next name' w hsplit =>
        split at h
        · cases h
        next hv =>
          cases h
          refine ⟨⟨hany, ?_⟩, [], isBlanks_nil, (List.append_nil s).symm⟩
          intro p hp
          cases hsplit.symm.trans hp
          exact Option.not_isSome_iff_eq_none.mp hv
      next hsplit =>
        cases h
        refine ⟨⟨hany, ?_⟩, [], isBlanks_nil, (List.append_nil s).symm⟩
        intro p hp
        cases hsplit.symm.trans hp
    next hany =>
      split at h
      · cases h
      next name' w hsplit =>
        split at h
        next v hv =>
          cases h
          obtain ⟨gap, hgap, hs, hread⟩ := splitNameVersion_parse? hsplit hv
          exact ⟨⟨hany, hread⟩, gap, hgap, by rw [hs, List.append_assoc]; rfl⟩
        · cases h
  · intro h
    obtain ⟨hread, gap, hgap, rfl⟩ := h
    cases version with
    | none =>
      obtain ⟨rfl, hread⟩ := hread
      rw [versionPart, List.append_nil, if_pos rfl]
      cases hsplit : splitNameVersion name with
      | none => rfl
      | some p =>
        have hv : (Version.parse? p.2).isSome = false := by rw [hread p hsplit, Option.isSome_none]
        simp only [hv, Bool.false_eq_true, if_false]
    | some v =>
      obtain ⟨hany, hread⟩ := hread
      have hsplit : splitNameVersion (name ++ versionPart (some v) gap) = some (name, v.text ++ gap) := by
        rw [versionPart, ← List.append_assoc]
        exact (splitNameVersion_append_blanks hgap).mpr hread
      simp only [if_neg hany, hsplit, v.parse?_text_append hgap]

/-! ### The whole chain -/

theorem parse_eq (s : Text) :
    parse s =
      if (trim s).isEmpty then .error (.atom .empty [])
      else
        splitUse (trim s) (splitOperator (trim s)).2 >>= fun use =>
          let repository := splitRepository use.2
          let slot := splitSlot repository.2
          let star := splitStar (splitOperator (trim s)).1 slot.2.2
          match cut '/' star.2 with
          | none => .error (.atom .missingCategory (trim s))
          | some (category, rest) =>
            if rest.contains '/' then .error (.atom .extraSlash (trim s))
            else
              splitVersion (trim s) star.1 rest >>= fun named =>
                if category.isEmpty || named.1.isEmpty then .error (.atom .missingName (trim s))
                else
                  .ok {
                    operator := star.1
                    category
                    name := named.1
                    version := named.2
                    slot := slot.1
                    subslot := slot.2.1
                    repository := repository.1
                    useDeps := use.1 } := rfl

/-- What each cut of the text leaves, if the text is read as the atom. -/
structure Cuts (s : Text) (a : Atom) where
  afterOperator : Text
  beforeUse : Text
  beforeRepository : Text
  beforeSlot : Text
  beforeStar : Text
  nameVersion : Text
  operator : splitOperator s = (a.operator.withoutStar, afterOperator)
  use : splitUse s afterOperator = .ok (a.useDeps, beforeUse)
  repository : splitRepository beforeUse = (a.repository, beforeRepository)
  slot : splitSlot beforeRepository = (a.slot, a.subslot, beforeSlot)
  star : splitStar a.operator.withoutStar beforeSlot = (a.operator, beforeStar)
  category : cut '/' beforeStar = some (a.category, nameVersion)
  noSlash : '/' ∉ nameVersion
  version : splitVersion s a.operator nameVersion = .ok (a.name, a.version)
  category_ne : a.category ≠ []
  name_ne : a.name ≠ []

theorem parse_eq_ok_iff_cuts {s : Text} {a : Atom} :
    parse s = .ok a ↔ trim s ≠ [] ∧ Nonempty (Cuts (trim s) a) := by
  rw [parse_eq]
  constructor
  · intro h
    rcases hoperator : splitOperator (trim s) with ⟨written, rest⟩
    split at h
    · cases h
    next hempty =>
      obtain ⟨⟨deps, beforeUse⟩, huse, h⟩ := exists_of_bind_eq_ok h
      rcases hrepository : splitRepository beforeUse with ⟨repository, beforeRepository⟩
      rcases hslot : splitSlot beforeRepository with ⟨slot, subslot, beforeSlot⟩
      rcases hstar : splitStar written beforeSlot with ⟨operator, beforeStar⟩
      simp only [hoperator, hrepository, hslot, hstar] at h huse
      split at h
      · cases h
      next category nameVersion hcategory =>
        split at h
        · cases h
        next hslash =>
          obtain ⟨⟨name, version⟩, hversion, h⟩ := exists_of_bind_eq_ok h
          split at h
          · cases h
          next hne =>
            cases h
            rw [Bool.or_eq_true, not_or, List.isEmpty_iff, List.isEmpty_iff] at hne
            have hwritten : written = operator.withoutStar :=
              ((splitStar_eq_iff (splitOperator_eq_iff.mp hoperator).1).mp hstar).1
            subst hwritten
            refine ⟨mt List.isEmpty_iff.mpr hempty, ⟨?_⟩⟩
            exact { afterOperator := rest, beforeUse, beforeRepository, beforeSlot, beforeStar,
                    nameVersion, operator := hoperator, use := huse, repository := hrepository,
                    slot := hslot, star := hstar, category := hcategory,
                    noSlash := mt List.contains_iff_mem.mpr hslash, version := hversion,
                    category_ne := hne.1, name_ne := hne.2 }
  · intro h
    obtain ⟨hne, ⟨cuts⟩⟩ := h
    have hslash : cuts.nameVersion.contains '/' = false :=
      Bool.eq_false_iff.mpr (mt List.contains_iff_mem.mp cuts.noSlash)
    have hempty : (a.category.isEmpty || a.name.isEmpty) = false := by
      rw [Bool.or_eq_false_iff, List.isEmpty_eq_false_iff, List.isEmpty_eq_false_iff]
      exact ⟨cuts.category_ne, cuts.name_ne⟩
    rw [if_neg (mt List.isEmpty_iff.mp hne), cuts.operator, cuts.use, ok_bind]
    simp only [cuts.repository, cuts.slot, cuts.star, cuts.category, hslash, cuts.version, ok_bind,
      hempty, Bool.false_eq_true, if_false]

end Atom
end PackagePolicy
