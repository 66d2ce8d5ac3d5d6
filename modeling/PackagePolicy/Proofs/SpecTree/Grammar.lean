import PackagePolicy.Proofs.Text.Cuts
import PackagePolicy.Result
import PackagePolicy.SpecTree.Token

/-!
# The grammar of specifications

A list of trees has a written form: leaves are single words, and a group is its children in parentheses
behind the word that says what it asks for. Reading accepts exactly the written forms, for leaves of any
kind (`readWords_eq_ok_iff`). Main statement: `parseLicense_acceptsGrammar`.
-/

namespace PackagePolicy

/-! ### Words -/

namespace Group

/-- The words in front of the parenthesis of a group. -/
def lead : Group → List Text
  | .all => []
  | .any => [['|', '|']]
  | .conditional flag negated => [(if negated then ['!'] else []) ++ flag ++ ['?']]

/-- The condition of the group, if it has one, is read back from its word. -/
def IsReadable : Group → Prop
  | .conditional flag negated => flag ≠ [] ∧ (negated = false → flag.head? ≠ some '!')
  | _ => True

/- The word of a group is no parenthesis. -/
theorem ne_of_lead {kind : Group} {w : Text} {c : Char} (hc : c ≠ '?') (hlead : kind.lead = [w]) :
    w ≠ [c] := by
  cases kind with
  | all => cases hlead
  | any =>
    cases hlead
    exact fun h => nomatch congrArg List.length h
  | conditional flag negated =>
    cases hlead
    intro h
    have hlast := congrArg List.getLast? h
    rw [List.getLast?_concat] at hlast
    exact hc (Option.some.inj hlast).symm

end Group

namespace SpecTree
open Text
variable {α : Type}

/-- The word is no mark of a group. -/
structure IsLeafWord (w : Text) : Prop where
  any : w ≠ ['|', '|']
  opening : w ≠ ['(']
  closing : w ≠ [')']
  condition : ¬ ['?'] <:+ w

/-- The words are the written form of a list of trees whose leaves are read by `leaf`. -/
inductive Spells (leaf : Text → Except Error α) : List (SpecTree α) → List Text → Prop
  | nil : Spells leaf [] []
  | leaf {w : Text} {a : α} {ts : List (SpecTree α)} {ws : List Text} (hword : IsLeafWord w)
      (hleaf : leaf w = .ok a) (hrest : Spells leaf ts ws) : Spells leaf (.leaf a :: ts) (w :: ws)
  | group {kind : Group} {children ts : List (SpecTree α)} {inner ws : List Text}
      (hkind : kind.IsReadable) (hchildren : Spells leaf children inner) (hrest : Spells leaf ts ws) :
      Spells leaf (.group kind children :: ts) (kind.lead ++ ['('] :: (inner ++ [')'] :: ws))

theorem Spells.append {leaf : Text → Except Error α} {ts ts' : List (SpecTree α)} {ws ws' : List Text}
    (h : Spells leaf ts ws) (h' : Spells leaf ts' ws') : Spells leaf (ts ++ ts') (ws ++ ws') := by
  induction h with
  | nil => exact h'
  | leaf hword hleaf _ ih => exact .leaf hword hleaf ih
  | group hkind hchildren _ _ ih =>
    simp only [List.append_assoc, List.cons_append]
    exact .group hkind hchildren ih

/-! ### Reading one word -/

theorem conditionParts_eq_iff {condition flag : Text} {negated : Bool} :
    conditionParts condition = (negated, flag) ↔
      condition = (if negated then ['!'] else []) ++ flag ∧
        (negated = false → flag.head? ≠ some '!') := by
  unfold conditionParts
  split
  next flag' =>
    cases negated with
    | true => simp [eq_comm]
    | false =>
      refine iff_of_false (fun h => nomatch congrArg Prod.fst h) fun h => ?_
      rw [if_neg Bool.false_ne_true, List.nil_append] at h
      exact h.2 rfl (h.1 ▸ rfl)
  next hplain =>
    have hhead : condition.head? ≠ some '!' := by
      intro h
      obtain ⟨flag', hflag⟩ := List.head?_eq_some_iff.mp h
      exact hplain flag' hflag
    cases negated with
    | true =>
      refine iff_of_false (fun h => nomatch congrArg Prod.fst h) fun h => ?_
      exact hhead (h.1 ▸ rfl)
    | false =>
      constructor
      · intro h
        cases h
        exact ⟨rfl, fun _ => hhead⟩
      · intro h
        rw [h.1]
        rfl

variable {leaf : Text → Except Error α} {source w : Text}

theorem ne_any_of_suffix (h : ['?'] <:+ w) : w ≠ ['|', '|'] := by
  rintro rfl
  exact absurd h (by decide)

theorem readWord_of_suffix {condition : Text} :
    readWord leaf source (condition ++ ['?']) =
      if (conditionParts condition).2.isEmpty then .error (.spec .emptyCondition source)
      else .ok (.inl (.conditional (conditionParts condition).2 (conditionParts condition).1)) := by
  rw [readWord, if_neg (ne_any_of_suffix (List.suffix_append condition ['?'])), before?_append]

theorem readWord_of_lead {kind : Group} (hlead : kind.lead = [w]) (hkind : kind.IsReadable) :
    readWord leaf source w = .ok (.inl kind) := by
  cases kind with
  | all => cases hlead
  | any =>
    cases hlead
    rfl
  | conditional flag negated =>
    cases hlead
    obtain ⟨hflag, hhead⟩ := hkind
    have hempty : ¬ flag.isEmpty = true := fun h => hflag (List.isEmpty_iff.mp h)
    rw [readWord_of_suffix, conditionParts_eq_iff.mpr ⟨rfl, hhead⟩, if_neg hempty]

theorem readWord_of_isLeafWord (hword : IsLeafWord w) {a : α} (hleaf : leaf w = .ok a) :
    readWord leaf source w = .ok (.inr (.leaf a)) := by
  rw [readWord, if_neg hword.any, before?_eq_none_iff.mpr hword.condition, hleaf]
  rfl

/- What a word that is no parenthesis can be. -/
theorem readWord_cases {x : Group ⊕ SpecTree α} (h : readWord leaf source w = .ok x) :
    (∃ kind, x = .inl kind ∧ kind.lead = [w] ∧ kind.IsReadable) ∨
      ∃ a, x = .inr (.leaf a) ∧ leaf w = .ok a ∧ w ≠ ['|', '|'] ∧ ¬ ['?'] <:+ w := by
  by_cases hsuffix : ['?'] <:+ w
  · obtain ⟨condition, rfl⟩ := hsuffix
    rcases hparts : conditionParts condition with ⟨negated, flag⟩
    obtain ⟨rfl, hhead⟩ := conditionParts_eq_iff.mp hparts
    rw [readWord_of_suffix, hparts] at h
    split at h
    · cases h
    next hflag =>
      cases h
      exact .inl ⟨_, rfl, rfl, mt List.isEmpty_iff.mpr hflag, hhead⟩
  · by_cases hany : w = ['|', '|']
    · subst hany
      cases h
      exact .inl ⟨.any, rfl, rfl, trivial⟩
    · rw [readWord, if_neg hany, before?_eq_none_iff.mpr hsuffix] at h
      cases hleaf : leaf w with
      | error e =>
        rw [hleaf] at h
        cases h
      | ok a =>
        rw [hleaf] at h
        cases h
        exact .inr ⟨a, rfl, rfl, hany, hsuffix⟩

/-! ### Reading one word after another -/

variable {stack : List (Open α)} {items ts : List (SpecTree α)} {ws rest : List Text}

theorem readWords_pending (kind : Group) (rest : List Text) :
    readWords leaf source (some kind) stack items (['('] :: rest) =
      readWords leaf source none (⟨kind, items⟩ :: stack) [] rest := by
  rw [readWords.eq_def]
  exact if_pos rfl

theorem readWords_opening (rest : List Text) :
    readWords leaf source none stack items (['('] :: rest) =
      readWords leaf source none (⟨.all, items⟩ :: stack) [] rest := by
  rw [readWords.eq_def]
  rfl

theorem readWords_closing (g : Open α) (rest : List Text) :
    readWords leaf source none (g :: stack) items ([')'] :: rest) =
      readWords leaf source none stack (.group g.kind items.reverse :: g.before) rest := by
  rw [readWords.eq_def]
  rfl

theorem readWords_word (hopen : w ≠ ['(']) (hclose : w ≠ [')']) (rest : List Text) :
    readWords leaf source none stack items (w :: rest) =
      match readWord leaf source w with
      | .error e => .error e
      | .ok (.inl kind) => readWords leaf source (some kind) stack items rest
      | .ok (.inr tree) => readWords leaf source none stack (tree :: items) rest := by
  rw [readWords.eq_def]
  exact (if_neg hclose).trans (if_neg hopen)

/- What one word does to a reading that goes through. -/
theorem readWords_cons_cases {pending : Option Group}
    (h : readWords leaf source pending stack items (w :: rest) = .ok ts) :
    (∃ kind, pending = some kind ∧ w = ['('] ∧
        readWords leaf source none (⟨kind, items⟩ :: stack) [] rest = .ok ts) ∨
      pending = none ∧ w = ['('] ∧
        readWords leaf source none (⟨.all, items⟩ :: stack) [] rest = .ok ts ∨
      (∃ g outer, pending = none ∧ w = [')'] ∧ stack = g :: outer ∧
        readWords leaf source none outer (.group g.kind items.reverse :: g.before) rest = .ok ts) ∨
      (∃ kind, pending = none ∧ kind.lead = [w] ∧ kind.IsReadable ∧
        readWords leaf source (some kind) stack items rest = .ok ts) ∨
      ∃ a, pending = none ∧ IsLeafWord w ∧ leaf w = .ok a ∧
        readWords leaf source none stack (.leaf a :: items) rest = .ok ts := by
  cases pending with
  | some kind =>
    rw [readWords.eq_def] at h
    by_cases hopen : w = ['(']
    · exact .inl ⟨kind, rfl, hopen, (if_pos hopen).symm.trans h⟩
    · cases (if_neg hopen).symm.trans h
  | none =>
    right
    by_cases hopen : w = ['(']
    · subst hopen
      exact .inl ⟨rfl, rfl, h⟩
    right
    by_cases hclose : w = [')']
    · subst hclose
      cases stack with
      | nil => cases h
      | cons g outer => exact .inl ⟨g, outer, rfl, rfl, rfl, h⟩
    right
    rw [readWords_word hopen hclose] at h
    cases hx : readWord leaf source w with
    | error e =>
      rw [hx] at h
      cases h
    | ok x =>
      rw [hx] at h
      rcases readWord_cases hx with ⟨kind, rfl, hlead, hkind⟩ | ⟨a, rfl, hleaf, hany, hcondition⟩
      · exact .inl ⟨kind, rfl, hlead, hkind, h⟩
      · exact .inr ⟨a, rfl, ⟨hany, hopen, hclose, hcondition⟩, hleaf, h⟩

/-! ### From the written form to the trees -/

/- A group without a word of its own opens at once, any other is pending for one word. -/
theorem readWords_open {kind : Group} (hkind : kind.IsReadable) (rest : List Text) :
    readWords leaf source none stack items (kind.lead ++ ['('] :: rest) =
      readWords leaf source none (⟨kind, items⟩ :: stack) [] rest := by
  have hpending (w : Text) (hlead : kind.lead = [w]) :
      readWords leaf source none stack items (kind.lead ++ ['('] :: rest) =
        readWords leaf source none (⟨kind, items⟩ :: stack) [] rest := by
    have hopen : w ≠ ['('] := Group.ne_of_lead (by decide) hlead
    have hclose : w ≠ [')'] := Group.ne_of_lead (by decide) hlead
    rw [hlead, List.singleton_append, readWords_word hopen hclose, readWord_of_lead hlead hkind]
    exact readWords_pending kind rest
  cases kind with
  | all => exact readWords_opening rest
  | any => exact hpending _ rfl
  | conditional flag negated => exact hpending _ rfl

/- The trees are added to the innermost open group. -/
theorem readWords_of_spells (h : Spells leaf ts ws) (stack : List (Open α)) (items : List (SpecTree α))
    (rest : List Text) :
    readWords leaf source none stack items (ws ++ rest) =
      readWords leaf source none stack (ts.reverse ++ items) rest := by
  induction h generalizing stack items rest with
  | nil => rfl
  | leaf hword hleaf _ ih =>
    rw [List.cons_append, readWords_word hword.opening hword.closing,
      readWord_of_isLeafWord hword hleaf]
    simp only
    rw [ih, List.reverse_cons, List.append_assoc, List.singleton_append]
  | group hkind _ _ ihchildren ih =>
    simp only [List.append_assoc, List.cons_append]
    rw [readWords_open hkind, ihchildren, readWords_closing, ih, List.append_nil, List.reverse_reverse,
      List.reverse_cons, List.append_assoc, List.singleton_append]

/-! ### From the trees to the written form -/

/-- The words lead to the open groups and the trees of the innermost of them. -/
inductive Leads (leaf : Text → Except Error α) :
    List (Open α) → List (SpecTree α) → List Text → Prop
  | start {items : List (SpecTree α)} {ws : List Text} (hitems : Spells leaf items.reverse ws) :
      Leads leaf [] items ws
  | opened {g : Open α} {stack : List (Open α)} {items : List (SpecTree α)} {before ws : List Text}
      (hbefore : Leads leaf stack g.before before) (hkind : g.kind.IsReadable)
      (hitems : Spells leaf items.reverse ws) :
      Leads leaf (g :: stack) items (before ++ g.kind.lead ++ ['('] :: ws)

theorem Leads.push (h : Leads leaf stack items ws) {t : SpecTree α} {more : List Text}
    (ht : Spells leaf [t] more) : Leads leaf stack (t :: items) (ws ++ more) := by
  cases h with
  | start hitems =>
    refine .start ?_
    rw [List.reverse_cons]
    exact hitems.append ht
  | opened hbefore hkind hitems =>
    rw [List.append_assoc, List.cons_append]
    refine .opened hbefore hkind ?_
    rw [List.reverse_cons]
    exact hitems.append ht

theorem Leads.open (h : Leads leaf stack items ws) {kind : Group} (hkind : kind.IsReadable) :
    Leads leaf (⟨kind, items⟩ :: stack) [] (ws ++ kind.lead ++ [['(']]) :=
  .opened h hkind .nil

theorem Leads.close {g : Open α} (h : Leads leaf (g :: stack) items ws) :
    Leads leaf stack (.group g.kind items.reverse :: g.before) (ws ++ [[')']]) := by
  cases h with
  | opened hbefore hkind hitems =>
    rw [List.append_assoc, List.append_assoc, List.cons_append]
    exact hbefore.push (.group hkind hitems .nil)

/-- The words of a group that waits for its parenthesis. -/
def pendingWords : Option Group → List Text
  | some kind => kind.lead
  | none => []

theorem spells_of_readWords {pending : Option Group} (hpending : ∀ kind ∈ pending, kind.IsReadable)
    (hleads : Leads leaf stack items ws)
    (h : readWords leaf source pending stack items rest = .ok ts) :
    Spells leaf ts (ws ++ pendingWords pending ++ rest) := by
  induction rest generalizing pending stack items ws with
  | nil =>
    unfold readWords at h
    split at h
    · cases h
    · cases h
    · cases h
      cases hleads with
      | start hitems => rwa [pendingWords, List.append_nil, List.append_nil]
  | cons w rest ih =>
    -- the word joins the words before it, and no group is pending unless the word announces one
    have hnone {stack : List (Open α)} {items : List (SpecTree α)} {before : List Text}
        (hleads : Leads leaf stack items before)
        (h : readWords leaf source none stack items rest = .ok ts) : Spells leaf ts (before ++ rest) := by
      have hspells : Spells leaf ts (before ++ pendingWords none ++ rest) :=
        ih (fun kind hkind => absurd hkind (Option.not_mem_none kind)) hleads h
      rwa [pendingWords, List.append_nil] at hspells
    rw [← List.singleton_append, ← List.append_assoc]
    rcases readWords_cons_cases h with ⟨kind, rfl, rfl, h⟩ | ⟨rfl, rfl, h⟩ | ⟨g, outer, rfl, rfl, rfl, h⟩ |
      ⟨kind, rfl, hlead, hkind, h⟩ | ⟨a, rfl, hword, hleaf, h⟩
    · exact hnone (hleads.open (hpending kind rfl)) h
    · have hall : Group.IsReadable .all := trivial
      exact hnone (hleads.open hall) h
    · rw [pendingWords, List.append_nil]
      exact hnone hleads.close h
    · have hspells : Spells leaf ts (ws ++ pendingWords (some kind) ++ rest) :=
        ih (fun k hk => Option.some.inj hk ▸ hkind) hleads h
      rw [pendingWords, hlead] at hspells
      rwa [pendingWords, List.append_nil]
    · rw [pendingWords, List.append_nil]
      exact hnone (hleads.push (.leaf hword hleaf .nil)) h

/-! ### Reading -/

theorem readWords_eq_ok_iff :
    readWords leaf source none [] [] ws = .ok ts ↔ Spells leaf ts ws := by
  constructor
  · intro h
    have hspells : Spells leaf ts ([] ++ pendingWords none ++ ws) :=
      spells_of_readWords (fun kind hkind => absurd hkind (Option.not_mem_none kind)) (.start .nil) h
    exact hspells
  · intro h
    have hread : readWords leaf source none [] [] (ws ++ []) =
        readWords leaf source none [] (ts.reverse ++ []) [] := readWords_of_spells h [] [] []
    rw [List.append_nil, List.append_nil] at hread
    rw [hread, readWords, List.reverse_reverse]

theorem Spells.unique {ts' : List (SpecTree α)} (h : Spells leaf ts ws) (h' : Spells leaf ts' ws) :
    ts = ts' := by
  have hread : readWords leaf [] none [] [] ws = .ok ts := readWords_eq_ok_iff.mpr h
  rw [readWords_eq_ok_iff.mpr h'] at hread
  exact (Except.ok.inj hread).symm

theorem parse_eq_ok_iff {t : SpecTree α} :
    parse leaf source = .ok t ↔ ∃ ts, t = .group .all ts ∧ Spells leaf ts (words source) := by
  have hspells (ts : List (SpecTree α)) : Spells leaf ts (words source) ↔
      readWords leaf source none [] [] (words source) = .ok ts := readWords_eq_ok_iff.symm
  simp only [parse, hspells]
  cases readWords leaf source none [] [] (words source) with
  | error e => simp [Except.map]
  | ok ts => simp [Except.map, eq_comm]

theorem eq_emptyCondition_of_readWord {e : Error} (hleaf : ∀ w, ∃ a, leaf w = .ok a)
    (h : readWord leaf source w = .error e) : e = .spec .emptyCondition source := by
  by_cases hsuffix : ['?'] <:+ w
  · obtain ⟨condition, rfl⟩ := hsuffix
    rw [readWord_of_suffix] at h
    split at h
    · exact (Except.error.inj h).symm
    · cases h
  · unfold readWord at h
    split at h
    · cases h
    · obtain ⟨a, ha⟩ := hleaf w
      rw [before?_eq_none_iff.mpr hsuffix, ha] at h
      cases h

/- If every word may be a leaf, then nothing but the arrangement of the words can be wrong. -/
theorem exists_fault_of_readWords (hleaf : ∀ w, ∃ a, leaf w = .ok a) {pending : Option Group} {e : Error}
    (h : readWords leaf source pending stack items ws = .error e) : ∃ fault, e = .spec fault source := by
  induction ws generalizing pending stack items with
  | nil =>
    unfold readWords at h
    split at h
    · exact ⟨_, (Except.error.inj h).symm⟩
    · exact ⟨_, (Except.error.inj h).symm⟩
    · cases h
  | cons w ws ih =>
    unfold readWords at h
    split at h
    · split at h
      · exact ih h
      · exact ⟨_, (Except.error.inj h).symm⟩
    · split at h
      · split at h
        · exact ⟨_, (Except.error.inj h).symm⟩
        · exact ih h
      · split at h
        · exact ih h
        · split at h
          next hword =>
            cases h
            exact ⟨_, eq_emptyCondition_of_readWord hleaf hword⟩
          · exact ih h
          · exact ih h

/- The words have one written form at most, and where they have none, the fault is in the specification. -/
theorem parseLicense_acceptsGrammar (s : Text) :
    (∀ ts, parseLicense s = .ok (.group .all ts) ↔ Spells .ok ts (words s)) ∧
      (∀ ts ts', Spells .ok ts (words s) → Spells .ok ts' (words s) → ts = ts') ∧
      ((∃ fault, parseLicense s = .error (.spec fault s)) ↔ ¬ ∃ ts, Spells .ok ts (words s)) := by
  have hgrammar (ts : List (SpecTree Text)) :
      parseLicense s = .ok (.group .all ts) ↔ Spells .ok ts (words s) := by
    rw [parseLicense, parse_eq_ok_iff]
    simp
  refine ⟨hgrammar, fun ts ts' => Spells.unique, ?_, ?_⟩
  · rintro ⟨fault, h⟩ ⟨ts, hts⟩
    cases h.symm.trans ((hgrammar ts).mpr hts)
  · intro hnone
    cases h : readWords .ok s none [] [] (words s) with
    | ok ts => exact absurd ⟨ts, readWords_eq_ok_iff.mp h⟩ hnone
    | error e =>
      obtain ⟨fault, rfl⟩ := exists_fault_of_readWords (fun w => ⟨w, rfl⟩) h
      exact ⟨fault, by rw [parseLicense, parse, h]; rfl⟩

end SpecTree
end PackagePolicy
