import PackagePolicy.Keyword.Acceptance
import PackagePolicy.Proofs.FirstOccurrences
import PackagePolicy.Proofs.Keyword.Rendering
import PackagePolicy.Proofs.Precedence
import PackagePolicy.Proofs.Text.Cuts

/-!
# Histories of accepted keywords

What is accepted everywhere starts with the stable keyword of an architecture. Calls add its testing keyword, or
carry out the changes of a text as far as they can be read. What comes of any number of calls is told by the words
that were carried out: the last that is about a keyword decides.
-/

namespace PackagePolicy

/-! ### Single keywords -/

namespace Keyword

theorem accepts_iff {k declared : Keyword} :
    k.accepts declared = true ↔ declared.stability ≠ .broken ∧
      (k.stability = .any ∨ k = declared ∨ k = ⟨['*'], declared.stability⟩) := by
  obtain ⟨arch, stability⟩ := k
  obtain ⟨arch', stability'⟩ := declared
  by_cases harch : arch = ['*'] <;> cases stability <;> cases stability' <;> simp [accepts, isWildcard, harch]

/- No text but `**` is read as accepting everything. -/
theorem eq_stars_of_parse {s : Text} {k : Keyword} (h : parse s = .ok k) (hany : k.stability = .any) :
    k = ⟨['*'], .any⟩ :=
  (isRead_iff.mp ⟨s, h⟩).resolve_right fun hplain => hplain.2.1 hany

end Keyword

namespace KeywordRules
open Text
variable {r : KeywordRules} {k : Keyword} {w : Text}

theorem mem_accept {k' : Keyword} : k ∈ (r.accept k').accepted ↔ k = k' ∨ k ∈ r.accepted := by
  have haccept : (r.accept k').accepted =
      if r.accepted.contains k' then r.accepted else r.accepted ++ [k'] := by
    unfold accept
    split <;> rfl
  rw [haccept, mem_addNew_iff, eq_comm]

theorem mem_withdraw {k' : Keyword} : k ∈ (r.withdraw k').accepted ↔ k ∈ r.accepted ∧ k ≠ k' := by
  rw [withdraw, List.mem_filter, bne_iff_ne]

theorem acceptsGlobally_accept {declared : Keyword} :
    (r.accept k).acceptsGlobally declared = (k.accepts declared || r.acceptsGlobally declared) := by
  rw [Bool.eq_iff_iff, Bool.or_eq_true, acceptsGlobally, acceptsGlobally, List.any_eq_true, List.any_eq_true]
  simp only [mem_accept, or_and_right, exists_or, exists_eq_left]

/-! ### Histories -/

/-- A call that changes what is accepted everywhere. -/
inductive Step where
  | acceptTesting
  | applyText (s : Text)
deriving DecidableEq, Repr

def step (r : KeywordRules) : Step → KeywordRules
  | .acceptTesting => r.acceptTesting
  | .applyText s => (r.applyText s).1

/-- The rules for an architecture after some calls, whether or not their texts could be read to the end. -/
def afterSteps (arch : Text) (steps : List Step) : KeywordRules := steps.foldl step (ofArch arch)

/-- What a history is made of: a keyword that is accepted without a word, or a word. -/
inductive Event where
  | adopt (k : Keyword)
  | word (w : Text)
deriving DecidableEq, Repr

/-- The word is a keyword, with or without a `-` before it. -/
def isReadable (w : Text) : Bool := (Keyword.parse (dropLead '-' w)).toOption.isSome

def Step.events (arch : Text) : Step → List Event
  | .acceptTesting => [.adopt ⟨arch, .testing⟩]
  | .applyText s => ((words s).takeWhile isReadable).map .word

/-- The events of a history; of a text only the words before the first that cannot be read. -/
def events (arch : Text) (steps : List Step) : List Event :=
  .adopt ⟨arch, .stable⟩ :: steps.flatMap (Step.events arch)

namespace Event

/-- The event makes the keyword accepted. -/
inductive Adds (k : Keyword) : Event → Prop
  | adopt : Adds k (.adopt k)
  | word {w : Text} (hplain : w.head? ≠ some '-') (h : Keyword.parse w = .ok k) : Adds k (.word w)

/-- The event takes the keyword back; `-*` does so for every keyword. -/
inductive Removes (k : Keyword) : Event → Prop
  | all : Removes k (.word ['-', '*'])
  | word {w : Text} (h : Keyword.parse w = .ok k) : Removes k (.word ('-' :: w))

theorem adds_adopt_iff {k' : Keyword} : Adds k (.adopt k') ↔ k = k' := by
  constructor
  · intro h
    cases h
    rfl
  · rintro rfl
    exact .adopt

theorem adds_word_iff (hplain : w.head? ≠ some '-') : Adds k (.word w) ↔ Keyword.parse w = .ok k := by
  constructor
  · intro h
    cases h with
    | word _ h => exact h
  · exact .word hplain

theorem not_adds_dash : ¬ Adds k (.word ('-' :: w)) := by
  intro h
  cases h with
  | word hplain => exact hplain rfl

theorem removes_dash_iff (hall : w ≠ ['*']) : Removes k (.word ('-' :: w)) ↔ Keyword.parse w = .ok k := by
  constructor
  · intro h
    cases h with
    | all => exact absurd rfl hall
    | word h => exact h
  · exact .word

theorem not_removes_plain (hplain : w.head? ≠ some '-') : ¬ Removes k (.word w) := by
  intro h
  cases h with
  | all => exact hplain rfl
  | word => exact hplain rfl

end Event

/-! ### One event -/

theorem change_parse_dash (hall : w ≠ ['*']) :
    Change.parse ('-' :: w) = (Keyword.parse w).map .withdraw := by
  rw [Change.parse, if_neg fun h => hall (List.cons.inj h).2]

theorem change_parse_plain (hplain : w.head? ≠ some '-') : Change.parse w = (Keyword.parse w).map .accept := by
  cases w with
  | nil => rfl
  | cons c w =>
    rw [List.head?_cons, ne_eq, Option.some.injEq] at hplain
    rw [Change.parse, if_neg fun h => hplain (List.cons.inj h).1]
    exact fun _ h => hplain (List.cons.inj h).1

/-- What an event does to the rules; a word that cannot be read does nothing. -/
def carryOut (r : KeywordRules) : Event → KeywordRules
  | .adopt k => r.accept k
  | .word w => ((Change.parse w).toOption.map r.apply).getD r

theorem mem_carryOut_iff (r : KeywordRules) (event : Event) :
    k ∈ (r.carryOut event).accepted ↔ event.Adds k ∨ k ∈ r.accepted ∧ ¬ event.Removes k := by
  cases event with
  | adopt k' => rw [carryOut, mem_accept, Event.adds_adopt_iff, and_iff_left nofun]
  | word w =>
    by_cases hdash : w.head? = some '-'
    · obtain ⟨w, rfl⟩ := List.head?_eq_some_iff.mp hdash
      rw [or_iff_right Event.not_adds_dash]
      by_cases hall : w = ['*']
      -- `-*` takes back every keyword and not only `*`
      · subst hall
        exact iff_of_false List.not_mem_nil fun h => h.2 .all
      · rw [Event.removes_dash_iff hall, carryOut, change_parse_dash hall]
        cases Keyword.parse w with
        | error e => exact (and_iff_left nofun).symm
        | ok k' =>
          rw [Except.ok.injEq, eq_comm]
          exact mem_withdraw
    · rw [Event.adds_word_iff hdash, and_iff_left (Event.not_removes_plain hdash), carryOut,
        change_parse_plain hdash]
      cases Keyword.parse w with
      | error e => exact (or_iff_right nofun).symm
      | ok k' =>
        rw [Except.ok.injEq, eq_comm]
        exact mem_accept

/-! ### Whole histories -/

theorem isReadable_iff : isReadable w = true ↔ (Change.parse w).toOption.isSome = true := by
  by_cases hdash : w.head? = some '-'
  · obtain ⟨w, rfl⟩ := List.head?_eq_some_iff.mp hdash
    rw [isReadable, dropLead_cons]
    by_cases hall : w = ['*']
    · subst hall
      decide
    · rw [change_parse_dash hall]
      cases Keyword.parse w <;> rfl
  · rw [isReadable, dropLead_of_head?_ne hdash, change_parse_plain hdash]
    cases Keyword.parse w <;> rfl

theorem applyWords_eq_foldl (r : KeywordRules) (ws : List Text) :
    (r.applyWords ws).1 = ((ws.takeWhile isReadable).map .word).foldl carryOut r := by
  induction ws generalizing r with
  | nil => rfl
  | cons w ws ih =>
    cases h : Change.parse w with
    | error e =>
      have hstop : ¬ isReadable w = true := by
        rw [isReadable_iff, h]
        exact nofun
      rw [applyWords, h, List.takeWhile_cons_of_neg hstop]
      rfl
    | ok change =>
      have hread : isReadable w = true := by
        rw [isReadable_iff, h]
        rfl
      rw [applyWords, h, List.takeWhile_cons_of_pos hread, List.map_cons, List.foldl_cons, carryOut, h]
      exact ih (r.apply change)

theorem arch_accept (r : KeywordRules) (k : Keyword) : (r.accept k).arch = r.arch := by
  unfold accept
  split <;> rfl

theorem arch_carryOut (r : KeywordRules) (event : Event) : (r.carryOut event).arch = r.arch := by
  cases event with
  | adopt k => exact arch_accept r k
  | word w =>
    rw [carryOut]
    cases (Change.parse w).toOption with
    | none => rfl
    | some change =>
      cases change with
      | clear => rfl
      | withdraw k => rfl
      | accept k => exact arch_accept r k

theorem step_eq_foldl (r : KeywordRules) (call : Step) :
    r.step call = (call.events r.arch).foldl carryOut r := by
  cases call with
  | acceptTesting => rfl
  | applyText s => exact applyWords_eq_foldl r (words s)

theorem arch_foldl_carryOut (r : KeywordRules) (history : List Event) :
    (history.foldl carryOut r).arch = r.arch := by
  induction history generalizing r with
  | nil => rfl
  | cons event history ih => rw [List.foldl_cons, ih, arch_carryOut]

theorem foldl_step_eq_foldl (r : KeywordRules) (steps : List Step) :
    steps.foldl step r = (steps.flatMap (Step.events r.arch)).foldl carryOut r := by
  induction steps generalizing r with
  | nil => rfl
  | cons call steps ih =>
    rw [List.foldl_cons, List.flatMap_cons, List.foldl_append, ih, step_eq_foldl, arch_foldl_carryOut]

theorem afterSteps_eq_foldl (arch : Text) (steps : List Step) :
    afterSteps arch steps = (events arch steps).foldl carryOut ⟨arch, [], []⟩ :=
  foldl_step_eq_foldl (ofArch arch) steps

theorem mem_afterSteps_iff {arch : Text} {steps : List Step} :
    k ∈ (afterSteps arch steps).accepted ↔ Stands (·.Adds k) (·.Removes k) (events arch steps) := by
  rw [afterSteps_eq_foldl]
  exact foldl_iff_stands carryOut (fun r => k ∈ r.accepted) List.not_mem_nil mem_carryOut_iff _

/- What is accepted has been read or is a keyword of the architecture. -/
theorem eq_stars_of_mem_afterSteps {arch : Text} {steps : List Step} (hk : k ∈ (afterSteps arch steps).accepted)
    (hany : k.stability = .any) : k = ⟨['*'], .any⟩ := by
  obtain ⟨before, event, after, hevents, hadds, _⟩ := mem_afterSteps_iff.mp hk
  have hevent : event ∈ events arch steps := hevents ▸ List.mem_append_right before List.mem_cons_self
  cases hadds with
  | word _ h => exact Keyword.eq_stars_of_parse h hany
  | adopt =>
    rcases List.mem_cons.mp hevent with heq | hmem
    · cases heq
      cases hany
    · obtain ⟨call, _, hcall⟩ := List.mem_flatMap.mp hmem
      cases call with
      | acceptTesting =>
        cases List.mem_singleton.mp hcall
        cases hany
      | applyText s =>
        obtain ⟨w, _, hw⟩ := List.mem_map.mp hcall
        cases hw

/-- The keyword is not broken, and among the accepted ones is it itself, the wildcard of its stability, or `**`. -/
def IsCoveredBy (declared : Keyword) (accepted : List Keyword) : Prop :=
  declared.stability ≠ .broken ∧
    (declared ∈ accepted ∨ declared.stability = .stable ∧ ⟨['*'], .stable⟩ ∈ accepted ∨
      declared.stability = .testing ∧ ⟨['*'], .testing⟩ ∈ accepted ∨ ⟨['*'], .any⟩ ∈ accepted)

theorem acceptsGlobally_iff_isCoveredBy {declared : Keyword}
    (hany : ∀ k ∈ r.accepted, k.stability = .any → k = ⟨['*'], .any⟩) :
    r.acceptsGlobally declared = true ↔ IsCoveredBy declared r.accepted := by
  have hstars : (∃ k ∈ r.accepted, k.stability = .any) ↔ ⟨['*'], .any⟩ ∈ r.accepted := by
    constructor
    · intro h
      obtain ⟨k, hk, hk_any⟩ := h
      exact hany k hk hk_any ▸ hk
    · exact fun h => ⟨_, h, rfl⟩
  rw [acceptsGlobally, List.any_eq_true, IsCoveredBy, ← hstars]
  simp only [Keyword.accepts_iff]
  constructor
  · intro h
    obtain ⟨k, hk, hbroken, hany | rfl | rfl⟩ := h
    · exact ⟨hbroken, .inr (.inr (.inr ⟨k, hk, hany⟩))⟩
    · exact ⟨hbroken, .inl hk⟩
    · refine ⟨hbroken, ?_⟩
      cases hstability : declared.stability with
      | stable => exact .inr (.inl ⟨rfl, hstability ▸ hk⟩)
      | testing => exact .inr (.inr (.inl ⟨rfl, hstability ▸ hk⟩))
      | broken => exact absurd hstability hbroken
      | any => exact .inr (.inr (.inr ⟨_, hk, hstability⟩))
  · intro h
    obtain ⟨hbroken, hk | ⟨hstable, hk⟩ | ⟨htesting, hk⟩ | ⟨k, hk, hany⟩⟩ := h
    · exact ⟨declared, hk, hbroken, .inr (.inl rfl)⟩
    · exact ⟨_, hk, hbroken, .inr (.inr (by rw [hstable]))⟩
    · exact ⟨_, hk, hbroken, .inr (.inr (by rw [htesting]))⟩
    · exact ⟨k, hk, hbroken, .inl hany⟩

/-! ### Stable and testing -/

theorem acceptsGlobally_accept_of_ne {declared : Keyword} (hany : k.stability ≠ .any)
    (hne : k.stability ≠ declared.stability) :
    (r.accept k).acceptsGlobally declared = r.acceptsGlobally declared := by
  have hno : k.accepts declared = false := by
    rw [Bool.eq_false_iff, ne_eq, Keyword.accepts_iff]
    rintro ⟨_, h | rfl | rfl⟩
    · exact hany h
    · exact hne rfl
    · exact hne rfl
  rw [acceptsGlobally_accept, hno, Bool.false_or]

/-- What is accepted everywhere is told by the events of a history. -/
structure IsToldBy (r : KeywordRules) (history : List Event) : Prop where
  mem_accepted_iff : ∀ k, k ∈ r.accepted ↔ Stands (·.Adds k) (·.Removes k) history
  acceptsGlobally_iff : ∀ declared, r.acceptsGlobally declared = true ↔ IsCoveredBy declared r.accepted

/-- The calls that leave nothing but the testing keyword of an architecture. -/
def onlyTesting : List Step := [.applyText ['-', '*'], .acceptTesting]

/- The stable and the testing keyword of an architecture do not imply each other: to accept one of them is
nothing to the other, and each is the only one of the two after some calls. -/
theorem afterSteps_isToldBy_events (arch : Text) (steps : List Step) :
    (afterSteps arch steps).IsToldBy (events arch steps) ∧
      (∀ a, ((afterSteps arch steps).accept ⟨a, .stable⟩).acceptsGlobally ⟨a, .testing⟩ =
        (afterSteps arch steps).acceptsGlobally ⟨a, .testing⟩) ∧
      (∀ a, ((afterSteps arch steps).accept ⟨a, .testing⟩).acceptsGlobally ⟨a, .stable⟩ =
        (afterSteps arch steps).acceptsGlobally ⟨a, .stable⟩) ∧
      ((afterSteps arch []).acceptsGlobally ⟨arch, .stable⟩ = true ∧
        (afterSteps arch []).acceptsGlobally ⟨arch, .testing⟩ = false) ∧
      (afterSteps arch onlyTesting).acceptsGlobally ⟨arch, .testing⟩ = true ∧
        (afterSteps arch onlyTesting).acceptsGlobally ⟨arch, .stable⟩ = false := by
  refine ⟨⟨fun k => mem_afterSteps_iff, fun declared => ?_⟩, fun a => ?_, fun a => ?_, ?_, ?_⟩
  · exact acceptsGlobally_iff_isCoveredBy fun k hk => eq_stars_of_mem_afterSteps hk
  · exact acceptsGlobally_accept_of_ne nofun nofun
  · exact acceptsGlobally_accept_of_ne nofun nofun
  · have honly : (afterSteps arch []).accepted = [⟨arch, .stable⟩] := rfl
    simp [acceptsGlobally, honly, Keyword.accepts]
  · have honly : (afterSteps arch onlyTesting).accepted = [⟨arch, .testing⟩] := rfl
    simp [acceptsGlobally, honly, Keyword.accepts]

end KeywordRules
end PackagePolicy
