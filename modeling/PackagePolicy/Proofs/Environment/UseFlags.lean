import PackagePolicy.Proofs.Environment.MaskReasons
import PackagePolicy.Proofs.UseFlag.Histories

/-!
# The state of a USE flag

The profile of a repository comes before the entries that name a package, these before the entries with a pattern,
and the texts come last. Main statement: `queryUse_isDecidedBy_useLayers`.
-/

namespace PackagePolicy

/-- There is an answer, and it is the one that the layers decide on. -/
structure IsDecidedBy {ε : Type} (answer : Except ε Bool) (layers : List (Bool → Prop)) : Prop where
  exists_eq_ok : ∃ b, answer = .ok b
  eq_ok_iff : ∀ b, answer = .ok b ↔ Decides layers b

theorem isDecidedBy_ok {ε : Type} {c : Bool} {layers : List (Bool → Prop)} (h : ∀ b, c = b ↔ Decides layers b) :
    IsDecidedBy (.ok c : Except ε Bool) layers where
  exists_eq_ok := ⟨c, rfl⟩
  eq_ok_iff b := by rw [Except.ok.injEq, h]

/-! ### Entries of one kind -/

namespace UseRules

/-- The entries whose atoms have a pattern, or those whose atoms have none. -/
def entriesOfKind (wildcard : Bool) (steps : List Step) : List PackageUse :=
  (entries steps).filter fun e => e.atom.isWildcard == wildcard

theorem packageState_ofSteps (flag : Text) (p : Candidate) (wildcard : Bool) (steps : List Step) :
    (ofSteps steps).packageState flag p wildcard =
      lastState flag (((entriesOfKind wildcard steps).filter fun e => e.atom.isMatch p).flatMap (·.flags)) := by
  rw [packageState, package_ofSteps, entriesOfKind, List.filter_filter]
  simp only [Bool.and_comm]

theorem packageState_congr_of_kind {steps steps' : List Step} {wildcard : Bool}
    (h : entriesOfKind wildcard steps' = entriesOfKind wildcard steps) (flag : Text) (p : Candidate) :
    (ofSteps steps').packageState flag p wildcard = (ofSteps steps).packageState flag p wildcard := by
  rw [packageState_ofSteps, packageState_ofSteps, h]

theorem globalState_congr_of_words {steps steps' : List Step} (h : textWords steps' = textWords steps)
    (flag : Text) : (ofSteps steps').globalState flag = (ofSteps steps).globalState flag := by
  rw [globalState, globalState, global_ofSteps, global_ofSteps, h]

end UseRules

namespace Environment
open UseRules
variable {env : Environment} {steps steps' : List Step} {flag : Text} {r : Repository} {e : Entry}

/-- The environment with the USE flags that some calls have configured. -/
def withUseSteps (steps : List Step) (env : Environment) : Environment := { env with use := .ofSteps steps }

/-- What decides about a flag for an entry, from what comes first to what comes last. -/
def useLayers (r : Repository) (e : Entry) (flag : Text) (steps : List Step) : List (Bool → Prop) :=
  [fun b => b = false ∧ flag ∈ r.useMask,
   fun b => b = true ∧ flag ∈ r.useForce,
   LastMention flag (r.candidate e) false (entries steps),
   LastMention flag (r.candidate e) true (entries steps),
   LastSet flag (textWords steps)]

theorem useFor_eq_or (env : Environment) (flag : Text) (r : Repository) (e : Entry) :
    env.useFor flag r e = ((if r.isUseMasked flag then some false else none).or
      ((if r.isUseForced flag then some true else none).or
        ((env.use.packageState flag (r.candidate e) false).or
          ((env.use.packageState flag (r.candidate e) true).or (env.use.globalState flag))))).getD false := by
  unfold useFor
  dsimp only
  rw [Option.or_assoc]
  cases r.isUseMasked flag <;> cases r.isUseForced flag <;> rfl

theorem useFor_iff_decides (b : Bool) :
    (env.withUseSteps steps).useFor flag r e = b ↔ Decides (useLayers r e flag steps) b := by
  have hentries (wildcard b : Bool) : (ofSteps steps).packageState flag (r.candidate e) wildcard = some b ↔
      LastMention flag (r.candidate e) wildcard (entries steps) b := by
    rw [packageState_eq_some_iff, package_ofSteps]
  have hmask (b : Bool) : (if r.isUseMasked flag then some false else Option.none) = some b ↔
      b = false ∧ flag ∈ r.useMask := by
    rw [ite_eq_some_iff, Repository.isUseMasked, List.contains_iff_mem]
  have hforce (b : Bool) : (if r.isUseForced flag then some true else Option.none) = some b ↔
      b = true ∧ flag ∈ r.useForce := by
    rw [ite_eq_some_iff, Repository.isUseForced, List.contains_iff_mem]
  rw [useFor_eq_or]
  exact getD_or_iff_decides hmask
    (getD_or_iff_decides hforce
      (getD_or_iff_decides (hentries false)
        (getD_or_iff_decides (hentries true)
          (getD_iff_decides fun b => globalState_eq_some_iff steps)))) b

/-! ### Other calls -/

theorem useFor_congr_of_kinds (hexact : entriesOfKind false steps' = entriesOfKind false steps)
    (hpattern : entriesOfKind true steps' = entriesOfKind true steps) (hwords : textWords steps' = textWords steps) :
    (env.withUseSteps steps').useFor flag r e = (env.withUseSteps steps).useFor flag r e := by
  simp only [useFor, withUseSteps, packageState_congr_of_kind hexact, packageState_congr_of_kind hpattern,
    globalState_congr_of_words hwords]

/- With a mention by name neither the entries with a pattern nor the texts are consulted. -/
theorem useFor_congr_of_exact {b : Bool} (hexact : entriesOfKind false steps' = entriesOfKind false steps)
    (hmention : LastMention flag (r.candidate e) false (entries steps) b) :
    (env.withUseSteps steps').useFor flag r e = (env.withUseSteps steps).useFor flag r e := by
  have hstate : (ofSteps steps).packageState flag (r.candidate e) false = some b := by
    rwa [packageState_eq_some_iff, package_ofSteps]
  simp only [useFor, withUseSteps, packageState_congr_of_kind hexact, hstate, Option.some_or]

theorem queryUse_withUseSteps (h : env.database.fetch e.repository = .ok r) (steps : List Step) (flag : Text) :
    (env.withUseSteps steps).queryUse flag (some e) = .ok ((env.withUseSteps steps).useFor flag r e) := by
  rw [queryUse_eq_map, withUseSteps, h]
  rfl

/- The order between entries with a pattern and entries without one does not count, and no entry with a pattern
overrides one without. Where no entry is asked about only the texts count. -/
theorem queryUse_isDecidedBy_useLayers (env : Environment) (steps : List Step) (flag : Text) :
    IsDecidedBy ((env.withUseSteps steps).queryUse flag none) [LastSet flag (textWords steps)] ∧
      ∀ e, env.database.has e.repository = true → ∃ r, env.database.fetch e.repository = .ok r ∧
        IsDecidedBy ((env.withUseSteps steps).queryUse flag (some e)) (useLayers r e flag steps) ∧
        ∀ steps', entriesOfKind false steps' = entriesOfKind false steps →
          (entriesOfKind true steps' = entriesOfKind true steps → textWords steps' = textWords steps →
            (env.withUseSteps steps').queryUse flag (some e) = (env.withUseSteps steps).queryUse flag (some e)) ∧
          ∀ b, LastMention flag (r.candidate e) false (entries steps) b →
            (env.withUseSteps steps').queryUse flag (some e) = (env.withUseSteps steps).queryUse flag (some e) := by
  refine ⟨isDecidedBy_ok (getD_iff_decides fun b => globalState_eq_some_iff steps), fun e he => ?_⟩
  obtain ⟨r, hr⟩ := Database.exists_fetch_of_has he
  refine ⟨r, hr, ?_, fun steps' hexact => ⟨fun hpattern hwords => ?_, fun b hmention => ?_⟩⟩
  · rw [queryUse_withUseSteps hr]
    exact isDecidedBy_ok useFor_iff_decides
  · rw [queryUse_withUseSteps hr, queryUse_withUseSteps hr, useFor_congr_of_kinds hexact hpattern hwords]
  · rw [queryUse_withUseSteps hr, queryUse_withUseSteps hr, useFor_congr_of_exact hexact hmention]

/-- An entry that names a package, up to a version. -/
def namedStep : Step :=
  .package (resultOf (Atom.parse "<=cat/pkg-1.0".toList) rfl) [⟨"ssl".toList, false⟩, ⟨"doc".toList, true⟩]

/-- An entry that leaves the flag off for all packages of a pattern. -/
def patternStep : Step := .package (resultOf (Atom.parse "cat/p*".toList) rfl) [⟨"doc".toList, false⟩]

def namedSteps : List Step := [.text "doc -ssl".toList, patternStep, namedStep, .text "-* +ssl".toList]

/-- The same calls with the pattern last, and the words in other texts. -/
def patternLastSteps : List Step := [namedStep, .text "doc -ssl -*".toList, .text "+ssl".toList, patternStep]

theorem queryUse_isDecidedBy_useLayers_namedSteps :
    slottedEnvironment.database.has slottedEntry.repository = true ∧
      (entriesOfKind false patternLastSteps = entriesOfKind false namedSteps ∧
        entriesOfKind true patternLastSteps = entriesOfKind true namedSteps ∧
        textWords patternLastSteps = textWords namedSteps) ∧
      (entriesOfKind false [namedStep] = entriesOfKind false namedSteps ∧
        LastMention "doc".toList (slottedRepository.candidate slottedEntry) false (entries namedSteps) true) ∧
      (slottedEnvironment.withUseSteps namedSteps).queryUse "doc".toList none = .ok false ∧
      ∀ steps ∈ [namedSteps, patternLastSteps, [namedStep]],
        (slottedEnvironment.withUseSteps steps).queryUse "doc".toList (some slottedEntry) = .ok true := by
  have hhas : slottedEnvironment.database.has slottedEntry.repository = true := by decide +kernel
  have hfetch : slottedEnvironment.database.fetch slottedEntry.repository = .ok slottedRepository := rfl
  have hlast : entriesOfKind false patternLastSteps = entriesOfKind false namedSteps := rfl
  have hpattern : entriesOfKind true patternLastSteps = entriesOfKind true namedSteps := rfl
  have hwords : textWords patternLastSteps = textWords namedSteps := by decide +kernel
  have hsole : entriesOfKind false [namedStep] = entriesOfKind false namedSteps := rfl
  have hmention : LastMention "doc".toList (slottedRepository.candidate slottedEntry) false (entries namedSteps)
      true := by
    rw [← package_ofSteps, ← packageState_eq_some_iff]
    decide +kernel
  have hnone : (slottedEnvironment.withUseSteps namedSteps).queryUse "doc".toList none = .ok false :=
    eq_ok_of_toOption (by decide +kernel)
  have hnamed : (slottedEnvironment.withUseSteps namedSteps).queryUse "doc".toList (some slottedEntry) = .ok true :=
    eq_ok_of_toOption (by decide +kernel)
  obtain ⟨_, hentry⟩ := queryUse_isDecidedBy_useLayers slottedEnvironment namedSteps "doc".toList
  obtain ⟨r, hr, _, hsame⟩ := hentry slottedEntry hhas
  obtain rfl := Except.ok.inj (hfetch.symm.trans hr)
  refine ⟨hhas, ⟨hlast, hpattern, hwords⟩, ⟨hsole, hmention⟩, hnone, ?_⟩
  rw [List.forall_mem_cons, List.forall_mem_cons, List.forall_mem_singleton]
  exact ⟨hnamed, ((hsame patternLastSteps hlast).1 hpattern hwords).trans hnamed,
    ((hsame [namedStep] hsole).2 true hmention).trans hnamed⟩

end Environment
end PackagePolicy
