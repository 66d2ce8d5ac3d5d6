import PackagePolicy.Atom.Parser
import PackagePolicy.Proofs.Atom.EqualVersions
import PackagePolicy.Proofs.Text.Cuts
import PackagePolicy.Proofs.Version.Extensions

/-!
# What atoms match

The parts of an atom are separate conditions on a package: its names, its repository and its slot admit the
package, and then its operator asks where the version stands to the version of the atom. So the operators cut
the admitted packages like the order of versions does, and a further restriction leaves fewer of them. Main
statement: `isMatch_isConsistent`.
-/

namespace PackagePolicy

/-! ### Versions without their revisions -/

namespace Version
open Text
variable (v w : Version)

def baseText : Text := v.text.takeWhile (· != '-')

theorem parts?_baseText : parts? v.baseText = some { v.toParts with revision := 0 } ∧
    ∃ tail, v.text = v.baseText ++ tail ∧ OptionalNumber "-r".toList tail v.revision := by
  obtain ⟨front, marks, tail, hspells, htext⟩ := exists_spells_of_parts? v.reads
  have hbase : ∀ c ∈ front ++ (v.letter.toList ++ marks), (c != '-') = true :=
    fun c hc => bne_iff_ne.mpr fun hdash => hspells.notMem_dash_base (hdash ▸ hc)
  have htext : v.text = front ++ (v.letter.toList ++ marks) ++ tail := by
    rw [htext, List.append_assoc, List.append_assoc]
  have hbaseText : v.baseText = front ++ (v.letter.toList ++ marks) := by
    rw [baseText, htext, takeWhile_append_of_head hbase (bne_dash_of_head? (head?_of_revision? hspells.revision))]
  rw [hbaseText]
  refine ⟨?_, tail, htext, revision?_eq_some_iff.mp hspells.revision⟩
  have habsent : OptionalNumber "-r".toList [] 0 := .absent
  have hparts := (hspells.revised habsent).parts?_eq
  rwa [List.append_nil] at hparts

/-- The version that is left of the text when the revision is removed from it. -/
def withoutRevision : Version :=
  { v.toParts with text := v.baseText, revision := 0, reads := v.parts?_baseText.1 }

theorem exists_text_eq_withoutRevision_append :
    ∃ tail, v.text = v.withoutRevision.text ++ tail ∧ OptionalNumber "-r".toList tail v.revision :=
  v.parts?_baseText.2

variable {v w}

theorem sameBase_iff : v.sameBase w = true ↔ (v.withoutRevision == w.withoutRevision) = true := by
  have horder : v.withoutRevision.order w.withoutRevision = (v.compareBase w).then .eq := rfl
  rw [beq_iff, horder, Ordering.then_eq]
  exact beq_iff_eq

end Version

/-! ### Where the operators cut -/

namespace Operator
variable {v v' w : Version} {op : Operator}

/-- The operator that asks for one outcome of the comparison. -/
def ofOrdering : Ordering → Operator
  | .lt => .less
  | .eq => .equal
  | .gt => .greater

theorem holds_ofOrdering_iff {o : Ordering} : (ofOrdering o).holds v w = true ↔ v.order w = o := by
  cases o with
  | eq => exact Version.beq_iff
  | lt | gt => exact beq_iff_eq

theorem mem_iff_exists_ofOrdering : op ∈ [Operator.less, .equal, .greater] ↔ ∃ o, ofOrdering o = op := by
  constructor
  · intro h
    simp only [List.mem_cons, List.not_mem_nil, or_false] at h
    rcases h with rfl | rfl | rfl
    · exact ⟨.lt, rfl⟩
    · exact ⟨.eq, rfl⟩
    · exact ⟨.gt, rfl⟩
  · intro h
    obtain ⟨o, rfl⟩ := h
    cases o <;> decide

theorem existsUnique_holds (v w : Version) :
    ∃! op, op ∈ [Operator.less, .equal, .greater] ∧ op.holds v w = true := by
  have hmem := mem_iff_exists_ofOrdering.mpr ⟨v.order w, rfl⟩
  refine ⟨ofOrdering (v.order w), ⟨hmem, holds_ofOrdering_iff.mpr rfl⟩, ?_⟩
  intro op hop
  obtain ⟨o, rfl⟩ := mem_iff_exists_ofOrdering.mp hop.1
  rw [holds_ofOrdering_iff.mp hop.2]

theorem holds_greaterEqual_iff :
    holds v w .greaterEqual = true ↔ holds v w .greater = true ∨ holds v w .equal = true := by
  show (v.order w).isGE = true ↔ (v.order w == .gt) = true ∨ (v.order w == .eq) = true
  cases v.order w <;> decide

theorem holds_lessEqual_iff :
    holds v w .lessEqual = true ↔ holds v w .less = true ∨ holds v w .equal = true := by
  show (v.order w).isLE = true ↔ (v.order w == .lt) = true ∨ (v.order w == .eq) = true
  cases v.order w <;> decide

theorem holds_of_isGE (hop : op ∈ [Operator.greater, .greaterEqual]) (hle : (v'.order v).isGE = true)
    (h : op.holds v w = true) : op.holds v' w = true := by
  simp only [List.mem_cons, List.not_mem_nil, or_false] at hop
  rcases hop with rfl | rfl
  · exact beq_iff_eq.mpr (Std.TransCmp.gt_of_isGE_of_gt hle (beq_iff_eq.mp h))
  · exact Std.TransCmp.isGE_trans hle h

theorem holds_of_isLE (hop : op ∈ [Operator.less, .lessEqual]) (hle : (v'.order v).isLE = true)
    (h : op.holds v w = true) : op.holds v' w = true := by
  simp only [List.mem_cons, List.not_mem_nil, or_false] at hop
  rcases hop with rfl | rfl
  · exact beq_iff_eq.mpr (Std.TransCmp.lt_of_isLE_of_lt hle (beq_iff_eq.mp h))
  · exact Std.TransCmp.isLE_trans hle h

end Operator

namespace Atom
open Text

/-! ### Restrictions -/

/-- The slot and the subslot of a declared text; a slot without a subslot is its own subslot. -/
def Declares (declared slot subslot : Text) : Prop :=
  '/' ∉ slot ∧ (declared = slot ++ '/' :: subslot ∨ declared = slot ∧ subslot = slot)

theorem slotParts_eq_iff {declared slot subslot : Text} :
    slotParts declared = (slot, subslot) ↔ Declares declared slot subslot := by
  unfold slotParts Declares
  constructor
  · intro h
    cases hcut : cut '/' declared with
    | none =>
      rw [hcut] at h
      cases h
      exact ⟨cut_eq_none_iff.mp hcut, .inr ⟨rfl, rfl⟩⟩
    | some parts =>
      rw [hcut] at h
      cases h
      obtain ⟨hdeclared, hslot⟩ := cut_eq_some_iff.mp hcut
      exact ⟨hslot, .inl hdeclared⟩
  · intro h
    obtain ⟨hslot, rfl | ⟨rfl, rfl⟩⟩ := h
    · rw [cut_append_cons hslot]
      rfl
    · rw [cut_eq_none_iff.mpr hslot]
      rfl

/-- All conditions of the atom hold of the package but that of its operator. -/
structure Admits (a : Atom) (p : Candidate) : Prop where
  named : a.isNamed p.category p.name = true
  repository : ∀ repository ∈ a.repository, p.repository = some repository
  slot : ∀ slot ∈ a.slot, ∃ declared subslot, p.slot = some declared ∧ Declares declared slot subslot ∧
    ∀ wanted ∈ a.subslot, subslot = wanted

/-- The atoms differ in that the second one may lack restrictions of the first one. -/
structure Restricts (b a : Atom) : Prop where
  operator : b.operator = a.operator
  category : b.category = a.category
  name : b.name = a.name
  version : b.version = a.version
  slot : a.slot = none ∨ b.slot = a.slot
  subslot : a.subslot = none ∨ b.subslot = a.subslot
  repository : a.repository = none ∨ b.repository = a.repository

section
variable {a b : Atom} {p q : Candidate}

theorem repositoryMatches_iff {repository : Option Text} :
    a.repositoryMatches repository = true ↔ ∀ wanted ∈ a.repository, repository = some wanted := by
  unfold repositoryMatches
  cases a.repository <;> simp

theorem slotMatches_iff {slot : Option Text} :
    a.slotMatches slot = true ↔ ∀ wanted ∈ a.slot, ∃ declared subslot, slot = some declared ∧
      Declares declared wanted subslot ∧ ∀ wantedSubslot ∈ a.subslot, subslot = wantedSubslot := by
  simp only [← slotParts_eq_iff]
  unfold slotMatches
  cases a.slot with
  | none => simp
  | some wanted =>
    cases slot with
    | none => simp
    | some declared => cases a.subslot <;> simp [Prod.ext_iff]

theorem isMatch_iff : a.isMatch p = true ↔ a.Admits p ∧ a.versionMatches p.version = true := by
  rw [isMatch, Bool.and_eq_true, Bool.and_eq_true, Bool.and_eq_true, repositoryMatches_iff, slotMatches_iff]
  refine and_congr_left fun _ => ?_
  exact ⟨fun h => ⟨h.1.1, h.1.2, h.2⟩, fun h => ⟨⟨h.named, h.repository⟩, h.slot⟩⟩

theorem Admits.of_restricts (h : b.Restricts a) (hb : b.Admits p) : a.Admits p := by
  have hpart {o o' : Option Text} (hpart : o = none ∨ o' = o) : ∀ s ∈ o, s ∈ o' := by
    intro s hs
    rcases hpart with hnone | hsame
    · rw [hnone] at hs
      cases hs
    · rwa [hsame]
  refine ⟨?_, fun repository hmem => hb.repository repository (hpart h.repository repository hmem), ?_⟩
  · rw [isNamed, ← h.category, ← h.name]
    exact hb.named
  · intro slot hslot
    obtain ⟨declared, subslot, hp, hdeclares, hsubslot⟩ := hb.slot slot (hpart h.slot slot hslot)
    exact ⟨declared, subslot, hp, hdeclares, fun wanted hmem => hsubslot wanted (hpart h.subslot wanted hmem)⟩

theorem isMatch_of_restricts (h : b.Restricts a) (hb : b.isMatch p = true) : a.isMatch p = true := by
  obtain ⟨hadmits, hversion⟩ := isMatch_iff.mp hb
  refine isMatch_iff.mpr ⟨hadmits.of_restricts h, ?_⟩
  rwa [versionMatches, ← h.version, ← h.operator]

theorem isMatch_slot_eq {s : Text} (hs : '/' ∉ s) :
    a.isMatch { p with slot := some s } = a.isMatch { p with slot := some (s ++ '/' :: s) } := by
  have hplain : slotParts s = (s, s) := slotParts_eq_iff.mpr ⟨hs, .inr ⟨rfl, rfl⟩⟩
  have hpair : slotParts (s ++ '/' :: s) = (s, s) := slotParts_eq_iff.mpr ⟨hs, .inl rfl⟩
  simp only [isMatch, slotMatches, hplain, hpair]

/-! ### Operators on admitted packages -/

/-- The atom with an operator and a version of its own. -/
def comparing (a : Atom) (operator : Operator) (wanted : Version) : Atom :=
  { a with operator, version := some wanted }

theorem isMatch_comparing (h : a.Admits p) (operator : Operator) (wanted : Version) :
    (a.comparing operator wanted).isMatch p = operator.holds p.version wanted := by
  have hadmits : (a.comparing operator wanted).Admits p := ⟨h.named, h.repository, h.slot⟩
  rw [Bool.eq_iff_iff, isMatch_iff, and_iff_right hadmits]
  rfl

/-- The operators at a version agree with one another on a package. -/
structure CutsAt (a : Atom) (wanted : Version) (p : Candidate) : Prop where
  existsUnique : ∃! op, op ∈ [Operator.less, .equal, .greater] ∧ (a.comparing op wanted).isMatch p = true
  greaterEqual : (a.comparing .greaterEqual wanted).isMatch p = true ↔
    (a.comparing .greater wanted).isMatch p = true ∨ (a.comparing .equal wanted).isMatch p = true
  lessEqual : (a.comparing .lessEqual wanted).isMatch p = true ↔
    (a.comparing .less wanted).isMatch p = true ∨ (a.comparing .equal wanted).isMatch p = true
  sameBase : (a.comparing .sameBase wanted).isMatch p = true ↔
    (p.version.withoutRevision == wanted.withoutRevision) = true
  upward : ∀ op ∈ [Operator.greater, .greaterEqual], ∀ q, a.Admits q → q.version.order p.version ≠ .lt →
    (a.comparing op wanted).isMatch p = true → (a.comparing op wanted).isMatch q = true
  downward : ∀ op ∈ [Operator.less, .lessEqual], ∀ q, a.Admits q → q.version.order p.version ≠ .gt →
    (a.comparing op wanted).isMatch p = true → (a.comparing op wanted).isMatch q = true

theorem Admits.cutsAt (h : a.Admits p) (wanted : Version) : a.CutsAt wanted p where
  existsUnique := by
    simp only [isMatch_comparing h]
    exact Operator.existsUnique_holds p.version wanted
  greaterEqual := by
    simp only [isMatch_comparing h]
    exact Operator.holds_greaterEqual_iff
  lessEqual := by
    simp only [isMatch_comparing h]
    exact Operator.holds_lessEqual_iff
  sameBase := by
    rw [isMatch_comparing h]
    exact Version.sameBase_iff
  upward op hop q hq hle := by
    rw [isMatch_comparing h, isMatch_comparing hq]
    exact Operator.holds_of_isGE hop (Ordering.isGE_iff_ne_lt.mpr hle)
  downward op hop q hq hle := by
    rw [isMatch_comparing h, isMatch_comparing hq]
    exact Operator.holds_of_isLE hop (Ordering.isLE_iff_ne_gt.mpr hle)

end

/- Whatever patterns and restrictions the atom has, and whether or not the slot and the repository of the
package are known. -/
theorem isMatch_isConsistent :
    (∀ (a : Atom) (p : Candidate), a.Admits p → ∀ wanted, a.CutsAt wanted p) ∧
      (∀ (a b : Atom) (p : Candidate), b.Restricts a → b.isMatch p = true → a.isMatch p = true) ∧
      ∀ (a : Atom) (p : Candidate) (s : Text), '/' ∉ s →
        a.isMatch { p with slot := some s } = a.isMatch { p with slot := some (s ++ '/' :: s) } :=
  ⟨fun _ _ h => h.cutsAt, fun _ _ _ => isMatch_of_restricts, fun _ _ _ => isMatch_slot_eq⟩

def compiler : Candidate where
  category := "sys-devel".toList
  name := "gcc".toList
  version := (Version.parse? "13.02-r1".toList).get (by decide +kernel)
  slot := some "13/13.2".toList
  repository := some "main".toList

def anyCompiler : Atom := unversioned "sys-*".toList "gcc".toList

def slottedCompiler : Atom :=
  { anyCompiler with
    slot := some "13".toList
    subslot := some "13.2".toList
    repository := some "main".toList }

theorem isMatch_isConsistent_compiler : slottedCompiler.CutsAt compiler.version compiler ∧
    anyCompiler.isMatch compiler = true ∧
      slottedCompiler.isMatch { compiler with slot := some "13".toList } =
        slottedCompiler.isMatch { compiler with slot := some "13/13".toList } := by
  obtain ⟨hcuts, hrestricts, hslot⟩ := isMatch_isConsistent
  have hmatch : slottedCompiler.isMatch compiler = true := by decide +kernel
  refine ⟨hcuts slottedCompiler compiler (isMatch_iff.mp hmatch).1 compiler.version, ?_,
    hslot slottedCompiler compiler "13".toList (by decide)⟩
  exact hrestricts anyCompiler slottedCompiler compiler
    ⟨rfl, rfl, rfl, rfl, .inl rfl, .inl rfl, .inl rfl⟩ hmatch

end Atom
end PackagePolicy
