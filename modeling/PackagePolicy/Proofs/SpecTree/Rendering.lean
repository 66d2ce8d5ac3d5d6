import PackagePolicy.Proofs.Atom.Spelling
import PackagePolicy.Proofs.SpecTree.Evaluation
import PackagePolicy.Proofs.SpecTree.Grammar
import PackagePolicy.Proofs.Text.Words

/-!
# Printed specifications

What is printed for a tree has the words of a spelling of the tree, whatever the leaves are, as long as the
printed form of a leaf is one word that is read as the leaf. Reading it puts one more group around the tree,
which neither adds a leaf nor makes a difference to any callback. Main statement: `parse_render_wrapsOnce`.
-/

namespace PackagePolicy

/-! ### Printed atoms -/

/- What is printed for the sign and for the default of a flag has no blank in it. -/
theorem UseDep.isBlank_of_mem_render {d : UseDep} {w : Text} (h : d.Spells w)
    (hw : ∀ c ∈ w, Text.isBlank c = false) : ∀ c ∈ d.render, Text.isBlank c = false := by
  obtain ⟨sign, _, htrim⟩ := h
  rw [Text.trim_eq_self hw] at htrim
  have hmarks : marks.any Text.isBlank = false := rfl
  rw [List.any_eq_false] at hmarks
  intro c hc
  rw [← renderWith_dash] at hc
  rcases mem_flag_or_mem_marks (by decide) hc with hc | hc
  · refine hw c ?_
    rw [htrim, renderWith]
    simp [hc]
  · exact Bool.eq_false_iff.mpr (hmarks c hc)

namespace Atom
open Text
variable {a : Atom} {w : Text}

theorem isBlank_of_mem_renderUse {deps : List UseDep} {use : Text} (h : SpellsUse deps use)
    (huse : ∀ c ∈ use, isBlank c = false) : ∀ c ∈ renderUse deps, isBlank c = false := by
  cases h with
  | absent => exact nofun
  | @listed _ words hne hspells =>
    have hdep : ∀ d ∈ deps, ∀ c ∈ d.render, isBlank c = false := by
      intro d hd
      obtain ⟨w, hw, hdw⟩ := exists_mem_of_forall₂ hspells d hd
      refine UseDep.isBlank_of_mem_render hdw fun c hc => huse c ?_
      exact List.mem_cons_of_mem _ (List.mem_append_left _ (mem_join_of_mem hw c hc))
    intro c hc
    rw [renderUse, List.isEmpty_eq_false_iff.mpr hne, if_neg Bool.false_ne_true, List.mem_append,
      List.mem_cons, List.mem_singleton] at hc
    rcases hc with (rfl | hc) | rfl
    · rfl
    · rcases mem_of_mem_join hc with hc | ⟨w, hw, hc⟩
      · rw [List.mem_singleton.mp hc]
        rfl
      · obtain ⟨d, hd, rfl⟩ := List.mem_map.mp hw
        exact hdep d hd c hc
    · rfl

theorem getLast?_renderUse {deps : List UseDep} (hne : deps ≠ []) : (renderUse deps).getLast? = some ']' := by
  rw [renderUse, List.isEmpty_eq_false_iff.mpr hne, if_neg Bool.false_ne_true]
  exact List.getLast?_concat

theorem isLeafWord_of_getLast? (h : w.getLast? = some ']') : SpecTree.IsLeafWord w := by
  refine ⟨?_, ?_, ?_, ?_⟩
  · rintro rfl
    cases h
  · rintro rfl
    cases h
  · rintro rfl
    cases h
  · rintro ⟨front, rfl⟩
    rw [List.getLast?_concat] at h
    cases h

/- Without blanks around its version, an atom is printed as it was written, except for its USE dependencies, and
these end with a bracket. -/
theorem isLeafWord_render_of_parse (hw : IsWord w) (hleaf : SpecTree.IsLeafWord w) (h : parse w = .ok a) :
    IsWord a.render ∧ SpecTree.IsLeafWord a.render := by
  obtain ⟨w', tail, hs, ⟨gap, use, hgap, huse, rfl⟩, htail⟩ := exists_spells_of_parse h
  rw [trim_eq_self hw.blank] at hs
  have hbody : a.body gap = a.body [] := by
    cases hv : a.version with
    | none => rw [body, body, hv, versionPart, versionPart]
    | some v =>
      cases gap with
      | nil => rfl
      | cons c gap =>
        have hmem : c ∈ w := by
          rw [hs, body, hv, versionPart]
          simp
        exact absurd (hgap c List.mem_cons_self) (Bool.eq_false_iff.mp (hw.blank c hmem))
  rw [hbody] at hs
  by_cases hdeps : a.useDeps = []
  · have hrender : a.render = w := by
      rw [hdeps] at huse
      cases huse with
      | absent =>
        rw [hs, htail hdeps, List.append_nil, render_eq, hdeps]
        rfl
      | listed hne _ => exact absurd rfl hne
    rw [hrender]
    exact ⟨hw, hleaf⟩
  · have hlast : a.render.getLast? = some ']' := by
      have hne : renderUse a.useDeps ≠ [] := by
        intro hnil
        have hlast := getLast?_renderUse hdeps
        rw [hnil] at hlast
        cases hlast
      rw [render_eq, ← List.append_assoc, List.getLast?_append_of_ne_nil _ hne, getLast?_renderUse hdeps]
    have hblank : ∀ c ∈ a.render, isBlank c = false := by
      have hspelled := hw.blank
      rw [hs] at hspelled
      simp only [List.forall_mem_append] at hspelled
      obtain ⟨⟨hoperator, ⟨hfront, hlimits⟩, huse'⟩, _⟩ := hspelled
      rw [render_eq]
      simp only [List.forall_mem_append]
      exact ⟨hoperator, ⟨hfront, hlimits⟩, isBlank_of_mem_renderUse huse huse'⟩
    refine ⟨⟨?_, hblank⟩, isLeafWord_of_getLast? hlast⟩
    intro hnil
    rw [hnil] at hlast
    cases hlast

theorem parse_render_of_isWord (h : parse w = .ok a) (hrender : IsWord a.render) : parse a.render = .ok a := by
  have hread := isRead_of_parse h
  obtain ⟨_, _, _, ⟨_, _, _, huse, _⟩, _⟩ := exists_spells_of_parse h
  have hspells : a.Spells a.render := ⟨[], _, isBlanks_nil, huse.render hread.useDeps, render_eq a⟩
  refine parse_of_spells hread hspells (fun _ => rfl) ?_
  rw [trim_eq_self hrender.blank, List.append_nil]

end Atom

/-! ### Leaves that are read back -/

namespace SpecTree
open Text
variable {α : Type} {leaf : Text → Except Error α} {print : α → Text} {w rest : Text} {ts : List (SpecTree α)}
  {ws : List Text}

/-- The printed form is a single word that is read as the leaf. -/
structure IsReadBack (leaf : Text → Except Error α) (print : α → Text) (a : α) : Prop where
  isWord : IsWord (print a)
  isLeafWord : IsLeafWord (print a)
  leaf_eq : leaf (print a) = .ok a

/-! ### Words of a printed tree -/

theorem isApart_renderList_append (print : α → Text) (ts : List (SpecTree α)) (h : IsApart rest) :
    IsApart (renderList print ts ++ rest) := by
  cases ts with
  | nil => rwa [renderList]
  | cons t ts =>
    rw [renderList]
    intro c hc
    cases hc
    rfl

theorem words_groupLead_append {kind : Group} (h : ∀ w ∈ kind.lead, IsWord w) (s : Text) :
    words (groupLead kind ++ s) = kind.lead ++ words s := by
  have hword (w : Text) (hw : IsWord w) : words (w ++ ' ' :: s) = [w] ++ words s :=
    words_append_blank_cons hw rfl
  cases kind with
  | all => rfl
  | any => exact hword _ (List.forall_mem_singleton.mp h)
  | conditional flag negated =>
    have hmark : "? ".toList = ['?'] ++ [' '] := rfl
    have hlead : groupLead (.conditional flag negated) ++ s =
        ((if negated then ['!'] else []) ++ flag ++ ['?']) ++ ' ' :: s := by
      rw [groupLead, hmark, ← List.append_assoc, List.append_assoc _ [' '], List.singleton_append]
    rw [hlead]
    exact hword _ (List.forall_mem_singleton.mp h)

/- The printed form may have other words than the text that was read, as leaves need not be printed as they were
written. -/
theorem exists_spells_words_renderList
    (hleaves : ∀ w a, IsWord w → IsLeafWord w → leaf w = .ok a → IsReadBack leaf print a)
    (h : Spells leaf ts ws) (hws : ∀ w ∈ ws, IsWord w) :
    ∃ ws', Spells leaf ts ws' ∧
      ∀ rest, IsApart rest → words (renderList print ts ++ rest) = ws' ++ words rest := by
  induction h with
  | nil => exact ⟨[], .nil, fun _ _ => rfl⟩
  | @leaf w a ts ws hword hleaf _ ih =>
    obtain ⟨hw, hws⟩ := List.forall_mem_cons.mp hws
    obtain ⟨ws', hspells, hwords⟩ := ih hws
    have hback := hleaves w a hw hword hleaf
    refine ⟨print a :: ws', .leaf hback.isLeafWord hback.leaf_eq hspells, fun rest hrest => ?_⟩
    have hapart := isApart_renderList_append print ts hrest
    rw [renderList, render, List.append_assoc, List.cons_append, words_blank_cons rfl,
      words_append_of_isApart hback.isWord hapart, hwords rest hrest, List.cons_append]
  | @group kind children ts inner ws hkind _ _ ihchildren ih =>
    simp only [List.forall_mem_append, List.forall_mem_cons] at hws
    obtain ⟨hlead, hopen, hinner, hclose, hws⟩ := hws
    obtain ⟨inner', hspells', hwords'⟩ := ihchildren hinner
    obtain ⟨ws', hspells, hwords⟩ := ih hws
    refine ⟨_, .group hkind hspells' hspells, fun rest hrest => ?_⟩
    have hapart := isApart_renderList_append print ts hrest
    have hclosing : IsApart (' ' :: ([')'] ++ (renderList print ts ++ rest))) := by
      intro c hc
      cases hc
      rfl
    have htext : renderList print (.group kind children :: ts) ++ rest =
        ' ' :: (groupLead kind ++ (['('] ++ (renderList print children ++
          ' ' :: ([')'] ++ (renderList print ts ++ rest))))) := by
      rw [renderList, render]
      simp only [List.append_assoc, List.cons_append, List.nil_append]
      rfl
    rw [htext, words_blank_cons rfl, words_groupLead_append hlead,
      words_append_of_isApart hopen (isApart_renderList_append print children hclosing),
      hwords' _ hclosing, words_blank_cons rfl, words_append_of_isApart hclose hapart, hwords rest hrest]
    simp only [List.append_assoc, List.cons_append]

theorem parse_render_of_isReadBack
    (hleaves : ∀ w a, IsWord w → IsLeafWord w → leaf w = .ok a → IsReadBack leaf print a)
    {s : Text} {t : SpecTree α} (h : parse leaf s = .ok t) :
    parse leaf (render print t) = .ok (.group .all [t]) := by
  obtain ⟨ts, rfl, hspells⟩ := parse_eq_ok_iff.mp h
  have hparenthesis (c : Char) (hc : isBlank c = false) : IsWord [c] :=
    ⟨List.cons_ne_nil c [], List.forall_mem_singleton.mpr hc⟩
  have hall : Spells leaf [.group .all ts] (Group.lead .all ++ ['('] :: (words s ++ [[')']])) :=
    .group trivial hspells .nil
  have hwords : ∀ w ∈ Group.lead .all ++ ['('] :: (words s ++ [[')']]), IsWord w := by
    simp only [Group.lead, List.nil_append, List.forall_mem_cons, List.forall_mem_append]
    exact ⟨hparenthesis '(' rfl, fun w => isWord_of_mem_words, hparenthesis ')' rfl, nofun⟩
  obtain ⟨ws', hspells', hwords'⟩ := exists_spells_words_renderList hleaves hall hwords
  have hrender : words (render print (.group .all ts)) = ws' := by
    have hlist := hwords' [] nofun
    rw [renderList, renderList, List.append_nil, List.append_nil, words_blank_cons rfl] at hlist
    rw [hlist]
    exact List.append_nil ws'
  rw [parse_eq_ok_iff, hrender]
  exact ⟨_, rfl, hspells'⟩

/-! ### One more group -/

theorem leaves_wrapped (t : SpecTree α) : leaves (.group .all [t]) = t.leaves := by
  rw [leaves, leavesOf, leavesOf, List.append_nil]

theorem evaluate_wrapped {m : Type → Type} [Monad m] [LawfulMonad m] (leaf : α → m Bool)
    (use : Text → m Bool) (t : SpecTree α) :
    evaluate leaf use (.group .all [t]) = t.evaluate leaf use := by
  have hpure : (fun b : Bool => if b then pure true else pure false) = (pure : Bool → m Bool) := by
    funext b
    cases b <;> rfl
  rw [evaluate, evaluateAll, evaluateAll, hpure, bind_pure]

/-! ### Licenses and atoms -/

/-- Reads a specification of atoms. -/
def parseAtoms (s : Text) : Except Error (SpecTree Atom) :=
  parse (fun w => (Atom.parse w).mapError Error.config) s

def renderAtoms (t : SpecTree Atom) : Text := render Atom.render t

theorem isReadBack_license {w a : Text} (hw : IsWord w) (hleaf : IsLeafWord w)
    (h : (Except.ok w : Except Error Text) = .ok a) : IsReadBack .ok id a := by
  cases h
  exact ⟨hw, hleaf, rfl⟩

theorem isReadBack_atom {w : Text} {a : Atom} (hw : IsWord w) (hleaf : IsLeafWord w)
    (h : (Atom.parse w).mapError Error.config = .ok a) :
    IsReadBack (fun w => (Atom.parse w).mapError Error.config) Atom.render a := by
  have hparse := eq_ok_of_mapError_eq_ok h
  obtain ⟨hword, hleafWord⟩ := Atom.isLeafWord_render_of_parse hw hleaf hparse
  refine ⟨hword, hleafWord, ?_⟩
  rw [Atom.parse_render_of_isWord hparse hword]
  rfl

/- The leaves come back as they were, as the printed form of an atom is read as that atom. -/
theorem parse_render_wrapsOnce :
    (∀ s t, parseLicense s = .ok t → parseLicense (renderLicense t) = .ok (.group .all [t])) ∧
      (∀ s t, parseAtoms s = .ok t → parseAtoms (renderAtoms t) = .ok (.group .all [t])) ∧
      ∀ {α : Type} (t : SpecTree α), leaves (.group .all [t]) = t.leaves ∧
        ∀ {m : Type → Type} [Monad m] [LawfulMonad m] (leaf : α → m Bool) (use : Text → m Bool),
          evaluate leaf use (.group .all [t]) = t.evaluate leaf use :=
  ⟨fun _ _ => parse_render_of_isReadBack fun _ _ => isReadBack_license,
    fun _ _ => parse_render_of_isReadBack fun _ _ => isReadBack_atom,
    fun t => ⟨leaves_wrapped t, fun leaf use => evaluate_wrapped leaf use t⟩⟩

/-- Marks in flags, an empty group, and words that only look like marks. -/
def markedLicense : Text := "a|| || ( ) !!x?? ( ( B! ) )  !y".toList

def markedLicenseTree : SpecTree Text := resultOf (parseLicense markedLicense) (by decide +kernel)

def respelledAtoms : Text := "doc? ( =cat/a-1*[!ssl?,b(+)]x )".toList

def respelledAtomsTree : SpecTree Atom := resultOf (parseAtoms respelledAtoms) (by decide +kernel)

def firstOnly (license : Text) : Except Error Bool :=
  if license = "a||".toList then .ok true else .error (.noSuchRepository license)

theorem parse_render_wrapsOnce_markedLicense_respelledAtoms :
    parseLicense markedLicense = .ok markedLicenseTree ∧
      renderLicense markedLicenseTree = "( a|| || ( ) !!x?? ( ( B! ) ) !y )".toList ∧
      parseLicense (renderLicense markedLicenseTree) = .ok (.group .all [markedLicenseTree]) ∧
      parseAtoms respelledAtoms = .ok respelledAtomsTree ∧
      renderAtoms respelledAtomsTree = "( doc? ( =cat/a-1*[-ssl?,b(+)] ) )".toList ∧
      parseAtoms (renderAtoms respelledAtomsTree) = .ok (.group .all [respelledAtomsTree]) ∧
      leaves (.group .all [markedLicenseTree]) = markedLicenseTree.leaves ∧
      evaluate firstOnly (fun _ => .ok true) (.group .all [markedLicenseTree]) =
        markedLicenseTree.evaluate firstOnly fun _ => .ok true := by
  obtain ⟨hlicense, hatoms, hwrapped⟩ := parse_render_wrapsOnce
  have hmarked : parseLicense markedLicense = .ok markedLicenseTree := eq_ok_resultOf _
  have hrespelled : parseAtoms respelledAtoms = .ok respelledAtomsTree := eq_ok_resultOf _
  obtain ⟨hleaves, hevaluate⟩ := hwrapped markedLicenseTree
  have hfirst := hevaluate firstOnly fun _ => Except.ok true
  exact ⟨hmarked, by decide +kernel, hlicense _ _ hmarked, hrespelled, by decide +kernel,
    hatoms _ _ hrespelled, hleaves, hfirst⟩

end SpecTree
end PackagePolicy
