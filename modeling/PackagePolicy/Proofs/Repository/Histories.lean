import PackagePolicy.Proofs.Precedence
import PackagePolicy.Proofs.Repository.Descriptions
import PackagePolicy.Proofs.Repository.Ordering

/-!
# Histories of additions

What a repository holds after any number of additions, some of them of versions that are equal to earlier ones: for
each version the text that came first and the metadata that came last. An addition changes nothing that is known of
other versions. Main statement: `keeps_of_addAll`.
-/

namespace PackagePolicy
open Text

/-! ### Lookup after an insertion -/

namespace Release
variable {id : PackageId} {version v : Version} {r x : Release} {rs : List Release}

def isOf (id : PackageId) (version : Version) (x : Release) : Bool := x.id == id && x.version == version

theorem isOf_iff : x.isOf id version = true ↔ x.IsOf id version := by
  rw [isOf, Bool.and_eq_true, beq_iff_eq, Version.beq_iff, IsOf]

theorem order_eq_of_isOf (hr : r.IsOf id version) (hx : x.IsOf id version) : r.order x = .eq := by
  refine Ordering.then_eq_eq.mpr ⟨PackageId.order_eq_eq_iff.mpr (hr.1.trans hx.1.symm), ?_⟩
  exact Std.TransCmp.eq_trans hr.2 (Std.OrientedCmp.eq_symm hx.2)

/-- The metadata of the first release of a version. -/
def lookup? (id : PackageId) (version : Version) (rs : List Release) : Option Metadata :=
  (rs.find? (isOf id version)).map (·.metadata)

theorem lookup?_cons_of_isOf (h : x.IsOf id version) : lookup? id version (x :: rs) = some x.metadata := by
  rw [lookup?, List.find?_cons_of_pos (isOf_iff.mpr h), Option.map_some]

theorem lookup?_cons_of_not_isOf (h : ¬ x.IsOf id version) :
    lookup? id version (x :: rs) = lookup? id version rs := by
  rw [lookup?, List.find?_cons_of_neg (mt isOf_iff.mp h), lookup?]

theorem lookup?_insert_of_isOf (h : r.IsOf id version) :
    lookup? id version (insert r rs) = some r.metadata := by
  induction rs with
  | nil => exact lookup?_cons_of_isOf h
  | cons x xs ih =>
    unfold insert
    split
    next => exact lookup?_cons_of_isOf h
    next heq =>
      have hx : IsOf id version { x with metadata := r.metadata } := (isOf_congr heq).mp h
      exact lookup?_cons_of_isOf hx
    next hgt =>
      have hx : ¬ x.IsOf id version := fun hx => nomatch hgt.symm.trans (order_eq_of_isOf h hx)
      rw [lookup?_cons_of_not_isOf hx, ih]

/- The release whose metadata are replaced is of the version that is added. -/
theorem lookup?_insert_of_not_isOf (h : ¬ r.IsOf id version) :
    lookup? id version (insert r rs) = lookup? id version rs := by
  induction rs with
  | nil => exact lookup?_cons_of_not_isOf h
  | cons x xs ih =>
    unfold insert
    split
    next => exact lookup?_cons_of_not_isOf h
    next heq =>
      have hx : ¬ x.IsOf id version := mt (isOf_congr heq).mpr h
      have hreplaced : ¬ IsOf id version { x with metadata := r.metadata } := hx
      rw [lookup?_cons_of_not_isOf hreplaced, lookup?_cons_of_not_isOf hx]
    next =>
      by_cases hx : x.IsOf id version
      · rw [lookup?_cons_of_isOf hx, lookup?_cons_of_isOf hx]
      · rw [lookup?_cons_of_not_isOf hx, lookup?_cons_of_not_isOf hx, ih]

theorem lookup?_insert_eq_some_iff {m : Metadata} :
    lookup? id version (insert r rs) = some m ↔
      (r.IsOf id version ∧ r.metadata = m) ∨ lookup? id version rs = some m ∧ ¬ r.IsOf id version := by
  by_cases h : r.IsOf id version
  · rw [lookup?_insert_of_isOf h, Option.some_inj]
    simp [h]
  · rw [lookup?_insert_of_not_isOf h]
    simp [h]

theorem lookup?_foldl_insert_eq_some_iff {m : Metadata} (added : List Release) :
    lookup? id version (added.foldl (fun rs r => insert r rs) []) = some m ↔
      Stands (fun x => x.IsOf id version ∧ x.metadata = m) (fun x => x.IsOf id version) added := by
  have hnil : ¬ lookup? id version [] = some m := (Option.some_ne_none m).symm
  refine foldl_iff_stands (fun rs r => insert r rs) (fun rs => lookup? id version rs = some m) hnil ?_ added
  exact fun rs r => lookup?_insert_eq_some_iff

theorem lookup?_eq_none_iff : lookup? id version rs = none ↔ ¬ ∃ x ∈ rs, x.IsOf id version := by
  rw [lookup?, Option.map_eq_none_iff, List.find?_eq_none]
  simp only [isOf_iff, not_exists, not_and]

/-! ### Texts after an insertion -/

/-- The release is listed under this version, in this spelling. -/
def IsListed (id : PackageId) (v : Version) (rs : List Release) : Prop := ∃ x ∈ rs, x.id = id ∧ x.version = v

theorem isListed_cons_iff : IsListed id v (x :: rs) ↔ (x.id = id ∧ x.version = v) ∨ IsListed id v rs :=
  List.exists_mem_cons_iff _ x rs

theorem isOf_self (hid : x.id = id) (hv : x.version = v) : x.IsOf id v :=
  ⟨hid, hv ▸ Std.ReflCmp.compare_self⟩

/- A spelling enters only where no equal version is listed yet, and none is lost. -/
theorem isListed_insert_iff (h : rs.Pairwise fun x y => x.order y = .lt) :
    IsListed id v (insert r rs) ↔
      IsListed id v rs ∨ (¬ ∃ x ∈ rs, x.IsOf id v) ∧ r.id = id ∧ r.version = v := by
  induction rs with
  | nil => simp [insert, IsListed]
  | cons x xs ih =>
    have hcons := List.pairwise_cons.mp h
    unfold insert
    split
    next hlt =>
      have hnone (hr : r.IsOf id v) : ¬ ∃ y ∈ x :: xs, y.IsOf id v := by
        intro hex
        obtain ⟨y, hy, hof⟩ := hex
        have hbefore : r.order y = .lt := by
          rcases List.mem_cons.mp hy with rfl | hy
          · exact hlt
          · exact Std.TransCmp.lt_trans hlt (hcons.1 y hy)
        cases hbefore.symm.trans (order_eq_of_isOf hr hof)
      rw [isListed_cons_iff, or_comm]
      refine or_congr_right ⟨fun hr => ⟨hnone (isOf_self hr.1 hr.2), hr⟩, And.right⟩
    next heq =>
      have hsome (hr : r.IsOf id v) : ∃ y ∈ x :: xs, y.IsOf id v :=
        ⟨x, List.mem_cons_self, (isOf_congr heq).mp hr⟩
      rw [isListed_cons_iff, isListed_cons_iff]
      refine (or_iff_left fun hnew => ?_).symm
      exact hnew.1 (hsome (isOf_self hnew.2.1 hnew.2.2))
    next hgt =>
      have hx (hr : r.IsOf id v) : ¬ x.IsOf id v := by
        intro hx
        cases hgt.symm.trans (order_eq_of_isOf hr hx)
      rw [isListed_cons_iff, isListed_cons_iff, ih hcons.2, or_assoc, List.exists_mem_cons_iff, not_or]
      refine or_congr_right (or_congr_right (and_congr_left fun hr => ?_))
      exact (and_iff_right (hx (isOf_self hr.1 hr.2))).symm

theorem isListed_foldl_insert_iff (added : List Release) :
    IsListed id v (added.foldl (fun rs r => insert r rs) []) ↔
      ∃ x, added.find? (isOf id v) = some x ∧ x.version = v := by
  induction added using List.reverseRecOn with
  | nil => simp [IsListed]
  | append_singleton added r ih =>
    have hknown : (∃ x ∈ added.foldl (fun rs r => insert r rs) [], x.IsOf id v) ↔
        ∃ x ∈ added, x.IsOf id v := by
      rw [exists_mem_foldl_insert_iff]
      simp
    rw [List.foldl_concat, isListed_insert_iff (pairwise_foldl_insert List.Pairwise.nil), ih, hknown,
      List.find?_append]
    cases hfind : added.find? (isOf id v) with
    | some y =>
      have hy : ∃ x ∈ added, x.IsOf id v :=
        ⟨y, List.mem_of_find?_eq_some hfind, isOf_iff.mp (List.find?_some hfind)⟩
      simp [hy]
    | none =>
      have hnone : ¬ ∃ x ∈ added, x.IsOf id v := by
        simpa only [isOf_iff, not_exists, not_and] using List.find?_eq_none.mp hfind
      have hr : r.isOf id v = true ∧ r.version = v ↔ r.id = id ∧ r.version = v :=
        and_congr_left fun hv => ⟨fun h => (isOf_iff.mp h).1, fun hid => isOf_iff.mpr (isOf_self hid hv)⟩
      rw [Option.none_or, List.find?_singleton]
      simp [hnone, ← hr]

end Release

/-! ### Additions and what they describe -/

namespace Metadata
variable {keywords license : Text} {m : Metadata}

/-- The text is the expression of a license, or blank where there is none. -/
def IsLicenseText (s : Text) : Option (SpecTree Text) → Prop
  | none => IsBlanks s
  | some t => ¬ IsBlanks s ∧ SpecTree.parseLicense s = .ok t

theorem readLicense_eq_ok_iff {l : Option (SpecTree Text)} :
    (if (trim license).isEmpty then .ok none else (SpecTree.parseLicense license).map some) = Except.ok l ↔
      IsLicenseText license l := by
  have hblank : (trim license).isEmpty = true ↔ IsBlanks license := List.isEmpty_iff.trans trim_eq_nil_iff
  by_cases h : IsBlanks license
  · rw [if_pos (hblank.mpr h)]
    cases l with
    | none => exact iff_of_true rfl h
    | some t => exact iff_of_false nofun fun hl => hl.1 h
  · rw [if_neg (mt hblank.mp h)]
    cases hparse : SpecTree.parseLicense license with
    | error e => cases l <;> simp [IsLicenseText, Except.map, h, hparse]
    | ok t => cases l <;> simp [IsLicenseText, Except.map, h, hparse]

theorem parse_eq_ok_iff :
    parse keywords license = .ok m ↔
      Keyword.parseList keywords = .ok m.keywords ∧ IsLicenseText license m.license ∧ m.slot = defaultSlot := by
  cases hks : Keyword.parseList keywords with
  | error e =>
    refine iff_of_false (fun h => ?_) fun h => nomatch h.1
    unfold parse at h
    split at h
    · cases h
    next ks hks' => cases hks.symm.trans hks'
  | ok ks =>
    rw [parse_eq hks]
    constructor
    · intro h
      cases hl : (if (trim license).isEmpty then .ok none else (SpecTree.parseLicense license).map some) with
      | error e =>
        rw [hl] at h
        cases h
      | ok l =>
        rw [hl] at h
        cases h
        exact ⟨rfl, readLicense_eq_ok_iff.mp hl, rfl⟩
    · intro h
      obtain ⟨hkeywords, hlicense, hslot⟩ := h
      rw [readLicense_eq_ok_iff.mpr hlicense]
      exact congrArg Except.ok (eq_of_fields (Except.ok.inj hkeywords) rfl hslot.symm)

end Metadata

/-- What is given to an addition. -/
structure Addition where
  cpv : Text
  keywords : Text
  license : Text

namespace Addition
variable {a : Addition} {as : List Addition} {x : Release} {r r' : Repository}

def apply (a : Addition) (r : Repository) : Except Error Repository := r.addPackage a.cpv a.keywords a.license

def addAll (as : List Addition) (r : Repository) : Except Error Repository := as.foldlM (fun r a => a.apply r) r

/-- The texts spell the release; blanks may be behind the version, and the slot may be left out. -/
structure Describes (a : Addition) (x : Release) : Prop where
  spoken : Repository.IsSpoken x.id x.version
  colon : ':' ∉ x.id.render
  cpv : ∃ gap slot, IsBlanks gap ∧ slot ≠ some [] ∧ x.metadata.slot = slot.getD Metadata.defaultSlot ∧
    a.cpv = x.id.render ++ '-' :: (x.version.text ++ gap) ++ Atom.renderPart [':'] slot
  keywords : Keyword.parseList a.keywords = .ok x.metadata.keywords
  license : Metadata.IsLicenseText a.license x.metadata.license

theorem notMem_body_iff {id : PackageId} {version : Version} {gap : Text} (hgap : IsBlanks gap) :
    ':' ∉ id.render ++ '-' :: (version.text ++ gap) ↔ ':' ∉ id.render := by
  have hversion : ':' ∉ version.text := version.notMem_text rfl
  have hblanks : ':' ∉ gap := fun hmem => absurd (hgap ':' hmem) (by decide)
  simp [hversion, hblanks]

theorem apply_eq_ok_iff : a.apply r = .ok r' ↔ ∃ x, a.Describes x ∧ r' = r.insert x.id x.version x.metadata := by
  rw [apply, Repository.addPackage_eq_ok_iff]
  constructor
  · intro h
    obtain ⟨body, slot, id, version, metadata, hslot, hcpv, hmetadata, rfl⟩ := h
    obtain ⟨hcolon, hbody, hne⟩ := Repository.splitSlot_eq_ok_iff.mp hslot
    obtain ⟨hspoken, gap, hgap, rfl⟩ := Repository.parseCpv_eq_ok_iff.mp hcpv
    obtain ⟨hkeywords, hlicense, hdefault⟩ := Metadata.parse_eq_ok_iff.mp hmetadata
    refine ⟨⟨id, version, { metadata with slot := slot.getD metadata.slot }⟩, ?_, rfl⟩
    exact {
      spoken := hspoken
      colon := (notMem_body_iff hgap).mp hcolon
      cpv := ⟨gap, slot, hgap, hne, by rw [hdefault], hbody⟩
      keywords := hkeywords
      license := hlicense }
  · intro h
    obtain ⟨x, hx, rfl⟩ := h
    obtain ⟨gap, slot, hgap, hne, hslot, hcpv⟩ := hx.cpv
    have hmetadata : Metadata.parse a.keywords a.license = .ok { x.metadata with slot := Metadata.defaultSlot } :=
      Metadata.parse_eq_ok_iff.mpr ⟨hx.keywords, hx.license, rfl⟩
    refine ⟨x.id.render ++ '-' :: (x.version.text ++ gap), slot, x.id, x.version, _, ?_, ?_, hmetadata, ?_⟩
    · exact Repository.splitSlot_eq_ok_iff.mpr ⟨(notMem_body_iff hgap).mpr hx.colon, hcpv, hne⟩
    · exact Repository.parseCpv_eq_ok_iff.mpr ⟨hx.spoken, gap, hgap, rfl⟩
    · exact congrArg (r.insert x.id x.version) (Metadata.eq_of_fields rfl rfl hslot)

theorem addAll_eq_ok_iff : addAll as r = .ok r' ↔ ∃ added, List.Forall₂ Describes as added ∧
    r' = { r with releases := added.foldl (fun rs x => Release.insert x rs) r.releases } := by
  induction as generalizing r with
  | nil =>
    simp only [List.forall₂_nil_left_iff, exists_eq_left, List.foldl_nil]
    exact ⟨fun h => (Except.ok.inj h).symm, congrArg Except.ok ∘ Eq.symm⟩
  | cons a as ih =>
    simp only [List.forall₂_cons_left_iff]
    constructor
    · intro h
      obtain ⟨r₁, hfirst, hrest⟩ := exists_of_bind_eq_ok h
      obtain ⟨x, hx, rfl⟩ := apply_eq_ok_iff.mp hfirst
      obtain ⟨added, hadded, rfl⟩ := ih.mp hrest
      exact ⟨x :: added, ⟨x, added, hx, hadded, rfl⟩, rfl⟩
    · intro h
      obtain ⟨_, ⟨x, added, hx, hadded, rfl⟩, rfl⟩ := h
      have hfirst : a.apply r = .ok (r.insert x.id x.version x.metadata) := apply_eq_ok_iff.mpr ⟨x, hx, rfl⟩
      rw [addAll, List.foldlM_cons, hfirst, ok_bind]
      exact ih.mpr ⟨added, hadded, rfl⟩

end Addition

/-! ### What is kept -/

namespace Repository
variable {r : Repository} {id : PackageId} {v : Version}

theorem mem_versions_iff : v ∈ r.versions id ↔ Release.IsListed id v r.releases := by
  simp only [versions, List.mem_map, List.mem_filter, beq_iff_eq, and_assoc, Release.IsListed]

theorem IsOrdered.pairwise_versions (h : r.IsOrdered) (id : PackageId) :
    (r.versions id).Pairwise fun v w => v.order w = .lt := by
  rw [versions, List.pairwise_map, List.pairwise_filter]
  refine h.imp fun {x y} hlt hx hy => ?_
  have hid : x.id.order y.id = .eq :=
    PackageId.order_eq_eq_iff.mpr ((beq_iff_eq.mp hx).trans (beq_iff_eq.mp hy).symm)
  rwa [Release.order, hid] at hlt

/-- The repository answers for each version by the metadata that were added for it last, and lists it in the
spelling in which it was added first. -/
structure Keeps (r : Repository) (added : List Release) : Prop where
  metadata : ∀ e m, r.metadata? e = some m ↔
    Stands (fun x => x.IsOf e.id e.version ∧ x.metadata = m) (fun x => x.IsOf e.id e.version) added
  unknown : ∀ e, r.metadata? e = none ↔ ∀ x ∈ added, ¬ x.IsOf e.id e.version
  ascending : ∀ id, (r.versions id).Pairwise fun v w => v.order w = .lt
  spelling : ∀ id v, v ∈ r.versions id ↔ ∃ x, added.find? (Release.isOf id v) = some x ∧ x.version = v
  listed : ∀ x ∈ added, ∃ v ∈ r.versions x.id, x.version.order v = .eq

theorem keeps_of_releases_eq {added : List Release}
    (h : r.releases = added.foldl (fun rs x => Release.insert x rs) []) : r.Keeps added where
  metadata e m := by
    rw [← Release.lookup?_foldl_insert_eq_some_iff, ← h]
    rfl
  unknown e := by
    have hnone : r.metadata? e = none ↔ ¬ ∃ x ∈ r.releases, x.IsOf e.id e.version := Release.lookup?_eq_none_iff
    rw [hnone, h, Release.exists_mem_foldl_insert_iff]
    simp
  ascending id := by
    have hordered : r.IsOrdered := by
      rw [IsOrdered, h]
      exact Release.pairwise_foldl_insert List.Pairwise.nil
    exact hordered.pairwise_versions id
  spelling id v := by
    rw [mem_versions_iff, h, Release.isListed_foldl_insert_iff]
  listed x hx := by
    have hof : ∃ y ∈ r.releases, y.IsOf x.id x.version := by
      rw [h, Release.exists_mem_foldl_insert_iff]
      exact .inl ⟨x, hx, Release.isOf_self rfl rfl⟩
    obtain ⟨y, hy, hid, hversion⟩ := hof
    exact ⟨y.version, mem_versions_iff.mpr ⟨y, hy, hid, rfl⟩, Std.OrientedCmp.eq_symm hversion⟩

theorem metadata?_insert {x : Release} {e : Entry} (h : ¬ x.IsOf e.id e.version) :
    (r.insert x.id x.version x.metadata).metadata? e = r.metadata? e :=
  Release.lookup?_insert_of_not_isOf h

theorem slot_candidate_eq (r : Repository) (e : Entry) : (r.candidate e).slot = (r.metadata? e).map (·.slot) := rfl

/- The additions may be of any packages, in any order and with any repetitions. -/
theorem keeps_of_addAll {name : Text} {as : List Addition} (h : Addition.addAll as (.empty name) = .ok r) :
    (∃ added, List.Forall₂ Addition.Describes as added ∧ r.Keeps added) ∧
      ∀ a x, Addition.Describes a x → ∃ r', a.apply r = .ok r' ∧ ∀ e, ¬ x.IsOf e.id e.version →
        r'.metadata? e = r.metadata? e ∧ (r'.candidate e).slot = (r.candidate e).slot := by
  obtain ⟨added, hadded, rfl⟩ := Addition.addAll_eq_ok_iff.mp h
  refine ⟨⟨added, hadded, keeps_of_releases_eq rfl⟩, fun a x hx => ?_⟩
  refine ⟨_, Addition.apply_eq_ok_iff.mpr ⟨x, hx, rfl⟩, fun e he => ?_⟩
  rw [slot_candidate_eq, slot_candidate_eq, metadata?_insert he]
  exact ⟨rfl, rfl⟩

/-- A version, a revision of it, and the version once more in another spelling. -/
def respelledAdditions : List Addition :=
  [⟨"dev-libs/lib-1.0:3".toList, "~amd64".toList, "MIT".toList⟩, ⟨"dev-libs/lib-1.0-r1".toList, [], [' ']⟩,
    ⟨"dev-libs/lib-01.00-r0 :4/2".toList, "amd64".toList, []⟩]

def respelledRepository : Repository :=
  resultOf (Addition.addAll respelledAdditions (.empty "main".toList)) (by decide +kernel)

/-- A further revision. -/
def revisionAddition : Addition := ⟨"dev-libs/lib-1.0-r2:5".toList, "~amd64".toList, "MIT".toList⟩

def revisionRelease : Release where
  id := ⟨"dev-libs".toList, "lib".toList⟩
  version := (Version.parse? "1.0-r2".toList).get (by decide +kernel)
  metadata := { resultOf (Metadata.parse "~amd64".toList "MIT".toList) (by decide +kernel) with slot := ['5'] }

theorem describes_revisionRelease : revisionAddition.Describes revisionRelease where
  spoken := ⟨by decide, by decide, by decide +kernel⟩
  colon := by decide
  cpv := ⟨[], some ['5'], isBlanks_nil, by decide, rfl, by decide +kernel⟩
  keywords := (Metadata.parse_eq_ok_iff.mp (eq_ok_resultOf _)).1
  license := (Metadata.parse_eq_ok_iff.mp (eq_ok_resultOf _)).2.1

def respelledEntry : Entry := resultOf (Entry.parse "dev-libs/lib-1.00::main".toList) (by decide +kernel)

theorem keeps_of_addAll_respelledAdditions :
    Addition.addAll respelledAdditions (.empty "main".toList) = .ok respelledRepository ∧
      (∃ added, List.Forall₂ Addition.Describes respelledAdditions added ∧ respelledRepository.Keeps added) ∧
      (respelledRepository.versions respelledEntry.id).map (·.text) = ["1.0".toList, "1.0-r1".toList] ∧
      (respelledRepository.metadata? respelledEntry).map (fun m => (m.keywords, m.slot)) =
        some ([⟨"amd64".toList, .stable⟩], "4/2".toList) ∧
      revisionAddition.Describes revisionRelease ∧
      ¬ revisionRelease.IsOf respelledEntry.id respelledEntry.version ∧
      ∃ r', revisionAddition.apply respelledRepository = .ok r' ∧
        r'.metadata? respelledEntry = respelledRepository.metadata? respelledEntry := by
  have hadd : Addition.addAll respelledAdditions (.empty "main".toList) = .ok respelledRepository :=
    eq_ok_resultOf _
  have hother : ¬ revisionRelease.IsOf respelledEntry.id respelledEntry.version :=
    mt Release.isOf_iff.mpr (by decide +kernel)
  obtain ⟨hkeeps, hframe⟩ := keeps_of_addAll hadd
  obtain ⟨r', happly, hsame⟩ := hframe _ _ describes_revisionRelease
  exact ⟨hadd, hkeeps, by decide +kernel, by decide +kernel, describes_revisionRelease, hother, r', happly,
    (hsame respelledEntry hother).1⟩

end Repository
end PackagePolicy
