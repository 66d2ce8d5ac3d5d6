import Mathlib.Logic.Relation
import PackagePolicy.Proofs.Entry.Spelling
import PackagePolicy.Repository.Builder
import PackagePolicy.Result

/-!
# Additions to a repository

A package version is added under exactly the texts that spell it (`addPackage_eq_ok_iff`), and what such
a text cannot say is true of no release of a repository that is built by additions
(`IsBuilt.isSpoken_of_mem`).
-/

namespace PackagePolicy
open Text

/-! ### Insertion -/

namespace Release

/- A release that is there already may get the metadata of the one that is added. -/
theorem forall_mem_insert_of_replaced {P : Release → Prop} {r : Release} {rs : List Release} (hr : P r)
    (hrs : ∀ x ∈ rs, P x) (hreplaced : ∀ x, P x → P { x with metadata := r.metadata }) :
    ∀ x ∈ insert r rs, P x := by
  induction rs with
  | nil =>
    rw [insert, List.forall_mem_singleton]
    exact hr
  | cons y ys ih =>
    have hcons := List.forall_mem_cons.mp hrs
    unfold insert
    split
    · exact List.forall_mem_cons.mpr ⟨hr, hrs⟩
    · exact List.forall_mem_cons.mpr ⟨hreplaced y hcons.1, hcons.2⟩
    · exact List.forall_mem_cons.mpr ⟨hcons.1, ih hcons.2⟩

theorem forall_mem_insert {P : PackageId → Version → Prop} {r : Release} {rs : List Release}
    (hr : P r.id r.version) (hrs : ∀ x ∈ rs, P x.id x.version) :
    ∀ x ∈ insert r rs, P x.id x.version :=
  forall_mem_insert_of_replaced hr hrs fun _ hx => hx

theorem forall_metadata_insert {P : Metadata → Prop} {r : Release} {rs : List Release} (hr : P r.metadata)
    (hrs : ∀ x ∈ rs, P x.metadata) : ∀ x ∈ insert r rs, P x.metadata :=
  forall_mem_insert_of_replaced hr hrs fun _ _ => hr

theorem forall_mem_foldl_insert {P : PackageId → Version → Prop} {added rs : List Release}
    (hadded : ∀ x ∈ added, P x.id x.version) (hrs : ∀ x ∈ rs, P x.id x.version) :
    ∀ x ∈ added.foldl (fun rs r => insert r rs) rs, P x.id x.version :=
  List.foldlRecOn (motive := fun rs : List Release => ∀ x ∈ rs, P x.id x.version) added _ hrs fun _ hrs r hr =>
    forall_mem_insert (hadded r hr) hrs

theorem forall_metadata_foldl_insert {P : Metadata → Prop} {added rs : List Release}
    (hadded : ∀ x ∈ added, P x.metadata) (hrs : ∀ x ∈ rs, P x.metadata) :
    ∀ x ∈ added.foldl (fun rs r => insert r rs) rs, P x.metadata :=
  List.foldlRecOn (motive := fun rs : List Release => ∀ x ∈ rs, P x.metadata) added _ hrs fun _ hrs r hr =>
    forall_metadata_insert (hadded r hr) hrs

end Release

namespace Repository

/-! ### Package versions as texts -/

theorem splitSlot_eq_ok_iff {s cpv : Text} {slot : Option Text} :
    splitSlot s = .ok (cpv, slot) ↔
      ':' ∉ cpv ∧ s = cpv ++ Atom.renderPart [':'] slot ∧ slot ≠ some [] := by
  unfold splitSlot
  constructor
  · intro h
    split at h
    next hcolon =>
      cases h
      exact ⟨cut_eq_none_iff.mp hcolon, (List.append_nil _).symm, nofun⟩
    next cpv' slot' hcolon =>
      obtain ⟨rfl, hcpv⟩ := cut_eq_some_iff.mp hcolon
      split at h
      · cases h
      next hempty =>
        cases h
        refine ⟨hcpv, rfl, fun hslot => hempty ?_⟩
        rw [Option.some.inj hslot]
        rfl
  · intro h
    obtain ⟨hcolon, rfl, hslot⟩ := h
    cases slot with
    | none => rw [Atom.renderPart, List.append_nil, cut_eq_none_iff.mpr hcolon]
    | some slot =>
      have hempty : slot.isEmpty = false := List.isEmpty_eq_false_iff.mpr fun h => hslot (h ▸ rfl)
      simp only [Atom.renderPart, List.cons_append, List.nil_append, cut_append_cons hcolon, hempty,
        Bool.false_eq_true, if_false]

/-- The package and the version can be told apart in a text of both. -/
structure IsSpoken (id : PackageId) (version : Version) : Prop where
  category : '/' ∉ id.category
  name_ne : id.name ≠ []
  version : startsWithDigit version.text = true

theorem parseCpv_eq_ok_iff {s : Text} {id : PackageId} {version : Version} :
    parseCpv s = .ok (id, version) ↔
      IsSpoken id version ∧ ∃ gap, IsBlanks gap ∧ s = id.render ++ '-' :: (version.text ++ gap) := by
  unfold parseCpv
  constructor
  · intro h
    split at h
    · cases h
    next category rest hcategory =>
      obtain ⟨rfl, hslash⟩ := cut_eq_some_iff.mp hcategory
      split at h
      · cases h
      next name w hname =>
        split at h
        · cases h
        next v hv =>
          cases h
          obtain ⟨gap, hgap, rfl, hne, hdigit⟩ := splitNameVersion_parse?_text hname hv
          refine ⟨⟨hslash, hne, hdigit⟩, gap, hgap, ?_⟩
          simp only [PackageId.render, List.append_assoc, List.cons_append]
  · intro h
    obtain ⟨⟨hslash, hne, hdigit⟩, gap, hgap, rfl⟩ := h
    have hname := (splitNameVersion_text_iff hgap).mpr ⟨hne, hdigit⟩
    simp only [PackageId.render, List.append_assoc, List.cons_append, cut_append_cons hslash, hname,
      version.parse?_text_append hgap]

/-! ### One addition -/

variable {r r' : Repository} {cpv keywords license : Text}

theorem addPackage_eq_ok_iff :
    r.addPackage cpv keywords license = .ok r' ↔
      ∃ body slot id version metadata, splitSlot cpv = .ok (body, slot) ∧
        parseCpv body = .ok (id, version) ∧ Metadata.parse keywords license = .ok metadata ∧
        r' = r.insert id version { metadata with slot := slot.getD metadata.slot } := by
  unfold addPackage
  constructor
  · intro h
    obtain ⟨⟨body, slot⟩, hslot, h⟩ := exists_of_bind_eq_ok h
    obtain ⟨⟨id, version⟩, hcpv, h⟩ := exists_of_bind_eq_ok h
    obtain ⟨metadata, hmetadata, h⟩ := exists_of_bind_eq_ok h
    cases h
    exact ⟨body, slot, id, version, metadata, hslot, hcpv, hmetadata, rfl⟩
  · intro h
    obtain ⟨body, slot, id, version, metadata, hslot, hcpv, hmetadata, rfl⟩ := h
    rw [hslot]
    show (parseCpv body >>= _) = _
    rw [hcpv]
    show (Metadata.parse keywords license >>= _) = _
    rw [hmetadata]
    rfl

/-- One successful addition to a repository in memory. -/
inductive Adds (r : Repository) : Repository → Prop
  | package {r' : Repository} {cpv keywords license : Text}
      (h : r.addPackage cpv keywords license = .ok r') : Adds r r'
  | arch (arch : Text) : Adds r (r.setArch arch)
  | profileMask (atom : Atom) : Adds r (r.addProfileMask atom)
  | useMask (flag : Text) : Adds r (r.maskUse flag)
  | useForce (flag : Text) : Adds r (r.forceUse flag)
  | system (atom : Atom) : Adds r (r.addSystem atom)
  | set (s : PackageSet) : Adds r (r.addSet s)

/-- The repository is what a number of additions make of an empty one. -/
def IsBuilt (r : Repository) : Prop := ∃ name, Relation.ReflTransGen Adds (.empty name) r

theorem Adds.isSpoken_of_mem (h : r.Adds r') (hr : ∀ x ∈ r.releases, IsSpoken x.id x.version) :
    ∀ x ∈ r'.releases, IsSpoken x.id x.version := by
  cases h with
  | package h =>
    obtain ⟨body, slot, id, version, metadata, _, hcpv, _, rfl⟩ := addPackage_eq_ok_iff.mp h
    exact Release.forall_mem_insert (parseCpv_eq_ok_iff.mp hcpv).1 hr
  | arch | profileMask | useMask | useForce | system | set => exact hr

/- What is true of an empty repository and kept by each addition is true of every repository in memory. -/
theorem IsBuilt.keeps {P : Repository → Prop} (h : r.IsBuilt) (hempty : ∀ name, P (.empty name))
    (hadds : ∀ r r', r.Adds r' → P r → P r') : P r := by
  obtain ⟨name, h⟩ := h
  induction h with
  | refl => exact hempty name
  | tail _ hadd ih => exact hadds _ _ hadd ih

theorem IsBuilt.isSpoken_of_mem (h : r.IsBuilt) : ∀ x ∈ r.releases, IsSpoken x.id x.version :=
  h.keeps (fun _ => nofun) fun _ _ hadds => hadds.isSpoken_of_mem

end Repository
end PackagePolicy
