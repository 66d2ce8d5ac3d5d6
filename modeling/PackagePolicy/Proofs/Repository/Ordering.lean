import Mathlib.Data.List.Pairwise
import PackagePolicy.Proofs.Repository.Additions
import PackagePolicy.Proofs.Repository.Releases

/-!
# The order of releases

Every insertion keeps the releases of a repository in strictly ascending order, so that they are in this order
however the repository was made (`IsMade.isOrdered`). No two of them are equal versions of one package, and the
metadata of an entry is that of its own release (`IsOrdered.metadata?_entryOf`).
-/

namespace PackagePolicy

/-! ### Orders of packages, releases and entries -/

instance : Std.TransCmp PackageId.order :=
  inferInstanceAs (Std.TransCmp (compareLex (compareOn PackageId.category) (compareOn PackageId.name)))

/-- Entries in the order of their packages, and those of one package in the order of their versions. -/
def Entry.order (e e' : Entry) : Ordering := (e.id.order e'.id).then (e.version.order e'.version)

theorem Entry.beq_eq_false_of_order_eq_lt {e e' : Entry} (h : e.order e' = .lt) : (e == e') = false := by
  refine Bool.eq_false_iff.mpr fun hequal => ?_
  obtain ⟨hid, hversion, _⟩ := beq_iff.mp hequal
  rw [order, PackageId.order_eq_eq_iff.mpr hid, hversion] at h
  cases h

namespace Release

instance : Std.TransCmp Release.order := by
  have hid := Version.transCmp_comap Release.id PackageId.order
  have hversion := Version.transCmp_comap Release.version Version.order
  exact inferInstanceAs (Std.TransCmp (compareLex (fun x y : Release => x.id.order y.id)
    fun x y : Release => x.version.order y.version))

/-! ### Insertion -/

variable {r : Release} {rs : List Release}

/- Where the version is there already, the release in its place keeps its package and its text, and with them
its place. -/
theorem pairwise_insert (h : rs.Pairwise fun x y => x.order y = .lt) :
    (insert r rs).Pairwise fun x y => x.order y = .lt := by
  induction rs with
  | nil => exact List.pairwise_singleton _ r
  | cons x xs ih =>
    have hcons := List.pairwise_cons.mp h
    unfold insert
    split
    next hlt =>
      refine List.pairwise_cons.mpr ⟨List.forall_mem_cons.mpr ⟨hlt, fun y hy => ?_⟩, h⟩
      exact Std.TransCmp.lt_trans hlt (hcons.1 y hy)
    next => exact List.pairwise_cons.mpr ⟨hcons.1, hcons.2⟩
    next hgt =>
      refine List.pairwise_cons.mpr ⟨?_, ih hcons.2⟩
      have hlt : x.order r = .lt := Std.OrientedCmp.lt_of_gt hgt
      exact forall_mem_insert (P := fun id version => (x.id.order id).then (x.version.order version) = .lt)
        hlt hcons.1

theorem pairwise_foldl_insert {added : List Release} (h : rs.Pairwise fun x y => x.order y = .lt) :
    (added.foldl (fun rs r => insert r rs) rs).Pairwise fun x y => x.order y = .lt := by
  induction added generalizing rs with
  | nil => exact h
  | cons r added ih => exact ih (pairwise_insert h)

/-- The release as an atom sees it in a repository, with the slot that it declares. -/
def candidate (x : Release) (repository : Text) : Candidate where
  category := x.id.category
  name := x.id.name
  version := x.version
  slot := some x.metadata.slot
  repository := some repository

end Release

/-! ### Repositories -/

namespace Repository
variable {r r' : Repository} {x y : Release}

/-- The releases are in strictly ascending order. -/
def IsOrdered (r : Repository) : Prop := r.releases.Pairwise fun x y => x.order y = .lt

/-- The repository is built in memory or read from a directory. -/
inductive IsMade (r : Repository) : Prop
  | built (h : r.IsBuilt)
  | loaded {d : Disk} {path : Text} {configured : Option Text} (h : load d path configured = .ok r)

theorem Adds.isOrdered (h : r.Adds r') (hr : r.IsOrdered) : r'.IsOrdered := by
  cases h with
  | package h =>
    obtain ⟨body, slot, id, version, metadata, _, _, _, rfl⟩ := addPackage_eq_ok_iff.mp h
    exact Release.pairwise_insert hr
  | arch | profileMask | useMask | useForce | system | set => exact hr

theorem IsMade.isOrdered (h : r.IsMade) : r.IsOrdered := by
  cases h with
  | built h => exact h.keeps (fun _ => List.Pairwise.nil) fun _ _ hadds => hadds.isOrdered
  | loaded h =>
    rw [IsOrdered, releases_of_load h]
    exact Release.pairwise_foldl_insert List.Pairwise.nil

theorem IsOrdered.eq_of_order_eq (h : r.IsOrdered) (hx : x ∈ r.releases) (hy : y ∈ r.releases)
    (hequal : x.order y = .eq) : x = y := by
  have hbefore : r.releases.Pairwise fun x y => x.order y = .eq → x = y :=
    h.imp fun hlt heq => nomatch hlt.symm.trans heq
  have hafter : r.releases.Pairwise fun y x => x.order y = .eq → x = y :=
    h.imp fun hlt heq => nomatch hlt.symm.trans (Std.OrientedCmp.eq_symm heq)
  exact List.Pairwise.forall_of_forall_of_flip (fun _ _ _ => rfl) hbefore hafter hx hy hequal

theorem IsOrdered.metadata?_entryOf (h : r.IsOrdered) (hx : x ∈ r.releases) :
    r.metadata? (r.entryOf x) = some x.metadata := by
  have hself : (x.id == x.id && x.version == x.version) = true := by
    rw [beq_self_eq_true, Bool.true_and, Version.beq_iff]
    exact Std.ReflCmp.compare_self
  cases hfind : r.releases.find? fun y => y.id == x.id && y.version == x.version with
  | none => exact absurd hself (List.find?_eq_none.mp hfind x hx)
  | some y =>
    have hy := List.find?_some hfind
    rw [Bool.and_eq_true, beq_iff_eq, Version.beq_iff] at hy
    have hequal : y.order x = .eq := Ordering.then_eq_eq.mpr ⟨PackageId.order_eq_eq_iff.mpr hy.1, hy.2⟩
    rw [metadata?, entryOf, hfind, h.eq_of_order_eq (List.mem_of_find?_eq_some hfind) hx hequal]
    rfl

theorem IsOrdered.candidate_entryOf (h : r.IsOrdered) (hx : x ∈ r.releases) :
    r.candidate (r.entryOf x) = x.candidate r.name := by
  rw [candidate, h.metadata?_entryOf hx]
  rfl

theorem IsOrdered.pairwise_entries (h : r.IsOrdered) : r.entries.Pairwise fun e e' => e.order e' = .lt :=
  List.pairwise_map.mpr h

end Repository
end PackagePolicy
