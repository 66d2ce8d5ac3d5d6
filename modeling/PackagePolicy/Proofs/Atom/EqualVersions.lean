import PackagePolicy.Atom.Basic
import PackagePolicy.Proofs.Version.Order

/-!
# Atoms and equal versions

Equal versions can have different texts. Of all operators only the one of `=category/name-version*` reads
the text, so every other atom matches equal versions alike.
-/

namespace PackagePolicy

namespace Version
variable {v w : Version}

theorem beq_iff : (v == w) = true ↔ v.order w = .eq := by
  show (v.order w == .eq) = true ↔ _
  exact beq_iff_eq

theorem compareBase_of_order_eq (h : v.order w = .eq) : v.compareBase w = .eq :=
  (Ordering.then_eq_eq.mp h).1

theorem beq_congr_right (h : v.order w = .eq) (x : Version) : (x == v) = (x == w) := by
  rw [Bool.eq_iff_iff, beq_iff, beq_iff, Std.TransCmp.congr_right h]

end Version

theorem Operator.holds_congr {v w : Version} (h : v.order w = .eq) {wanted : Version} {op : Operator}
    (htext : op = .textStart → v.textStartsWith wanted = w.textStartsWith wanted) :
    op.holds v wanted = op.holds w wanted := by
  have horder : v.order wanted = w.order wanted := Std.TransCmp.congr_left h
  have hbase : v.compareBase wanted = w.compareBase wanted :=
    Std.TransCmp.congr_left (Version.compareBase_of_order_eq h)
  cases op with
  | any => rfl
  | equal =>
    rw [holds, holds, Bool.eq_iff_iff, Version.beq_iff, Version.beq_iff, horder]
  | greater => rw [holds, holds, horder]
  | greaterEqual => rw [holds, holds, horder]
  | less => rw [holds, holds, horder]
  | lessEqual => rw [holds, holds, horder]
  | textStart => exact htext rfl
  | sameBase => rw [holds, holds, Version.sameBase, Version.sameBase, hbase]

namespace Atom

/-- The atom asks for the start of a version text that only one of two versions has. -/
def distinguishes (a : Atom) (v w : Version) : Bool :=
  a.operator == .textStart &&
    match a.version with
    | none => false
    | some wanted => v.textStartsWith wanted != w.textStartsWith wanted

theorem versionMatches_congr {a : Atom} {v w : Version} (h : v.order w = .eq)
    (ha : a.distinguishes v w = false) : a.versionMatches v = a.versionMatches w := by
  unfold versionMatches
  cases hwanted : a.version with
  | none => rfl
  | some wanted =>
    refine Operator.holds_congr h fun hop => ?_
    rw [distinguishes, hop, hwanted, beq_self_eq_true, Bool.true_and] at ha
    exact bne_eq_false_iff_eq.mp ha

end Atom
end PackagePolicy
