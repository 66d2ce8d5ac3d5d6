import PackagePolicy.Environment.Basic
import PackagePolicy.Proofs.Keyword.Rendering
import PackagePolicy.Proofs.SpecTree.Evaluation

/-!
# Queries about registered repositories

Once the repository of an entry is fetched, nothing in a query can fail any more: each is answered by a
function of the environment, the repository and the entry.
-/

namespace PackagePolicy

theorem Database.exists_fetch_of_has {d : Database} {name : Text} (h : d.has name = true) :
    ∃ r, d.fetch name = .ok r := by
  have hsome : (d.repositories.find? (·.name == name)).isSome = true := by
    rw [List.find?_isSome]
    exact List.any_eq_true.mp h
  obtain ⟨r, hr⟩ := Option.isSome_iff_exists.mp hsome
  exact ⟨r, by rw [Database.fetch, hr]⟩

theorem Repository.isRead_of_mem_keywords {r : Repository} {e : Entry} {k : Keyword}
    (hk : k ∈ r.keywords e) : k.IsRead := by
  unfold keywords at hk
  split at hk
  next m _ => exact m.keywords_read k hk
  next => cases hk

namespace Environment
variable {env : Environment} {e : Entry} {r : Repository}

/-! ### Single queries -/

theorem candidate?_eq (h : env.database.fetch e.repository = .ok r) :
    env.candidate? (some e) = .ok (some (r.candidate e)) := by
  rw [candidate?, h]
  rfl

theorem queryUse_eq (h : env.database.fetch e.repository = .ok r) (flag : Text) :
    env.queryUse flag (some e) = .ok (env.useFor flag r e) := by
  rw [queryUse, h]
  rfl

theorem acceptLicense_eq (h : env.database.fetch e.repository = .ok r) (license : Text) :
    env.acceptLicense license (some e) =
      .ok (env.licenseAccepted license (some (r.candidate e))) := by
  rw [acceptLicense, candidate?_eq h]
  rfl

theorem acceptKeyword_eq (h : env.database.fetch e.repository = .ok r) (keyword : Text) :
    env.acceptKeyword keyword (some e) =
      .ok ((Keyword.parse keyword).toOption.any
        fun k => env.keywordAccepted k (some (r.candidate e))) := by
  rw [acceptKeyword, candidate?_eq h]
  cases Keyword.parse keyword <;> rfl

theorem acceptKeyword_render (h : env.database.fetch e.repository = .ok r) {k : Keyword}
    (hk : k.IsRead) :
    env.acceptKeyword k.render (some e) = .ok (env.keywordAccepted k (some (r.candidate e))) := by
  rw [acceptKeyword_eq h, Keyword.parse_render hk]
  rfl

/-! ### Mask reasons -/

theorem anyKeywordAccepted_eq (h : env.database.fetch e.repository = .ok r) :
    env.anyKeywordAccepted r e =
      .ok ((r.keywords e).any fun k => env.keywordAccepted k (some (r.candidate e))) :=
  anyM_eq_ok fun _ hk => acceptKeyword_render h (Repository.isRead_of_mem_keywords hk)

/- The callbacks fetch the repository again for every leaf and every condition. -/
theorem evaluate_license_eq (h : env.database.fetch e.repository = .ok r) (t : SpecTree Text) :
    t.evaluate (fun license => env.acceptLicense license (some e))
        (fun flag => env.queryUse flag (some e)) =
      .ok (t.satisfied (fun license => env.licenseAccepted license (some (r.candidate e)))
        (fun flag => env.useFor flag r e)) := by
  rw [funext (acceptLicense_eq h), funext (queryUse_eq h)]
  exact SpecTree.evaluate_pure _ _ t

/-- The entry declares no license expression, or one that is satisfied. -/
def licenseHolds (env : Environment) (r : Repository) (e : Entry) : Bool :=
  match r.license? e with
  | none => true
  | some tree =>
    tree.satisfied (fun license => env.licenseAccepted license (some (r.candidate e)))
      (fun flag => env.useFor flag r e)

theorem licenseSatisfied_eq (h : env.database.fetch e.repository = .ok r) :
    env.licenseSatisfied r e = .ok (env.licenseHolds r e) := by
  unfold licenseSatisfied licenseHolds
  cases r.license? e with
  | none => rfl
  | some tree => exact evaluate_license_eq h tree

theorem exists_licenseSatisfied (h : env.database.fetch e.repository = .ok r) :
    ∃ b, env.licenseSatisfied r e = .ok b :=
  ⟨_, licenseSatisfied_eq h⟩

theorem maskReasons_eq (h : env.database.fetch e.repository = .ok r) {b : Bool}
    (hlicense : env.licenseSatisfied r e = .ok b) :
    env.maskReasons e = .ok {
      keyword := !(r.keywords e).any fun k => env.keywordAccepted k (some (r.candidate e))
      license := !b
      profile := (r.profileMask? e).isSome && !env.masks.isUnmasked (r.candidate e)
      user := (env.masks.find? (r.candidate e)).isSome && !env.masks.isUnmasked (r.candidate e)
    } := by
  rw [maskReasons, h]
  change (env.anyKeywordAccepted r e >>= _) = _
  rw [anyKeywordAccepted_eq h, hlicense]
  rfl

/-! ### Answers by repository -/

/-- The mask reasons of an entry of a repository. -/
def reasonsFor (env : Environment) (r : Repository) (e : Entry) : MaskReasons where
  keyword := !(r.keywords e).any fun k => env.keywordAccepted k (some (r.candidate e))
  license := !env.licenseHolds r e
  profile := (r.profileMask? e).isSome && !env.masks.isUnmasked (r.candidate e)
  user := (env.masks.find? (r.candidate e)).isSome && !env.masks.isUnmasked (r.candidate e)

theorem queryUse_eq_map (env : Environment) (flag : Text) (e : Entry) :
    env.queryUse flag (some e) = (env.database.fetch e.repository).map fun r => env.useFor flag r e := by
  refine eq_map_of_cases (fun error h => ?_) fun r h => queryUse_eq h flag
  rw [queryUse, h]
  rfl

theorem acceptKeyword_eq_map (env : Environment) (keyword : Text) (e : Entry) :
    env.acceptKeyword keyword (some e) = (env.database.fetch e.repository).map fun r =>
      (Keyword.parse keyword).toOption.any fun k => env.keywordAccepted k (some (r.candidate e)) := by
  refine eq_map_of_cases (fun error h => ?_) fun r h => acceptKeyword_eq h keyword
  rw [acceptKeyword, candidate?, h]
  rfl

theorem acceptLicense_eq_map (env : Environment) (license : Text) (e : Entry) :
    env.acceptLicense license (some e) = (env.database.fetch e.repository).map fun r =>
      env.licenseAccepted license (some (r.candidate e)) := by
  refine eq_map_of_cases (fun error h => ?_) fun r h => acceptLicense_eq h license
  rw [acceptLicense, candidate?, h]
  rfl

theorem maskReasons_eq_map (env : Environment) (e : Entry) :
    env.maskReasons e = (env.database.fetch e.repository).map fun r => env.reasonsFor r e := by
  refine eq_map_of_cases (fun error h => ?_) fun r h => ?_
  · rw [maskReasons, h]
    rfl
  · rw [maskReasons_eq h (licenseSatisfied_eq h)]
    rfl

end Environment
end PackagePolicy
