import PackagePolicy.Proofs.Disk.Lookup
import PackagePolicy.Proofs.Lists
import PackagePolicy.Repository.Reader

/-!
# Loading repositories

What a repository that is loaded is called, what may stop it from being loaded, and that its directory
may be spelled in several ways (`load_eq_map_of_find?_eq`).
-/

namespace PackagePolicy

namespace Repository
open Text

/-! ### Loaded repositories -/

def profileText (d : Disk) (path : Text) (name : String) : Except Error (Option Text) :=
  readOptional d (Path.child (Path.child path "profiles") name)

/-- What each part of a loaded repository is read from. -/
structure IsReadFrom (d : Disk) (path : Text) (configured : Option Text) (r : Repository) : Prop where
  isDir : d.isDir path = true
  name : ∃ declared, profileText d path "repo_name" = .ok declared ∧
    chooseName path (declaredName declared) configured = .ok r.name
  location : r.location = some path
  arch : ∃ defaults, profileText d path "make.defaults" = .ok defaults ∧
    r.arch = defaults.bind (Assignment.value? "ARCH")
  releases : r.releases =
    (((d.find? path).map readReleases).getD []).foldl (fun rs r => Release.insert r rs) []
  profileMasks : ∃ masks, profileText d path "package.mask" = .ok masks ∧
    r.profileMasks = Mask.parseFile (masks.getD [])
  useMask : ∃ flags, profileText d path "use.mask" = .ok flags ∧
    r.useMask = parseFlags (flags.getD [])
  useForce : ∃ flags, profileText d path "use.force" = .ok flags ∧
    r.useForce = parseFlags (flags.getD [])
  system : ∃ lines, profileText d path "packages" = .ok lines ∧
    r.system = parseSystem (lines.getD [])
  sets : (UserConfig.loadSets d (Path.child path "sets")).mapError Error.config = .ok r.sets

theorem isReadFrom_of_load {d : Disk} {path : Text} {configured : Option Text} {r : Repository}
    (h : load d path configured = .ok r) : IsReadFrom d path configured r := by
  unfold load at h
  split at h
  next hdir =>
    obtain ⟨declared, hdeclared, h⟩ := exists_of_bind_eq_ok h
    obtain ⟨name, hname, h⟩ := exists_of_bind_eq_ok h
    obtain ⟨defaults, hdefaults, h⟩ := exists_of_bind_eq_ok h
    obtain ⟨masks, hmasks, h⟩ := exists_of_bind_eq_ok h
    obtain ⟨useMask, huseMask, h⟩ := exists_of_bind_eq_ok h
    obtain ⟨useForce, huseForce, h⟩ := exists_of_bind_eq_ok h
    obtain ⟨system, hsystem, h⟩ := exists_of_bind_eq_ok h
    obtain ⟨sets, hsets, h⟩ := exists_of_bind_eq_ok h
    cases h
    exact ⟨hdir, ⟨declared, hdeclared, hname⟩, rfl, ⟨defaults, hdefaults, rfl⟩, rfl,
      ⟨masks, hmasks, rfl⟩, ⟨useMask, huseMask, rfl⟩, ⟨useForce, huseForce, rfl⟩,
      ⟨system, hsystem, rfl⟩, hsets⟩
  · cases h

theorem name_of_load {d : Disk} {path name : Text} {r : Repository}
    (h : load d path (some name) = .ok r) : r.name = name := by
  obtain ⟨declared, _, hname⟩ := (isReadFrom_of_load h).name
  cases hname
  rfl

/-! ### Errors -/

/-- The errors with which the loading of a repository may end. -/
inductive LoadError (path : Text) : Error → Prop
  | unreadable : LoadError path .unreadable
  | config (e : ConfigError) : LoadError path (.config e)
  | unnamed : LoadError path (.package .unnamedRepository path)

theorem loadError_of_readOptional {d : Disk} {file : Text} {e : Error} (path : Text)
    (h : readOptional d file = .error e) : LoadError path e := by
  unfold readOptional at h
  split at h
  · cases h
  · cases h
    exact .unreadable
  · cases h

theorem loadError_of_chooseName {path declared : Text} {configured : Option Text} {e : Error}
    (h : chooseName path declared configured = .error e) : LoadError path e := by
  unfold chooseName at h
  split at h
  · cases h
  · split at h
    · split at h
      · cases h
      · cases h
        exact .unnamed
    · cases h

theorem loadError_of_load {d : Disk} {path : Text} {configured : Option Text} {e : Error}
    (h : load d path configured = .error e) : LoadError path e := by
  unfold load at h
  split at h
  · obtain h | ⟨declared, _, h⟩ := exists_of_bind_eq_error h
    · exact loadError_of_readOptional path h
    obtain h | ⟨name, _, h⟩ := exists_of_bind_eq_error h
    · exact loadError_of_chooseName h
    obtain h | ⟨defaults, _, h⟩ := exists_of_bind_eq_error h
    · exact loadError_of_readOptional path h
    obtain h | ⟨masks, _, h⟩ := exists_of_bind_eq_error h
    · exact loadError_of_readOptional path h
    obtain h | ⟨useMask, _, h⟩ := exists_of_bind_eq_error h
    · exact loadError_of_readOptional path h
    obtain h | ⟨useForce, _, h⟩ := exists_of_bind_eq_error h
    · exact loadError_of_readOptional path h
    obtain h | ⟨system, _, h⟩ := exists_of_bind_eq_error h
    · exact loadError_of_readOptional path h
    obtain h | ⟨sets, _, h⟩ := exists_of_bind_eq_error h
    · obtain ⟨e', rfl⟩ := exists_of_mapError_eq_error h
      exact .config e'
    · cases h
  · cases h
    exact .config _

/-! ### Directories -/

/-- The name that a repository of this directory has by itself; any name, if what it declares is
unreadable. -/
def IsOwnName (d : Disk) (path name : Text) : Prop :=
  ∀ declared, profileText d path "repo_name" = .ok declared →
    chooseName path (declaredName declared) none = .ok name

section
variable {d : Disk} {path location : Text}

theorem isOwnName_of_load {r : Repository} (h : load d path none = .ok r) : IsOwnName d path r.name := by
  obtain ⟨declared, hdeclared, hname⟩ := (isReadFrom_of_load h).name
  intro declared' hdeclared'
  rw [hdeclared] at hdeclared'
  cases hdeclared'
  exact hname

theorem ne_nil_of_isDir (h : d.isDir path = true) : path ≠ [] := by
  rintro rfl
  cases h

theorem find?_child_congr (hpath : path ≠ []) (hlocation : location ≠ [])
    (hsame : d.find? location = d.find? path) (name : String) (hname : Path.IsFileName name.toList) :
    d.find? (Path.child location name) = d.find? (Path.child path name) := by
  rw [Path.child, Path.child, Disk.find?_join hlocation hname, Disk.find?_join hpath hname, hsame]

theorem profileText_congr (hpath : path ≠ []) (hlocation : location ≠ [])
    (hsame : d.find? location = d.find? path) (name : String) (hname : Path.IsFileName name.toList) :
    profileText d location name = profileText d path name := by
  have hprofiles : Path.IsFileName "profiles".toList := by decide
  have hpath' : Path.child path "profiles" ≠ [] := Path.join_name_ne_nil hpath hprofiles
  have hlocation' : Path.child location "profiles" ≠ [] := Path.join_name_ne_nil hlocation hprofiles
  have hsame' := find?_child_congr hpath hlocation hsame "profiles" hprofiles
  rw [profileText, profileText, readOptional, readOptional,
    find?_child_congr hpath' hlocation' hsame' name hname]

theorem loadSets_congr {sets sets' : Text} (h : d.find? sets' = d.find? sets) :
    UserConfig.loadSets d sets' = UserConfig.loadSets d sets := by
  rw [UserConfig.loadSets, UserConfig.loadSets, Disk.configEntries?, Disk.configEntries?, h]

/- A repository that is loaded under its own name, from wherever its directory is seen. -/
theorem load_eq_map_of_find?_eq (hdir : d.isDir path = true) (hsame : d.find? location = d.find? path)
    {name : Text} (hname : IsOwnName d path name) :
    load d location (some name) =
      (load d path none).map fun r => { r with location := some location } := by
  have hdir' : d.isDir location = true := by
    rw [Disk.isDir, hsame]
    exact hdir
  have hpath := ne_nil_of_isDir hdir
  have hlocation := ne_nil_of_isDir hdir'
  have hprofile := profileText_congr hpath hlocation hsame
  have hsets := loadSets_congr (find?_child_congr hpath hlocation hsame "sets" (by decide))
  unfold profileText at hprofile
  simp only [load, if_pos hdir, if_pos hdir', hprofile "repo_name" (by decide),
    hprofile "make.defaults" (by decide), hprofile "package.mask" (by decide),
    hprofile "use.mask" (by decide), hprofile "use.force" (by decide),
    hprofile "packages" (by decide), hsets, hsame]
  cases hdeclared : readOptional d (Path.child (Path.child path "profiles") "repo_name") with
  | error e => rfl
  | ok declared =>
    have hchosen : chooseName location (declaredName declared) (some name) = .ok name := rfl
    rw [ok_bind, ok_bind, hchosen, hname declared hdeclared, ok_bind, ok_bind]
    show _ = (fun r : Repository => { r with location := some location }) <$> _
    simp only [map_bind, map_pure]

end

end Repository
end PackagePolicy
