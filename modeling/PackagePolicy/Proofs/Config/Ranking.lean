import Mathlib.Data.List.Nodup
import PackagePolicy.Proofs.Config.RepositoryTable
import PackagePolicy.Proofs.Lists

/-!
# Ranks of repositories

The main repository has the first rank, whatever its priority. The others are ranked by their priorities, and
repositories of one priority stay in the order of their definitions. Main statement: `byPriority_ranksAll`, which also
says that no other list of the repositories is ranked in this way.
-/

namespace PackagePolicy.RepositoryTable

/-- The repositories of a list besides the main repository. -/
def others (t : RepositoryTable) (l : List RepositorySource) : List RepositorySource :=
  l.filter fun s => !t.isMain s

def ofPriority (p : Int) (l : List RepositorySource) : List RepositorySource := l.filter (·.priority == p)

/-- The list has the repositories of the table by their ranks. -/
structure IsRanking (t : RepositoryTable) (l : List RepositorySource) : Prop where
  perm : l.Perm t.sources
  main : ∀ name ∈ t.names, t.mainRepository = some name → ∃ s rest, l = s :: rest ∧ s.name = name
  priority : (t.others l).Pairwise fun a b => b.priority ≤ a.priority
  definition : ∀ p, ofPriority p (t.others l) = ofPriority p (t.others t.sources)

variable {t : RepositoryTable} {l l' : List RepositorySource} {a b s : RepositorySource}

theorem isMain_iff : t.isMain s = true ↔ t.mainRepository = some s.name := beq_iff_eq

theorem mem_others : s ∈ t.others l ↔ s ∈ l ∧ t.isMain s = false := by
  rw [others, List.mem_filter, Bool.not_eq_true']

/-! ### The order of ranks -/

theorem precedes_iff :
    t.precedes a b = true ↔
      (t.isMain b = true → t.isMain a = true) ∧ (t.isMain a = t.isMain b → b.priority ≤ a.priority) := by
  unfold precedes
  cases t.isMain a <;> cases t.isMain b <;> simp

theorem precedes_trans (t : RepositoryTable) (a b c : RepositorySource) (hab : t.precedes a b = true)
    (hbc : t.precedes b c = true) : t.precedes a c = true := by
  rw [precedes_iff] at hab hbc ⊢
  refine ⟨hab.1 ∘ hbc.1, fun hac => ?_⟩
  -- a repository between two that are alike is like them
  have hb : t.isMain a = t.isMain b := by
    cases ha : t.isMain a with
    | true => exact (hbc.1 (hac ▸ ha)).symm
    | false => exact (Bool.eq_false_iff.mpr fun hb => Bool.eq_false_iff.mp ha (hab.1 hb)).symm
  exact Int.le_trans (hbc.2 (hb ▸ hac)) (hab.2 hb)

theorem precedes_total (t : RepositoryTable) (a b : RepositorySource) :
    (t.precedes a b || t.precedes b a) = true := by
  unfold precedes
  cases t.isMain a <;> cases t.isMain b <;> simp [Int.le_total]

theorem pairwise_byPriority (t : RepositoryTable) : t.byPriority.Pairwise fun a b => t.precedes a b = true :=
  List.pairwise_mergeSort t.precedes_trans t.precedes_total t.sources

/- The sort is stable: what is of one rank stays as it stands. -/
theorem filter_byPriority {p : RepositorySource → Bool}
    (h : ∀ a b, p a = true → p b = true → t.precedes a b = true) :
    t.byPriority.filter p = t.sources.filter p := by
  have hranked : (t.sources.filter p).Pairwise fun a b => t.precedes a b = true := by
    refine List.pairwise_of_forall_mem_list fun a ha b hb => ?_
    exact h a b (List.mem_filter.mp ha).2 (List.mem_filter.mp hb).2
  have hsublist : (t.sources.filter p).Sublist t.byPriority :=
    List.sublist_mergeSort t.precedes_trans t.precedes_total hranked List.filter_sublist
  have hfilter : (t.sources.filter p).Sublist (t.byPriority.filter p) := by
    have := hsublist.filter p
    rwa [List.filter_filter, funext fun s => Bool.and_self (p s)] at this
  exact (hfilter.eq_of_length (t.byPriority_perm.filter p).length_eq.symm).symm

theorem ofPriority_others_byPriority (t : RepositoryTable) (p : Int) :
    ofPriority p (t.others t.byPriority) = ofPriority p (t.others t.sources) := by
  rw [ofPriority, ofPriority, others, others, List.filter_filter, List.filter_filter]
  apply filter_byPriority
  intro a b ha hb
  rw [Bool.and_eq_true, beq_iff_eq, Bool.not_eq_true'] at ha hb
  rw [precedes_iff, ha.2, hb.2, ha.1, hb.1]
  exact ⟨id, fun _ => Int.le_refl p⟩

theorem isRanking_byPriority (t : RepositoryTable) : t.IsRanking t.byPriority where
  perm := t.byPriority_perm
  main name hname hmain := by
    obtain ⟨x, hx, rfl⟩ := List.mem_map.mp hname
    have hx : x ∈ t.byPriority := t.byPriority_perm.mem_iff.mpr hx
    have hranked := t.pairwise_byPriority
    cases hlist : t.byPriority with
    | nil =>
      rw [hlist] at hx
      cases hx
    | cons s rest =>
      rw [hlist] at hx hranked
      refine ⟨s, rest, rfl, ?_⟩
      rcases List.mem_cons.mp hx with rfl | hx
      · rfl
      · have hs := (precedes_iff.mp (List.rel_of_pairwise_cons hranked hx)).1 (isMain_iff.mpr hmain)
        exact Option.some.inj ((isMain_iff.mp hs).symm.trans hmain)
  priority := by
    refine (t.pairwise_byPriority.sublist List.filter_sublist).imp_of_mem ?_
    intro a b ha hb hab
    exact (precedes_iff.mp hab).2 ((mem_others.mp ha).2.trans (mem_others.mp hb).2.symm)
  definition := t.ofPriority_others_byPriority

/-! ### No other list -/

theorem mem_iff_of_ofPriority (h : ∀ p, ofPriority p l = ofPriority p l') : s ∈ l ↔ s ∈ l' := by
  have hs : s ∈ ofPriority s.priority l ↔ s ∈ ofPriority s.priority l' := by rw [h]
  rwa [ofPriority, ofPriority, List.mem_filter, List.mem_filter, and_iff_left (beq_self_eq_true s.priority),
    and_iff_left (beq_self_eq_true s.priority)] at hs

theorem priority_le_head (h : (a :: l).Pairwise fun a b => b.priority ≤ a.priority) (hb : b ∈ a :: l) :
    b.priority ≤ a.priority := by
  rcases List.mem_cons.mp hb with rfl | hb
  · exact Int.le_refl _
  · exact List.rel_of_pairwise_cons h hb

theorem ofPriority_cons (p : Int) (a : RepositorySource) (l : List RepositorySource) :
    ofPriority p (a :: l) = if a.priority = p then a :: ofPriority p l else ofPriority p l := by
  rw [ofPriority, List.filter_cons]
  simp only [beq_iff_eq, ofPriority]

theorem eq_of_ofPriority (hl : l.Pairwise fun a b => b.priority ≤ a.priority)
    (hl' : l'.Pairwise fun a b => b.priority ≤ a.priority) (h : ∀ p, ofPriority p l = ofPriority p l') :
    l = l' := by
  induction l generalizing l' with
  | nil =>
    have hnone : ∀ s, s ∉ l' := fun s hs => nomatch (mem_iff_of_ofPriority h).mpr hs
    exact (List.eq_nil_iff_forall_not_mem.mpr hnone).symm
  | cons a l ih =>
    cases l' with
    | nil => exact nomatch (mem_iff_of_ofPriority h).mp (List.mem_cons_self (a := a))
    | cons b l' =>
      have hab : a.priority = b.priority := by
        refine Int.le_antisymm ?_ ?_
        · exact priority_le_head hl' ((mem_iff_of_ofPriority h).mp List.mem_cons_self)
        · exact priority_le_head hl ((mem_iff_of_ofPriority h).mpr List.mem_cons_self)
      simp only [ofPriority_cons, ← hab] at h
      have hheads := h a.priority
      rw [if_pos rfl, if_pos rfl, List.cons.injEq] at hheads
      obtain ⟨rfl, _⟩ := hheads
      refine congrArg (a :: ·) (ih hl.of_cons hl'.of_cons fun p => ?_)
      have hp := h p
      split at hp
      · exact List.tail_eq_of_cons_eq hp
      · exact hp

/- With distinct names at most one repository is the main one, so that a ranking is this one and the others. -/
theorem IsRanking.eq_append_others (h : t.IsRanking l) (hnodup : t.names.Nodup) :
    l = t.sources.filter t.isMain ++ t.others l := by
  have hfilter := h.perm.filter t.isMain
  by_cases hmain : ∃ s ∈ t.sources, t.isMain s = true
  · obtain ⟨x, hx, hxmain⟩ := hmain
    obtain ⟨s, rest, rfl, hname⟩ := h.main x.name (List.mem_map_of_mem hx) (isMain_iff.mp hxmain)
    have hs : t.isMain s = true := by rw [isMain_iff, hname, isMain_iff.mp hxmain]
    have hnames : ((s :: rest).map (·.name)).Nodup := (h.perm.map _).nodup_iff.mpr hnodup
    have hrest : ∀ r ∈ rest, t.isMain r = false := by
      intro r hr
      refine Bool.eq_false_iff.mpr fun hrmain => (List.nodup_cons.mp hnames).1 ?_
      have hname : r.name = s.name := Option.some.inj ((isMain_iff.mp hrmain).symm.trans (isMain_iff.mp hs))
      exact List.mem_map.mpr ⟨r, hr, hname⟩
    have hmains : (s :: rest).filter t.isMain = [s] := by
      rw [List.filter_cons_of_pos hs, List.filter_eq_nil_iff.mpr fun r hr => Bool.eq_false_iff.mp (hrest r hr)]
    have hothers : t.others (s :: rest) = rest := by
      rw [others, List.filter_cons_of_neg (by simp [hs])]
      exact List.filter_eq_self.mpr fun r hr => by rw [hrest r hr]; rfl
    rw [hmains] at hfilter
    rw [← List.singleton_perm.mp hfilter, hothers, List.singleton_append]
  · have hnone : ∀ s ∈ t.sources, t.isMain s = false :=
      fun s hs => Bool.eq_false_iff.mpr fun hsmain => hmain ⟨s, hs, hsmain⟩
    have hothers : t.others l = l :=
      List.filter_eq_self.mpr fun s hs => by rw [hnone s (h.perm.mem_iff.mp hs)]; rfl
    rw [List.filter_eq_nil_iff.mpr fun s hs => Bool.eq_false_iff.mp (hnone s hs), hothers, List.nil_append]

theorem eq_byPriority_of_isRanking (hnodup : t.names.Nodup) (h : t.IsRanking l) : l = t.byPriority := by
  have hbyPriority := t.isRanking_byPriority
  have hothers : t.others l = t.others t.byPriority := by
    refine eq_of_ofPriority h.priority hbyPriority.priority fun p => ?_
    rw [h.definition, hbyPriority.definition]
  rw [h.eq_append_others hnodup, hothers, ← hbyPriority.eq_append_others hnodup]

/-! ### Tables of definitions -/

/-- Adds repositories one after the other. -/
def addAll (t : RepositoryTable) (xs : List RepositorySource) : Except ConfigError RepositoryTable :=
  xs.foldlM (fun t x => t.add x) t

theorem sources_of_addAll {u : RepositoryTable} {xs : List RepositorySource} (h : t.addAll xs = .ok u) :
    u.sources = t.sources ++ xs ∧ (t.names.Nodup → u.names.Nodup) := by
  induction xs generalizing t with
  | nil =>
    cases h
    exact ⟨(List.append_nil _).symm, id⟩
  | cons x xs ih =>
    rw [addAll, List.foldlM_cons] at h
    obtain ⟨t', hadd, h⟩ := exists_of_bind_eq_ok h
    obtain ⟨hnew, rfl⟩ := add_eq_ok hadd
    obtain ⟨hsources, hnodup⟩ := ih h
    refine ⟨by rw [hsources, List.append_assoc, List.singleton_append], fun ht => hnodup ?_⟩
    rw [names, List.map_append, List.map_singleton, ← List.concat_eq_append]
    exact ht.concat hnew

/- A table has its repositories in the order of their definitions, and no name twice, so that its ranks leave no
choice. -/
theorem byPriority_ranksAll (t : RepositoryTable) :
    t.IsRanking t.byPriority ∧ (t.names.Nodup → ∀ l, t.IsRanking l → l = t.byPriority) ∧
      ∀ main xs, addAll ⟨main, []⟩ xs = .ok t → t.sources = xs ∧ t.names.Nodup := by
  refine ⟨t.isRanking_byPriority, fun hnodup _ => eq_byPriority_of_isRanking hnodup, ?_⟩
  intro main xs h
  obtain ⟨hsources, hnodup⟩ := sources_of_addAll h
  exact ⟨hsources, hnodup List.nodup_nil⟩

def rankedSource (name : String) (priority : Int) : RepositorySource := ⟨name.toList, "/".toList, priority⟩

/-- The main repository is defined between two of the same priority, and has the least priority that can be written. -/
def contestedSources : List RepositorySource :=
  [rankedSource "b" 0, rankedSource "main" (-2147483648), rankedSource "top" 2147483647, rankedSource "a" 0]

def contestedTable : RepositoryTable := ⟨some "main".toList, contestedSources⟩

theorem byPriority_ranksAll_contestedTable :
    addAll ⟨some "main".toList, []⟩ contestedSources = .ok contestedTable ∧
      contestedTable.byPriority =
        [rankedSource "main" (-2147483648), rankedSource "top" 2147483647, rankedSource "b" 0,
          rankedSource "a" 0] := by
  have hdefined : addAll ⟨some "main".toList, []⟩ contestedSources = .ok contestedTable := rfl
  obtain ⟨_, hunique, hsources⟩ := byPriority_ranksAll contestedTable
  refine ⟨hdefined, (hunique (hsources _ _ hdefined).2 _ ?_).symm⟩
  refine ⟨by decide +kernel, ?_, by decide +kernel, fun p => ?_⟩
  · rintro _ _ ⟨⟩
    exact ⟨_, _, rfl, rfl⟩
  · show ofPriority p [rankedSource "top" 2147483647, rankedSource "b" 0, rankedSource "a" 0] =
      ofPriority p [rankedSource "b" 0, rankedSource "top" 2147483647, rankedSource "a" 0]
    by_cases hp : p = 0
    · subst hp
      decide +kernel
    · have hzero : ¬ 0 = p := Ne.symm hp
      simp only [ofPriority_cons, rankedSource, if_neg hzero]

end PackagePolicy.RepositoryTable
