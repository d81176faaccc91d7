import Mathlib
import ExportAudit.Proofs.Partition

/-!
# What the order of a result depends on

A result puts everything in order, and sorting forgets the order in which things came:

- sorting keeps the order of items of the same rank (`filter_mergeSort_rank`), so two lists that agree on every rank are
  sorted to the same list (`mergeSort_eq_of_ranks`); where ranks differ, a permutation suffices (`mergeSort_eq_of_perm`);
- an item attached once is there once, whenever it came (`Site.count_foldl_attach`), so sites attached in any order are
  sorted to the same list (`Export.settle_addUsages`);
- the used and the unused exports of a result are the settled exports, divided and put in order (`result_settled`).
-/

namespace ExportAudit

/-! ## Sorting -/

section Sorting

variable {α γ : Type} [LinearOrder γ] {rank : α → γ} {le : α → α → Bool}

/-- Sorting keeps the order of the items of one rank. -/
theorem filter_mergeSort_rank (h : ∀ a b, le a b = true ↔ rank a ≤ rank b) (l : List α) (r : γ) :
    (l.mergeSort le).filter (rank · = r) = l.filter (rank · = r) := by
  have hclass : (l.filter (rank · = r)).Pairwise fun a b => le a b = true := by
    refine List.pairwise_of_forall_mem_list fun a ha b hb => (h a b).2 ?_
    have ha' : rank a = r := by simpa using (List.mem_filter.mp ha).2
    have hb' : rank b = r := by simpa using (List.mem_filter.mp hb).2
    rw [ha', hb']
  have hsub : (l.filter (rank · = r)).Sublist (l.mergeSort le) := List.sublist_mergeSort
    (fun a b c hab hbc => (h a c).2 (((h a b).1 hab).trans ((h b c).1 hbc)))
    (fun a b => by rw [Bool.or_eq_true, h, h]; exact le_total _ _) hclass List.filter_sublist
  have hsub' : (l.filter (rank · = r)).Sublist ((l.mergeSort le).filter (rank · = r)) := by
    simpa [List.filter_filter] using hsub.filter (rank · = r)
  exact (hsub'.eq_of_length ((List.mergeSort_perm l le).filter _).length_eq.symm).symm

theorem mem_iff_of_ranks {l l' : List α} (h : ∀ r, l.filter (rank · = r) = l'.filter (rank · = r)) (a : α) :
    a ∈ l ↔ a ∈ l' := by
  simpa using congrArg (a ∈ ·) (h (rank a))

/-- Lists in order that agree on every rank are equal. -/
theorem eq_of_pairwise_rank {l l' : List α} (hl : l.Pairwise fun a b => rank a ≤ rank b)
    (hl' : l'.Pairwise fun a b => rank a ≤ rank b)
    (h : ∀ r, l.filter (rank · = r) = l'.filter (rank · = r)) : l = l' := by
  induction l generalizing l' with
  | nil =>
    cases l' with
    | nil => rfl
    | cons b l' => exact absurd ((mem_iff_of_ranks h b).2 List.mem_cons_self) List.not_mem_nil
  | cons a l ih =>
    cases l' with
    | nil => exact absurd ((mem_iff_of_ranks h a).1 List.mem_cons_self) List.not_mem_nil
    | cons b l' =>
      have hba : rank b ≤ rank a := by
        rcases List.mem_cons.mp ((mem_iff_of_ranks h a).1 List.mem_cons_self) with rfl | ha
        · exact le_rfl
        · exact List.rel_of_pairwise_cons hl' ha
      have hab : rank a ≤ rank b := by
        rcases List.mem_cons.mp ((mem_iff_of_ranks h b).2 List.mem_cons_self) with rfl | hb
        · exact le_rfl
        · exact List.rel_of_pairwise_cons hl hb
      have heq : rank a = rank b := le_antisymm hab hba
      have hhead := h (rank a)
      rw [List.filter_cons_of_pos (by simp), List.filter_cons_of_pos (by simp [heq])] at hhead
      obtain ⟨rfl, -⟩ := List.cons.inj hhead
      have htail (r : γ) : l.filter (rank · = r) = l'.filter (rank · = r) := by
        have := h r
        rw [List.filter_cons, List.filter_cons] at this
        split at this
        · exact (List.cons.inj this).2
        · exact this
      rw [ih (List.pairwise_cons.mp hl).2 (List.pairwise_cons.mp hl').2 htail]

/-- **Stability**: lists that agree on every rank are sorted to the same list. -/
theorem mergeSort_eq_of_ranks (h : ∀ a b, le a b = true ↔ rank a ≤ rank b) {l l' : List α}
    (hranks : ∀ r, l.filter (rank · = r) = l'.filter (rank · = r)) : l.mergeSort le = l'.mergeSort le := by
  refine eq_of_pairwise_rank (pairwise_mergeSort_rank h l) (pairwise_mergeSort_rank h l') fun r => ?_
  rw [filter_mergeSort_rank h, filter_mergeSort_rank h, hranks]

/-- Where different items have different ranks, the order in which they come does not matter. -/
theorem mergeSort_eq_of_perm (h : ∀ a b, le a b = true ↔ rank a ≤ rank b) (hrank : Function.Injective rank)
    {l l' : List α} (hperm : l.Perm l') : l.mergeSort le = l'.mergeSort le := by
  refine List.Perm.eq_of_pairwise (fun a b _ _ hab hba => hrank (le_antisymm hab hba))
    (pairwise_mergeSort_rank h l) (pairwise_mergeSort_rank h l') ?_
  exact (List.mergeSort_perm l le).trans (hperm.trans (List.mergeSort_perm l' le).symm)

end Sorting

/-! ## Sites -/

section Sites

variable {sites ss ss' : List Site} {e : Export}

theorem Site.rank_injective : Function.Injective Site.rank := by
  intro s t h
  simp only [Site.rank, EmbeddingLike.apply_eq_iff_eq, Prod.mk.injEq] at h
  cases s
  cases t
  simp_all

/-- A site that was there stays as often as it was; one that is attached is there once. -/
theorem Site.count_foldl_attach (s : Site) : (ss.foldl Site.attach sites).count s =
    if s ∈ sites then sites.count s else if s ∈ ss then 1 else 0 := by
  induction ss generalizing sites with
  | nil =>
    rw [List.foldl_nil]
    split
    · rfl
    · rename_i h
      simpa using List.count_eq_zero_of_not_mem h
  | cons t ss ih =>
    rw [List.foldl_cons, ih]
    unfold Site.attach
    by_cases ht : t ∈ sites
    · by_cases hst : s = t
      · subst hst
        simp [ht]
      · simp [ht, hst]
    · by_cases hst : s = t
      · subst hst
        simp [ht, List.count_append, List.count_eq_zero_of_not_mem ht]
      · simp [ht, hst, List.count_append, Ne.symm hst]

/-- Attaching the same set of sites in another order permutes what is there. -/
theorem Site.perm_foldl_attach (h : ∀ s, s ∈ sites ∨ s ∈ ss ↔ s ∈ sites ∨ s ∈ ss') :
    (ss.foldl Site.attach sites).Perm (ss'.foldl Site.attach sites) := by
  rw [List.perm_iff_count]
  intro s
  rw [Site.count_foldl_attach, Site.count_foldl_attach]
  by_cases hs : s ∈ sites
  · simp [hs]
  · simpa [hs] using if_congr (by simpa [hs] using h s) rfl rfl

/-- An export with its sites in order. -/
def Export.settle (e : Export) : Export :=
  { e with usedBy := e.usedBy.mergeSort Site.frameworkLe }

theorem Export.isUsed_settle (e : Export) : e.settle.isUsed = e.isUsed := by
  rw [Bool.eq_iff_iff]
  simp only [Export.isUsed, Export.settle, Bool.not_eq_true', List.isEmpty_eq_false_iff_exists_mem, List.mem_mergeSort]

/-- A settled export depends on the set of sites that it carries or gets. -/
theorem Export.settle_addUsages (h : ∀ s, s ∈ e.usedBy ∨ s ∈ ss ↔ s ∈ e.usedBy ∨ s ∈ ss') :
    (e.addUsages ss).settle = (e.addUsages ss').settle := by
  unfold Export.settle
  rw [Export.addUsages_eq, Export.addUsages_eq]
  simp only
  rw [mergeSort_eq_of_perm Site.frameworkLe_iff Site.rank_injective (Site.perm_foldl_attach h)]

end Sites

/-! ## Settled exports -/

section Settled

variable {d : Disk} {root : String} {rules : List Rule} {facts : ProjectFacts} {resolver : Resolver}
  {result : AnalysisResult}

/-- The exports of an analysis with all their sites in order, before they are divided. -/
def settledExports (d : Disk) (rules : List Rule) (facts : ProjectFacts) (resolver : Resolver) (c : LivenessContext) :
    List Export :=
  (markedExports d rules facts resolver c).map Export.settle

/-- The exports of a result are the settled ones, divided and put in order. -/
theorem result_settled (h : (analyze d root rules facts resolver).1 = .ok result) :
    result.used =
        ((settledExports d rules facts resolver (result.context d)).filter Export.isUsed).mergeSort Export.usedLe ∧
      result.unused =
        ((settledExports d rules facts resolver (result.context d)).filter (!·.isUsed)).mergeSort Export.unusedLe := by
  obtain ⟨hused, hunused⟩ := result_exports h
  unfold settledExports
  generalize markedExports d rules facts resolver (result.context d) = marked at hused hunused ⊢
  constructor
  · have hsort := List.map_mergeSort (r := Export.usedLe) (s := Export.usedLe) (f := Export.settle)
      (l := marked.filter Export.isUsed) fun a _ b _ => rfl
    rw [hused, List.filter_map, Function.comp_def]
    simp only [Export.isUsed_settle]
    exact hsort
  · rw [hunused, List.filter_map, Function.comp_def]
    simp only [Export.isUsed_settle]
    congr 1
    refine ((List.map_congr_left fun e he => ?_).trans (List.map_id _)).symm
    have hnil : e.usedBy = [] := by simpa [Export.isUsed] using (List.mem_filter.mp he).2
    unfold Export.settle
    rw [hnil, List.mergeSort_nil]
    exact (congrArg (fun sites => { e with usedBy := sites }) hnil).symm

/-- The run-time usages of a project attached to its declarations give those of a result. -/
theorem attach_result (h : (analyze d root rules facts resolver).1 = .ok result) :
    ∃ n, (usageTargets d facts).attach (canonicalUsages d facts) =
      .ok (⟨result.routes, result.hooks, result.actions⟩, n) := by
  obtain ⟨b, t, n, -, hattach, rfl⟩ := exists_of_analyze_eq_ok h
  exact ⟨n, hattach⟩

end Settled

end ExportAudit
