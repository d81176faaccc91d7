import Mathlib
import ExportAudit.Proofs.Outcome

/-!
# Used and unused exports

The result of an analysis divides the exports of a project (`analyze_divides`): every key stands there exactly once, the
entry of a key is the first fact with it, the used exports are those with a usage, and everything is in order
(`AnalysisResult.Divides`).

The orders are lexicographic. Each is given by a rank (`Export.usedRank`, `Export.unusedRank`, `Site.rank`), and the
comparisons that sort are comparisons of ranks (`thenLe_iff_toLex`, `pairwise_mergeSort_rank`).
-/

namespace ExportAudit

/-! ## Ranks -/

section Ranks

variable {α β γ : Type}

/-- A comparison by a key and then by a rank is a lexicographic comparison. -/
theorem thenLe_iff_toLex [LinearOrder β] [BEq β] [LawfulBEq β] [DecidableLT β] [LinearOrder γ] (key : α → β)
    (rank : α → γ) {rest : α → α → Bool} (h : ∀ a b, rest a b = true ↔ rank a ≤ rank b) (a b : α) :
    thenLe key rest a b = true ↔ toLex (key a, rank a) ≤ toLex (key b, rank b) := by
  rw [Prod.Lex.toLex_le_toLex]
  unfold thenLe
  by_cases heq : key a = key b
  · simp [heq, h]
  · simp [heq]

/-- Sorting by a comparison of ranks puts the ranks in order. -/
theorem pairwise_mergeSort_rank [LinearOrder γ] {rank : α → γ} {le : α → α → Bool}
    (h : ∀ a b, le a b = true ↔ rank a ≤ rank b) (l : List α) :
    (l.mergeSort le).Pairwise fun a b => rank a ≤ rank b := by
  have hsorted : (l.mergeSort le).Pairwise fun a b => le a b = true := List.pairwise_mergeSort
    (fun a b c hab hbc => (h a c).2 (((h a b).1 hab).trans ((h b c).1 hbc)))
    (fun a b => by rw [Bool.or_eq_true, h, h]; exact le_total _ _) l
  exact hsorted.imp fun hab => (h _ _).1 hab

end Ranks

/-- Where a used export stands: by file, then by name, a default after the others. -/
def Export.usedRank (e : Export) : String ×ₗ String ×ₗ Bool :=
  toLex (e.file, toLex (e.name, e.isDefault))

/-- Where an unused export stands: by file, then by line, then by name. -/
def Export.unusedRank (e : Export) : String ×ₗ Nat ×ₗ String :=
  toLex (e.file, toLex (e.line, e.name))

/-- Where a site stands: the framework first, then by file and line. -/
def Site.rank (s : Site) : Bool ×ₗ String ×ₗ Nat :=
  toLex (!s.isFramework, toLex (s.file, s.line))

theorem Export.usedLe_iff (a b : Export) : Export.usedLe a b = true ↔ a.usedRank ≤ b.usedRank := by
  refine thenLe_iff_toLex Export.file (fun e => toLex (e.name, e.isDefault)) ?_ a b
  refine thenLe_iff_toLex Export.name Export.isDefault fun a b => ?_
  cases a.isDefault <;> cases b.isDefault <;> decide

theorem Export.unusedLe_iff (a b : Export) : Export.unusedLe a b = true ↔ a.unusedRank ≤ b.unusedRank := by
  refine thenLe_iff_toLex Export.file (fun e => toLex (e.line, e.name)) ?_ a b
  exact thenLe_iff_toLex Export.line Export.name fun _ _ => decide_eq_true_iff

theorem Site.le_iff (a b : Site) : Site.le a b = true ↔ toLex (a.file, a.line) ≤ toLex (b.file, b.line) :=
  thenLe_iff_toLex Site.file Site.line (fun _ _ => decide_eq_true_iff) a b

theorem Site.frameworkLe_iff (a b : Site) : Site.frameworkLe a b = true ↔ a.rank ≤ b.rank := by
  rw [Site.rank, Site.rank, Prod.Lex.toLex_le_toLex, ← Site.le_iff]
  unfold Site.frameworkLe
  cases a.isFramework <;> cases b.isFramework <;> simp

/-! ## The division -/

section Division

variable {d : Disk} {root : String} {rules : List Rule} {facts : ProjectFacts} {resolver : Resolver}
  {result : AnalysisResult}

theorem usedBy_ne_nil_of_mem_used (h : (analyze d root rules facts resolver).1 = .ok result) {x : Export}
    (hx : x ∈ result.used) : x.usedBy ≠ [] := by
  rw [(result_exports h).1] at hx
  obtain ⟨y, hy, rfl⟩ := List.mem_map.mp hx
  have hused : y.isUsed = true := (List.mem_filter.mp (List.mem_mergeSort.mp hy)).2
  intro hnil
  have hlength := congrArg List.length hnil
  rw [List.length_mergeSort, List.length_nil, List.length_eq_zero_iff] at hlength
  simp [Export.isUsed, hlength] at hused

theorem usedBy_eq_nil_of_mem_unused (h : (analyze d root rules facts resolver).1 = .ok result) {x : Export}
    (hx : x ∈ result.unused) : x.usedBy = [] := by
  rw [(result_exports h).2] at hx
  simpa [Export.isUsed] using (List.mem_filter.mp (List.mem_mergeSort.mp hx)).2

theorem pairwise_used (h : (analyze d root rules facts resolver).1 = .ok result) :
    result.used.Pairwise fun a b => a.usedRank ≤ b.usedRank := by
  rw [(result_exports h).1, List.pairwise_map]
  exact pairwise_mergeSort_rank Export.usedLe_iff _

theorem pairwise_unused (h : (analyze d root rules facts resolver).1 = .ok result) :
    result.unused.Pairwise fun a b => a.unusedRank ≤ b.unusedRank := by
  rw [(result_exports h).2]
  exact pairwise_mergeSort_rank Export.unusedLe_iff _

theorem pairwise_usedBy (h : (analyze d root rules facts resolver).1 = .ok result) {x : Export}
    (hx : x ∈ result.used ++ result.unused) : x.usedBy.Pairwise fun s t => s.rank ≤ t.rank := by
  rcases List.mem_append.mp hx with hx | hx
  · rw [(result_exports h).1] at hx
    obtain ⟨y, -, rfl⟩ := List.mem_map.mp hx
    exact pairwise_mergeSort_rank Site.frameworkLe_iff _
  · rw [usedBy_eq_nil_of_mem_unused h hx]
    exact List.Pairwise.nil

/-- What it means that a result divides the exports of a project. -/
structure AnalysisResult.Divides (d : Disk) (facts : ProjectFacts) (result : AnalysisResult) : Prop where
  /-- No key stands twice, in the used and the unused exports together. -/
  keys_nodup : ((result.used ++ result.unused).map Export.key).Nodup
  /-- The keys are those of the facts by their canonical files. -/
  mem_keys : ∀ k, k ∈ (result.used ++ result.unused).map Export.key ↔
    ∃ e ∈ facts.exports, exportKey (d.real e.file) e.name e.isDefault = k
  /-- The entry of a key is the first fact with it, but for its file and its usages. -/
  first : ∀ x ∈ result.used ++ result.unused, ∃ before e after, facts.exports = before ++ e :: after ∧
    x = { e with file := d.real e.file, usedBy := x.usedBy } ∧
    ∀ b ∈ before, exportKey (d.real b.file) b.name b.isDefault ≠ x.key
  used : ∀ x ∈ result.used, x.usedBy ≠ []
  unused : ∀ x ∈ result.unused, x.usedBy = []
  used_sorted : result.used.Pairwise fun a b => a.usedRank ≤ b.usedRank
  unused_sorted : result.unused.Pairwise fun a b => a.unusedRank ≤ b.unusedRank
  sites_sorted : ∀ x ∈ result.used ++ result.unused, x.usedBy.Pairwise fun s t => s.rank ≤ t.rank

/-- **The result of an analysis divides the exports**: nothing is lost, nothing stands twice, and all is in order. -/
theorem analyze_divides (h : (analyze d root rules facts resolver).1 = .ok result) : result.Divides d facts where
  keys_nodup := (keys_result_perm h).nodup_iff.mpr (nodup_keys_indexExports d _)
  mem_keys k := by rw [(keys_result_perm h).mem_iff, mem_keys_indexExports]
  first x hx := by
    obtain ⟨i, e, he, hxe, -⟩ := exists_of_mem_result h hx
    obtain ⟨before, fact, after, hsplit, rfl, hfirst⟩ := exists_of_mem_indexExports (List.mem_of_getElem? he)
    refine ⟨before, fact, after, hsplit, hxe, fun b hb => ?_⟩
    rw [hxe]
    exact hfirst b hb
  used x := usedBy_ne_nil_of_mem_used h
  unused x := usedBy_eq_nil_of_mem_unused h
  used_sorted := pairwise_used h
  unused_sorted := pairwise_unused h
  sites_sorted x := pairwise_usedBy h

end Division

/-- A tree where `copy.ts` is a link to `a.ts`. -/
def linkedDisk : Disk :=
  ⟨.directory [("proj", .directory [("a.ts", .file .empty 0), ("copy.ts", .link "a.ts")])], "/proj"⟩

/-- Facts in which one export is seen through the file and again through the link. -/
def linkedFacts : ProjectFacts :=
  { exports := [{ name := "x", file := "/proj/a.ts", line := 1 }, { name := "x", file := "/proj/copy.ts", line := 7 },
      { name := "y", file := "/proj/copy.ts", line := 8 }] }

/-- The export seen twice stands once, as the fact that came first. -/
theorem analyze_divides_linked : ∃ result,
    (analyze linkedDisk "/proj" (rulesOf none) linkedFacts (.ofRoot "/proj" {})).1 = .ok result ∧
      result.Divides linkedDisk linkedFacts ∧ (result.used ++ result.unused).length = 2 := by
  obtain ⟨result, h⟩ :=
    (exists_analyze_eq_ok_iff linkedDisk "/proj" (rulesOf none) linkedFacts (.ofRoot "/proj" {})).mpr ⟨_, rfl⟩
  refine ⟨result, h, analyze_divides h, ?_⟩
  have hlength := (keys_result_perm h).length_eq
  rw [List.length_map, List.length_map] at hlength
  rw [hlength]
  decide +kernel

end ExportAudit
