import Mathlib
import ExportAudit.Proofs.GraphHistory

/-!
# Which files lead to a file

`ancestors` goes backwards along the imports by files of a class, layer by layer. It finds exactly the files from which
such imports lead to the given one (`mem_ancestors_iff`).

- A layer holds the files of the class that import one of the layer before and are new (`mem_nextLayer`);
- all that is found leads to the file (`leads_of_mem_ancestorsUpTo`);
- every layer settles one more edge, so the search does not end before all that it found is closed backwards
  (`closed_ancestorsUpTo`).
-/

namespace ExportAudit.ImportGraph

/-- One import, by a file of a class. -/
def Step (g : ImportGraph) (p : String → Bool) (a b : String) : Prop :=
  p a = true ∧ (a, b) ∈ g.pairs

/-- Imports by files of a class lead from one file to another. -/
def Leads (g : ImportGraph) (p : String → Bool) : String → String → Prop :=
  Relation.ReflTransGen (g.Step p)

/-- The imports by files of a class do not lead into a list from outside. -/
def ClosedBackwards (g : ImportGraph) (p : String → Bool) (found : List String) : Prop :=
  ∀ a b, g.Step p a b → b ∈ found → a ∈ found

/-- The number of edges from files that are not found. -/
def unsettled (g : ImportGraph) (found : List String) : Nat :=
  (g.edges.filter fun e => !found.contains e.source).length

section Search

variable {g : ImportGraph} {p : String → Bool} {found layer : List String} {file f : String}

theorem mem_foldl_addNew_source (keep : Edge → Bool) (edges : List Edge) (next : List String) :
    f ∈ edges.foldl (fun next e => if keep e then addNew next e.source else next) next ↔
      f ∈ next ∨ ∃ e ∈ edges, keep e = true ∧ e.source = f := by
  induction edges generalizing next with
  | nil => simp
  | cons e edges ih =>
    rw [List.foldl_cons, ih]
    by_cases hkeep : keep e = true
    · simp only [hkeep, if_true, mem_addNew, List.exists_mem_cons_iff, true_and, or_assoc, eq_comm (a := f)]
    · simp only [hkeep, if_false, List.exists_mem_cons_iff, false_and, false_or, Bool.false_eq_true]

theorem mem_nextLayer : f ∈ g.nextLayer p found layer ↔ f ∉ found ∧ ∃ b ∈ layer, g.Step p f b := by
  unfold nextLayer
  rw [mem_foldl_addNew_source fun e => layer.contains e.target && p e.source && !found.contains e.source]
  simp only [List.not_mem_nil, false_or, Bool.and_eq_true, Bool.not_eq_true', List.contains_eq_mem,
    decide_eq_true_eq, decide_eq_false_iff_not, Step, pairs, List.mem_map, Prod.mk.injEq]
  constructor
  · rintro ⟨e, he, ⟨⟨hlayer, hp⟩, hnew⟩, rfl⟩
    exact ⟨hnew, e.target, hlayer, hp, e, he, rfl, rfl⟩
  · rintro ⟨hnew, b, hb, hp, e, he, rfl, rfl⟩
    exact ⟨e, he, ⟨⟨hb, hp⟩, hnew⟩, rfl⟩

theorem ancestorsUpTo_succ_of_nil {n : Nat} (h : g.nextLayer p found layer = []) :
    g.ancestorsUpTo p (n + 1) found layer = found := by
  simp [ancestorsUpTo, h]

theorem ancestorsUpTo_succ_of_ne_nil {n : Nat} (h : g.nextLayer p found layer ≠ []) :
    g.ancestorsUpTo p (n + 1) found layer =
      g.ancestorsUpTo p n (found ++ g.nextLayer p found layer) (g.nextLayer p found layer) := by
  simp [ancestorsUpTo, h]

/-- The search keeps what it has found. -/
theorem subset_ancestorsUpTo (n : Nat) (found layer : List String) : found ⊆ g.ancestorsUpTo p n found layer := by
  induction n generalizing found layer with
  | zero => exact List.Subset.refl _
  | succ n ih =>
    by_cases h : g.nextLayer p found layer = []
    · rw [ancestorsUpTo_succ_of_nil h]
      exact List.Subset.refl _
    · rw [ancestorsUpTo_succ_of_ne_nil h]
      exact List.Subset.trans (List.subset_append_left _ _) (ih _ _)

/-- All that is found leads to the file. -/
theorem leads_of_mem_ancestorsUpTo (n : Nat) (hfound : ∀ a ∈ found, g.Leads p a file)
    (hlayer : layer ⊆ found) (h : f ∈ g.ancestorsUpTo p n found layer) : g.Leads p f file := by
  induction n generalizing found layer with
  | zero => exact hfound f h
  | succ n ih =>
    by_cases hnext : g.nextLayer p found layer = []
    · rw [ancestorsUpTo_succ_of_nil hnext] at h
      exact hfound f h
    · rw [ancestorsUpTo_succ_of_ne_nil hnext] at h
      refine ih (fun a ha => ?_) (List.subset_append_right _ _) h
      rcases List.mem_append.mp ha with ha | ha
      · exact hfound a ha
      · obtain ⟨-, b, hb, hstep⟩ := mem_nextLayer.mp ha
        exact (hfound b (hlayer hb)).head hstep

/-- A new file settles the edges that it is the source of. -/
theorem unsettled_append_lt {next : List String} (hf : f ∈ next) (hnew : f ∉ found) {e : Edge} (he : e ∈ g.edges)
    (hsource : e.source = f) : g.unsettled (found ++ next) < g.unsettled found := by
  have hsplit : g.edges.filter (fun e => !(found ++ next).contains e.source) =
      (g.edges.filter fun e => !found.contains e.source).filter fun e => !next.contains e.source := by
    rw [List.filter_filter]
    congr 1
    funext e
    rw [List.contains_append, Bool.not_or, Bool.and_comm]
  unfold unsettled
  rw [hsplit, List.length_filter_lt_length_iff_exists]
  exact ⟨e, List.mem_filter.mpr ⟨he, by simp [hsource, hnew]⟩, by simp [hsource, hf]⟩

/-- The search ends with a list that is closed backwards. All but the last layer is closed at any time, and as many
steps are left as edges are not settled. -/
theorem closed_ancestorsUpTo (n : Nat) (hlayer : layer ⊆ found)
    (hclosed : ∀ a b, g.Step p a b → b ∈ found → b ∉ layer → a ∈ found) (hsteps : g.unsettled found ≤ n) :
    g.ClosedBackwards p (g.ancestorsUpTo p n found layer) := by
  induction n generalizing found layer with
  | zero =>
    have hnone : g.edges.filter (fun e => !found.contains e.source) = [] := by
      simpa [unsettled] using hsteps
    intro a b hstep _
    obtain ⟨e, he, hpair⟩ := List.mem_map.mp hstep.2
    obtain ⟨rfl, -⟩ := Prod.mk.inj hpair
    have hsource : e.source ∈ found := by simpa using List.filter_eq_nil_iff.mp hnone e he
    exact hsource
  | succ n ih =>
    have hlast : ∀ a b, g.Step p a b → b ∈ layer → a ∈ found ∨ a ∈ g.nextLayer p found layer := by
      intro a b hstep hb
      by_cases ha : a ∈ found
      · exact Or.inl ha
      · exact Or.inr (mem_nextLayer.mpr ⟨ha, b, hb, hstep⟩)
    by_cases hnext : g.nextLayer p found layer = []
    · rw [ancestorsUpTo_succ_of_nil hnext]
      intro a b hstep hb
      by_cases hbl : b ∈ layer
      · exact (hlast a b hstep hbl).resolve_right (by simp [hnext])
      · exact hclosed a b hstep hb hbl
    · rw [ancestorsUpTo_succ_of_ne_nil hnext]
      apply ih (List.subset_append_right _ _)
      · intro a b hstep hb hbnext
        rw [List.mem_append]
        have hbfound : b ∈ found := (List.mem_append.mp hb).resolve_right hbnext
        by_cases hbl : b ∈ layer
        · exact hlast a b hstep hbl
        · exact Or.inl (hclosed a b hstep hbfound hbl)
      · obtain ⟨f, hf⟩ := List.exists_mem_of_ne_nil _ hnext
        obtain ⟨hnew, b, -, -, hpair⟩ := mem_nextLayer.mp hf
        obtain ⟨e, he, heq⟩ := List.mem_map.mp hpair
        have hlt := unsettled_append_lt hf hnew he (Prod.mk.inj heq).1
        omega

theorem ClosedBackwards.mem_of_leads (h : g.ClosedBackwards p found) (hfile : file ∈ found) (hleads : g.Leads p f file) :
    f ∈ found := by
  induction hleads using Relation.ReflTransGen.head_induction_on with
  | refl => exact hfile
  | head hstep _ ih => exact h _ _ hstep ih

/-- **The search finds exactly the files that lead to the given one.** -/
theorem mem_ancestors_iff : f ∈ g.ancestors p file ↔ g.Leads p f file := by
  constructor
  · refine leads_of_mem_ancestorsUpTo _ (fun a ha => ?_) (List.Subset.refl _)
    rw [List.mem_singleton.mp ha]
    exact .refl
  · have hclosed : g.ClosedBackwards p (g.ancestors p file) := by
      refine closed_ancestorsUpTo _ (List.Subset.refl _) (fun a b _ hb hnot => absurd hb hnot) ?_
      exact List.length_filter_le _ _
    exact hclosed.mem_of_leads (subset_ancestorsUpTo _ _ _ List.mem_cons_self)

/-- A file of a class leads to another, or it is that file. -/
theorem Leads.eq_or (h : g.Leads p f file) : f = file ∨ p f = true := by
  rcases Relation.ReflTransGen.cases_head h with rfl | ⟨b, hstep, -⟩
  · exact Or.inl rfl
  · exact Or.inr hstep.1

end Search

end ExportAudit.ImportGraph
