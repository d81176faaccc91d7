import Mathlib
import ExportAudit.Proofs.Reachability

/-!
# Who depends on a file, and which files nobody imports

Both questions are asked of a graph, and both are answered here in terms of the calls that made it (`Imports`).

- The files that depend on a file are the others from which a chain of imports leads to it, also when the file lies on a
  cycle (`grown_lists_dependents`). The search meets each file once (`nodup_ancestors`), so the list has no repetition.
- The files that nobody imports are those that no edge leads to (`grown_lists_unimported`). An import of a file by itself
  is an edge, so a file that only imports itself is not among them (`self_import_hides_file`).
-/

namespace ExportAudit.ImportGraph

/-- Some call adds an import of the file `b` by the file `a`. -/
def Imports (changes : List Change) (a b : String) : Prop :=
  ∃ line reference, .addImport a b line reference ∈ changes

/-- Some call mentions a file. -/
def Mentions (changes : List Change) (file : String) : Prop :=
  ∃ c ∈ changes, file ∈ c.files

section Calls

variable {changes : List Change} {a b f : String}

theorem mem_pairs_grown_iff_imports : (a, b) ∈ (grown changes).pairs ↔ Imports changes a b :=
  mem_pairs_grown.trans mem_filterMap_pair?

theorem mem_files_grown_iff_mentions : f ∈ (grown changes).files ↔ Mentions changes f :=
  mem_files_grown.trans List.mem_flatMap

theorem Imports.mentions_target (h : Imports changes a b) : Mentions changes b := by
  obtain ⟨line, reference, hcall⟩ := h
  exact ⟨_, hcall, by simp [Change.files]⟩

end Calls

/-! ## Each file is found once -/

section Search

variable {g : ImportGraph} {p : String → Bool} {found layer : List String} {file f : String}

theorem nodup_nextLayer (g : ImportGraph) (p : String → Bool) (found layer : List String) :
    (g.nextLayer p found layer).Nodup := by
  unfold nextLayer
  refine List.foldlRecOn g.edges _ List.nodup_nil fun next hnext e _ => ?_
  split
  · exact nodup_addNew hnext
  · exact hnext

theorem nodup_ancestorsUpTo (n : Nat) (hfound : found.Nodup) : (g.ancestorsUpTo p n found layer).Nodup := by
  induction n generalizing found layer with
  | zero => exact hfound
  | succ n ih =>
    by_cases hnext : g.nextLayer p found layer = []
    · rw [ancestorsUpTo_succ_of_nil hnext]
      exact hfound
    · rw [ancestorsUpTo_succ_of_ne_nil hnext]
      refine ih (hfound.append (nodup_nextLayer g p found layer) fun f hold hnew => ?_)
      exact (mem_nextLayer.mp hnew).1 hold

theorem nodup_ancestors (g : ImportGraph) (p : String → Bool) (file : String) : (g.ancestors p file).Nodup :=
  nodup_ancestorsUpTo _ (List.nodup_singleton file)

/-! ## Dependents -/

theorem pairwise_dependents (g : ImportGraph) (file : String) : (g.dependents file).Pairwise (· < ·) :=
  pairwise_lt_sortTexts ((nodup_ancestors g _ file).filter _)

/-- Between different files a chain of imports is not empty. -/
theorem leads_iff_transGen (hne : f ≠ file) :
    g.Leads (fun _ => true) f file ↔ Relation.TransGen (fun a b => (a, b) ∈ g.pairs) f file := by
  have hstep : g.Step (fun _ => true) = fun a b => (a, b) ∈ g.pairs := by
    funext a b
    simp [Step]
  rw [Leads, hstep, Relation.reflTransGen_iff_eq_or_transGen]
  exact or_iff_right (Ne.symm hne)

theorem mem_dependents_iff :
    f ∈ g.dependents file ↔ f ≠ file ∧ Relation.TransGen (fun a b => (a, b) ∈ g.pairs) f file := by
  rw [dependents, (sortTexts_perm _).mem_iff, List.mem_filter, mem_ancestors_iff, bne_iff_ne, and_comm]
  exact and_congr_right leads_iff_transGen

/-- What imports a dependent, or the file itself, is a dependent, unless it is the file. -/
theorem mem_dependents_of_importer {a b : String} (hb : b = file ∨ b ∈ g.dependents file) (ha : a ∈ g.importers b)
    (hne : a ≠ file) : a ∈ g.dependents file := by
  have hpair : (a, b) ∈ g.pairs := mem_importers_iff.mp ha
  refine mem_dependents_iff.mpr ⟨hne, ?_⟩
  rcases hb with rfl | hb
  · exact .single hpair
  · exact .head hpair (mem_dependents_iff.mp hb).2

end Search

/-- What it means that a list of files is that of the dependents of a file, after calls. -/
structure ListsDependents (changes : List Change) (file : String) (found : List String) : Prop where
  increasing : found.Pairwise (· < ·)
  /-- The other files from which a chain of one import or more leads to the file, and no more. -/
  reaching : ∀ f, f ∈ found ↔ f ≠ file ∧ Relation.TransGen (Imports changes) f file
  /-- Nothing depends on a file that no call mentions. -/
  unknown : ¬ Mentions changes file → found = []
  /-- The importers of the file are listed, and those of what is listed, the file itself apart. -/
  closed : ∀ b, b = file ∨ b ∈ found → ∀ a ∈ (grown changes).importers b, a ≠ file → a ∈ found

/-- **The dependents of a file are the files from which imports lead to it.** -/
theorem grown_lists_dependents (changes : List Change) (file : String) :
    ListsDependents changes file ((grown changes).dependents file) := by
  have hreaching (f : String) : f ∈ (grown changes).dependents file ↔
      f ≠ file ∧ Relation.TransGen (Imports changes) f file := by
    rw [mem_dependents_iff]
    simp only [mem_pairs_grown_iff_imports]
  constructor
  · exact pairwise_dependents _ file
  · exact hreaching
  · intro hunknown
    rw [List.eq_nil_iff_forall_not_mem]
    intro f hf
    obtain ⟨b, -, hlast⟩ := Relation.TransGen.tail'_iff.mp ((hreaching f).mp hf).2
    exact hunknown hlast.mentions_target
  · exact fun b hb a ha hne => mem_dependents_of_importer hb ha hne

/-- On a cycle every other file depends on each. -/
example : (grown [.addImport "a" "b" 1 "./b", .addImport "b" "c" 1 "./c", .addImport "c" "a" 1 "./a",
    .addImport "c" "c" 2 "."]).dependents "b" = ["a", "c"] := by
  cbv

/-! ## Files that nobody imports -/

theorem mem_unimported_iff {g : ImportGraph} {f : String} :
    f ∈ g.unimported ↔ f ∈ g.files ∧ ∀ a, (a, f) ∉ g.pairs := by
  rw [unimported, (sortTexts_perm _).mem_iff, List.mem_filter, Bool.not_eq_true', List.any_eq_false]
  simp only [beq_iff_eq, pairs, List.mem_map, Prod.mk.injEq, not_exists, not_and]
  exact and_congr_right fun _ => ⟨fun h _ e he _ => h e he, fun h e he => h _ e he rfl⟩

theorem Proper.pairwise_unimported {g : ImportGraph} (h : g.Proper) : g.unimported.Pairwise (· < ·) :=
  pairwise_lt_sortTexts (h.files.filter _)

/-- No file but itself imports a file. -/
def NoOtherImports (changes : List Change) (file : String) : Prop :=
  ∀ a, a ≠ file → ¬ Imports changes a file

/-- A file imports itself, and no other file imports it. -/
def OnlyImportsItself (changes : List Change) (file : String) : Prop :=
  Imports changes file file ∧ NoOtherImports changes file

/-- What the list of the files that nobody imports holds, after calls. -/
structure ListsUnimported (changes : List Change) (found : List String) : Prop where
  increasing : found.Pairwise (· < ·)
  /-- The files that no file imports, itself included. -/
  untouched : ∀ f, f ∈ found ↔ Mentions changes f ∧ ∀ a, ¬ Imports changes a f
  /-- So a file that no other file imports is missing exactly if it imports itself. -/
  hidden : ∀ f, Mentions changes f → NoOtherImports changes f → (f ∉ found ↔ OnlyImportsItself changes f)
  /-- Without such files, the list is that of the files that no other file imports. -/
  exact_iff : (∀ f, f ∈ found ↔ Mentions changes f ∧ NoOtherImports changes f) ↔
    ∀ f, ¬ OnlyImportsItself changes f

theorem forall_not_imports_iff {changes : List Change} {f : String} :
    (∀ a, ¬ Imports changes a f) ↔ NoOtherImports changes f ∧ ¬ OnlyImportsItself changes f := by
  constructor
  · exact fun h => ⟨fun a _ => h a, fun hself => h f hself.1⟩
  · rintro ⟨hother, hself⟩ a ha
    by_cases hne : a = f
    · subst hne
      exact hself ⟨ha, hother⟩
    · exact hother a hne ha

/-- **The files that nobody imports are those that no edge leads to, not even one from the file itself.** -/
theorem grown_lists_unimported (changes : List Change) : ListsUnimported changes (grown changes).unimported := by
  have huntouched (f : String) : f ∈ (grown changes).unimported ↔ Mentions changes f ∧ ∀ a, ¬ Imports changes a f := by
    rw [mem_unimported_iff, mem_files_grown_iff_mentions]
    simp only [mem_pairs_grown_iff_imports]
  constructor
  · exact (proper_grown changes).pairwise_unimported
  · exact huntouched
  · intro f hmentioned hother
    rw [huntouched, forall_not_imports_iff]
    simp only [hmentioned, hother, true_and, not_not]
  · simp only [huntouched, forall_not_imports_iff]
    constructor
    · intro h f hself
      exact ((h f).mpr ⟨hself.1.mentions_target, hself.2⟩).2.2 hself
    · exact fun h f => by simp only [h f, not_false_eq_true, and_true]

/-- **A file that only imports itself is not listed**, though no other file imports it. -/
theorem self_import_hides_file : ¬ ∀ (changes : List Change) (f : String),
    f ∈ (grown changes).unimported ↔ Mentions changes f ∧ NoOtherImports changes f := by
  intro h
  have hlisted : "/proj/index.ts" ∈ (grown [.addImport "/proj/index.ts" "/proj/index.ts" 1 "."]).unimported := by
    rw [h]
    refine ⟨⟨_, List.mem_singleton_self _, by simp [Change.files]⟩, ?_⟩
    rintro a hne ⟨line, reference, hcall⟩
    simp only [List.mem_singleton, Change.addImport.injEq] at hcall
    exact hne hcall.1
  have hnone : (grown [.addImport "/proj/index.ts" "/proj/index.ts" 1 "."]).unimported = [] := by cbv
  rw [hnone] at hlisted
  exact List.not_mem_nil hlisted

end ExportAudit.ImportGraph
