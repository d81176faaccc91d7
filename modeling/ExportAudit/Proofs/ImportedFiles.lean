import Mathlib
import ExportAudit.Proofs.ImportAccounts

/-!
# The files and edges of an import graph

A graph never holds a file twice, nor two edges between the same files (`ImportGraph.Proper`, kept by `addFile` and
`addImport`), so its figures count distinct files and distinct pairs. The graph of an analysis has the files of the
exports, the files that import and the files that are imported, and an edge for each resolved import
(`mem_files_bound`, `mem_pairs_bound`).
-/

namespace ExportAudit

/-! ## Growing graphs -/

section AddNew

variable {α : Type} [BEq α] [LawfulBEq α] {items : List α} {a b : α}

theorem mem_addNew : b ∈ addNew items a ↔ b ∈ items ∨ b = a := by
  unfold addNew
  split
  · rename_i h
    have ha : a ∈ items := by simpa using h
    exact ⟨Or.inl, fun h => h.elim id fun e => e ▸ ha⟩
  · simp

theorem nodup_addNew (h : items.Nodup) : (addNew items a).Nodup := by
  unfold addNew
  split
  · exact h
  · rename_i ha
    exact h.append (List.nodup_singleton a) (by simpa using ha)

end AddNew

theorem Edge.joins_iff {e : Edge} {source target : String} :
    e.joins source target = true ↔ (e.source, e.target) = (source, target) := by
  simp [Edge.joins]

namespace ImportGraph

variable {g g' : ImportGraph} {source target file : String}

/-- The files that the edges of a graph join. -/
def pairs (g : ImportGraph) : List (String × String) :=
  g.edges.map fun e => (e.source, e.target)

/-- Every file stands once in a graph, and every pair of files is joined by one edge at most. -/
structure Proper (g : ImportGraph) : Prop where
  files : g.files.Nodup
  pairs : g.pairs.Nodup

theorem proper_empty : Proper {} := ⟨List.nodup_nil, List.nodup_nil⟩

theorem Proper.addFile (h : g.Proper) : (g.addFile file).Proper := ⟨nodup_addNew h.files, h.pairs⟩

theorem mem_files_addFile {f : String} : f ∈ (g.addFile file).files ↔ f ∈ g.files ∨ f = file := mem_addNew

theorem files_addImport (line : Nat) (reference : String) :
    (g.addImport source target line reference).files = addNew (addNew g.files source) target := by
  unfold ImportGraph.addImport
  simp only
  split <;> rfl

/-- One more import adds the pair of its files unless there is an edge between them. -/
theorem pairs_addImport (line : Nat) (reference : String) :
    (g.addImport source target line reference).pairs = addNew g.pairs (source, target) := by
  have hjoined : (((g.addFile source).addFile target).edge? source target).isSome = true ↔
      (source, target) ∈ g.pairs := by
    rw [edge?, List.find?_isSome, pairs, List.mem_map]
    simp only [Edge.joins_iff]
    rfl
  unfold ImportGraph.addImport addNew
  simp only
  by_cases h : (source, target) ∈ g.pairs
  · rw [if_pos (hjoined.2 h), if_pos (by simpa using h)]
    simp only [pairs, List.map_map]
    refine List.map_congr_left fun e _ => ?_
    simp only [Function.comp_apply]
    split <;> rfl
  · rw [if_neg (mt hjoined.1 h), if_neg (by simpa using h)]
    simp [pairs, ImportGraph.addFile]

theorem Proper.addImport (h : g.Proper) (line : Nat) (reference : String) :
    (g.addImport source target line reference).Proper where
  files := by rw [files_addImport]; exact nodup_addNew (nodup_addNew h.files)
  pairs := by rw [pairs_addImport]; exact nodup_addNew h.pairs

/-- Proper graphs with the same files and pairs have the same figures. -/
theorem figures_eq (h : g.Proper) (h' : g'.Proper) (hfiles : ∀ f, f ∈ g'.files ↔ f ∈ g.files)
    (hpairs : ∀ p, p ∈ g'.pairs ↔ p ∈ g.pairs) : g'.files.length = g.files.length ∧
      g'.edges.length = g.edges.length ∧ g'.unimported.length = g.unimported.length := by
  have hf : g'.files.Perm g.files := (List.perm_ext_iff_of_nodup h'.files h.files).2 hfiles
  have hp : g'.pairs.Perm g.pairs := (List.perm_ext_iff_of_nodup h'.pairs h.pairs).2 hpairs
  have himported (f : String) : g'.edges.any (·.target == f) = g.edges.any (·.target == f) := by
    have hpair (g : ImportGraph) : g.edges.any (·.target == f) = g.pairs.any (·.2 == f) := by
      rw [pairs, List.any_map]
      rfl
    rw [hpair, hpair, hp.any_eq]
  refine ⟨hf.length_eq, ?_, ?_⟩
  · simpa [pairs] using hp.length_eq
  · unfold unimported
    rw [(sortTexts_perm _).length_eq, (sortTexts_perm _).length_eq]
    simp only [himported]
    exact (hf.filter _).length_eq

end ImportGraph

/-! ## The graph of an analysis -/

section Analysis

variable {d : Disk} {root : String} {resolver : Resolver} {facts : ProjectFacts}

theorem graph_next (i : Import) (b : Bindings) : (b.next d root resolver i).graph =
    match i.destination d resolver with
    | .file target => (b.graph.addFile (d.real i.file)).addImport (d.real i.file) target i.line i.reference
    | .failure _ _ => b.graph.addFile (d.real i.file) := by
  rw [Import.destination_eq]
  unfold Bindings.next Bindings.add
  cases (resolver.answer d i.reference (d.real i.file)).destination with
  | file target => rfl
  | failure reason detail =>
    simp only
    split <;> rfl

theorem proper_next {b : Bindings} (h : b.graph.Proper) (i : Import) : (b.next d root resolver i).graph.Proper := by
  rw [graph_next]
  split
  · exact h.addFile.addImport _ _
  · exact h.addFile

theorem mem_files_next {b : Bindings} {i : Import} {f : String} : f ∈ (b.next d root resolver i).graph.files ↔
    f ∈ b.graph.files ∨ f = d.real i.file ∨ i.destination d resolver = .file f := by
  rw [graph_next]
  cases i.destination d resolver with
  | file target =>
    simp only [ImportGraph.files_addImport, mem_addNew, ImportGraph.mem_files_addFile, Destination.file.injEq]
    grind
  | failure reason detail => simp [ImportGraph.mem_files_addFile]

theorem mem_pairs_next {b : Bindings} {i : Import} {p : String × String} :
    p ∈ (b.next d root resolver i).graph.pairs ↔
      p ∈ b.graph.pairs ∨ p.1 = d.real i.file ∧ i.destination d resolver = .file p.2 := by
  rw [graph_next]
  cases i.destination d resolver with
  | file target =>
    simp only [ImportGraph.pairs_addImport, mem_addNew, Destination.file.injEq, Prod.ext_iff]
    exact or_congr Iff.rfl (and_congr_right fun _ => eq_comm)
  | failure reason detail => simp [ImportGraph.pairs, ImportGraph.addFile]

/-- The graph that the imports start from: the files of the exports. -/
theorem start_graph (d : Disk) (facts : ProjectFacts) : (startBindings d facts).graph.Proper ∧
    (∀ f, f ∈ (startBindings d facts).graph.files ↔ ∃ e ∈ indexExports d facts.exports, e.file = f) ∧
    (startBindings d facts).graph.pairs = [] := by
  unfold startBindings
  simp only
  induction indexExports d facts.exports using List.reverseRecOn with
  | nil => exact ⟨ImportGraph.proper_empty, by simp, rfl⟩
  | append_singleton es e ih =>
    obtain ⟨hproper, hfiles, hpairs⟩ := ih
    rw [List.foldl_append, List.foldl_cons, List.foldl_nil]
    refine ⟨hproper.addFile, fun f => ?_, hpairs⟩
    rw [ImportGraph.mem_files_addFile, hfiles]
    simp [or_and_right, exists_or, eq_comm]

theorem proper_bound (d : Disk) (root : String) (facts : ProjectFacts) (resolver : Resolver) :
    (boundImports d root facts resolver).graph.Proper := by
  unfold boundImports
  induction facts.imports using List.reverseRecOn with
  | nil => exact (start_graph d facts).1
  | append_singleton imports i ih =>
    rw [List.foldl_append]
    exact proper_next ih i

/-- The files of the graph: those of exports, those that import, and those that are imported. -/
theorem mem_files_bound {f : String} : f ∈ (boundImports d root facts resolver).graph.files ↔
    (∃ e ∈ indexExports d facts.exports, e.file = f) ∨
      ∃ i ∈ facts.imports, f = d.real i.file ∨ i.destination d resolver = .file f := by
  unfold boundImports
  induction facts.imports using List.reverseRecOn with
  | nil => simpa using (start_graph d facts).2.1 f
  | append_singleton imports i ih =>
    rw [List.foldl_append, List.foldl_cons, List.foldl_nil, mem_files_next, ih]
    simp only [List.mem_append, List.mem_singleton, or_and_right, exists_or, exists_eq_left, or_assoc]

/-- The edges of the graph: the files of each import that is resolved. -/
theorem mem_pairs_bound {p : String × String} : p ∈ (boundImports d root facts resolver).graph.pairs ↔
    ∃ i ∈ facts.imports, p.1 = d.real i.file ∧ i.destination d resolver = .file p.2 := by
  unfold boundImports
  induction facts.imports using List.reverseRecOn with
  | nil => simp [(start_graph d facts).2.2]
  | append_singleton imports i ih =>
    rw [List.foldl_append, List.foldl_cons, List.foldl_nil, mem_pairs_next, ih]
    simp only [List.mem_append, List.mem_singleton, or_and_right, exists_or, exists_eq_left]

end Analysis

end ExportAudit
