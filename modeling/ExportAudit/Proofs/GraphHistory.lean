import Mathlib
import ExportAudit.Proofs.ImportedFiles

/-!
# What a graph tells of the calls that made it

A graph is grown by calls that add a file or an import (`Change`, `grown`). It tells of these calls exactly what
`Tells` lists: the files that they mention, and for every two files the lines of the imports between them, in order, and
the references that they use, each once.

- One call changes the files and the edges by what it adds (`mem_files_grow`, `edge?_addImport`);
- so after any calls the files are those mentioned (`mem_files_grown`), and the edges those of the calls
  (`edge?_grown`).
-/

namespace ExportAudit

namespace ImportGraph

/-! ## Histories -/

/-- A call that grows a graph. -/
inductive Change where
  | addFile (file : String)
  | addImport (source target : String) (line : Nat) (reference : String)
  deriving DecidableEq, Repr

/-- A graph after one more call. -/
def grow (g : ImportGraph) : Change → ImportGraph
  | .addFile file => g.addFile file
  | .addImport source target line reference => g.addImport source target line reference

/-- The graph that calls make of the empty one. -/
def grown (changes : List Change) : ImportGraph :=
  changes.foldl grow {}

/-- The files that a call mentions. -/
def Change.files : Change → List String
  | .addFile file => [file]
  | .addImport source target _ _ => [source, target]

/-- The files that the import of a call joins. -/
def Change.pair? : Change → Option (String × String)
  | .addFile _ => none
  | .addImport source target _ _ => some (source, target)

/-- The line and the reference of a call that adds an import between two files. -/
def Change.import? (source target : String) : Change → Option (Nat × String)
  | .addFile _ => none
  | .addImport s t line reference => if (s, t) = (source, target) then some (line, reference) else none

/-- The imports that calls add between two files, in order. -/
def importsBetween (changes : List Change) (source target : String) : List (Nat × String) :=
  changes.filterMap (Change.import? source target)

/-- The edge that stands for imports between two files: all their lines, and their references without repetition, in
the order of their first use. -/
def edgeOf? (source target : String) : List (Nat × String) → Option Edge
  | [] => none
  | imports => some ⟨source, target, imports.map (·.1), (imports.map (·.2)).eraseDups⟩

/-! ## One call -/

section Step

variable {g : ImportGraph} {source target a b : String}

theorem mem_files_grow (c : Change) {f : String} : f ∈ (g.grow c).files ↔ f ∈ g.files ∨ f ∈ c.files := by
  cases c with
  | addFile file => simp [grow, mem_files_addFile, Change.files]
  | addImport source target line reference => simp [grow, files_addImport, mem_addNew, Change.files, or_assoc]

theorem Proper.grow (h : g.Proper) (c : Change) : (g.grow c).Proper := by
  cases c with
  | addFile file => exact h.addFile
  | addImport source target line reference => exact h.addImport line reference

theorem joins_of_edge? {e : Edge} (h : g.edge? a b = some e) : (e.source, e.target) = (a, b) := by
  have hjoins := List.find?_some h
  exact Edge.joins_iff.mp hjoins

theorem edges_addImport (line : Nat) (reference : String) : (g.addImport source target line reference).edges =
    if (g.edge? source target).isSome then
      g.edges.map fun e => if e.joins source target then e.extend line reference else e
    else g.edges ++ [⟨source, target, [line], [reference]⟩] := by
  have hedge : ((g.addFile source).addFile target).edge? source target = g.edge? source target := rfl
  unfold addImport
  simp only [hedge]
  split <;> rfl

/-- Extending an edge does not change what it joins. -/
theorem find?_map_extend (edges : List Edge) (line : Nat) (reference : String) :
    (edges.map fun e => if e.joins source target then e.extend line reference else e).find? (fun e => e.joins a b) =
      (edges.find? fun e => e.joins a b).map fun e => if e.joins source target then e.extend line reference else e := by
  rw [List.find?_map]
  congr 2
  funext e
  simp only [Function.comp_apply]
  split <;> rfl

/-- One more import extends the edge between its files, or makes one, and leaves the others. -/
theorem edge?_addImport (line : Nat) (reference : String) :
    (g.addImport source target line reference).edge? a b =
      if (source, target) = (a, b) then
        some (((g.edge? a b).map (·.extend line reference)).getD ⟨a, b, [line], [reference]⟩)
      else g.edge? a b := by
  rw [edge?, edges_addImport]
  cases hjoined : g.edge? source target with
  | some old =>
    rw [Option.isSome_some, if_pos rfl, find?_map_extend, ← edge?]
    by_cases hpair : (source, target) = (a, b)
    · obtain ⟨rfl, rfl⟩ := Prod.mk.inj hpair
      rw [if_pos rfl, hjoined, Option.map_some, if_pos (Edge.joins_iff.mpr (joins_of_edge? hjoined))]
      rfl
    · rw [if_neg hpair]
      cases hother : g.edge? a b with
      | none => rfl
      | some e =>
        have hno : ¬ e.joins source target = true := fun h =>
          hpair ((Edge.joins_iff.mp h).symm.trans (joins_of_edge? hother))
        rw [Option.map_some, if_neg hno]
  | none =>
    rw [Option.isSome_none, if_neg Bool.false_ne_true, List.find?_append, ← edge?]
    by_cases hpair : (source, target) = (a, b)
    · obtain ⟨rfl, rfl⟩ := Prod.mk.inj hpair
      rw [if_pos rfl, hjoined]
      simp [Edge.joins]
    · have hnone : ([⟨source, target, [line], [reference]⟩] : List Edge).find? (fun e => e.joins a b) = none := by
        rw [List.find?_eq_none]
        intro e he hjoins
        rw [List.mem_singleton.mp he] at hjoins
        exact hpair (Edge.joins_iff.mp hjoins)
      rw [if_neg hpair, hnone, Option.or_none]

theorem addNew_eraseDups {α : Type} [BEq α] [LawfulBEq α] (items : List α) (x : α) :
    addNew items.eraseDups x = (items ++ [x]).eraseDups := by
  rw [List.eraseDups_append, addNew]
  by_cases h : x ∈ items
  · simp [h, List.removeAll]
  · simp [h, List.removeAll, List.eraseDups_cons]

/-- The edge of one more import. -/
theorem edgeOf?_concat (imports : List (Nat × String)) (line : Nat) (reference : String) :
    edgeOf? a b (imports ++ [(line, reference)]) =
      some (((edgeOf? a b imports).map (·.extend line reference)).getD ⟨a, b, [line], [reference]⟩) := by
  cases imports with
  | nil => rfl
  | cons i imports =>
    have hedge : edgeOf? a b (i :: imports ++ [(line, reference)]) =
        some ⟨a, b, (i :: imports ++ [(line, reference)]).map (·.1),
          ((i :: imports ++ [(line, reference)]).map (·.2)).eraseDups⟩ := rfl
    rw [hedge, List.map_append, List.map_append, List.map_singleton, List.map_singleton, ← addNew_eraseDups]
    rfl

end Step

/-! ## All calls -/

section Run

variable {changes : List Change} {a b f : String}

theorem grown_concat (changes : List Change) (c : Change) : grown (changes ++ [c]) = (grown changes).grow c :=
  List.foldl_append

theorem proper_grown (changes : List Change) : (grown changes).Proper := by
  induction changes using List.reverseRecOn with
  | nil => exact proper_empty
  | append_singleton changes c ih =>
    rw [grown_concat]
    exact ih.grow c

theorem mem_files_grown : f ∈ (grown changes).files ↔ f ∈ changes.flatMap Change.files := by
  induction changes using List.reverseRecOn with
  | nil => rfl
  | append_singleton changes c ih =>
    rw [grown_concat, mem_files_grow, ih, List.flatMap_append, List.mem_append, List.flatMap_singleton]

/-- **The edge between two files is that of the imports that were added between them.** -/
theorem edge?_grown (changes : List Change) (a b : String) :
    (grown changes).edge? a b = edgeOf? a b (importsBetween changes a b) := by
  induction changes using List.reverseRecOn with
  | nil => rfl
  | append_singleton changes c ih =>
    rw [grown_concat, importsBetween, List.filterMap_append, ← importsBetween]
    cases c with
    | addFile file =>
      rw [List.filterMap_cons_none rfl, List.filterMap_nil, List.append_nil, ← ih]
      rfl
    | addImport source target line reference =>
      rw [grow, edge?_addImport, ih]
      by_cases hpair : (source, target) = (a, b)
      · have hcall : Change.import? a b (.addImport source target line reference) = some (line, reference) :=
          if_pos hpair
        rw [if_pos hpair, List.filterMap_cons_some hcall, List.filterMap_nil, edgeOf?_concat]
      · have hcall : Change.import? a b (.addImport source target line reference) = none := if_neg hpair
        rw [if_neg hpair, List.filterMap_cons_none hcall, List.filterMap_nil, List.append_nil]

theorem mem_pairs_iff {g : ImportGraph} : (a, b) ∈ g.pairs ↔ (g.edge? a b).isSome = true := by
  rw [edge?, List.find?_isSome, pairs, List.mem_map]
  simp only [Edge.joins_iff]

theorem mem_pairs_grow {g : ImportGraph} (c : Change) {p : String × String} :
    p ∈ (g.grow c).pairs ↔ p ∈ g.pairs ∨ c.pair? = some p := by
  cases c with
  | addFile file => simp [grow, Change.pair?, pairs, addFile]
  | addImport source target line reference => simp [grow, pairs_addImport, mem_addNew, Change.pair?, eq_comm]

theorem mem_pairs_grown {p : String × String} : p ∈ (grown changes).pairs ↔ p ∈ changes.filterMap Change.pair? := by
  induction changes using List.reverseRecOn with
  | nil => rfl
  | append_singleton changes c ih =>
    rw [grown_concat, mem_pairs_grow, ih, List.filterMap_append, List.mem_append]
    simp

theorem mem_filterMap_pair? : (a, b) ∈ changes.filterMap Change.pair? ↔
    ∃ line reference, .addImport a b line reference ∈ changes := by
  rw [List.mem_filterMap]
  constructor
  · rintro ⟨c, hc, hpair⟩
    cases c with
    | addFile file => cases hpair
    | addImport source target line reference =>
      obtain ⟨rfl, rfl⟩ := Prod.mk.inj (Option.some.inj hpair)
      exact ⟨line, reference, hc⟩
  · rintro ⟨line, reference, hc⟩
    exact ⟨_, hc, rfl⟩

/-- In a proper graph an edge is the one between its files. -/
theorem Proper.edge?_of_mem {g : ImportGraph} (h : g.Proper) {e : Edge} (he : e ∈ g.edges) :
    g.edge? e.source e.target = some e := by
  have hsome : (g.edge? e.source e.target).isSome = true :=
    mem_pairs_iff.mp (List.mem_map_of_mem (f := fun e : Edge => (e.source, e.target)) he)
  obtain ⟨e', he'⟩ := Option.isSome_iff_exists.mp hsome
  rw [he', List.inj_on_of_nodup_map h.pairs (List.mem_of_find?_eq_some he') he (joins_of_edge? he')]

/-- What the edge for imports remembers. -/
theorem of_edgeOf?_eq_some {imports : List (Nat × String)} {e : Edge} (h : edgeOf? a b imports = some e) :
    e.lines = imports.map (·.1) ∧ e.modules = (imports.map (·.2)).eraseDups := by
  cases imports with
  | nil => cases h
  | cons i imports =>
    obtain rfl := Option.some.inj h
    exact ⟨rfl, rfl⟩

end Run

/-! ## Neighbours -/

section Neighbours

variable {g : ImportGraph} {a b : String}

theorem mem_importers_iff : a ∈ g.importers b ↔ (a, b) ∈ g.pairs := by
  rw [importers, (sortTexts_perm _).mem_iff, pairs]
  simp only [List.mem_map, List.mem_filter, beq_iff_eq, Prod.mk.injEq]
  exact exists_congr fun e => by tauto

theorem mem_dependencies_iff : b ∈ g.dependencies a ↔ (a, b) ∈ g.pairs := by
  rw [dependencies, (sortTexts_perm _).mem_iff, pairs]
  simp only [List.mem_map, List.mem_filter, beq_iff_eq, Prod.mk.injEq]
  exact exists_congr fun e => by tauto

/-- Sorted texts without repetition are strictly increasing. -/
theorem pairwise_lt_sortTexts {l : List String} (h : l.Nodup) : (sortTexts l).Pairwise (· < ·) := by
  have hne : (sortTexts l).Pairwise (· ≠ ·) := (sortTexts_perm l).nodup_iff.mpr h
  exact ((pairwise_sortTexts l).and hne).imp fun h => lt_of_le_of_ne h.1 h.2

/-- The edges that agree on one end differ on the other. -/
theorem Proper.nodup_ends (h : g.Proper) {p : Edge → Bool} {f : Edge → String}
    (hf : ∀ e e', p e = true → p e' = true → f e = f e' → (e.source, e.target) = (e'.source, e'.target)) :
    ((g.edges.filter p).map f).Nodup := by
  have hpairs : ((g.edges.filter p).map fun e => (e.source, e.target)).Nodup :=
    h.pairs.sublist (List.filter_sublist.map _)
  refine List.Nodup.map_on (fun e he e' he' heq => ?_) hpairs.of_map
  exact List.inj_on_of_nodup_map hpairs he he'
    (hf e e' (List.mem_filter.mp he).2 (List.mem_filter.mp he').2 heq)

theorem Proper.pairwise_importers (h : g.Proper) (file : String) : (g.importers file).Pairwise (· < ·) := by
  refine pairwise_lt_sortTexts (h.nodup_ends fun e e' he he' heq => ?_)
  rw [beq_iff_eq] at he he'
  rw [heq, he, he']

theorem Proper.pairwise_dependencies (h : g.Proper) (file : String) : (g.dependencies file).Pairwise (· < ·) := by
  refine pairwise_lt_sortTexts (h.nodup_ends fun e e' he he' heq => ?_)
  rw [beq_iff_eq] at he he'
  rw [heq, he, he']

/-- The length of a list without repetition is the number of different items of any list with the same items. -/
theorem length_eq_card {α : Type} [DecidableEq α] {l l' : List α} (h : l.Nodup) (hmem : ∀ x, x ∈ l ↔ x ∈ l') :
    l.length = l'.toFinset.card := by
  rw [← List.toFinset_card_of_nodup h]
  congr 1
  ext x
  simp [hmem]

end Neighbours

/-! ## What a graph tells -/

/-- The number of different files that calls mention. -/
def fileCount (changes : List Change) : Nat :=
  (changes.flatMap Change.files).toFinset.card

/-- The number of different pairs of files that the imports of calls join. -/
def pairCount (changes : List Change) : Nat :=
  (changes.filterMap Change.pair?).toFinset.card

/-- What a graph, and its figures with paths written in some way, tell of the calls that made it. -/
structure Tells (changes : List Change) (written : String → String) (g : ImportGraph) : Prop where
  /-- The files are those that the calls mention, each of them once. -/
  files : g.files.Nodup ∧ ∀ f, f ∈ g.files ↔ ∃ c ∈ changes, f ∈ c.files
  /-- There is an edge between two files exactly when some call added an import between them, and only one. -/
  edges : g.pairs.Nodup ∧ ∀ a b, (a, b) ∈ g.pairs ↔ ∃ line reference, .addImport a b line reference ∈ changes
  /-- An edge has the lines of those calls, in their order. -/
  lines : ∀ e ∈ g.edges, e.lines = (importsBetween changes e.source e.target).map (·.1)
  /-- An edge has the different references of those calls, in the order of their first use. -/
  modules : ∀ e ∈ g.edges, e.modules = ((importsBetween changes e.source e.target).map (·.2)).eraseDups
  importers : ∀ f, (g.importers f).Pairwise (· < ·) ∧ ∀ a, a ∈ g.importers f ↔ (a, f) ∈ g.pairs
  dependencies : ∀ f, (g.dependencies f).Pairwise (· < ·) ∧ ∀ b, b ∈ g.dependencies f ↔ (f, b) ∈ g.pairs
  /-- To import and to be imported are converse to each other. -/
  converse : ∀ a b, a ∈ g.importers b ↔ b ∈ g.dependencies a
  fileCount : (g.statistics written).files = fileCount changes
  edgeCount : (g.statistics written).edges = pairCount changes
  /-- The density is the number of edges by that of the ordered pairs of different files, and is written as such. -/
  density : 1 < ImportGraph.fileCount changes →
    let possible := ImportGraph.fileCount changes * (ImportGraph.fileCount changes - 1)
    (g.statistics written).density? = some (pairCount changes, possible) ∧
      (g.statistics written).densityValue =
        if pairCount changes = 0 then .int 0 else .float (Float.ofNat (pairCount changes) / Float.ofNat possible)

/-- **A graph tells of its calls.** -/
theorem grown_tells (changes : List Change) (written : String → String) : Tells changes written (grown changes) := by
  have hproper := proper_grown changes
  have hfiles : (grown changes).files.length = fileCount changes := length_eq_card hproper.files fun _ => mem_files_grown
  have hpairs : (grown changes).edges.length = pairCount changes := by
    rw [pairCount, ← length_eq_card hproper.pairs fun _ => mem_pairs_grown, pairs, List.length_map]
  have hedge {e : Edge} (he : e ∈ (grown changes).edges) :
      edgeOf? e.source e.target (importsBetween changes e.source e.target) = some e := by
    rw [← edge?_grown, hproper.edge?_of_mem he]
  constructor
  · exact ⟨hproper.files, fun f => mem_files_grown.trans List.mem_flatMap⟩
  · exact ⟨hproper.pairs, fun a b => mem_pairs_grown.trans mem_filterMap_pair?⟩
  · exact fun e he => (of_edgeOf?_eq_some (hedge he)).1
  · exact fun e he => (of_edgeOf?_eq_some (hedge he)).2
  · exact fun f => ⟨hproper.pairwise_importers f, fun a => mem_importers_iff⟩
  · exact fun f => ⟨hproper.pairwise_dependencies f, fun b => mem_dependencies_iff⟩
  · exact fun a b => mem_importers_iff.trans mem_dependencies_iff.symm
  · exact hfiles
  · exact hpairs
  · intro hmore possible
    have hdensity : ((grown changes).statistics written).density? = some (pairCount changes, possible) := by
      rw [Statistics.density?, statistics]
      simp only [hfiles, hpairs]
      rw [if_neg (by omega)]
    refine ⟨hdensity, ?_⟩
    rw [Statistics.densityValue, hdensity]
    simp only [beq_iff_eq]

end ImportGraph

end ExportAudit
