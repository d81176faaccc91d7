import Mathlib
import ExportAudit.Http
import ExportAudit.Proofs.Dependents
import ExportAudit.Proofs.ExportedFunctions
import ExportAudit.Proofs.ImportedFiles
import ExportAudit.Proofs.UnlinkedPlaces
import ExportAudit.Proofs.UnreadableFiles
import ExportAudit.Proofs.VendorCode

/-!
# Answers about the import graph

The files of an import graph are canonical paths, and answers about them are written from the root of the project. A
request joins such a path to the root and makes it canonical again. That gives the file back (`real_join_display`), since
no file of the graph lies behind a circular link: the files of facts do not (`ProjectFacts.Settled`), and what an import
leads to is a file (`settled_of_destination`).

So the answers of a server refer to each other: `GraphClosed` says how, and `graphFile_closed` that they do.
-/

namespace ExportAudit

variable {d : Disk} {root : String} {rules : List Rule} {facts : ProjectFacts} {resolver : Resolver}
  {result : AnalysisResult}

/-! ## Files of facts -/

/-- No file of an export or import lies behind a circular link. -/
structure ProjectFacts.Settled (d : Disk) (facts : ProjectFacts) : Prop where
  exports : ∀ e ∈ facts.exports, d.Settled e.file
  imports : ∀ i ∈ facts.imports, d.Settled i.file

theorem settled_of_isFile {path : String} (h : d.isFile path = true) : d.Settled path := by
  unfold Disk.isFile at h
  split at h
  · rename_i hresolve
    exact Disk.settled_of_resolve hresolve
  · cases h

theorem settled_of_isDirectory {path : String} (h : d.isDirectory path = true) : d.Settled path := by
  unfold Disk.isDirectory at h
  split at h
  · rename_i hresolve
    exact Disk.settled_of_resolve hresolve
  · cases h

/-- A file that can be read leads somewhere. -/
theorem settled_of_readFacts {file : String} {own : FileFacts} (h : (readFacts d file).toOption = some own) :
    d.Settled file ∧ ∃ bytes, own = .ofBytes file bytes := by
  unfold readFacts at h
  split at h
  · cases h
  · cases hread : d.read file with
    | error e => simp [hread, Except.toOption] at h
    | ok bytes =>
      refine ⟨?_, bytes, by simpa [hread, Except.toOption, eq_comm] using h⟩
      unfold Disk.read at hread
      split at hread
      · rename_i hresolve
        exact Disk.settled_of_resolve hresolve
      · cases hread
      · cases hread

theorem settled_of_mem_gathered {files : List String} {own : FileFacts}
    (h : own ∈ files.filterMap fun file => (readFacts d file).toOption) :
    ∃ file bytes, d.Settled file ∧ own = .ofBytes file bytes := by
  obtain ⟨file, -, hread⟩ := List.mem_filterMap.mp h
  obtain ⟨hsettled, bytes, rfl⟩ := settled_of_readFacts hread
  exact ⟨file, bytes, hsettled, rfl⟩

/-- The facts that are read from files are of files that lead somewhere. -/
theorem settled_of_ofFiles {files : List String} (h : ProjectFacts.ofFiles d root files = .ok facts) :
    facts.Settled d := by
  obtain ⟨-, rfl⟩ := of_ofFiles_eq_ok h
  constructor
  · intro e he
    obtain ⟨own, hown, he⟩ := List.mem_flatMap.mp he
    obtain ⟨file, bytes, hsettled, rfl⟩ := settled_of_mem_gathered hown
    rwa [file_of_mem_exports he]
  · intro i hi
    obtain ⟨own, hown, hi⟩ := List.mem_flatMap.mp hi
    obtain ⟨file, bytes, hsettled, rfl⟩ := settled_of_mem_gathered hown
    rwa [file_of_mem_imports hi]

/-! ## Files of the graph -/

/-- What an import leads to is the canonical path of a file. -/
theorem settled_of_destination {i : Import} {target : String} (h : i.destination d resolver = .file target) :
    ∃ path, d.Settled path ∧ target = d.real path := by
  rw [Import.destination_eq] at h
  obtain ⟨strategy, verdict, hresolves⟩ := exists_resolves d (resolver.table d) i.reference (d.real i.file)
  obtain ⟨destination, hanswer, rfl⟩ := hresolves.answered
  obtain rfl : destination = .file target := (congrArg Resolution.destination hanswer).symm.trans h
  obtain ⟨x, hfound, -, -, hreal⟩ := hresolves.exists_found
  refine ⟨x.path, settled_of_isFile ?_, hreal⟩
  cases hfound with
  | relative hrelative hx => exact hx.1
  | aliased hrelative hc hm htargets hbefore hx =>
    obtain ⟨filled, -, hfirst, -⟩ := hx
    exact hfirst.1

theorem graph_result (h : (analyze d root rules facts resolver).1 = .ok result) :
    result.graph = (boundImports d root facts resolver).graph := by
  obtain ⟨t, n, -, rfl⟩ := exists_of_analyze_eq_ok_bound h
  rfl

theorem exists_settled_of_mem_files (hfacts : facts.Settled d) (h : (analyze d root rules facts resolver).1 = .ok result)
    {file : String} (hfile : file ∈ result.graph.files) : ∃ path, d.Settled path ∧ file = d.real path := by
  rw [graph_result h, mem_files_bound] at hfile
  rcases hfile with ⟨e, he, rfl⟩ | ⟨i, hi, rfl | hdestination⟩
  · obtain ⟨before, fact, after, hexports, rfl, -⟩ := exists_of_mem_indexExports he
    exact ⟨fact.file, hfacts.exports fact (by simp [hexports]), rfl⟩
  · exact ⟨i.file, hfacts.imports i hi, rfl⟩
  · exact settled_of_destination hdestination

theorem mem_files_of_mem_pairs (h : (analyze d root rules facts resolver).1 = .ok result) {a b : String}
    (hpair : (a, b) ∈ result.graph.pairs) : a ∈ result.graph.files ∧ b ∈ result.graph.files := by
  rw [graph_result h] at hpair ⊢
  obtain ⟨i, hi, ha, hb⟩ := mem_pairs_bound.mp hpair
  exact ⟨mem_files_bound.mpr (Or.inr ⟨i, hi, Or.inl ha⟩), mem_files_bound.mpr (Or.inr ⟨i, hi, Or.inr hb⟩)⟩

/-- The neighbours of a file are files of the graph. -/
theorem mem_files_of_neighbour (h : (analyze d root rules facts resolver).1 = .ok result) {a b : String}
    (hb : b ∈ result.graph.importers a ++ result.graph.dependencies a ++ result.graph.dependents a) :
    b ∈ result.graph.files := by
  rcases List.mem_append.mp hb with hb | hb
  · rcases List.mem_append.mp hb with hb | hb
    · exact (mem_files_of_mem_pairs h (ImportGraph.mem_importers_iff.mp hb)).1
    · exact (mem_files_of_mem_pairs h (ImportGraph.mem_dependencies_iff.mp hb)).2
  · obtain ⟨-, hleads⟩ := ImportGraph.mem_dependents_iff.mp hb
    obtain ⟨c, hpair, -⟩ := Relation.TransGen.head'_iff.mp hleads
    exact (mem_files_of_mem_pairs h hpair).1

/-! ## Paths from the root -/

namespace Path

variable {parts : List String} {c : Char} {s p start cwd : String}

theorem mem_join_of_mem (hs : s ∈ parts) (hc : c ∈ s.toList) : c ∈ (Text.join "/" parts).toList := by
  rw [Text.join, String.toList_ofList]
  induction parts with
  | nil => cases hs
  | cons first rest ih =>
    cases rest with
    | nil => simpa [List.mem_singleton.mp hs] using hc
    | cons next rest =>
      rw [List.map_cons, List.map_cons, List.intercalate_cons_cons]
      rcases List.mem_cons.mp hs with rfl | hs
      · exact List.mem_append_left _ (List.mem_append_left _ hc)
      · exact List.mem_append_right _ (ih hs)

/-- The way to a path holds no characters but those of the path, dots and slashes. -/
theorem not_mem_relativeTo (hparts : ∀ s ∈ parts, Plain s) (hc : c ∉ ("/" ++ Text.join "/" parts).toList)
    (hdot : c ≠ '.') : c ∉ (relativeTo cwd start ("/" ++ Text.join "/" parts)).toList := by
  rw [toList_rooted, List.mem_cons, not_or] at hc
  obtain ⟨⟨up, down⟩, hway⟩ : ∃ way, dropCommon (steps cwd start) (steps cwd ("/" ++ Text.join "/" parts)) = way :=
    ⟨_, rfl⟩
  obtain ⟨common, -, hsteps⟩ := exists_common (steps cwd start) (steps cwd ("/" ++ Text.join "/" parts))
  rw [hway, steps_rooted cwd hparts] at hsteps
  rw [relativeTo_eq hway]
  split
  · simp [hdot]
  · intro hmem
    rw [Text.join, String.toList_ofList] at hmem
    rcases mem_intercalate hmem with rfl | ⟨part, hpart, hcpart⟩
    · exact hc.1 rfl
    · obtain ⟨s, hs, rfl⟩ := List.mem_map.mp hpart
      rcases List.mem_append.mp hs with hs | hs
      · rw [List.eq_of_mem_replicate hs] at hcpart
        simp [hdot] at hcpart
      · have hjoin := mem_join_of_mem (hsteps ▸ List.mem_append_right common hs) hcpart
        rw [Text.join, String.toList_ofList] at hjoin
        exact hc.2 hjoin

theorem replaceChar_of_not_mem {new : Char} (h : c ∉ s.toList) : Text.replaceChar c new s = s := by
  rw [Text.replaceChar, List.map_congr_left (g := id), List.map_id, String.ofList_toList]
  intro a ha
  rw [if_neg]
  · rfl
  · rw [beq_iff_eq]
    rintro rfl
    exact h ha

end Path

/-- A canonical path without backslashes is found again by the path that is shown for it. -/
theorem real_join_display (hroot : d.Settled root) {path : String} (hpath : d.Settled path)
    (hslash : '\\' ∉ (d.real path).toList) :
    d.real (Path.join (d.real root) (Path.display d.cwd (d.real root) (d.real path))) = d.real path := by
  obtain ⟨place, hplace, hreal⟩ := hpath.exists_unlinked
  have habsolute : Path.isAbsolute (d.real path) = true := hreal ▸ Path.isAbsolute_slash_append _
  have hway : '\\' ∉ (Path.relativeTo d.cwd (d.real root) (d.real path)).toList := by
    rw [hreal] at hslash ⊢
    exact Path.not_mem_relativeTo hplace.plain hslash (by decide)
  rw [Path.display, if_pos habsolute, Path.replaceChar_of_not_mem hway, hroot.real_join_relativeTo hpath]

namespace Http

/-! ## Answers -/

/-- The request for the neighbours of a file. -/
def graphRequest (path : String) : Request :=
  { method := "GET", path := "/graph/file", query := [("path", path)] }

/-- The neighbours of a file of the graph, with paths from the root. -/
def viewOf (d : Disk) (r : AnalysisResult) (file : String) : FileView where
  file := Path.display d.cwd r.root file
  importers := (r.graph.importers file).map (Path.display d.cwd r.root)
  dependencies := (r.graph.dependencies file).map (Path.display d.cwd r.root)
  dependents := (r.graph.dependents file).map (Path.display d.cwd r.root)

/-- The answers about the files of a graph refer to each other. -/
structure GraphClosed (d : Disk) (r : AnalysisResult) : Prop where
  /-- The path of a file from the root means this file and no other. -/
  named : ∀ file ∈ r.graph.files, d.real (Path.join r.root (Path.display d.cwd r.root file)) = file
  /-- A server with this result answers for the file that is meant. -/
  answered : ∀ (s : Server) (w : World), s.session.lastResult = some r → w.disk = d → ∀ file ∈ r.graph.files,
    s.respond w (graphRequest (Path.display d.cwd r.root file)) = (s, d, ok (viewOf d r file).record)
  /-- What the answer lists are files of the graph, so their paths are accepted and mean them. -/
  listed : ∀ file ∈ r.graph.files,
    ∀ other ∈ r.graph.importers file ++ r.graph.dependencies file ++ r.graph.dependents file, other ∈ r.graph.files
  /-- One file lists another as a dependency exactly if it is listed by it as an importer. -/
  mirrored : ∀ a ∈ r.graph.files, ∀ b ∈ r.graph.files,
    Path.display d.cwd r.root b ∈ (viewOf d r a).dependencies ↔ Path.display d.cwd r.root a ∈ (viewOf d r b).importers

theorem fileView?_eq {file : String} (hfile : file ∈ result.graph.files)
    (hnamed : d.real (Path.join result.root (Path.display d.cwd result.root file)) = file) :
    fileView? d (Path.display d.cwd result.root file) result = some (viewOf d result file) := by
  unfold fileView?
  simp only [hnamed]
  rw [if_pos (by simpa using hfile)]
  rfl

theorem respond_graphRequest {s : Server} {w : World} {path : String} {v : FileView}
    (hresult : s.session.lastResult = some result) (hview : fileView? w.disk path result = some v) :
    s.respond w (graphRequest path) = (s, w.disk, ok v.record) := by
  have hendpoint : Endpoint.ofPath? (graphRequest path).path = some .graphFile :=
    (by decide +kernel : Endpoint.ofPath? "/graph/file" = some .graphFile)
  have hmethod : ¬ ((graphRequest path).method != Endpoint.graphFile.method) = true :=
    (by decide : ¬ ("GET" != Endpoint.graphFile.method) = true)
  have hparameter : (graphRequest path).parameter? "path" = some path := by
    simp [graphRequest, Request.parameter?]
  have htell : s.tell w.disk (graphRequest path) .graphFile = ok v.record := by
    rw [Server.tell, hparameter]
    simp only [Server.withResult, hresult, graphFile, hview]
  rw [Server.respond, hendpoint]
  simp only [if_neg hmethod, htell]

/-- Paths that mean their files are different for different files. -/
theorem mem_map_display_iff {files : List String} {file : String}
    (hnamed : ∀ f ∈ result.graph.files, d.real (Path.join result.root (Path.display d.cwd result.root f)) = f)
    (hfile : file ∈ result.graph.files) (hfiles : ∀ f ∈ files, f ∈ result.graph.files) :
    Path.display d.cwd result.root file ∈ files.map (Path.display d.cwd result.root) ↔ file ∈ files := by
  constructor
  · intro h
    obtain ⟨other, hother, heq⟩ := List.mem_map.mp h
    have hsame : other = file := by rw [← hnamed other (hfiles other hother), heq, hnamed file hfile]
    exact hsame ▸ hother
  · exact List.mem_map_of_mem

/-- **The answers about the import graph are closed.** Facts that are read from a tree are not of files behind circular
links, and a directory is not behind one. An analysis of such facts, in a project that is not behind one either, gives a
graph whose answers refer to each other, if no file in it has a backslash in its path. -/
theorem graphFile_closed (d : Disk) (rules : List Rule) (resolver : Resolver) :
    (∀ base files facts, ProjectFacts.ofFiles d base files = .ok facts → facts.Settled d) ∧
      (∀ root, d.isDirectory root = true → d.Settled root) ∧
      ∀ root facts result, d.Settled root → facts.Settled d →
        (analyze d (d.real root) rules facts resolver).1 = .ok result →
        (∀ file ∈ result.graph.files, '\\' ∉ file.toList) → GraphClosed d result := by
  refine ⟨fun _ _ _ => settled_of_ofFiles, fun _ => settled_of_isDirectory, fun root facts result hroot hfacts hrun
    hslash => ?_⟩
  have hnamed : ∀ file ∈ result.graph.files,
      d.real (Path.join result.root (Path.display d.cwd result.root file)) = file := by
    intro file hfile
    obtain ⟨path, hpath, rfl⟩ := exists_settled_of_mem_files hfacts hrun hfile
    rw [root_result hrun]
    exact real_join_display hroot hpath (hslash _ hfile)
  have hlisted : ∀ file ∈ result.graph.files,
      ∀ other ∈ result.graph.importers file ++ result.graph.dependencies file ++ result.graph.dependents file,
        other ∈ result.graph.files := fun file _ other => mem_files_of_neighbour hrun
  refine ⟨hnamed, ?_, hlisted, fun a ha b hb => ?_⟩
  · rintro s w hresult rfl file hfile
    exact respond_graphRequest hresult (fileView?_eq hfile (hnamed file hfile))
  · have hdependencies : ∀ f ∈ result.graph.dependencies a, f ∈ result.graph.files :=
      fun f hf => hlisted a ha f (by simp [hf])
    have himporters : ∀ f ∈ result.graph.importers b, f ∈ result.graph.files :=
      fun f hf => hlisted b hb f (by simp [hf])
    rw [viewOf, viewOf, mem_map_display_iff hnamed hb hdependencies, mem_map_display_iff hnamed ha himporters,
      ImportGraph.mem_dependencies_iff, ImportGraph.mem_importers_iff]

/-- A project behind a link, and a module outside of it. -/
def linkedDisk : Disk :=
  ⟨.directory [("home", .directory [("site", .link "/srv/app")]),
    ("srv", .directory [("app", .directory [("main.ts", .file .empty 0)]),
      ("lib", .directory [("util.ts", .file .empty 0)])])], "/"⟩

/-- A module of the project imports the one outside. -/
def outsideImport : Import :=
  ⟨"/home/site/main.ts", "../lib/util", 1, [], [], none⟩

theorem graphFile_closed_linked : linkedDisk.isDirectory "/home/site" = true ∧ linkedDisk.Settled "/home/site" ∧
    ({ imports := [outsideImport] } : ProjectFacts).Settled linkedDisk ∧
    ∃ result, (analyze linkedDisk (linkedDisk.real "/home/site") [] { imports := [outsideImport] }
        (.ofRoot "/srv/app" {})).1 = .ok result ∧ "/srv/lib/util.ts" ∈ result.graph.files ∧
      (∀ file ∈ result.graph.files, '\\' ∉ file.toList) ∧ GraphClosed linkedDisk result := by
  obtain ⟨-, hdirectories, hclosed⟩ := graphFile_closed linkedDisk [] (.ofRoot "/srv/app" {})
  have hdirectory : linkedDisk.isDirectory "/home/site" = true := by decide +kernel
  have hroot := hdirectories "/home/site" hdirectory
  have hfacts : ({ imports := [outsideImport] } : ProjectFacts).Settled linkedDisk := by
    refine ⟨by simp, ?_⟩
    rw [List.forall_mem_singleton]
    decide +kernel
  obtain ⟨result, hrun⟩ := (exists_analyze_eq_ok_iff linkedDisk (linkedDisk.real "/home/site") []
    { imports := [outsideImport] } (.ofRoot "/srv/app" {})).mpr ⟨_, rfl⟩
  have himporter : linkedDisk.real outsideImport.file = "/srv/app/main.ts" := by decide +kernel
  have htarget : outsideImport.destination linkedDisk (.ofRoot "/srv/app" {}) = .file "/srv/lib/util.ts" := by
    decide +kernel
  have hfiles : ∀ file, file ∈ result.graph.files ↔ file = "/srv/app/main.ts" ∨ file = "/srv/lib/util.ts" := by
    intro file
    rw [graph_result hrun, mem_files_bound]
    simp [indexExports, firstByKey, himporter, htarget, eq_comm]
  have hslash : ∀ file ∈ result.graph.files, '\\' ∉ file.toList := by
    intro file hfile
    rcases (hfiles file).mp hfile with rfl | rfl <;> decide
  exact ⟨hdirectory, hroot, hfacts, result, hrun, (hfiles _).mpr (Or.inr rfl), hslash,
    hclosed "/home/site" _ result hroot hfacts hrun hslash⟩

end Http

end ExportAudit
