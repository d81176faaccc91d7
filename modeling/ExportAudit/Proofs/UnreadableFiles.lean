import Mathlib
import ExportAudit.Project
import ExportAudit.Proofs.RouteListing

/-!
# Files that cannot be read

The facts of a project are those of its files that can be read, in their order, and the errors are those of the others
(`gathered`): one more file adds its facts or its error (`addFile_gathered`), and so a run over all files adds those of
all, unless one of them has no path (`foldlM_addFile`).

Routes are the exception: they follow from the paths of the files, so a page that cannot be read has its route all the
same. `ofFiles_isolates` says what becomes of a file that cannot be read, and `unreadable_page_has_route` is such a page.
-/

namespace ExportAudit

variable {d : Disk} {root file : String} {files : List String}

/-! ## Facts -/

def isReadable (d : Disk) (file : String) : Bool :=
  (readFacts d file).isOk

/-- The error of a file that cannot be read. -/
def readingError? (d : Disk) (root file : String) : Option String :=
  match readFacts d file with
  | .ok _ => none
  | .error e => some ("Parse Error: " ++ shownPath d root file ++ " - " ++ e.message)

/-- The facts of the files that can be read and the errors of those that cannot, each in the order of the files. -/
def gathered (d : Disk) (root : String) (files : List String) : ProjectFacts :=
  let facts := files.filterMap fun file => (readFacts d file).toOption
  { exports := facts.flatMap (·.exports)
    imports := facts.flatMap (·.imports)
    interfaces := facts.flatMap (·.interfaces)
    typeReferences := facts.flatMap (·.typeReferences)
    usages := facts.flatMap (·.usages)
    actions := facts.flatMap (·.actions)
    hooks := facts.flatMap (·.hooks)
    errors := files.filterMap (readingError? d root)
    fileCount := files.countP (isReadable d) }

theorem readingError?_eq_none_iff : readingError? d root file = none ↔ isReadable d file = true := by
  unfold readingError? isReadable
  cases readFacts d file with
  | ok facts => simp [Except.isOk, Except.toBool]
  | error e => simp [Except.isOk, Except.toBool]

/-- One more file adds its facts or its error, unless it has no path. -/
theorem addFile_gathered (d : Disk) (root : String) (files : List String) (file : String) :
    (gathered d root files).addFile d root file =
      if file = "" then .error .empty else .ok (gathered d root (files ++ [file])) := by
  unfold ProjectFacts.addFile
  by_cases hempty : file = ""
  · rw [if_pos (by simp [hempty]), if_pos hempty]
  · rw [if_neg (by simpa using hempty), if_neg hempty]
    unfold gathered isReadable readingError?
    cases h : readFacts d file with
    | ok facts => simp [h, ProjectFacts.add, Except.toOption, Except.isOk, Except.toBool]
    | error e => simp [h, Except.toOption, Except.isOk, Except.toBool]

theorem foldlM_addFile (d : Disk) (root : String) (files : List String) :
    files.foldlM (ProjectFacts.addFile d root) {} =
      if "" ∈ files then .error .empty else .ok (gathered d root files) := by
  induction files using List.reverseRecOn with
  | nil => rfl
  | append_singleton files file ih =>
    rw [List.foldlM_append, ih]
    by_cases hmem : "" ∈ files
    · rw [if_pos hmem, if_pos (List.mem_append_left _ hmem)]
      rfl
    · have hlast : "" ∈ files ++ [file] ↔ file = "" := by simp [hmem, eq_comm]
      have hstep : (pure (gathered d root files) >>= fun p => [file].foldlM (ProjectFacts.addFile d root) p) =
          (gathered d root files).addFile d root file := by simp
      rw [if_neg hmem]
      refine hstep.trans ?_
      rw [addFile_gathered]
      simp only [hlast]

theorem ofFiles_eq (d : Disk) (root : String) (files : List String) : ProjectFacts.ofFiles d root files =
    if "" ∈ files then .error .empty
    else .ok { gathered d root files with routes := deriveRoutes d files root (exportsIn d) } := by
  rw [ProjectFacts.ofFiles, foldlM_addFile]
  split
  · rfl
  · rfl

theorem of_ofFiles_eq_ok {facts : ProjectFacts} (h : ProjectFacts.ofFiles d root files = .ok facts) :
    "" ∉ files ∧ facts = { gathered d root files with routes := deriveRoutes d files root (exportsIn d) } := by
  rw [ofFiles_eq] at h
  split at h
  · cases h
  · rename_i hnone
    exact ⟨hnone, (Except.ok.inj h).symm⟩

/-- A file that cannot be read adds nothing but its error. -/
theorem gathered_of_unreadable {before after : List String} (h : isReadable d file = false) :
    { gathered d root (before ++ file :: after) with errors := (gathered d root (before ++ after)).errors } =
      gathered d root (before ++ after) := by
  have hnone : (readFacts d file).toOption = none := by
    unfold isReadable at h
    cases hread : readFacts d file with
    | ok facts => simp [hread, Except.isOk, Except.toBool] at h
    | error e => rfl
  unfold gathered
  simp [hnone, h]

/-! ## Routes -/

/-- A file that makes a route, whatever it exports. -/
def StandsForRoute (d : Disk) (root file : String) : Prop :=
  deriveRoutes d [file] root (fun _ => []) ≠ []

section Routes

variable {app cwd : String} {exportsOf : String → List Export}

/-- Whether a file makes a route does not depend on what it exports. -/
theorem routeOf?_eq_none_iff (exportsOf exportsOf' : String → List Export) :
    routeOf? cwd app exportsOf file = none ↔ routeOf? cwd app exportsOf' file = none := by
  unfold routeOf?
  by_cases hbelow : Text.startsWith file (app ++ "/") = true
  · rw [if_pos hbelow, if_pos hbelow]
    simp
  · rw [if_neg hbelow, if_neg hbelow]

theorem standsForRoute_iff (happ : findAppDirectory? d root = some app) (exportsOf : String → List Export) :
    StandsForRoute d root file ↔ ∃ r, routeOf? d.cwd app exportsOf file = some r := by
  rw [← Option.ne_none_iff_exists', ne_eq, routeOf?_eq_none_iff exportsOf fun _ => [], StandsForRoute, deriveRoutes, happ]
  cases hroute : routeOf? d.cwd app (fun _ => []) file with
  | none => simp [hroute]
  | some r => simp [hroute]

theorem length_deriveRoutes (happ : findAppDirectory? d root = some app) :
    (deriveRoutes d files root exportsOf).length = (files.filterMap (routeOf? d.cwd app exportsOf)).length := by
  rw [deriveRoutes, happ]
  exact List.length_mergeSort _

/-- The routes of a list of files without one of them are the same exactly if that one makes no route. -/
theorem deriveRoutes_removed_iff (before after : List String) :
    deriveRoutes d (before ++ file :: after) root exportsOf = deriveRoutes d (before ++ after) root exportsOf ↔
      ¬ StandsForRoute d root file := by
  cases happ : findAppDirectory? d root with
  | none => simp [StandsForRoute, deriveRoutes, happ]
  | some app =>
    rw [standsForRoute_iff happ exportsOf]
    constructor
    · rintro heq ⟨r, hr⟩
      have hlength := congrArg List.length heq
      rw [length_deriveRoutes happ, length_deriveRoutes happ] at hlength
      simp [hr] at hlength
    · intro hnone
      have hroute : routeOf? d.cwd app exportsOf file = none := by
        simpa [Option.eq_none_iff_forall_ne_some] using hnone
      rw [deriveRoutes, deriveRoutes, happ]
      simp [hroute]

/-- The routes of some of the files are those of all exactly if the others make none. -/
theorem deriveRoutes_filter_iff (keep : String → Bool) :
    deriveRoutes d files root exportsOf = deriveRoutes d (files.filter keep) root exportsOf ↔
      ∀ file ∈ files, keep file = false → ¬ StandsForRoute d root file := by
  cases happ : findAppDirectory? d root with
  | none => simp [StandsForRoute, deriveRoutes, happ]
  | some app =>
    constructor
    · intro heq file hfile hkeep hstands
      obtain ⟨r, hr⟩ := (standsForRoute_iff happ exportsOf).mp hstands
      have hmem : r ∈ deriveRoutes d (files.filter keep) root exportsOf :=
        heq ▸ (mem_deriveRoutes happ).mpr ⟨file, hfile, hr⟩
      -- a route names the file that makes it, so this file would be among those kept
      obtain ⟨other, hother, hr'⟩ := (mem_deriveRoutes happ).mp hmem
      rw [← file_of_routeOf? hr', file_of_routeOf? hr] at hother
      rw [(List.mem_filter.mp hother).2] at hkeep
      cases hkeep
    · intro hnone
      have hroutes : (files.filter keep).filterMap (routeOf? d.cwd app exportsOf) =
          files.filterMap (routeOf? d.cwd app exportsOf) := by
        rw [List.filterMap_filter]
        refine List.filterMap_congr fun file hfile => ?_
        cases hkeep : keep file with
        | true => rfl
        | false =>
          have := hnone file hfile hkeep
          rw [standsForRoute_iff happ exportsOf] at this
          simpa [eq_comm, Option.eq_none_iff_forall_ne_some] using this
      rw [deriveRoutes, deriveRoutes, happ]
      simp only [hroutes]

end Routes

/-! ## Removing a file -/

/-- **What becomes of files that cannot be read.** Unless a file has no path, the facts of every kind are those of the
files that can be read, in order, and each of the others has its error. The routes are those of the files that can be read
exactly if none of the others makes a route, and taking such a file from the list changes nothing but its error exactly if
it makes none. -/
theorem ofFiles_isolates (d : Disk) (root : String) (files : List String) :
    (ProjectFacts.ofFiles d root files =
        if "" ∈ files then .error .empty
        else .ok { gathered d root files with routes := deriveRoutes d files root (exportsIn d) }) ∧
      (∀ file, readingError? d root file = none ↔ isReadable d file = true) ∧
      (∀ facts, ProjectFacts.ofFiles d root files = .ok facts →
        (facts.routes = deriveRoutes d (files.filter (isReadable d)) root (exportsIn d) ↔
          ∀ file ∈ files, isReadable d file = false → ¬ StandsForRoute d root file)) ∧
      ∀ before file after facts, files = before ++ file :: after → isReadable d file = false →
        ProjectFacts.ofFiles d root files = .ok facts → ∃ rest, ProjectFacts.ofFiles d root (before ++ after) = .ok rest ∧
          ({ facts with errors := rest.errors } = rest ↔ ¬ StandsForRoute d root file) := by
  refine ⟨ofFiles_eq d root files, fun file => readingError?_eq_none_iff, fun facts hfacts => ?_, ?_⟩
  · rw [(of_ofFiles_eq_ok hfacts).2]
    exact deriveRoutes_filter_iff (isReadable d)
  · rintro before file after facts rfl hunreadable hfacts
    obtain ⟨hnone, rfl⟩ := of_ofFiles_eq_ok hfacts
    have hnone' : "" ∉ before ++ after := fun hmem => hnone (by
      rcases List.mem_append.mp hmem with hmem | hmem
      · exact List.mem_append_left _ hmem
      · exact List.mem_append_right _ (List.mem_cons_of_mem _ hmem))
    rw [ofFiles_eq, if_neg hnone']
    refine ⟨_, rfl, ?_⟩
    rw [← deriveRoutes_removed_iff before after]
    constructor
    · intro heq
      exact congrArg ProjectFacts.routes heq
    · intro hroutes
      rw [hroutes]
      exact congrArg (fun p => { p with routes := deriveRoutes d (before ++ after) root (exportsIn d) })
        (gathered_of_unreadable hunreadable)

/-- A project with a directory of routes, and one file. -/
def sparseDisk : Disk :=
  ⟨.directory [("proj", .directory [("app", .directory []), ("lib.ts", .file "export const a = 1".toUTF8 0)])], "/"⟩

theorem sparseDisk_app : findAppDirectory? sparseDisk "/proj" = some "/proj/app" := by decide +kernel

theorem ofFiles_isolates_gone :
    isReadable sparseDisk "/proj/gone.ts" = false ∧ ¬ StandsForRoute sparseDisk "/proj" "/proj/gone.ts" ∧
      ∃ facts rest, ProjectFacts.ofFiles sparseDisk "/proj" (["/proj/lib.ts"] ++ "/proj/gone.ts" :: []) = .ok facts ∧
        ProjectFacts.ofFiles sparseDisk "/proj" (["/proj/lib.ts"] ++ []) = .ok rest ∧
        { facts with errors := rest.errors } = rest := by
  have hunreadable : isReadable sparseDisk "/proj/gone.ts" = false := by decide +kernel
  have hroute : ¬ StandsForRoute sparseDisk "/proj" "/proj/gone.ts" := by
    rw [standsForRoute_iff sparseDisk_app fun _ => []]
    have hnone : routeOf? sparseDisk.cwd "/proj/app" (fun _ => []) "/proj/gone.ts" = none := by decide +kernel
    simp [hnone]
  have hfacts := (ofFiles_isolates sparseDisk "/proj" (["/proj/lib.ts"] ++ "/proj/gone.ts" :: [])).1
  rw [if_neg (by decide)] at hfacts
  obtain ⟨rest, hrest, hsame⟩ :=
    (ofFiles_isolates sparseDisk "/proj" _).2.2.2 ["/proj/lib.ts"] _ [] _ rfl hunreadable hfacts
  exact ⟨hunreadable, hroute, _, rest, hfacts, hrest, hsame.mpr hroute⟩

/-- A page that cannot be read has its route all the same. -/
theorem unreadable_page_has_route : ¬ ∀ (d : Disk) (root : String) (files : List String) (facts : ProjectFacts),
    ProjectFacts.ofFiles d root files = .ok facts →
      facts.routes = deriveRoutes d (files.filter (isReadable d)) root (exportsIn d) := by
  intro h
  have hfacts := ofFiles_eq sparseDisk "/proj" ["/proj/app/page.tsx"]
  rw [if_neg (by decide)] at hfacts
  have hroutes := h sparseDisk "/proj" ["/proj/app/page.tsx"] _ hfacts
  dsimp only at hroutes
  rw [deriveRoutes_filter_iff] at hroutes
  refine hroutes "/proj/app/page.tsx" List.mem_cons_self (by decide +kernel) ?_
  rw [standsForRoute_iff sparseDisk_app fun _ => [], ← Option.isSome_iff_exists]
  decide +kernel

end ExportAudit
