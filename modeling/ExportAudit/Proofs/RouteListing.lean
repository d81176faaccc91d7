import Mathlib
import ExportAudit.Route.Layout
import ExportAudit.Proofs.Partition
import ExportAudit.Proofs.RelativePaths

/-!
# The routes that files make

A page or route file below the directory where routes begin makes one route, whose path is spelled by the directories in
between that show (`MakesRoute`, `makesRoute_of_routeOf?`, `exists_routeOf?_iff`). The routes of a project are listed in
the order of their ranks (`Route.rank`), so the list depends on the set of files alone (`deriveRoutes_perm`).

`deriveRoutes_lists` puts this together, for a project whose root and files are given in normal form.
-/

namespace ExportAudit

open ExportAudit.Path

/-! ## What a route is -/

/-- The directory where the routes of a project begin: `app`, or else `src/app`. -/
def appDirectory (d : Disk) (root : String) : String :=
  if d.isDirectory (join root "app") then join root "app" else join root "src/app"

/-- A directory that shows in the paths of routes: no group in parentheses, no slot and no private directory. -/
structure Shows (name : String) : Prop where
  group : ¬ (name.toList.head? = some '(' ∧ name.toList.getLast? = some ')')
  slot : name.toList.head? ≠ some '@'
  hidden : name.toList.head? ≠ some '_'

instance (name : String) : Decidable (Shows name) :=
  decidable_of_iff (¬ (name.toList.head? = some '(' ∧ name.toList.getLast? = some ')') ∧
      name.toList.head? ≠ some '@' ∧ name.toList.head? ≠ some '_')
    ⟨fun h => ⟨h.1, h.2.1, h.2.2⟩, fun h => ⟨h.group, h.slot, h.hidden⟩⟩

/-- A file below a directory, with the directories in between and its name. -/
structure Below (directory file : String) (between : List String) (name : String) : Prop where
  plain : ∀ s ∈ between ++ [name], Plain s
  file_eq : file = descend directory (between ++ [name])

/-- A page or route file below the directory where routes begin. -/
def Routable (app file : String) : Prop :=
  ∃ between name, Below app file between name ∧ (name ∈ pageFiles ∨ name ∈ routeFiles)

/-- A route as a file below the directory where routes begin makes it. -/
structure MakesRoute (app : String) (exportsOf : String → List Export) (r : Route) (between : List String)
    (name : String) : Prop where
  below : Below app r.file between name
  kind : name ∈ pageFiles ∧ r.isApi = false ∨ name ∈ routeFiles ∧ r.isApi = true
  /-- The path is spelled by the directories that show, and can be taken apart again. -/
  path : r.path = "/" ++ Text.join "/" (between.filter Shows)
  bare : r.path = "/" ↔ between.filter Shows = []
  split : r.path ≠ "/" → segments r.path = "" :: between.filter Shows
  /-- A route file has the methods among its exports, if there are any. -/
  methods : r.methods.getD [] =
    if r.isApi then ((exportsOf r.file).filter fun e => !e.isDefault && httpMethods.contains e.name).map (·.name) else []
  no_empty_methods : r.methods ≠ some []
  unused : r.usedBy = []

/-- Where a route stands: by path, pages before handlers, then by file. -/
def Route.rank (r : Route) : String ×ₗ Bool ×ₗ String :=
  toLex (r.path, toLex (r.isApi, r.file))

/-- The routes of files: each file that makes a route stands for one, and they are in order. -/
structure ListsRoutes (app : String) (files : List String) (exportsOf : String → List Export) (routes : List Route) :
    Prop where
  made : ∀ r ∈ routes, ∃ between name, MakesRoute app exportsOf r between name
  files : ∀ file, file ∈ routes.map (·.file) ↔ file ∈ files ∧ Routable app file
  once : (routes.map (·.file)).Nodup
  sorted : routes.Pairwise fun a b => a.rank < b.rank

/-! ## The route of a file -/

section One

variable {cwd app file : String} {parts steps : List String} {exportsOf : String → List Export} {r : Route}

theorem isRouteSegment_iff (name : String) : isRouteSegment name = true ↔ Shows name := by
  have hstarts : ∀ c : Char, [c].isPrefixOf name.toList = true ↔ name.toList.head? = some c := by
    intro c
    cases name.toList with
    | nil => simp
    | cons e es =>
      simp only [List.isPrefixOf, Bool.and_true, beq_iff_eq, List.head?_cons, Option.some.injEq]
      exact eq_comm
  have hends : [')'].isSuffixOf name.toList = true ↔ name.toList.getLast? = some ')' := by
    rw [List.isSuffixOf, ← List.head?_reverse]
    cases name.toList.reverse with
    | nil => simp
    | cons e es =>
      simp only [List.reverse_singleton, List.isPrefixOf, Bool.and_true, beq_iff_eq, List.head?_cons, Option.some.injEq]
      exact eq_comm
  have hmarks : "(".toList = ['('] ∧ ")".toList = [')'] ∧ "@".toList = ['@'] ∧ "_".toList = ['_'] := by decide
  unfold isRouteSegment Text.startsWith Text.endsWith
  rw [hmarks.1, hmarks.2.1, hmarks.2.2.1, hmarks.2.2.2]
  simp only [Bool.and_eq_true, Bool.not_eq_true', ← Bool.not_eq_true, hstarts, hends]
  exact ⟨fun h => ⟨h.1.1, h.1.2, h.2⟩, fun h => ⟨⟨h.group, h.slot⟩, h.hidden⟩⟩

theorem filter_shows {between : List String} (h : ∀ s ∈ between, Plain s) :
    between.filter (fun name => name != "" && isRouteSegment name) = between.filter Shows := by
  refine List.filter_congr fun s hs => ?_
  rw [Bool.eq_iff_iff, decide_eq_true_iff, Bool.and_eq_true, isRouteSegment_iff]
  exact and_iff_right (bne_iff_ne.mpr (h s hs).ne_empty)

theorem routePath_eq {between : List String} (h : ∀ s ∈ between, Plain s) :
    routePath between = "/" ++ Text.join "/" (between.filter Shows) := by
  rw [routePath, filter_shows h]

/-- The path of a route is a slash, or splits into the directories that show. -/
theorem segments_routePath {between : List String} (h : ∀ s ∈ between, Plain s) (hne : between.filter Shows ≠ []) :
    segments (routePath between) = "" :: between.filter Shows := by
  rw [routePath_eq h]
  exact segments_rooted (fun s hs => h s (List.mem_of_mem_filter hs)) hne

theorem routePath_eq_slash_iff {between : List String} (h : ∀ s ∈ between, Plain s) :
    routePath between = "/" ↔ between.filter Shows = [] := by
  constructor
  · intro hslash
    by_contra hne
    have hsegments := segments_routePath h hne
    have hblank : segments "/" = ["", ""] := by decide
    rw [hslash, hblank] at hsegments
    have hempty : "" ∈ between.filter Shows := by rw [← (List.cons.inj hsegments).2]; simp
    exact (h "" (List.mem_of_mem_filter hempty)).ne_empty rfl
  · intro hnone
    rw [routePath_eq h, hnone]
    decide

theorem exportedMethods_getD (exports : List Export) : exportedMethods exports ≠ some [] ∧
    (exportedMethods exports).getD [] =
      (exports.filter fun e => !e.isDefault && httpMethods.contains e.name).map (·.name) := by
  unfold exportedMethods
  split
  · rename_i hnone
    exact ⟨by simp, hnone.symm⟩
  · rename_i hsome
    exact ⟨fun h => hsome (Option.some.inj h), rfl⟩

theorem Below.segments_relativeTo {between : List String} {name : String} (h : Below app file between name)
    (happ : Spelled app parts) (cwd : String) : segments (relativeTo cwd app file) = between ++ [name] := by
  have hfile : Spelled file (parts ++ (between ++ [name])) := h.file_eq ▸ happ.descend h.plain
  refine segments_relativeTo_below hfile.isAbsolute ?_ (by simp)
  rw [hfile.steps_eq, happ.steps_eq]

/-- The route of a file below the directory where routes begin. -/
theorem routeOf?_of_below {between : List String} {name : String} (happ : Spelled app parts) (hne : parts ≠ [])
    (h : Below app file between name) : routeOf? cwd app exportsOf file =
      if name ∈ pageFiles ∨ name ∈ routeFiles then
        some
          { path := routePath between
            file := file
            isApi := routeFiles.contains name
            methods := if routeFiles.contains name then exportedMethods (exportsOf file) else none }
      else none := by
  have hfile : Spelled file (parts ++ (between ++ [name])) := h.file_eq ▸ happ.descend h.plain
  have hstarts := (startsWith_iff_below happ hne hfile).mpr ⟨_, by simp, h.plain, h.file_eq⟩
  unfold routeOf?
  rw [if_pos hstarts, h.segments_relativeTo happ]
  simp only [List.getLast?_concat, Option.getD_some, List.dropLast_concat]
  refine if_congr ?_ rfl rfl
  rw [Bool.or_eq_true, List.contains_eq_mem, List.contains_eq_mem, decide_eq_true_iff, decide_eq_true_iff, or_comm]

/-- A file that makes a route is below the directory where routes begin. -/
theorem exists_below_of_routeOf? (happ : Spelled app parts) (hne : parts ≠ []) (hfile : Spelled file steps)
    (h : routeOf? cwd app exportsOf file = some r) : ∃ between name, Below app file between name := by
  have hstarts : Text.startsWith file (app ++ "/") = true := by
    by_contra hnot
    rw [routeOf?, if_neg hnot] at h
    cases h
  obtain ⟨names, hnames, hplain, heq⟩ := (startsWith_iff_below happ hne hfile).mp hstarts
  obtain ⟨between, name, rfl⟩ := (List.eq_nil_or_concat' names).resolve_left hnames
  exact ⟨between, name, hplain, heq⟩

theorem file_of_routeOf? (h : routeOf? cwd app exportsOf file = some r) : r.file = file := by
  unfold routeOf? at h
  split at h
  · simp only at h
    split at h
    · rw [← Option.some.inj h]
    · cases h
  · cases h

theorem makesRoute_of_routeOf? (happ : Spelled app parts) (hne : parts ≠ []) (hfile : Spelled file steps)
    (h : routeOf? cwd app exportsOf file = some r) : ∃ between name, MakesRoute app exportsOf r between name := by
  obtain ⟨between, name, hbelow⟩ := exists_below_of_routeOf? happ hne hfile h
  rw [routeOf?_of_below happ hne hbelow] at h
  split at h
  · rename_i hname
    obtain rfl := Option.some.inj h
    have hbetween : ∀ s ∈ between, Plain s := fun s hs => hbelow.plain s (List.mem_append_left _ hs)
    have hmethods := exportedMethods_getD (exportsOf file)
    have hbare := routePath_eq_slash_iff hbetween
    refine ⟨between, name, hbelow, ?_, routePath_eq hbetween, hbare, fun hpath => ?_, ?_, ?_, rfl⟩
    · by_cases hroute : name ∈ routeFiles
      · exact Or.inr ⟨hroute, by simpa using hroute⟩
      · exact Or.inl ⟨hname.resolve_right hroute, by simpa using hroute⟩
    · exact segments_routePath hbetween fun hnone => hpath (hbare.mpr hnone)
    · split
      · exact hmethods.2
      · rfl
    · simp only
      split
      · exact hmethods.1
      · simp
  · cases h

theorem exists_routeOf?_iff (happ : Spelled app parts) (hne : parts ≠ []) (hfile : Spelled file steps) :
    (∃ r, routeOf? cwd app exportsOf file = some r) ↔ Routable app file := by
  constructor
  · rintro ⟨r, hr⟩
    obtain ⟨between, name, hbelow⟩ := exists_below_of_routeOf? happ hne hfile hr
    rw [routeOf?_of_below happ hne hbelow] at hr
    split at hr
    · exact ⟨between, name, hbelow, ‹_›⟩
    · cases hr
  · rintro ⟨between, name, hbelow, hname⟩
    exact ⟨_, by rw [routeOf?_of_below happ hne hbelow, if_pos hname]⟩

end One

/-! ## The routes of all files -/

theorem Route.le_iff (a b : Route) : a.le b = true ↔ a.rank ≤ b.rank := by
  rw [Route.rank, Route.rank, Prod.Lex.toLex_le_toLex, Prod.Lex.toLex_le_toLex]
  unfold Route.le
  by_cases hpath : a.path = b.path
  · by_cases hapi : a.isApi = b.isApi
    · simp [hpath, hapi]
    · cases ha : a.isApi <;> cases hb : b.isApi <;> simp_all
  · simp [hpath]

section All

variable {d : Disk} {root app : String} {parts : List String} {exportsOf : String → List Export}
  {files files' : List String}

theorem mem_deriveRoutes (happ : findAppDirectory? d root = some app) {r : Route} :
    r ∈ deriveRoutes d files root exportsOf ↔ ∃ file ∈ files, routeOf? d.cwd app exportsOf file = some r := by
  rw [deriveRoutes, happ]
  simp only [List.mem_mergeSort, List.mem_filterMap]

theorem nodup_files_deriveRoutes (happ : findAppDirectory? d root = some app) (hfiles : files.Nodup) :
    ((deriveRoutes d files root exportsOf).map (·.file)).Nodup := by
  rw [deriveRoutes, happ]
  simp only
  rw [((List.mergeSort_perm _ _).map _).nodup_iff, List.map_filterMap]
  refine hfiles.filterMap fun f f' x hf hf' => ?_
  obtain ⟨r, hr, rfl⟩ := Option.map_eq_some_iff.mp hf
  obtain ⟨r', hr', heq⟩ := Option.map_eq_some_iff.mp hf'
  rw [← file_of_routeOf? hr, ← file_of_routeOf? hr', heq]

theorem pairwise_deriveRoutes (happ : findAppDirectory? d root = some app) (hfiles : files.Nodup) :
    (deriveRoutes d files root exportsOf).Pairwise fun a b => a.rank < b.rank := by
  have hle : (deriveRoutes d files root exportsOf).Pairwise fun a b => a.rank ≤ b.rank := by
    rw [deriveRoutes, happ]
    exact pairwise_mergeSort_rank Route.le_iff _
  have hfile : ((deriveRoutes d files root exportsOf).map (·.file)).Nodup := nodup_files_deriveRoutes happ hfiles
  refine (hle.and (List.pairwise_map.mp hfile)).imp fun h => lt_of_le_of_ne h.1 fun heq => h.2 ?_
  simp only [Route.rank, EmbeddingLike.apply_eq_iff_eq, Prod.mk.injEq] at heq
  exact heq.2.2

/-- The routes do not depend on the order of the files. -/
theorem deriveRoutes_perm (happ : findAppDirectory? d root = some app) (hfiles : files.Nodup) (h : files'.Perm files) :
    deriveRoutes d files' root exportsOf = deriveRoutes d files root exportsOf := by
  have hperm : (deriveRoutes d files' root exportsOf).Perm (deriveRoutes d files root exportsOf) := by
    rw [deriveRoutes, deriveRoutes, happ]
    exact (List.mergeSort_perm _ _).trans ((h.filterMap _).trans (List.mergeSort_perm _ _).symm)
  have hasymm : ∀ a b : Route, a.rank < b.rank → b.rank < a.rank → a = b := fun a b hab hba => absurd hab (lt_asymm hba)
  exact hperm.eq_of_pairwise (fun a b _ _ => hasymm a b) (pairwise_deriveRoutes happ (h.nodup_iff.mpr hfiles))
    (pairwise_deriveRoutes happ hfiles)

theorem findAppDirectory?_eq (h : d.isDirectory (appDirectory d root) = true) :
    findAppDirectory? d root = some (appDirectory d root) := by
  unfold appDirectory at h ⊢
  unfold findAppDirectory? appDirectories
  by_cases happ : d.isDirectory (join root "app") = true
  · simp [happ]
  · simp only [happ, Bool.false_eq_true, if_false] at h ⊢
    simp [happ, h]

theorem exists_spelled_appDirectory (d : Disk) (hroot : isAbsolute root = true) (hnormal : normalize root = root) :
    ∃ parts, parts ≠ [] ∧ Spelled (appDirectory d root) parts := by
  have hspelled := spelled_of_normalize d.cwd hroot hnormal
  unfold appDirectory
  split
  · exact ⟨_, by simp, hspelled.entry (by decide : Plain "app")⟩
  · have hsource : "src/app" = join "src" "app" := by decide
    rw [hsource, join_join (by decide) (by decide)]
    exact ⟨_, by simp, (hspelled.entry (by decide : Plain "src")).entry (by decide : Plain "app")⟩

/-- **The routes of a project.** Each page or route file below the directory where routes begin makes one route, with the
path that the directories in between spell and the methods that a route file exports, and nothing else makes one. The
routes are in strict order, so that they are the same however the files are ordered. -/
theorem deriveRoutes_lists (d : Disk) (root : String) (files : List String) (exportsOf : String → List Export)
    (hroot : isAbsolute root = true ∧ normalize root = root) (happ : d.isDirectory (appDirectory d root) = true)
    (hdistinct : files.Nodup) (hfiles : ∀ file ∈ files, isAbsolute file = true ∧ normalize file = file) :
    ListsRoutes (appDirectory d root) files exportsOf (deriveRoutes d files root exportsOf) ∧
      ∀ files' : List String, files'.Perm files →
        deriveRoutes d files' root exportsOf = deriveRoutes d files root exportsOf := by
  have hfound := findAppDirectory?_eq happ
  obtain ⟨parts, hne, hspelled⟩ := exists_spelled_appDirectory d hroot.1 hroot.2
  have hfile : ∀ file ∈ files, Spelled file (steps d.cwd file) := fun file hmem =>
    spelled_of_normalize d.cwd (hfiles file hmem).1 (hfiles file hmem).2
  refine ⟨⟨fun r hr => ?_, fun file => ?_, nodup_files_deriveRoutes hfound hdistinct,
    pairwise_deriveRoutes hfound hdistinct⟩, fun files' => deriveRoutes_perm hfound hdistinct⟩
  · obtain ⟨file, hmem, hroute⟩ := (mem_deriveRoutes hfound).mp hr
    exact makesRoute_of_routeOf? hspelled hne (hfile file hmem) hroute
  · constructor
    · intro hmem
      obtain ⟨r, hr, rfl⟩ := List.mem_map.mp hmem
      obtain ⟨file, hmem, hroute⟩ := (mem_deriveRoutes hfound).mp hr
      rw [file_of_routeOf? hroute]
      exact ⟨hmem, (exists_routeOf?_iff hspelled hne (hfile file hmem)).mp ⟨r, hroute⟩⟩
    · rintro ⟨hmem, hroutable⟩
      obtain ⟨r, hroute⟩ := (exists_routeOf?_iff hspelled hne (hfile file hmem)).mpr hroutable
      exact List.mem_map.mpr ⟨r, (mem_deriveRoutes hfound).mpr ⟨file, hmem, hroute⟩, file_of_routeOf? hroute⟩

end All

/-- Two pages at one path, a route file, and files that make no route: one beside the directory where routes begin and
one with another name. -/
def shopFiles : List String :=
  ["/proj/app/cart/page.tsx", "/proj/application/page.tsx", "/proj/app/(shop)/cart/page.tsx", "/proj/app/page.css",
    "/proj/app/@side/_api/route.ts"]

def shopDisk : Disk :=
  ⟨.directory [("proj", .directory [("app", .directory [])])], "/"⟩

def shopExports (file : String) : List Export :=
  [⟨"GET", file, 1, false, none, none, []⟩, ⟨"default", file, 2, true, some "POST", none, []⟩]

theorem deriveRoutes_lists_shop :
    appDirectory shopDisk "/proj" = "/proj/app" ∧
      ListsRoutes (appDirectory shopDisk "/proj") shopFiles shopExports
        (deriveRoutes shopDisk shopFiles "/proj" shopExports) ∧
      deriveRoutes shopDisk shopFiles.reverse "/proj" shopExports =
        deriveRoutes shopDisk shopFiles "/proj" shopExports := by
  have hroot : isAbsolute "/proj" = true ∧ normalize "/proj" = "/proj" := by decide +kernel
  have happ : shopDisk.isDirectory (appDirectory shopDisk "/proj") = true := by decide +kernel
  have hfiles : ∀ file ∈ shopFiles, isAbsolute file = true ∧ normalize file = file := by decide +kernel
  have h := deriveRoutes_lists shopDisk "/proj" shopFiles shopExports hroot happ (by decide) hfiles
  exact ⟨by decide +kernel, h.1, h.2 _ (List.reverse_perm _)⟩

example : routePath ["(shop)", "[id]", "@side", "_api", "cart"] = "/[id]/cart" := by decide +kernel

end ExportAudit
