import ExportAudit.Fact
import ExportAudit.Journal
import ExportAudit.Settings.Basic
import ExportAudit.ImportGraph

/-!
# Conventions of the framework

Exports that nothing imports are alive all the same when the framework calls them by convention. Each `Rule` attaches
usages to exports and takes none away:

- handlers of routes, with the network calls that meet the route;
- server actions, with the usages by name; hooks only where they are called;
- pages and other files with a meaning of their own, and special names, in the trees of routes;
- everything in directories of actions, and the entry files at the root.

A rule's effect on the exports is `Rule.apply`; its count is the number of exports that it newly marks.
-/

namespace ExportAudit

/-! ## What rules see -/

/-- What a rule can see besides the exports. -/
structure LivenessContext where
  cwd : String
  root : String
  routes : List Route := []
  actions : List ServerAction := []
  hooks : List Hook := []

/-- The segments of the way from the root to a file. -/
def LivenessContext.parts (c : LivenessContext) (file : String) : List String :=
  Path.segments (Text.replaceChar '\\' '/' (Path.relativeTo c.cwd c.root file))

/-- The position of the export that a name in a file means: one of that name, else a default with that local name. -/
def findExport? (exports : List Export) (file name : String) : Option Nat :=
  let file := Path.normalize file
  match exports.findIdx? fun e => e.file == file && !e.isDefault && e.name == name with
  | some i => some i
  | none => exports.findIdx? fun e => e.file == file && e.isDefault && e.localName == some name

/-- The directories whose files make routes. -/
def routeTreeRoots : List String := ["app", "src/app", "pages", "src/pages"]

/-- The longest of some roots that a path lies under. -/
def routeTreeRoot? (parts roots : List String) : Option String :=
  let joined := Text.join "/" parts
  (roots.mergeSort fun a b => decide (b.length ≤ a.length)).find? fun root => Text.startsWith joined (root ++ "/")

/-! ## Marking -/

/-- Exports, and how many of them have been newly marked. -/
structure Marked where
  exports : List Export
  count : Nat := 0

/-- Whether an export does not yet carry the usage of the framework. -/
def Export.isUnmarked (e : Export) : Bool :=
  !e.usedBy.contains Site.framework

namespace Marked

/-- Marks the export at a position. -/
def markAt (m : Marked) (i : Nat) : Marked :=
  { exports := m.exports.modify i (·.addUsage Site.framework)
    count := m.count + if (m.exports[i]?.map Export.isUnmarked).getD false then 1 else 0 }

/-- Marks all exports of a class. -/
def markAll (m : Marked) (p : Export → Bool) : Marked :=
  { exports := m.exports.map fun e => if p e then e.addUsage Site.framework else e
    count := m.count + m.exports.countP fun e => p e && e.isUnmarked }

/-- Attaches the sites of usages to the export at a position. -/
def addSites (m : Marked) (i : Nat) (usages : List DynamicUsage) : Marked :=
  { m with exports := m.exports.modify i fun e => usages.foldl (fun e u => e.addUsage u.site) e }

end Marked

/-! ## Rules -/

/-- A convention of the framework. -/
inductive Rule where
  | routeHandlers
  | serverActions
  | hookUsage
  | pageComponents (stems roots : List String)
  | specialExports (names roots : List String)
  | actionsDirectory (names : List String)
  | middleware (stems : List String)
  deriving DecidableEq, Repr

namespace Rule

def name : Rule → String
  | .routeHandlers => "route-handlers"
  | .serverActions => "server-actions"
  | .hookUsage => "hook-usage"
  | .pageComponents _ _ => "page-components"
  | .specialExports _ _ => "special-exports"
  | .actionsDirectory _ => "actions-directory"
  | .middleware _ => "middleware"

/-- The rule as it is shown. -/
def shown (r : Rule) : String :=
  let title :=
    match r with
    | .routeHandlers => "RouteHandlerRule"
    | .serverActions => "ServerActionRule"
    | .hookUsage => "HookUsageRule"
    | .pageComponents _ _ => "PageComponentRule"
    | .specialExports _ _ => "SpecialExportRule"
    | .actionsDirectory _ => "ActionsDirectoryRule"
    | .middleware _ => "MiddlewareRule"
  title ++ "(name='" ++ r.name ++ "')"

/-- The methods for which a route may have handlers. -/
def routeMethods (r : Route) : List String :=
  (r.methods.getD (if r.isApi then httpMethods else [])).filter httpMethods.contains

/-- The positions of the handlers of a route. -/
def handlers (exports : List Export) (r : Route) : List Nat :=
  (routeMethods r).filterMap fun method =>
    (findExport? exports r.file method).filter fun i => (exports[i]?.map (!·.isDefault)).getD false

/-- The handlers that a usage of a route reaches: those of its method, or all of them if there is none. -/
def reached (exports : List Export) (positions : List Nat) (u : DynamicUsage) : List Nat :=
  match positions.filter fun i => (exports[i]?.map (·.name)) == u.method with
  | [] => positions
  | own => own

/-- Marks the handlers of a route and hands the usages of the route to them. -/
def applyRoute (m : Marked) (r : Route) : Marked :=
  let positions := handlers m.exports r
  let m := positions.foldl Marked.markAt m
  r.usedBy.foldl (fun m u => (reached m.exports positions u).foldl (fun m i => m.addSites i [u]) m) m

/-- Marks a server action and hands its usages to it. -/
def applyAction (m : Marked) (a : ServerAction) : Marked :=
  match findExport? m.exports a.file a.name with
  | some i => (m.markAt i).addSites i a.usedBy
  | none => m

/-- Hands the calls of a hook to it; one that was not used before counts as marked. -/
def applyHook (m : Marked) (h : Hook) : Marked :=
  if h.usedBy.isEmpty then m
  else
    match findExport? m.exports h.file h.name with
    | some i =>
      let fresh := (m.exports[i]?.map (!·.isUsed)).getD false
      { m.addSites i h.usedBy with count := m.count + if fresh then 1 else 0 }
    | none => m

/-- Whether a default export is a page: any below `pages`, and those of files with special stems elsewhere. -/
def isPage (c : LivenessContext) (stems roots : List String) (e : Export) : Bool :=
  match routeTreeRoot? (c.parts e.file) roots with
  | none => false
  | some root => e.isDefault && (Text.endsWith root "pages" || stems.contains (Path.stem e.file))

/-- Whether an export has a special name in a tree of routes. -/
def isSpecial (c : LivenessContext) (names roots : List String) (e : Export) : Bool :=
  (routeTreeRoot? (c.parts e.file) roots).isSome && !e.isDefault && names.contains e.name

/-- Whether an export lies in a directory of actions. -/
def inActionsDirectory (c : LivenessContext) (names : List String) (e : Export) : Bool :=
  (c.parts e.file).dropLast.any names.contains

/-- Whether an export stands in an entry file at the root or in `src`. -/
def isEntry (c : LivenessContext) (stems : List String) (e : Export) : Bool :=
  let directories := (c.parts e.file).dropLast
  (directories == [] || directories == ["src"]) && stems.contains (Path.stem e.file)

/-- The effect of a rule. -/
def apply (c : LivenessContext) (exports : List Export) (r : Rule) : Marked :=
  let m : Marked := { exports := exports }
  match r with
  | .routeHandlers => c.routes.foldl applyRoute m
  | .serverActions => c.actions.foldl applyAction m
  | .hookUsage => c.hooks.foldl applyHook m
  | .pageComponents stems roots => m.markAll (isPage c stems roots)
  | .specialExports names roots => m.markAll (isSpecial c names roots)
  | .actionsDirectory names => m.markAll (inActionsDirectory c names)
  | .middleware stems => m.markAll (isEntry c stems)

end Rule

/-! ## Engines -/

def pageFileStems : List String :=
  ["page", "layout", "template", "loading", "error", "not-found", "global-error", "default"]

def specialExportNames : List String :=
  ["generateMetadata", "generateStaticParams", "generateViewport", "generateImageMetadata", "generateSitemaps",
   "metadata", "viewport", "revalidate", "dynamic", "dynamicParams", "fetchCache", "preferredRegion", "runtime",
   "maxDuration", "getServerSideProps", "getStaticProps", "getStaticPaths", "getInitialProps", "config"]

def actionsDirectoryNames : List String := ["actions"]

def rootEntryStems : List String := ["middleware", "instrumentation"]

/-- All rules, with the names that settings add. -/
def allRules (s : LivenessSettings) : List Rule :=
  let roots := s.routeRoots.foldl addNew routeTreeRoots
  [.routeHandlers, .serverActions, .hookUsage, .pageComponents (s.pageFileStems.foldl addNew pageFileStems) roots,
   .specialExports (s.specialExportNames.foldl addNew specialExportNames) roots,
   .actionsDirectory (s.actionsDirectories.foldl addNew actionsDirectoryNames), .middleware rootEntryStems]

/-- The rules that settings leave switched on; without settings all built-in ones. -/
def rulesOf (settings : Option LivenessSettings) : List Rule :=
  match settings with
  | none => allRules {}
  | some s => (allRules s).filter fun r => !s.disabledRules.contains r.name

/-- What is noted about names in settings that are no rules. -/
def ruleNotes (settings : Option LivenessSettings) : List Note :=
  match settings with
  | none => []
  | some s =>
    let known := (allRules s).map Rule.name
    match sortTexts (s.disabledRules.filter (!known.contains ·)).eraseDups with
    | [] => []
    | unknown => [.warning ("Unknown liveness rules in settings: " ++ Text.join ", " unknown)]

/-- Applies rules in turn, and counts for each the exports that it newly marked. -/
def applyRules (c : LivenessContext) : List Rule → List Export → List Export × List (String × Nat)
  | [], exports => (exports, [])
  | r :: rs, exports =>
    let m := r.apply c exports
    let (exports, counts) := applyRules c rs m.exports
    (exports, (r.name, m.count) :: counts)

end ExportAudit
