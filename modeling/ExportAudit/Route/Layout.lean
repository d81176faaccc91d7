import ExportAudit.Fact
import ExportAudit.FileTree

/-!
# Routes of a project

The routes of an application follow from its directories: each page or route file below the directory `app` makes one,
whose path is that of its directory. Groups in parentheses, slots with an at sign and private directories with an
underscore do not show in the path.
-/

namespace ExportAudit

/-- Where the routes of a project may begin. -/
def appDirectories : List String := ["app", "src/app"]

/-- The directory where the routes of a project begin. -/
def findAppDirectory? (d : Disk) (root : String) : Option String :=
  (appDirectories.map (Path.join root)).find? d.isDirectory

/-- Whether a directory shows in the paths of routes. -/
def isRouteSegment (name : String) : Bool :=
  !(Text.startsWith name "(" && Text.endsWith name ")") && !Text.startsWith name "@" && !Text.startsWith name "_"

/-- The path of a route in nested directories. -/
def routePath (directories : List String) : String :=
  "/" ++ Text.join "/" (directories.filter fun name => name != "" && isRouteSegment name)

def pageFiles : List String := ["page.ts", "page.tsx", "page.js", "page.jsx"]

def routeFiles : List String := ["route.ts", "route.tsx", "route.js", "route.jsx"]

/-- The methods among the exports of a route file, if there are any. -/
def exportedMethods (exports : List Export) : Option (List String) :=
  match (exports.filter fun e => !e.isDefault && httpMethods.contains e.name).map (·.name) with
  | [] => none
  | methods => some methods

/-- The route that a file makes, given the directory where routes begin. -/
def routeOf? (cwd appDirectory : String) (exportsOf : String → List Export) (file : String) : Option Route :=
  if Text.startsWith file (appDirectory ++ "/") then
    let parts := Path.segments (Path.relativeTo cwd appDirectory file)
    let name := parts.getLast?.getD ""
    let isApi := routeFiles.contains name
    if isApi || pageFiles.contains name then
      some
        { path := routePath parts.dropLast
          file := file
          isApi := isApi
          methods := if isApi then exportedMethods (exportsOf file) else none }
    else none
  else none

/-- The order of routes: by path, pages before handlers, then by file. -/
def Route.le (a b : Route) : Bool :=
  if a.path != b.path then decide (a.path < b.path)
  else if a.isApi != b.isApi then !a.isApi
  else decide (a.file ≤ b.file)

/-- The routes that the files of a project make. -/
def deriveRoutes (d : Disk) (files : List String) (root : String) (exportsOf : String → List Export) : List Route :=
  match findAppDirectory? d root with
  | none => []
  | some appDirectory => (files.filterMap (routeOf? d.cwd appDirectory exportsOf)).mergeSort Route.le

end ExportAudit
