import ExportAudit.Analysis.Record
import ExportAudit.Json.Writer

/-!
# Reports

The documents that tell the result of an analysis: one in Markdown for each kind of finding, and the whole result as
JSON. Paths are written from the root of the project.
-/

namespace ExportAudit.Report

/-- The way from the root of a project to a path. -/
abbrev Display := String → String

/-- How paths are written in the reports of a result. -/
def displayFor (d : Disk) (r : AnalysisResult) : Display :=
  Path.display d.cwd r.root

/-- A path or name between backticks. -/
def code (s : String) : String :=
  "`" ++ s ++ "`"

/-- A line number in parentheses. -/
def lineMark (n : Nat) : String :=
  "(Line " ++ toString n ++ ")"

/-- The line of one usage. -/
def usageLine (display : Display) (s : Site) : String :=
  if s.isFramework then "- Used by framework convention\n"
  else "- Used in: " ++ code (display s.file) ++ " " ++ lineMark s.line ++ "\n"

/-! ## Exports -/

/-- The block of one used export. -/
def exportBlock (display : Display) (e : Export) : String :=
  "### Export: " ++ code e.displayName ++ " " ++ lineMark e.line ++ "\n" ++
    Text.join "" (e.usedBy.map (usageLine display)) ++ "\n"

/-- The section of the used exports of one file. -/
def fileSection (display : Display) (exports : List Export) : String :=
  "## File: " ++ code (display ((exports.head?.map (·.file)).getD "")) ++ "\n" ++
    Text.join "" (exports.map (exportBlock display))

/-- Exports by file and name, those of a file together. -/
def byFile (exports : List Export) : List (List Export) :=
  (exports.mergeSort (thenLe (·.file) fun a b => decide (a.name ≤ b.name))).splitBy fun a b => a.file == b.file

def usedExports (display : Display) (r : AnalysisResult) : String :=
  "# ✅ Used Exports\n\n" ++
    if r.used.isEmpty then "No used exports found (or none tracked).\n"
    else Text.join "" ((byFile r.used).map (fileSection display))

/-- The line of one unused export. -/
def unusedLine (display : Display) (e : Export) : String :=
  let category := (e.category.map fun c => " _" ++ c.label ++ "_").getD ""
  "- " ++ code (display e.file) ++ " " ++ lineMark e.line ++ " → " ++ code e.displayName ++ category ++ "\n"

def unusedExports (display : Display) (r : AnalysisResult) : String :=
  "# ❓ Unused Exports\n\n" ++
    if r.unused.isEmpty then "No potentially unused exports found within the analyzed scope.\n"
    else
      let ordered := r.unused.mergeSort (thenLe (·.file) fun a b => decide (a.line ≤ b.line))
      Text.join "" (ordered.map (unusedLine display)) ++
        "\n*Note: This list includes exports not found in static imports within the project " ++
        "and not matched by a framework convention. They might be used dynamically, " ++
        "by external projects, or are genuinely unused.*\n"

/-! ## Imports -/

/-- The block of one missing import. -/
def missingBlock (display : Display) (m : MissingImport) : String :=
  let cause :=
    match m.target.filter (· != "") with
    | some target => "  - Resolved Target: " ++ code (display target) ++ " (" ++ m.reason ++ ")\n"
    | none =>
      "  - Resolution Error: " ++ (if m.reason.isEmpty then "Could not resolve module path" else m.reason) ++ "\n"
  "- File: " ++ code (display m.file) ++ " " ++ lineMark m.line ++ "\n" ++
    "  - Tries to import: " ++ code m.name ++ "\n" ++
    "  - From module: " ++ code m.reference ++ "\n" ++ cause ++ "\n"

def missingImports (display : Display) (r : AnalysisResult) : String :=
  "# ❌ Missing Imports\n\n" ++
    if r.missing.isEmpty then "No imports found that seem to be missing or unresolved.\n"
    else
      let ordered := r.missing.mergeSort (thenLe (·.file) fun a b => decide (a.line ≤ b.line))
      Text.join "" (ordered.map (missingBlock display)) ++
        "\n*Note: This indicates imports where the specified name couldn't be found in the " ++
        "target module's exports, or the module itself couldn't be resolved within the " ++
        "workspace. This could be due to typos, incorrect paths, missing exports, or path " ++
        "alias configurations.*\n"

/-! ## Interfaces -/

/-- The block of one interface. -/
def interfaceBlock (display : Display) (i : Interface) : String :=
  let usages :=
    if i.usedBy.isEmpty then "- *No usage found based on simple type reference matching within the project.*\n"
    else Text.join "" ((i.usedBy.mergeSort Site.le).map (usageLine display))
  "## " ++ i.name ++ "\n" ++
    "- Declared in: " ++ code (display i.file) ++ " " ++ lineMark i.line ++ "\n" ++ usages ++ "\n"

def interfaces (display : Display) (r : AnalysisResult) : String :=
  "# 📝 Interface Usage\n\n" ++
    if r.interfaces.isEmpty then "No interface declarations found.\n"
    else
      Text.join "" ((r.interfaces.mergeSort Interface.le).map (interfaceBlock display)) ++
        "\n*Note: Usage detection is based on finding type references matching the interface " ++
        "name. It might miss complex type manipulations or include matches for identically " ++
        "named types from other files.*\n"

/-! ## Routes -/

/-- The line of one page. -/
def pageLine (display : Display) (r : Route) : String :=
  "- " ++ code r.path ++ " → " ++ code (display r.file) ++ "\n"

/-- The line of one usage of a route. -/
def routeUsageLine (display : Display) (u : DynamicUsage) : String :=
  let method := (u.method.filter (· != "")).getD "GET"
  "  - " ++ method ++ " " ++ code u.target ++ " from " ++ code (display u.file) ++ " " ++ lineMark u.line ++ "\n"

/-- The lines of one route handler. -/
def handlerLines (display : Display) (r : Route) : String :=
  let methods :=
    match r.methods.getD [] with
    | [] => ""
    | names => " [" ++ Text.join ", " names ++ "]"
  "- " ++ code r.path ++ methods ++ " → " ++ code (display r.file) ++ "\n" ++
    Text.join "" (r.usedBy.map (routeUsageLine display))

/-- The line of one action or hook. -/
def callableLine (display : Display) (c : Callable) : String :=
  "- " ++ code c.name ++ " in " ++ code (display c.file) ++ " " ++ lineMark c.line ++ ", " ++
    toString c.usedBy.length ++ " call site(s)\n"

/-- A section with a title, if it has any lines. -/
def titled (title : String) (lines : List String) : String :=
  if lines.isEmpty then "" else "## " ++ title ++ "\n" ++ Text.join "" lines ++ "\n"

/-- Actions or hooks by file and line. -/
def byPlace (items : List Callable) : List Callable :=
  items.mergeSort (thenLe (·.file) fun a b => decide (a.line ≤ b.line))

def routes (display : Display) (r : AnalysisResult) : String :=
  "# 🧭 Route Structure (App Router)\n\n" ++
    (if r.routes.isEmpty then "No App Router routes (`app/page.*` or `app/route.*`) found.\n"
      else
        titled "Pages (`page.*`)" ((r.routes.filter (!·.isApi)).map (pageLine display)) ++
          titled "API Routes (`route.*`)" ((r.routes.filter (·.isApi)).map (handlerLines display))) ++
    titled "Server Actions" ((byPlace r.actions).map (callableLine display)) ++
    titled "Hooks" ((byPlace r.hooks).map (callableLine display)) ++
    "\n*Note: Route paths are derived from the directory structure within `app/` or " ++
    "`src/app/`, ignoring route groups `(...)`.*\n"

/-! ## All documents -/

/-- The Markdown documents by file name. -/
def documents (d : Disk) (r : AnalysisResult) : List (String × String) :=
  let display := displayFor d r
  [("used_exports.md", usedExports display r), ("unused_exports.md", unusedExports display r),
   ("missing_imports.md", missingImports display r), ("interfaces.md", interfaces display r),
   ("routes.md", routes display r)]

/-- All documents by file name, the whole result as JSON among them. -/
def allDocuments (d : Disk) (r : AnalysisResult) : List (String × String) :=
  documents d r ++ [("analysis.json", Json.render r.record)]

/-- Writes files into a directory one after another, up to the first error: the disk after it, and the paths written. -/
def writeAll (time : Int) (directory : String) : List (String × String) → Disk → Disk × Except FileError (List String)
  | [], d => (d, .ok [])
  | (name, text) :: rest, d =>
    let path := Path.join directory name
    match d.write path text.toUTF8 time with
    | .error e => (d, .error e)
    | .ok d =>
      let (d, written) := writeAll time directory rest d
      (d, written.map (path :: ·))

/-- Writes all documents into a directory, which is made if there is none. -/
def write (d : Disk) (time : Int) (r : AnalysisResult) (directory : String) : Disk × Except FileError (List String) :=
  match d.makeDirectories directory with
  | .error e => (d, .error e)
  | .ok made => writeAll time directory (allDocuments d r) made

end ExportAudit.Report
