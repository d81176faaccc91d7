import ExportAudit.Session

/-!
# Answers over HTTP

A server answers requests about one session: `POST /analyze` runs the analysis, and the other endpoints tell the last
result. `Server.respond` is the whole of it, from a request to a response. A request is checked in this order: its path,
its method, its parameters, whether there is a result.
-/

namespace ExportAudit.Http

/-- A request. -/
structure Request where
  method : String
  path : String
  query : List (String × String) := []
  body : Option Value := none

/-- A response. -/
structure Response where
  status : Nat
  body : Value

/-- A server and the message of the last failed run. -/
structure Server where
  session : Session
  lastError : Option String := none

/-- What a path stands for. -/
inductive Endpoint where
  | health
  | analyze
  | usedExports
  | unusedExports
  | missingImports
  | interfaces
  | routes
  | graphStats
  | graphFile
  deriving DecidableEq, Repr

namespace Endpoint

def paths : List (String × Endpoint) :=
  [("/", .health), ("/analyze", .analyze), ("/exports/used", .usedExports), ("/exports/unused", .unusedExports),
   ("/imports/missing", .missingImports), ("/interfaces", .interfaces), ("/routes", .routes),
   ("/graph/stats", .graphStats), ("/graph/file", .graphFile)]

/-- The endpoint of a path; slashes at its end do not count. -/
def ofPath? (path : String) : Option Endpoint :=
  (paths.lookup path).or (paths.lookup (Text.stripRight (· == '/') path))

/-- The method that an endpoint answers to. -/
def method : Endpoint → String
  | .analyze => "POST"
  | _ => "GET"

end Endpoint

/-! ## Responses -/

def ok (body : Value) : Response := ⟨200, body⟩

/-- A refusal with a reason. -/
def refuse (status : Nat) (reason : String) : Response :=
  ⟨status, .record [("detail", .text reason)]⟩

/-- A request whose parameters have the wrong form. -/
def invalid : Response := ⟨422, .null⟩

def busy : Response := refuse 409 "An analysis is already in progress"

/-! ## Parameters -/

/-- A parameter; the last one counts. -/
def Request.parameter? (r : Request) (name : String) : Option String :=
  r.query.reverse.lookup name

/-- A truth value. -/
def truth? (s : String) : Option Bool :=
  let word := Text.lowerAscii s
  if ["1", "on", "t", "true", "y", "yes"].contains word then some true
  else if ["0", "off", "f", "false", "n", "no"].contains word then some false
  else none

/-- Whether a file is wanted: no part of a path is asked for, or the file's path from the root has it. -/
def wantsFile (d : Disk) (root : String) (part : Option String) (file : String) : Bool :=
  match part with
  | none | some "" => true
  | some p => Text.occursIn p (Path.display d.cwd root file)

/-! ## The last result -/

/-- The value of a record with one more field. -/
def withField (v : Value) (name : String) (field : Value) : Value :=
  match v with
  | .map entries => .map (entries ++ [(.text name, field)])
  | other => other

/-- The used exports of some files. -/
def usedExports (d : Disk) (part : Option String) (r : AnalysisResult) : Value :=
  .list ((r.used.filter fun e => wantsFile d r.root part e.file).map Export.record)

/-- The unused exports of some files and perhaps of one category. -/
def unusedExports (d : Disk) (part category : Option String) (r : AnalysisResult) : Value :=
  let inCategory := fun (e : Export) =>
    match category with
    | none | some "" => true
    | some c => e.category.any (·.label == c)
  .list ((r.unused.filter fun e => wantsFile d r.root part e.file && inCategory e).map Export.record)

/-- The missing imports of some files. -/
def missingImports (d : Disk) (part : Option String) (r : AnalysisResult) : Value :=
  .list ((r.missing.filter fun m => wantsFile d r.root part m.file).map MissingImport.record)

/-- The interfaces, or only those without a usage. -/
def interfaces (unusedOnly : Bool) (r : AnalysisResult) : Value :=
  .list ((r.interfaces.filter fun i => !unusedOnly || i.usedBy.isEmpty).map Interface.record)

/-- The routes, actions and hooks. -/
def routes (r : AnalysisResult) : Value :=
  .record
    [("routes", .list (r.routes.map Route.record)), ("server_actions", .list (r.actions.map Callable.record)),
     ("hooks", .list (r.hooks.map Callable.record))]

/-- The figures of the import graph. -/
def graphStats (r : AnalysisResult) : Value :=
  withField ((r.figures.map ImportGraph.Statistics.record).getD (.map [])) "errors" (.texts r.errors)

/-- The neighbours of a file in the import graph. -/
structure FileView where
  file : String
  importers : List String
  dependencies : List String
  dependents : List String
  deriving DecidableEq, Repr

/-- The neighbours of the file at a path from the root, if it is in the import graph. -/
def fileView? (d : Disk) (path : String) (r : AnalysisResult) : Option FileView :=
  let file := d.real (Path.join r.root path)
  let shown := Path.display d.cwd r.root
  if r.graph.files.contains file then
    some
      { file := shown file
        importers := (r.graph.importers file).map shown
        dependencies := (r.graph.dependencies file).map shown
        dependents := (r.graph.dependents file).map shown }
  else none

def FileView.record (v : FileView) : Value :=
  .record
    [("file", .text v.file), ("importers", .texts v.importers), ("dependencies", .texts v.dependencies),
     ("dependents", .texts v.dependents)]

/-- The answer about a file of the import graph. -/
def graphFile (d : Disk) (path : String) (r : AnalysisResult) : Response :=
  match fileView? d path r with
  | some v => ok v.record
  | none => refuse 404 ("File not in import graph: " ++ path)

namespace Server

/-- The answer that the last result gives. -/
def withResult (s : Server) (answer : AnalysisResult → Response) : Response :=
  match s.session.lastResult with
  | some r => answer r
  | none => refuse 404 "No analysis result yet. POST /analyze first."

/-- The state of the server. -/
def health (s : Server) : Value :=
  .record
    [("status", .text "active"), ("system", .text "Dependency Tracker"), ("project_root", .text s.session.root),
     ("analysis_running", .bool s.session.isRunning), ("has_result", .bool s.session.lastResult.isSome),
     ("last_error", .textOrNull s.lastError)]

/-! ## Running the analysis -/

/-- The root that a body asks for; a body of the wrong form asks for nothing that can be done. -/
def bodyRoot? : Option Value → Option (Option String)
  | none | some .null => some none
  | some (.map entries) =>
    match Value.field? "project_root" (.map entries) with
    | none | some .null => some none
    | some (.text root) => some (some root)
    | some _ => none
  | some _ => none

/-- What is told about a run. -/
def runResponse (session : Session) (elapsed : Nat) (outcome : RunOutcome) : Response :=
  match outcome with
  | .published r =>
    ok (.record
      [("status", .text "success"), ("project_root", .text r.root),
       ("duration_seconds", .float (nearestFloat elapsed (-3))), ("summary", r.summary)])
  | outcome =>
    if session.isRunning then busy else refuse 500 (outcome.messages.getLast?.getD "Analysis did not complete")

/-- Runs the analysis of the session's project, or of another one. -/
def runAnalysis (s : Server) (w : World) (root? : Option String) : Server × Disk × Response :=
  let asked := root?.filter fun root => !root.isEmpty
  if s.session.isRunning then (s, w.disk, busy)
  else
    match asked.filter fun root => !w.disk.isDirectory root with
    | some root => (s, w.disk, refuse 400 ("Not a directory: " ++ root))
    | none =>
      let (session, report) := s.session.run w asked {}
      ({ session := session, lastError := report.outcome.messages.getLast? }, report.disk,
        runResponse session w.elapsed report.outcome)

/-! ## Requests -/

/-- The answer to a request that changes nothing. -/
def tell (s : Server) (d : Disk) (r : Request) : Endpoint → Response
  | .health => ok s.health
  | .analyze => invalid
  | .usedExports => s.withResult fun result => ok (usedExports d (r.parameter? "file") result)
  | .unusedExports =>
    s.withResult fun result => ok (unusedExports d (r.parameter? "file") (r.parameter? "category") result)
  | .missingImports => s.withResult fun result => ok (missingImports d (r.parameter? "file") result)
  | .interfaces =>
    match (r.parameter? "unused_only").map truth? with
    | none => s.withResult fun result => ok (interfaces false result)
    | some (some only) => s.withResult fun result => ok (interfaces only result)
    | some none => invalid
  | .routes => s.withResult fun result => ok (routes result)
  | .graphStats => s.withResult fun result => ok (graphStats result)
  | .graphFile =>
    match r.parameter? "path" with
    | none => invalid
    | some path => s.withResult (graphFile d path)

/-- Answers a request: the server and the disk after it, and the response. -/
def respond (s : Server) (w : World) (r : Request) : Server × Disk × Response :=
  match Endpoint.ofPath? r.path with
  | none => (s, w.disk, refuse 404 "Not Found")
  | some endpoint =>
    if r.method != endpoint.method then (s, w.disk, ⟨405, .null⟩)
    else
      match endpoint with
      | .analyze =>
        match bodyRoot? r.body with
        | none => (s, w.disk, invalid)
        | some root? => s.runAnalysis w root?
      | endpoint => (s, w.disk, s.tell w.disk r endpoint)

end Server

end ExportAudit.Http
