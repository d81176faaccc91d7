import ExportAudit.Analysis
import ExportAudit.Fact.Record

/-!
# Results as records

The shape of the result of an analysis in data files.
-/

namespace ExportAudit

def MissingImport.record (m : MissingImport) : Value :=
  .record
    [("file", .text m.file), ("line", .ofNat m.line), ("name", .text m.name), ("module", .text m.reference),
     ("resolved_target", .textOrNull m.target), ("reason", .text m.reason)]

namespace AnalysisResult

/-- The number of each kind of finding. -/
def counts (r : AnalysisResult) : List (String × Nat) :=
  [("exports", r.used.length + r.unused.length), ("used_exports", r.used.length),
   ("unused_exports", r.unused.length), ("missing_imports", r.missing.length), ("interfaces", r.interfaces.length),
   ("routes", r.routes.length), ("server_actions", r.actions.length), ("hooks", r.hooks.length),
   ("errors", r.errors.length)]

/-- The counts as a record. -/
def summary (r : AnalysisResult) : Value :=
  .record (r.counts.map fun (name, n) => (name, .ofNat n))

def record (r : AnalysisResult) : Value :=
  .record
    [("project_root", .text r.root), ("summary", r.summary), ("used_exports", .list (r.used.map Export.record)),
     ("unused_exports", .list (r.unused.map Export.record)),
     ("missing_imports", .list (r.missing.map MissingImport.record)),
     ("interfaces", .list (r.interfaces.map Interface.record)), ("routes", .list (r.routes.map Route.record)),
     ("server_actions", .list (r.actions.map Callable.record)), ("hooks", .list (r.hooks.map Callable.record)),
     ("dynamic_usages", .list (r.usages.map DynamicUsage.record)), ("errors", .texts r.errors),
     ("graph", (r.figures.map ImportGraph.Statistics.record).getD (.map []))]

end AnalysisResult

end ExportAudit
