import ExportAudit.ImportGraph
import ExportAudit.InterfaceUsage
import ExportAudit.Liveness
import ExportAudit.Resolution
import ExportAudit.UsageMatch

/-!
# Analysis

Which exports of a project are used. `analyze` takes the facts of a project, with every file named by its canonical path,

1. keeps the first export of each key (`indexExports`);
2. resolves the imports and attaches their sites to the exports they bind (`Bindings`), noting what is missing;
3. attaches run-time usages to routes, hooks and actions;
4. applies the conventions of the framework;
5. divides the exports into used and unused ones, and attaches type references to interfaces.
-/

namespace ExportAudit

/-! ## Results -/

/-- An imported name that could not be matched to an export. -/
structure MissingImport where
  file : String
  line : Nat
  name : String
  reference : String
  reason : String
  target : Option String := none
  deriving DecidableEq, Repr

/-- The outcome of an analysis. -/
structure AnalysisResult where
  root : String
  used : List Export := []
  unused : List Export := []
  missing : List MissingImport := []
  interfaces : List Interface := []
  routes : List Route := []
  actions : List ServerAction := []
  hooks : List Hook := []
  usages : List DynamicUsage := []
  errors : List String := []
  figures : Option ImportGraph.Statistics := none
  graph : ImportGraph := {}

/-! ## Exports -/

/-- A keyed item kept unless there is one of its key. -/
def keepFirst {α : Type} (kept : List (String × α)) (item : String × α) : List (String × α) :=
  if kept.any (·.1 == item.1) then kept else kept ++ [item]

/-- The first item of each key. -/
def firstByKey {α : Type} (key : α → String) (items : List α) : List α :=
  ((items.map fun a => (key a, a)).foldl keepFirst []).map (·.2)

/-- The exports of a project by their canonical files, the first of each key. -/
def indexExports (d : Disk) (exports : List Export) : List Export :=
  firstByKey Export.key (exports.map fun e => { e with file := d.real e.file })

/-- Whether an imported name means an export. A default export is meant by its local name, or by any name if it has
none. -/
def Export.answersTo (e : Export) (name : String) : Bool :=
  if !e.isDefault then e.name == name
  else
    match e.localName with
    | none => true
    | some l => l.isEmpty || l == name

/-- The position of the first export that an imported name means. -/
def matchExport? (exports : List Export) (name : String) : Option Nat :=
  exports.findIdx? (·.answersTo name)

/-! ## Imports -/

def noExportsReason : String := "target resolved but no exports parsed"

def notFoundReason : String := "export not found in target module"

/-- What the imports seen so far have led to. -/
structure Bindings where
  exports : List Export
  graph : ImportGraph := {}
  missing : List MissingImport := []
  reported : List (String × String) := []
  errors : List String := []

/-- The name under which a whole module is bound, if it is not empty. -/
def Import.namespace? (i : Import) : Option String :=
  i.namespaceName.filter (· != "")

/-- An entry for a name of an import that is missing. -/
def Import.missing (i : Import) (importer name reason : String) (target : Option String) : MissingImport :=
  { file := importer, line := i.line, name := name, reference := i.reference, reason := reason, target := target }

/-- The names that an import asks for in its module: the whole module first. -/
def Import.wanted (i : Import) : List String :=
  (i.namespace?.map ("* as " ++ ·)).toList ++ i.names.map i.lookupName

/-- The exports with a site attached to the one that an imported name means in a file. -/
def bindName (target : String) (site : Site) (exports : List Export) (name : String) : List Export :=
  match exports.findIdx? fun e => e.file == target && e.answersTo name with
  | some i => exports.modify i (·.addUsage site)
  | none => exports

/-- The exports with a site attached to all of a file. -/
def bindAll (target : String) (site : Site) (exports : List Export) : List Export :=
  exports.map fun e => if e.file == target then e.addUsage site else e

/-- The exports with the sites of an import attached. -/
def bindImport (target : String) (site : Site) (i : Import) (exports : List Export) : List Export :=
  let exports := if i.namespace?.isSome then bindAll target site exports else exports
  (i.names.map i.lookupName).foldl (bindName target site) exports

/-- The names of a resolved import that are missing in its target. -/
def missingNames (exports : List Export) (target importer : String) (i : Import) : List MissingImport :=
  let own := exports.filter (·.file == target)
  if own.isEmpty then i.wanted.map fun name => i.missing importer name noExportsReason (some target)
  else
    ((i.names.map i.lookupName).filter fun name => (matchExport? own name).isNone).map fun name =>
      i.missing importer name notFoundReason (some target)

/-- What one resolved or failed import adds. -/
def Bindings.add (d : Disk) (root importer : String) (i : Import) (r : Resolution) (b : Bindings) : Bindings :=
  match r.destination with
  | .file target =>
    { b with
      exports := bindImport target ⟨importer, i.line⟩ i b.exports
      graph := b.graph.addImport importer target i.line i.reference
      missing := b.missing ++ missingNames b.exports target importer i }
  | .failure reason detail =>
    if reason.isExternal then b
    else
      let key := (i.reference, importer)
      let error := "Module resolution failed for '" ++ i.reference ++ "' in " ++ Path.display d.cwd root importer ++ ": " ++
        detail
      { b with
        missing := b.missing ++ i.wanted.map fun name => i.missing importer name detail none
        reported := if b.reported.contains key then b.reported else key :: b.reported
        errors := if b.reported.contains key then b.errors else b.errors ++ [error] }

/-- Resolves imports in turn. -/
def bindImports (d : Disk) (root : String) : List Import → Bindings → Resolver → Bindings × Resolver
  | [], b, resolver => (b, resolver)
  | i :: rest, b, resolver =>
    let importer := d.real i.file
    let (answer, resolver) := resolver.resolve d i.reference importer
    let b := { b with graph := b.graph.addFile importer }
    bindImports d root rest (b.add d root importer i answer) resolver

/-! ## Order -/

/-- Compares by a first criterion, then by a second. -/
def thenLe {α β : Type} [BEq β] [LT β] [DecidableLT β] (key : α → β) (rest : α → α → Bool) (a b : α) : Bool :=
  if key a == key b then rest a b else decide (key a < key b)

def Export.usedLe : Export → Export → Bool :=
  thenLe (·.file) (thenLe (·.name) fun a b => !a.isDefault || b.isDefault)

def Export.unusedLe : Export → Export → Bool :=
  thenLe (·.file) (thenLe (·.line) fun a b => decide (a.name ≤ b.name))

def Interface.le : Interface → Interface → Bool :=
  thenLe (·.name) (thenLe (·.file) fun a b => decide (a.line ≤ b.line))

def MissingImport.le : MissingImport → MissingImport → Bool :=
  thenLe (·.file) (thenLe (·.line) fun a b => decide (a.name ≤ b.name))

/-- Sites by file and line. -/
def Site.le : Site → Site → Bool :=
  thenLe (·.file) fun a b => decide (a.line ≤ b.line)

/-- Sites of the framework first, then by file and line. -/
def Site.frameworkLe (a b : Site) : Bool :=
  if a.isFramework == b.isFramework then a.le b else a.isFramework

/-! ## The analysis -/

/-- An item put in the place of the one with its key, or at the end. -/
def putByKey {α : Type} (key : α → String) (a : α) : List α → List α
  | [] => [a]
  | b :: rest => if key b == key a then a :: rest else b :: putByKey key a rest

/-- The last item of each key, in the place of the first. -/
def lastByKey {α : Type} (key : α → String) (items : List α) : List α :=
  items.foldl (fun kept a => putByKey key a kept) []

/-- The interfaces of a project with the references to them, in order. -/
def usedInterfaces (d : Disk) (facts : ProjectFacts) : List Interface :=
  let declared := facts.interfaces.map fun i => { i with file := d.real i.file }
  let references := facts.typeReferences.map fun r => { r with site := ⟨d.real r.site.file, r.site.line⟩ }
  let attached := (attachReferences declared references).1.map fun i => { i with usedBy := i.usedBy.mergeSort Site.le }
  lastByKey Interface.key (attached.mergeSort Interface.le)

/-- The declarations that run-time usages may refer to. -/
def usageTargets (d : Disk) (facts : ProjectFacts) : UsageTargets :=
  { routes := facts.routes.map fun r => { r with file := d.real r.file }
    hooks := facts.hooks.map fun h => { h with file := d.real h.file }
    actions := facts.actions.map fun a => { a with file := d.real a.file } }

/-- The result of an analysis, once the imports are bound and the run-time usages attached. -/
def conclude (d : Disk) (root : String) (rules : List Rule) (facts : ProjectFacts) (b : Bindings) (t : UsageTargets)
    (usages : List DynamicUsage) : AnalysisResult :=
  let context : LivenessContext :=
    { cwd := d.cwd, root := root, routes := t.routes, actions := t.actions, hooks := t.hooks }
  let exports := (applyRules context rules b.exports).1
  let used := (exports.filter Export.isUsed).mergeSort Export.usedLe
  { root := root
    used := used.map fun e => { e with usedBy := e.usedBy.mergeSort Site.frameworkLe }
    unused := (exports.filter (!·.isUsed)).mergeSort Export.unusedLe
    missing := b.missing.mergeSort MissingImport.le
    interfaces := usedInterfaces d facts
    routes := t.routes
    actions := t.actions
    hooks := t.hooks
    usages := usages
    errors := sortTexts b.errors ++ facts.errors
    figures := some (b.graph.statistics (ImportGraph.shownFrom d.cwd root))
    graph := b.graph }

/-- Analyses the facts of a project whose root is canonical. A target of a network call that is no URL is an error; the
resolver is handed on either way. -/
def analyze (d : Disk) (root : String) (rules : List Rule) (facts : ProjectFacts) (resolver : Resolver) :
    Except Url.Fault AnalysisResult × Resolver :=
  let exports := indexExports d facts.exports
  let start : Bindings := { exports := exports, graph := exports.foldl (fun g e => g.addFile e.file) {} }
  let (b, resolver) := bindImports d root facts.imports start resolver.reset
  let usages := facts.usages.map fun u => { u with file := d.real u.file }
  let result := ((usageTargets d facts).attach usages).map fun (t, _) => conclude d root rules facts b t usages
  (result, resolver)

end ExportAudit
