import ExportAudit.CompilerConfig

/-!
# Module resolution

Which file a module reference means, seen from the file that imports it: `./x` and `../x` are searched beside the
importing file, anything else through the alias table, and what no alias covers is an external package.

`probe` searches a path with the extensions of source files and as a directory with an index file; it counts the tests
it makes. `Resolver` remembers its answers until it is reset.
-/

namespace ExportAudit

/-! ## References and aliases -/

/-- References that begin at the importing file. -/
def isRelative (reference : String) : Bool :=
  reference == "." || reference == ".." || Text.startsWith reference "./" || Text.startsWith reference "../"

/-- The directory of installed packages. -/
def vendorDirectory : String := "node_modules"

/-- Whether a path lies in a directory of installed packages. -/
def inVendorDirectory (path : String) : Bool :=
  (Path.segments (Path.normalize path)).contains vendorDirectory

/-- A reference matched by an alias: the key, what its star stands for, and the length of the text that had to agree. -/
structure AliasMatch where
  key : String
  capture : String
  weight : Nat
  deriving DecidableEq, Repr

/-- How one key of the table matches a reference. -/
def matchKey? (reference key : String) : Option AliasMatch :=
  match Text.cut? '*' key with
  | some (before, after) =>
    if Text.startsWith reference before && Text.endsWith reference after &&
        before.length + after.length ≤ reference.length then
      some ⟨key, Text.dropEnd (Text.drop reference before.length) after.length, before.length⟩
    else none
  | none => if reference == key then some ⟨key, "", key.length⟩ else none

/-- The better of two matches: the heavier one, and the first of two equal ones. -/
def AliasMatch.better (best : Option AliasMatch) (m : AliasMatch) : Option AliasMatch :=
  match best with
  | none => some m
  | some b => if b.weight < m.weight then some m else some b

/-- The best match among keys. -/
def matchAlias? (reference : String) (keys : List String) : Option AliasMatch :=
  (keys.filterMap (matchKey? reference)).foldl AliasMatch.better none

/-! ## Searching files -/

/-- The extensions of source files, in the order in which they are tried. -/
def sourceExtensions : List String := [".ts", ".tsx", ".js", ".jsx"]

/-- The extensions that are tried in place of one that is written. -/
def swappedExtensions (ext : String) : List String :=
  if ext == ".js" then [".ts", ".tsx"] else if ext == ".jsx" then [".tsx"] else []

/-- The spellings of a path that are tried first. -/
def directSpellings (path : String) : List String :=
  let (stem, ext) := Path.splitExtension path
  if sourceExtensions.contains ext then path :: (swappedExtensions ext).map (stem ++ ·)
  else sourceExtensions.map (path ++ ·)

/-- The index files of a directory. -/
def indexFiles (directory : String) : List String :=
  sourceExtensions.map fun ext => Path.join directory ("index" ++ ext)

/-- What a search finds, and the number of tests it makes. -/
structure Probe where
  found : Option String
  isAsset : Bool
  tests : Nat
  deriving DecidableEq, Repr

/-- The first of some paths that is a file, after a number of tests. -/
def firstFile (d : Disk) (tests : Nat) : List String → Option String × Nat
  | [] => (none, tests)
  | p :: ps => if d.isFile p then (some p, tests + 1) else firstFile d (tests + 1) ps

/-- The file that a path means: a spelling of it, an index file in it, or, if its extension is no source extension, the
path itself as an asset. -/
def probe (d : Disk) (path : String) : Probe :=
  match firstFile d 0 (directSpellings path) with
  | (some p, n) => ⟨some p, false, n⟩
  | (none, n) =>
    match if d.isDirectory path then firstFile d (n + 1) (indexFiles path) else (none, n + 1) with
    | (some p, n) => ⟨some p, false, n⟩
    | (none, n) =>
      if sourceExtensions.contains (Path.extension path) then ⟨none, false, n⟩
      else if d.isFile path then ⟨some path, true, n + 1⟩
      else ⟨none, false, n + 1⟩

/-! ## Resolutions -/

/-- Why a reference leads to no file of the project. -/
inductive FailureReason where
  | relativeFailed
  | aliasFailed
  | vendor
  | external
  | asset
  deriving DecidableEq, Repr

namespace FailureReason

def label : FailureReason → String
  | .relativeFailed => "relative path resolution failed"
  | .aliasFailed => "alias resolution failed"
  | .vendor => "external via node_modules"
  | .external => "not relative, not aliased"
  | .asset => "non-source asset"

/-- Failures that are expected and never reported as missing imports. -/
def isExternal : FailureReason → Bool
  | .vendor | .external | .asset => true
  | .relativeFailed | .aliasFailed => false

end FailureReason

/-- How a reference was treated. -/
inductive Strategy where
  | relative
  | alias
  | external
  deriving DecidableEq, Repr

def Strategy.label : Strategy → String
  | .relative => "relative"
  | .alias => "alias"
  | .external => "external"

/-- Where a reference leads. -/
inductive Destination where
  | file (path : String)
  | failure (reason : FailureReason) (detail : String)
  deriving DecidableEq, Repr

/-- The answer to one reference from one file. -/
structure Resolution where
  reference : String
  file : String
  strategy : Strategy
  destination : Destination
  deriving DecidableEq, Repr

/-- The file that a resolution leads to. -/
def Resolution.path? (r : Resolution) : Option String :=
  match r.destination with
  | .file p => some p
  | .failure _ _ => none

/-- Whether a resolution leads out of the project. -/
def Resolution.isExternal (r : Resolution) : Bool :=
  match r.destination with
  | .file _ => false
  | .failure reason _ => reason.isExternal

/-- The failure of a reference to a file that is no module. -/
def assetFailure (reference : String) : Destination :=
  .failure .asset ("'" ++ reference ++ "' is not a source module")

/-- A relative reference, and the number of tests made. -/
def resolveRelative (d : Disk) (reference file : String) : Resolution × Nat :=
  let p := probe d (Path.normalize (Path.join (Path.dirname file) reference))
  let answer : Strategy × Destination :=
    match p.found with
    | none =>
      (.relative, .failure .relativeFailed
        ("Relative path resolution failed: cannot find file or index for '" ++ reference ++ "'"))
    | some path =>
      if inVendorDirectory path then (.external, .failure .vendor "Relative path resolved into node_modules")
      else if p.isAsset then (.external, assetFailure reference)
      else (.relative, .file (d.real path))
  (⟨reference, file, answer.1, answer.2⟩, p.tests)

/-- The first star of a target replaced by what the star of its key stands for. -/
def fillStar (target capture : String) : String :=
  match Text.cut? '*' target with
  | some (before, after) => before ++ capture ++ after
  | none => target

/-- What the search for a target of an alias decides: nothing if it ends without a file or among installed packages. -/
def Probe.decision? (d : Disk) (reference : String) (p : Probe) : Option (Strategy × Destination) :=
  match p.found with
  | none => none
  | some path =>
    if inVendorDirectory path then none
    else if p.isAsset then some (.external, assetFailure reference)
    else some (.alias, .file (d.real path))

/-- The targets of an alias in turn: the first whose search decides gives the answer. -/
def resolveTargets (d : Disk) (baseUrl reference capture : String) (tests : Nat) :
    List String → Option (Strategy × Destination) × Nat
  | [] => (none, tests)
  | target :: rest =>
    let p := probe d (Path.normalize (Path.join baseUrl (fillStar target capture)))
    let answer := p.decision? d reference
    if answer.isSome then (answer, tests + p.tests)
    else resolveTargets d baseUrl reference capture (tests + p.tests) rest

/-- The failure of a reference that no alias covers. -/
def externalFailure : Destination :=
  .failure .external "Module is not relative and not resolved via tsconfig paths (likely external)"

/-- A reference through the alias table, and the number of tests made. -/
def resolveAlias (d : Disk) (config : Option CompilerPaths) (reference file : String) : Resolution × Nat :=
  match config with
  | none => (⟨reference, file, .external, externalFailure⟩, 0)
  | some c =>
    match matchAlias? reference (c.paths.map (·.1)) with
    | none => (⟨reference, file, .external, externalFailure⟩, 0)
    | some m =>
      match resolveTargets d c.baseUrl reference m.capture 0 ((c.paths.lookup m.key).getD []) with
      | (some (strategy, destination), tests) => (⟨reference, file, strategy, destination⟩, tests)
      | (none, tests) =>
        (⟨reference, file, .alias, .failure .aliasFailed
          ("Alias resolution failed: path mapping '" ++ m.key ++ "' for '" ++ reference ++
            "' did not lead to an existing file")⟩, tests)

/-! ## Resolvers -/

/-- How much work a resolver has done. -/
structure ResolverStats where
  lookups : Nat := 0
  hits : Nat := 0
  probes : Nat := 0
  deriving DecidableEq, Repr

/-- A resolver for one project: its alias tables, the answers it has given by reference and importing file, and its
counts. -/
structure Resolver where
  root : String
  configs : ConfigCache := {}
  answers : List ((String × String) × Resolution) := []
  stats : ResolverStats := {}

namespace Resolver

/-- A resolver for the project at a root. -/
def ofRoot (root : String) (configs : ConfigCache) : Resolver :=
  { root := Path.normalize root, configs := configs }

/-- Forgets the answers and the alias tables. -/
def reset (r : Resolver) : Resolver :=
  { r with configs := r.configs.invalidate, answers := [], stats := {} }

/-- The answer to a reference that is not remembered: the answer, the alias tables after it, and the tests made. -/
def search (r : Resolver) (d : Disk) (reference file : String) : Resolution × ConfigCache × Nat :=
  if isRelative reference then
    let (answer, tests) := resolveRelative d reference file
    (answer, r.configs, tests)
  else
    let (config, configs) := r.configs.get d r.root
    let (answer, tests) := resolveAlias d config reference file
    (answer, configs, tests)

/-- The answer to a reference; the same question is answered from memory. -/
def resolve (r : Resolver) (d : Disk) (reference file : String) : Resolution × Resolver :=
  let key := (reference, Path.normalize file)
  match r.answers.lookup key with
  | some known =>
    (known, { r with stats := { r.stats with lookups := r.stats.lookups + 1, hits := r.stats.hits + 1 } })
  | none =>
    let (answer, configs, tests) := r.search d reference file
    (answer,
      { r with
        configs := configs
        answers := (key, answer) :: r.answers
        stats := { r.stats with lookups := r.stats.lookups + 1, probes := r.stats.probes + tests } })

end Resolver

end ExportAudit
