import ExportAudit.FileTree
import ExportAudit.Journal
import ExportAudit.Json.Comments
import ExportAudit.Json.Reader
import ExportAudit.Text.Utf8

/-!
# Compiler configuration

The alias table of a project: the options `baseUrl` and `paths` of `tsconfig.json` or `jsconfig.json`, which are JSON with
comments and may extend another file.

`configChain` follows the entries `extends` from file to file, `CompilerPaths.ofChain` goes back along the chain, each
file overriding what the files that it extends have given, and `ConfigCache` remembers the table of each project root.
-/

namespace ExportAudit

/-! ## JSON with comments -/

/-- Why a configuration file cannot be used. -/
inductive ConfigFault where
  | file (e : FileError)
  | notText
  | notJson
  | notObject (path : String)
  deriving DecidableEq, Repr

/-- The fault in words. -/
def ConfigFault.message : ConfigFault → String
  | .file e => e.message
  | .notText => "the file is not UTF-8 text"
  | .notJson => "the file is not a JSON document"
  | .notObject path => path ++ " does not contain a JSON object"

/-- The text without a byte order mark. -/
def dropByteOrderMark : List Char → List Char
  | [] => []
  | c :: cs => if c.toNat == 0xFEFF then cs else c :: cs

/-- The value of a text of JSON with comments; a text that is empty without its comments is an empty object. -/
def commentedValue? (text : List Char) : Option Value :=
  match Json.strip (dropByteOrderMark (Text.unixLines text)) with
  | [] => some (.map [])
  | plain => Json.value? plain

/-- The entries of a file of JSON with comments. -/
def loadCommented (d : Disk) (path : String) : Except ConfigFault (List (Value × Value)) := do
  let bytes ← (d.read path).mapError .file
  match Text.decode? bytes with
  | none => .error .notText
  | some text =>
    match commentedValue? text with
    | none => .error .notJson
    | some (.map entries) => .ok entries
    | some _ => .error (.notObject path)

/-! ## Finding files -/

/-- The names of configuration files, the preferred one first. -/
def configFileNames : List String := ["tsconfig.json", "jsconfig.json"]

/-- The configuration file of a project. -/
def findConfigFile? (d : Disk) (root : String) : Option String :=
  (configFileNames.map (Path.join root)).find? d.isFile

/-- Where the file that an entry `extends` names may be: beside the file that extends it, or in a package. -/
def extendsCandidates (spec directory root : String) : List String :=
  if Text.startsWith spec "." || Path.isAbsolute spec then
    let base := Path.normalize (Path.join directory spec)
    [base, base ++ ".json"]
  else
    let base := Path.join (Path.join root "node_modules") spec
    [base, base ++ ".json", Path.join base "tsconfig.json"]

/-- The file that an entry `extends` names. -/
def findExtended? (d : Disk) (spec directory root : String) : Option String :=
  (extendsCandidates spec directory root).find? d.isFile

/-! ## The chain of files -/

/-- A configuration file that has been read. -/
structure ConfigFile where
  path : String
  entries : List (Value × Value)

/-- The value of an entry. -/
def ConfigFile.entry? (f : ConfigFile) (name : String) : Option Value :=
  (Value.map f.entries).field? name

/-- The file that a file extends, by name; of several the last one counts. -/
def ConfigFile.extended? (f : ConfigFile) : Option String :=
  match f.entry? "extends" with
  | some (.text s) => some s
  | some (.list items) =>
    match items.getLast? with
    | some (.text s) => some s
    | _ => none
  | _ => none

/-- The longest chain that is followed. -/
def maxChain : Nat := 10

/-- The files from `current` on, each extending the next, at most `n` of them. The chain ends at a file that is already
in it (`seen`) and at one that cannot be found. -/
def configChain (d : Disk) (root : String) : Nat → List String → String → Except ConfigFault (List ConfigFile × List Note)
  | 0, _, _ => .ok ([], [])
  | n + 1, seen, current =>
    if seen.contains current then .ok ([], [.warning ("Ignoring circular extends in " ++ current)])
    else do
      let file : ConfigFile := ⟨current, ← loadCommented d current⟩
      match file.extended? with
      | none => return ([file], [])
      | some spec =>
        match findExtended? d spec (Path.dirname current) root with
        | none => return ([file], [.warning ("Could not find extended config '" ++ spec ++ "' from " ++ current)])
        | some next =>
          let (rest, notes) ← configChain d root n (current :: seen) next
          return (file :: rest, notes)

/-! ## The alias table -/

/-- The alias table of a project: alias patterns with their targets, in the order of the file, and the directory that
targets are seen from. -/
structure CompilerPaths where
  configFile : String
  baseUrl : String
  paths : List (String × List String)
  deriving DecidableEq, Repr

/-- The options of a file; anything but an object is as good as none. -/
def ConfigFile.options (f : ConfigFile) : Value :=
  match f.entry? "compilerOptions" with
  | some (.map entries) => .map entries
  | _ => .map []

/-- Whether the options of a file are neither an object nor blank. -/
def ConfigFile.hasStrangeOptions (f : ConfigFile) : Bool :=
  match f.entry? "compilerOptions" with
  | some (.map _) => false
  | some v => !v.isBlank
  | none => false

/-- The base directory that a file gives, seen from its own directory. -/
def ConfigFile.baseUrl? (f : ConfigFile) : Option String :=
  match f.options.field? "baseUrl" with
  | some (.text url) => some (Path.normalize (Path.join (Path.dirname f.path) url))
  | _ => none

/-- The texts of a list. -/
def textsOf (items : List Value) : List String :=
  items.filterMap fun
    | .text s => some s
    | _ => none

/-- The alias table that a file gives: entries that are lists, with the texts in them. -/
def ConfigFile.paths? (f : ConfigFile) : Option (List (String × List String)) :=
  match f.options.field? "paths" with
  | some (.map entries) =>
    some (entries.filterMap fun
      | (.text key, .list targets) => some (key, textsOf targets)
      | _ => none)
  | _ => none

/-- What the files of a chain have given so far: a base directory, aliases, and the directory of the file that gave the
aliases. -/
structure ChainOptions where
  baseUrl : Option String := none
  paths : Option (List (String × List String)) := none
  aliasDirectory : Option String := none
  deriving DecidableEq, Repr

namespace ChainOptions

/-- The options with those of one more file, which override the others. -/
def override (o : ChainOptions) (f : ConfigFile) : ChainOptions :=
  { baseUrl := f.baseUrl?.or o.baseUrl
    paths := f.paths?.or o.paths
    aliasDirectory := if f.paths?.isSome then some (Path.dirname f.path) else o.aliasDirectory }

/-- The options of a chain, collected from its last file, the most basic one, to its first. -/
def ofChain (chain : List ConfigFile) : ChainOptions :=
  chain.reverse.foldl override {}

theorem ofChain_cons (f : ConfigFile) (chain : List ConfigFile) : ofChain (f :: chain) = (ofChain chain).override f := by
  simp [ofChain]

/-- The base directory is that of the first file that gives one. -/
theorem baseUrl_ofChain (chain : List ConfigFile) : (ofChain chain).baseUrl = chain.findSome? ConfigFile.baseUrl? := by
  induction chain with
  | nil => rfl
  | cons f chain ih =>
    rw [ofChain_cons, override, ih, List.findSome?_cons]
    cases f.baseUrl? <;> rfl

/-- The aliases are those of the first file that gives some. -/
theorem paths_ofChain (chain : List ConfigFile) : (ofChain chain).paths = chain.findSome? ConfigFile.paths? := by
  induction chain with
  | nil => rfl
  | cons f chain ih =>
    rw [ofChain_cons, override, ih, List.findSome?_cons]
    cases f.paths? <;> rfl

theorem aliasDirectory_ofChain (chain : List ConfigFile) :
    (ofChain chain).aliasDirectory = (chain.find? (·.paths?.isSome)).map fun f => Path.dirname f.path := by
  induction chain with
  | nil => rfl
  | cons f chain ih =>
    rw [ofChain_cons, override, ih, List.find?_cons]
    cases f.paths?.isSome <;> rfl

end ChainOptions

/-- The table of a chain. Without a base directory, targets are seen from the directory of the file that gives the
aliases. -/
def CompilerPaths.ofChain (configFile : String) (chain : List ConfigFile) : CompilerPaths :=
  let options := ChainOptions.ofChain chain
  let aliasDirectory := options.aliasDirectory.filter (· != "")
  { configFile := configFile
    baseUrl := options.baseUrl.getD (aliasDirectory.getD (Path.dirname configFile))
    paths := options.paths.getD [] }

/-- The table that a configuration file gives, and what is to be noted about its chain. -/
def readCompilerPaths (d : Disk) (configFile root : String) : Except ConfigFault (CompilerPaths × List Note) := do
  let (chain, notes) ← configChain d root maxChain [] configFile
  let strange := (chain.reverse.filter ConfigFile.hasStrangeOptions).map fun f =>
    Note.warning ("Ignoring compilerOptions in " ++ f.path ++ ": not a JSON object")
  return (.ofChain configFile chain, notes ++ strange)

/-! ## Remembering tables -/

/-- The tables that have been read, by project root, how often one was read, and the notes made. -/
structure ConfigCache where
  entries : List (String × Option CompilerPaths) := []
  reads : Nat := 0
  notes : List Note := []

/-- The table of a project root, read afresh. A configuration that cannot be used counts as none. -/
def readProjectPaths (d : Disk) (root : String) : Option CompilerPaths × List Note :=
  match findConfigFile? d root with
  | none => (none, [])
  | some file =>
    match readCompilerPaths d file root with
    | .ok (paths, notes) => (some paths, notes)
    | .error fault => (none, [.error ("Error processing compiler config " ++ file ++ ": " ++ fault.message)])

namespace ConfigCache

/-- The table of a project root, read at most once. -/
def get (c : ConfigCache) (d : Disk) (root : String) : Option CompilerPaths × ConfigCache :=
  let root := Path.normalize root
  match c.entries.lookup root with
  | some known => (known, c)
  | none =>
    let (config, notes) := readProjectPaths d root
    (config, { entries := (root, config) :: c.entries, reads := c.reads + 1, notes := c.notes ++ notes })

/-- Forgets the tables. -/
def invalidate (c : ConfigCache) : ConfigCache :=
  { c with entries := [] }

end ConfigCache

end ExportAudit
