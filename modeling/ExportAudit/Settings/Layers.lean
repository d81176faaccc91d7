import ExportAudit.FileTree
import ExportAudit.Journal
import ExportAudit.Settings.Basic
import ExportAudit.Yaml.Document

/-!
# Layers of settings

The settings of a project are the defaults, overridden by its settings file, overridden by environment variables, and
raised to their least values (`Settings.load`). An entry of the wrong kind is ignored with a warning, so a layer either
gives a field a value of its kind or leaves it as it was (`Setting.put?`).
-/

namespace ExportAudit

/-! ## Fields -/

/-- The kind of values that a field takes. -/
inductive SettingKind where
  | texts
  | int
  | bool
  | text
  deriving DecidableEq, Repr

def SettingKind.label : SettingKind → String
  | .texts => "list"
  | .int => "int"
  | .bool => "bool"
  | .text => "str"

/-- A field of the settings besides those on liveness. -/
inductive Setting where
  | excludedFolders
  | debounceDelayMs
  | pollingIntervalSeconds
  | enablePolling
  | outputDir
  | maxFiles
  | maxFileSizeBytes
  deriving DecidableEq, Repr

namespace Setting

def all : List Setting :=
  [.excludedFolders, .debounceDelayMs, .pollingIntervalSeconds, .enablePolling, .outputDir, .maxFiles, .maxFileSizeBytes]

def name : Setting → String
  | .excludedFolders => "excluded_folders"
  | .debounceDelayMs => "debounce_delay_ms"
  | .pollingIntervalSeconds => "polling_interval_seconds"
  | .enablePolling => "enable_polling"
  | .outputDir => "output_dir"
  | .maxFiles => "max_files"
  | .maxFileSizeBytes => "max_file_size_bytes"

def kind : Setting → SettingKind
  | .excludedFolders => .texts
  | .enablePolling => .bool
  | .outputDir => .text
  | _ => .int

/-- The field of a name. -/
def ofName? (name : String) : Option Setting :=
  all.find? (·.name == name)

/-- The variable that sets a field. -/
def variableName (f : Setting) : String :=
  "DEPENDENCY_TRACKER_" ++ String.ofList (f.name.toList.map Char.toUpper)

/-- The least value of a field that has one. -/
def minimum? : Setting → Option Int
  | .debounceDelayMs => some 500
  | .pollingIntervalSeconds => some 10
  | .maxFiles | .maxFileSizeBytes => some 1
  | _ => none

/-- The text of a text value. -/
def textOf? : Value → Option String
  | .text s => some s
  | _ => none

/-- The texts of a list of texts. -/
def textsOf? : Value → Option (List String)
  | .list items => items.mapM textOf?
  | _ => none

/-- The settings with a field set to a value of its kind. -/
def put? (f : Setting) (v : Value) (s : Settings) : Option Settings :=
  match f, v with
  | .excludedFolders, v => (textsOf? v).map fun ts => { s with excludedFolders := ts }
  | .debounceDelayMs, .int n => some { s with debounceDelayMs := n }
  | .pollingIntervalSeconds, .int n => some { s with pollingIntervalSeconds := n }
  | .enablePolling, .bool b => some { s with enablePolling := b }
  | .outputDir, .text t => some { s with outputDir := t }
  | .maxFiles, .int n => some { s with maxFiles := n }
  | .maxFileSizeBytes, .int n => some { s with maxFileSizeBytes := n }
  | _, _ => none

/-- The value of a field. -/
def get (f : Setting) (s : Settings) : Value :=
  match f with
  | .excludedFolders => .texts s.excludedFolders
  | .debounceDelayMs => .int s.debounceDelayMs
  | .pollingIntervalSeconds => .int s.pollingIntervalSeconds
  | .enablePolling => .bool s.enablePolling
  | .outputDir => .text s.outputDir
  | .maxFiles => .int s.maxFiles
  | .maxFileSizeBytes => .int s.maxFileSizeBytes

end Setting

/-- The liveness settings with a list set, if there is one of that name. -/
def LivenessSettings.put? (name : String) (ts : List String) (s : LivenessSettings) : Option LivenessSettings :=
  match name with
  | "disabled_rules" => some { s with disabledRules := ts }
  | "page_file_stems" => some { s with pageFileStems := ts }
  | "special_export_names" => some { s with specialExportNames := ts }
  | "actions_directories" => some { s with actionsDirectories := ts }
  | "route_roots" => some { s with routeRoots := ts }
  | _ => none

/-! ## Keys in warnings -/

/-- A day in a text. -/
def Day.text (d : Day) : String :=
  Text.join "-" [Text.digits 10 4 d.year, Text.digits 10 2 d.month, Text.digits 10 2 d.day]

/-- An offset from universal time in a text. -/
def offsetText (seconds : Int) : String :=
  let n := seconds.natAbs
  let parts := [n / 3600, n / 60 % 60] ++ (if n % 60 == 0 then [] else [n % 60])
  (if seconds < 0 then "-" else "+") ++ Text.join ":" (parts.map (Text.digits 10 2))

/-- A point in time in a text. -/
def Moment.text (m : Moment) : String :=
  let clock := Text.join ":" ([m.hour, m.minute, m.second].map (Text.digits 10 2))
  let fraction := if m.microsecond == 0 then "" else "." ++ Text.digits 10 6 m.microsecond
  let zone :=
    match m.zone with
    | .unspecified => ""
    | .utc => "+00:00"
    | .offset s => offsetText s
  m.day.text ++ " " ++ clock ++ fraction ++ zone

/-- A key in a warning: texts and times without quotes. -/
def Value.keyText : Value → String
  | .text s => s
  | .day d => d.text
  | .moment m => m.text
  | v => v.shown

namespace Settings

/-! ## One layer -/

/-- Settings and the warnings about what was ignored on the way to them. -/
abbrev Layered (α : Type) := α × List Note

/-- One entry of the section on liveness. -/
def applyLivenessEntry (source : String) (state : Layered LivenessSettings) (entry : Value × Value) :
    Layered LivenessSettings :=
  let (s, notes) := state
  let warn := fun parts => (s, notes ++ [Note.warning (Text.join "" parts)])
  let shown := entry.1.keyText
  match (Setting.textOf? entry.1).bind fun name => s.put? name [] with
  | none => warn ["Unknown liveness setting '", shown, "' in ", source, " ignored"]
  | some _ =>
    match (Setting.textsOf? entry.2).bind fun ts => s.put? shown ts with
    | none => warn ["Liveness setting '", shown, "' in ", source, " must be a list of strings; ignored"]
    | some s' => (s', notes)

/-- The section on liveness. -/
def applyLiveness (source : String) (v : Value) (s : LivenessSettings) : Layered LivenessSettings :=
  match v with
  | .map entries => entries.foldl (applyLivenessEntry source) (s, [])
  | _ => (s, [.warning ("Setting 'liveness' in " ++ source ++ " must be a mapping; ignored")])

/-- One entry of a layer. -/
def applyEntry (source : String) (state : Layered Settings) (entry : Value × Value) : Layered Settings :=
  let (s, notes) := state
  let warn := fun parts => (s, notes ++ [Note.warning (Text.join "" parts)])
  let shown := entry.1.keyText
  if Setting.textOf? entry.1 == some "liveness" then
    let (liveness, found) := applyLiveness source entry.2 s.liveness
    ({ s with liveness := liveness }, notes ++ found)
  else
    match (Setting.textOf? entry.1).bind Setting.ofName? with
    | none => warn ["Unknown setting '", shown, "' in ", source, " ignored"]
    | some f =>
      match f.put? entry.2 s with
      | some s' => (s', notes)
      | none =>
        warn ["Setting '", shown, "' in ", source, " must be ", f.kind.label, ", got ", entry.2.shown, "; ignored"]

/-- The entries of a layer, in order. -/
def applyValues (source : String) (entries : List (Value × Value)) (s : Settings) : Layered Settings :=
  entries.foldl (applyEntry source) (s, [])

/-! ## Least values -/

/-- Raises one field to its least value. -/
def raiseField (state : Layered Settings) (f : Setting) : Layered Settings :=
  let (s, notes) := state
  match f.minimum?, f.get s with
  | some least, .int n =>
    if n < least then
      let bound := toString least
      ((f.put? (.int least) s).getD s,
        notes ++ [.warning (Text.join "" ["Setting '", f.name, "' below minimum ", bound, ", using ", bound])])
    else (s, notes)
  | _, _ => (s, notes)

/-- Raises every field to its least value. -/
def raise (s : Settings) : Layered Settings :=
  Setting.all.foldl raiseField (s, [])

/-! ## The environment -/

/-- The value of a variable for a field of a kind; a text that the kind does not know stays a text. -/
def variableValue (kind : SettingKind) (raw : String) : Value :=
  match kind with
  | .texts => .texts (((Text.splitOn ',' raw).map (Text.strip Text.isBlank)).filter (!·.isEmpty))
  | .bool =>
    let word := Text.lowerAscii (Text.strip Text.isBlank raw)
    if ["1", "true", "yes", "on"].contains word then .bool true
    else if ["0", "false", "no", "off"].contains word then .bool false
    else .text raw
  | .int => ((Text.readInt? raw).map Value.int).getD (.text raw)
  | .text => .text raw

/-- The fields that variables set. -/
def environmentValues (environment : List (String × String)) : List (Value × Value) :=
  Setting.all.filterMap fun f =>
    (environment.lookup f.variableName).map fun raw => (.text f.name, variableValue f.kind raw)

end Settings

/-! ## Files -/

/-- Why settings cannot be had. -/
inductive SettingsError where
  | unreadable (path problem : String)
  | notMapping (path : String)
  | notFound (path : String)
  /-- The file is not UTF-8 text. -/
  | notText (path : String)
  /-- The file is YAML, and a scalar in it has no value. -/
  | noValue (fault : Yaml.Fault)
  deriving DecidableEq, Repr

/-- The text for the user, where there is one. -/
def SettingsError.message? : SettingsError → Option String
  | .unreadable path problem => some (Text.join "" ["Cannot read settings file ", path, ": ", problem])
  | .notMapping path => some ("Settings file " ++ path ++ " must contain a mapping")
  | .notFound path => some ("Settings file not found: " ++ path)
  | .notText _ | .noValue _ => none

namespace Settings

/-- The name of the settings file in a project. -/
def fileName : String := ".dependency-tracker.yaml"

/-- The entries of the text of a settings file. -/
def entriesOf (path : String) (text : Yaml.Source) : Except SettingsError (List (Value × Value)) :=
  match Yaml.read text with
  | .error (.malformed problem) => .error (.unreadable path problem)
  | .error .notText => .error (.notText path)
  | .error fault => .error (.noValue fault)
  | .ok .null => .ok []
  | .ok (.map entries) => .ok entries
  | .ok _ => .error (.notMapping path)

/-- The entries of a settings file. -/
def entriesAt (d : Disk) (path : String) : Except SettingsError (List (Value × Value)) :=
  match d.read path with
  | .error e => .error (.unreadable path e.message)
  | .ok bytes => entriesOf path (.ofBytes bytes)

/-- The settings with the layer of a settings file: the given one, or the one in the project if it is there. -/
def applyFile (d : Disk) (root : String) (file? : Option String) (s : Settings) :
    Except SettingsError (Layered Settings) :=
  let path := file?.getD (Path.join root fileName)
  if d.isFile path then (entriesAt d path).map fun entries => applyValues path entries s
  else
    match file? with
    | some given => .error (.notFound given)
    | none => .ok (s, [])

/-- The settings of a project: defaults, file, environment, least values. -/
def load (d : Disk) (root : String) (file? : Option String) (environment : List (String × String)) :
    Except SettingsError (Layered Settings) := do
  let given := file?.filter fun path => !path.isEmpty
  let (s, fileNotes) ← applyFile d root given {}
  let (s, variableNotes) := applyValues "environment" (environmentValues environment) s
  let (s, raised) := s.raise
  pure (s, fileNotes ++ variableNotes ++ raised)

end Settings

end ExportAudit
