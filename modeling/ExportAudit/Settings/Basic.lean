import ExportAudit.Value

/-!
# Settings

The settings of a project and their defaults.
-/

namespace ExportAudit

/-- Changes to the conventions of the framework: rules that are switched off, and names added to the built-in ones. -/
structure LivenessSettings where
  disabledRules : List String := []
  pageFileStems : List String := []
  specialExportNames : List String := []
  actionsDirectories : List String := []
  routeRoots : List String := []
  deriving DecidableEq, Repr

def defaultExcludedFolders : List String :=
  ["node_modules", ".next", ".git", "dist", "out", ".vscode", ".cursor", ".vibesync", ".dependencies"]

/-- The settings of a project. -/
structure Settings where
  excludedFolders : List String := defaultExcludedFolders
  debounceDelayMs : Int := 2000
  pollingIntervalSeconds : Int := 60
  enablePolling : Bool := false
  outputDir : String := ".dependencies"
  maxFiles : Int := 20000
  maxFileSizeBytes : Int := 2097152
  liveness : LivenessSettings := {}
  deriving DecidableEq, Repr

def LivenessSettings.record (s : LivenessSettings) : Value :=
  .record
    [("disabled_rules", .texts s.disabledRules), ("page_file_stems", .texts s.pageFileStems),
     ("special_export_names", .texts s.specialExportNames), ("actions_directories", .texts s.actionsDirectories),
     ("route_roots", .texts s.routeRoots)]

def Settings.record (s : Settings) : Value :=
  .record
    [("excluded_folders", .texts s.excludedFolders), ("debounce_delay_ms", .int s.debounceDelayMs),
     ("polling_interval_seconds", .int s.pollingIntervalSeconds), ("enable_polling", .bool s.enablePolling),
     ("output_dir", .text s.outputDir), ("max_files", .int s.maxFiles),
     ("max_file_size_bytes", .int s.maxFileSizeBytes), ("liveness", s.liveness.record)]

end ExportAudit
