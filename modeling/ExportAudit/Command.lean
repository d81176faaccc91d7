import ExportAudit.Command.Options
import ExportAudit.Session

/-!
# The command

What the command prints and does for given arguments. `Command.start` is everything up to the end of the first run; with
`--watch` the command then waits for changes until it is interrupted.
-/

namespace ExportAudit.Command

/-- The command after its first run. -/
structure Started where
  /-- What is printed, given how long the run took in milliseconds. -/
  output : Nat → String
  disk : Disk
  /-- The exit code, or none where the command goes on to watch. -/
  exit : Option Nat
  /-- The directory of the reports, where there was a run with a result. -/
  reports : Option String := none
  /-- The session to watch with, and its settings. -/
  watched : Option (Session × Settings) := none

/-- Milliseconds as seconds with two decimals. -/
def seconds (milliseconds : Nat) : String :=
  let hundredths := (milliseconds + 5) / 10
  toString (hundredths / 100) ++ "." ++ Text.digits 10 2 (hundredths % 100)

/-- The text of a line. -/
def line (parts : List String) : String :=
  Text.join "" parts ++ "\n"

/-- The summary of a run. -/
def summary (r : AnalysisResult) (elapsed : Nat) : String :=
  let counts := r.counts
  let count := fun name => toString ((counts.lookup name).getD 0)
  Text.join ""
    ([line ["\n[OK] Analysis complete in ", seconds elapsed, "s."],
      line ["\n[SUMMARY]:"],
      line ["   Exports: ", count "exports", " (", count "used_exports", " used, ", count "unused_exports", " unused)"],
      line ["   Missing imports: ", count "missing_imports"],
      line ["   Interfaces: ", count "interfaces"],
      line ["   Routes: ", count "routes"],
      line ["   Server actions: ", count "server_actions", "  Hooks: ", count "hooks"]] ++
      if r.errors.isEmpty then [] else [line ["   [WARN] ", count "errors", " errors/warnings, see analysis.json"]])

/-- What is printed when the watch begins. -/
def watchingText : String := line ["\n[*] Watching for changes (Ctrl+C to stop)..."]

/-- What is printed when the watch is interrupted. -/
def stoppingText : String := line ["\n[*] Stopping..."]

/-- The first run on a project with its settings. -/
def analyzeOnce (w : World) (o : Options) (root : String) (settings : Settings) : Started :=
  let session : Session := { Session.ofRoot w.disk root with settings := some settings }
  let (session, report) := session.run w none {}
  let opening := line ["[*] Analyzing project: ", root, "..."]
  match report.outcome with
  | .published r =>
    let reports := Path.join root settings.outputDir
    let closing := line ["[SAVE] Reports saved to: ", reports]
    let output := fun elapsed => opening ++ summary r elapsed ++ closing
    if o.watch then
      { output := fun elapsed => output elapsed ++ watchingText, disk := report.disk, exit := none,
        reports := some reports, watched := some (session, settings) }
    else { output := output, disk := report.disk, exit := some 0, reports := some reports }
  | outcome =>
    let messages := outcome.messages.map fun m => line ["[ERROR] ", m]
    { output := fun _ => opening ++ Text.join "" messages, disk := report.disk, exit := some 1 }

/-- The command with its options read. Settings without a message of their own are handed on. -/
def withOptions (w : World) (o : Options) : Except SettingsError Started :=
  let root := w.disk.absolute o.path
  let refuse := fun message => Except.ok { output := fun _ => line ["[ERROR] ", message], disk := w.disk, exit := some 1 }
  if !w.disk.isDirectory root then refuse ("The folder '" ++ root ++ "' does not exist.")
  else
    match Settings.load w.disk root o.config w.environment with
    | .error e =>
      match e.message? with
      | some message => refuse message
      | none => .error e
    | .ok (settings, _) =>
      let settings :=
        match o.output.filter fun directory => !directory.isEmpty with
        | some directory => { settings with outputDir := w.disk.absolute directory }
        | none => settings
      .ok (analyzeOnce w o root settings)

/-- The command up to the end of its first run. -/
def start (w : World) (arguments : List String) : Except SettingsError Started :=
  match Options.read arguments with
  | .help => .ok { output := fun _ => helpText, disk := w.disk, exit := some 0 }
  | .misuse => .ok { output := fun _ => "", disk := w.disk, exit := some 2 }
  | .options o => withOptions w o

end ExportAudit.Command
