import ExportAudit.Discovery
import ExportAudit.Project
import ExportAudit.Report
import ExportAudit.Settings.Layers

/-!
# Sessions

A session runs the analysis of one project again and again: discovery, extraction, analysis, reports. At most one run is
active at a time, and a run that is asked for meanwhile is skipped. A run publishes its result as a whole or not at all:
`Session.run` keeps the last result unless it has a new one, and tells the user of exactly the runs that fail.

While a run goes on, requests to stop may arrive and anything may go wrong (`Disturbance`). A request sets a flag of the
session (`Steps.moment`); the run looks at the flag before every directory, before every file, before the analysis and
before it publishes (`Steps.poll`).
-/

namespace ExportAudit

/-- What surrounds a run. -/
structure World where
  disk : Disk
  environment : List (String × String) := []
  /-- The time that files get when they are written. -/
  time : Int := 0
  /-- How long a run takes, in milliseconds. -/
  elapsed : Nat := 0

/-- A session: the project, how its settings are found, and what the runs so far have left. -/
structure Session where
  root : String
  /-- Fixed settings; without them every run reads the settings of the project. -/
  settings : Option Settings := none
  settingsFile : Option String := none
  writesReports : Bool := true
  configs : ConfigCache := {}
  isRunning : Bool := false
  cancelRequested : Bool := false
  lastResult : Option AnalysisResult := none
  /-- How long the last published run took, in milliseconds. -/
  lastElapsed : Option Nat := none

/-! ## Calls from outside -/

namespace Session

/-- A session on a project. -/
def ofRoot (d : Disk) (root : String) : Session :=
  { root := d.absolute root }

/-- Asks the active run to stop. -/
def cancel (s : Session) : Session :=
  { s with cancelRequested := true }

/-- Takes the run lock. -/
def hold (s : Session) : Session :=
  { s with isRunning := true }

/-- Frees the run lock. -/
def release (s : Session) : Session :=
  { s with isRunning := false }

end Session

/-! ## Runs -/

/-- The moments of a run at which something can come from outside. -/
inductive Checkpoint where
  /-- The settings are asked for. -/
  | settings
  /-- A directory has been looked at, by its number in the walk. -/
  | walked (number : Nat)
  /-- A file has been read, by its number among the files. -/
  | read (number : Nat)
  /-- All files have been read. -/
  | parsed
  /-- There is a result. -/
  | analyzed
  /-- The result is about to be published. -/
  | publishing
  deriving DecidableEq, Repr

/-- Why a run fails. -/
inductive RunFailure where
  | discovery (error : DiscoveryError)
  | settings (message : String)
  | unexpected
  deriving DecidableEq, Repr

/-- What happens to a run from outside. -/
structure Disturbance where
  /-- When the run is asked to stop. -/
  cancelAt : List Checkpoint := []
  /-- What goes wrong at some moments, for reasons that are not the run's. -/
  failAt : List (Checkpoint × RunFailure) := []

/-- What a run comes to. -/
inductive RunOutcome where
  | skipped
  | cancelled
  | failed (failure : RunFailure)
  | published (result : AnalysisResult)

/-- The published result. -/
def RunOutcome.result? : RunOutcome → Option AnalysisResult
  | .published r => some r
  | _ => none

/-- The message to the user about a failed run. -/
def RunFailure.message : RunFailure → String
  | .discovery e => "Could not find project files. " ++ e.message
  | .settings message => message
  | .unexpected => "An unexpected error occurred. Check the log for details."

/-- The note about a failed run. -/
def RunFailure.note : RunFailure → Note
  | .discovery e => .error ("File discovery failed: " ++ e.message)
  | .settings message => .error ("Invalid settings: " ++ message)
  | .unexpected => .error "An unexpected error occurred during the dependency analysis cycle"

/-- The messages to the user about a run: one about a failure, none otherwise. -/
def RunOutcome.messages : RunOutcome → List String
  | .failed f => [f.message]
  | _ => []

/-- The note about the end of a run. -/
def RunOutcome.endNotes : RunOutcome → List Note
  | .failed f => [f.note]
  | _ => []

/-- The stages of a run before which it looks whether it has been asked to stop. -/
inductive Stage where
  /-- A directory is looked at. -/
  | discovery
  /-- A file is read. -/
  | extraction
  | analysis
  | publishing
  deriving DecidableEq, Repr

/-- What is said of a run that stops before a stage. -/
def Stage.message : Stage → String
  | .discovery => "Cancelled during file discovery"
  | .extraction => "Cancelled during extraction"
  | .analysis => "Cancelled before analysis"
  | .publishing => "Cancelled before publishing"

/-- Why a run ends without a result. -/
inductive Stop where
  | cancelled (stage : Stage)
  | failed (failure : RunFailure)

/-- What a run changes while it goes on. -/
structure Progress where
  session : Session
  disk : Disk
  notes : List Note := []
  /-- The moments that the run has come to. -/
  moments : List Checkpoint := []

/-- The steps of a run. What has changed stays changed when a step ends the run. -/
abbrev Steps := ExceptT Stop (StateM Progress)

namespace Steps

def note (notes : List Note) : Steps Unit :=
  modify fun p => { p with notes := p.notes ++ notes }

def fail {α : Type} (f : RunFailure) : Steps α :=
  throw (.failed f)

/-- A moment of a run: a request to stop may arrive, and something may go wrong. -/
def moment (disturbance : Disturbance) (c : Checkpoint) : Steps Unit := do
  modify fun p =>
    { p with
      session := if disturbance.cancelAt.contains c then p.session.cancel else p.session
      moments := p.moments ++ [c] }
  match disturbance.failAt.lookup c with
  | some f => fail f
  | none => pure ()

/-- Ends the run before a stage if it has been asked to stop. -/
def poll (stage : Stage) : Steps Unit := do
  if (← get).session.cancelRequested then throw (.cancelled stage) else pure ()

/-- The settings of a run. -/
def settings (s : Session) (w : World) (disturbance : Disturbance) : Steps Settings := do
  moment disturbance .settings
  match s.settings with
  | some fixed => pure fixed
  | none =>
    match Settings.load w.disk s.root s.settingsFile w.environment with
    | .ok (settings, notes) =>
      note notes
      pure settings
    | .error e =>
      match e.message? with
      | some message => fail (.settings message)
      | none => fail .unexpected

/-- Forgets the alias tables. -/
def forgetTables : Steps Unit :=
  modify fun p => { p with session := { p.session with configs := p.session.configs.invalidate } }

/-- What is found, or the failure of the run. -/
def found {α : Type} : Except DiscoveryError α → Steps α
  | .ok a => pure a
  | .error e => fail (.discovery e)

/-- Looks at directories in turn and gathers their files. -/
def walk (settings : Settings) (disturbance : Disturbance) : Nat → List (List String) → List String → Steps (List String)
  | _, [], files => pure files
  | number, own :: rest, files => do
    poll .discovery
    found (checkCount settings (files ++ own))
    moment disturbance (.walked number)
    walk settings disturbance (number + 1) rest (files ++ own)

/-- The files of a run. -/
def files (d : Disk) (root : String) (settings : Settings) (disturbance : Disturbance) : Steps (List String) := do
  let directories ← found (walkProject d root settings)
  let files ← walk settings disturbance 0 directories []
  found (admitFiles d root settings files)

/-- What is gathered, or the failure of the run. -/
def gathered {α : Type} : Except PathError α → Steps α
  | .ok a => pure a
  | .error _ => fail .unexpected

/-- Reads files in turn and gathers their facts. -/
def readAll (d : Disk) (root : String) (disturbance : Disturbance) :
    Nat → List String → ProjectFacts → Steps ProjectFacts
  | _, [], facts => pure facts
  | number, file :: rest, facts => do
    poll .extraction
    let facts ← gathered (facts.addFile d root file)
    note (readingNote? d root file).toList
    moment disturbance (.read number)
    readAll d root disturbance (number + 1) rest facts

/-- The facts of the files of a run. -/
def facts (d : Disk) (root : String) (files : List String) (disturbance : Disturbance) : Steps ProjectFacts := do
  let facts ← readAll d root disturbance 0 files {}
  pure (facts.withRoutes d root files)

/-- The result of a run. -/
def result (d : Disk) (root : String) (settings : Settings) (facts : ProjectFacts) : Steps AnalysisResult := do
  let before ← get
  let configs := before.session.configs
  let real := d.real root
  let (outcome, resolver) := analyze d real (rulesOf (some settings.liveness)) facts (.ofRoot real configs)
  set { before with session := { before.session with configs := resolver.configs } }
  note (resolver.configs.notes.drop configs.notes.length)
  match outcome with
  | .ok r => pure r
  | .error _ => fail .unexpected

/-- The directory of the reports. -/
def reportDirectory (settings : Settings) (r : AnalysisResult) : String :=
  Path.join r.root settings.outputDir

/-- Writes the reports of a run. -/
def writeReports (w : World) (settings : Settings) (r : AnalysisResult) : Steps Unit := do
  let before ← get
  let (disk, written) := Report.write before.disk w.time r (reportDirectory settings r)
  set { before with disk := disk }
  match written with
  | .ok _ => pure ()
  | .error _ => fail .unexpected

/-- The note about errors in a result. -/
def errorNotes (r : AnalysisResult) : List Note :=
  if r.errors.isEmpty then []
  else
    [.warning
      ("Encountered " ++ toString r.errors.length ++ " errors/warnings during analysis. Results may be incomplete.")]

/-- The steps of a run on a root up to the last look at the flag: its settings and its result. -/
def conclusion (s : Session) (w : World) (disturbance : Disturbance) (root : String) :
    Steps (Settings × AnalysisResult) := do
  let settings ← settings s w disturbance
  forgetTables
  note (ruleNotes (some settings.liveness))
  let files ← files w.disk root settings disturbance
  let facts ← facts w.disk root files disturbance
  moment disturbance .parsed
  poll .analysis
  let r ← result w.disk root settings facts
  moment disturbance .analyzed
  poll .publishing
  pure (settings, r)

/-- The steps of a run that publish its result. -/
def publish (s : Session) (w : World) (disturbance : Disturbance) (settings : Settings) (r : AnalysisResult) :
    Steps AnalysisResult := do
  moment disturbance .publishing
  note (errorNotes r)
  if s.writesReports then writeReports w settings r
  pure r

/-- All steps of a run on a root. -/
def all (s : Session) (w : World) (disturbance : Disturbance) (root : String) : Steps AnalysisResult := do
  let (settings, r) ← conclusion s w disturbance root
  publish s w disturbance settings r

end Steps

/-- A run as it is seen from outside. -/
structure RunReport where
  outcome : RunOutcome
  notes : List Note := []
  disk : Disk
  /-- The moments that the run came to. -/
  moments : List Checkpoint := []

namespace Session

/-- The root of a run: the given one, or that of the session. -/
def runRoot (s : Session) (d : Disk) (root? : Option String) : String :=
  match root?.filter fun root => !root.isEmpty with
  | some root => d.absolute root
  | none => s.root

/-- What the steps of a run come to. -/
def outcomeOf : Except Stop AnalysisResult → RunOutcome
  | .ok r => .published r
  | .error (.cancelled _) => .cancelled
  | .error (.failed f) => .failed f

/-- A session at the beginning of a run: the lock is taken and earlier requests to stop are forgotten. -/
def begun (s : Session) : Session :=
  { s.hold with cancelRequested := false }

/-- A session with the result of a run stored, if there is one. -/
def store (s : Session) (elapsed : Nat) : RunOutcome → Session
  | .published r => { s with lastResult := some r, lastElapsed := some elapsed }
  | _ => s

/-- A session after a run. The lock is freed before the result is stored, and other calls may come in between. -/
def finish (s : Session) (elapsed : Nat) (outcome : RunOutcome) : Session :=
  s.release.store elapsed outcome

/-- Runs the analysis once, unless a run is active. -/
def run (s : Session) (w : World) (root? : Option String) (disturbance : Disturbance) : Session × RunReport :=
  if s.isRunning then (s, { outcome := .skipped, disk := w.disk })
  else
    let start : Progress := { session := s.begun, disk := w.disk }
    let (ended, progress) := (Steps.all s w disturbance (s.runRoot w.disk root?)).run.run start
    let outcome := outcomeOf ended
    (progress.session.finish w.elapsed outcome,
      { outcome := outcome, notes := progress.notes ++ outcome.endNotes, disk := progress.disk,
        moments := progress.moments })

end Session

end ExportAudit
