import ExportAudit.Command
import ExportAudit.Trigger

/-!
# The program

Loads the project into a `FileTree`, runs the command on it, and writes back what the command has written. Everything
that is decided is decided by `Command` and `Session`.
-/

namespace ExportAudit.Main

/-! ## The disk -/

/-- Whether the analysis may read the content of a file of a name. -/
def isRead (name : String) : Bool :=
  [".ts", ".tsx", ".js", ".jsx", ".json", ".yaml", ".yml"].contains (Path.extension name)

/-- A node of the disk. The content of files that are never read is left out. -/
partial def loadEntry (e : IO.FS.DirEntry) : IO FileTree := do
  let info ← e.path.symlinkMetadata
  match info.type with
  | .dir =>
    let children ← e.path.readDir
    let names := (children.toList.map (·.fileName)).mergeSort fun a b => decide (a ≤ b)
    let nodes ← names.mapM fun name => do
      let node ← loadEntry ⟨e.path, name⟩
      pure (name, node)
    pure (.directory nodes)
  | .symlink =>
    try
      let target ← IO.FS.realPath e.path
      pure (.link target.toString)
    catch _ => pure (.link e.fileName)
  | _ =>
    let content ← if isRead e.fileName then IO.FS.readBinFile e.path else pure ByteArray.empty
    pure (.file content (info.modified.sec * 1000000000 + info.modified.nsec.toNat))

/-- A disk with the node at a path, if there is one. -/
def load (d : Disk) (path : String) : IO Disk := do
  try
    let node ← loadEntry ⟨Path.dirname path, Path.basename path⟩
    pure (d.put path node)
  catch _ => pure d

/-- Writes the files of a directory. -/
def store (d : Disk) (directory : String) : IO Unit := do
  IO.FS.createDirAll directory
  for name in (d.list? directory).getD [] do
    let path := Path.join directory name
    match d.read path with
    | .ok content => IO.FS.writeBinFile path content
    | .error _ => pure ()

/-! ## The command -/

/-- The variables that set settings. -/
def environment : IO (List (String × String)) :=
  Setting.all.filterMapM fun f => do
    let value ← IO.getEnv f.variableName
    pure (value.map fun v => (f.variableName, v))

/-- The disk of a command: its project, and the settings file and the report directory where they lie outside. -/
def diskFor (cwd : String) (o : Command.Options) : IO Disk := do
  let empty : Disk := (Disk.mk .empty cwd).putDirectory cwd
  let wanted := [o.path] ++ o.config.toList ++ o.output.toList
  wanted.foldlM (fun d path => load d (d.absolute path)) empty

/-- Runs the analysis of a session again. -/
def rerun (s : Session) (d : Disk) (settings : Settings) : IO Session := do
  let begun ← IO.monoMsNow
  let (s, report) ← IO.lazyPure fun _ => s.run { disk := d } none {}
  let ended ← IO.monoMsNow
  match report.outcome with
  | .published r =>
    store report.disk (Path.join s.root settings.outputDir)
    IO.print (Command.summary r (ended - begun))
  | outcome => outcome.messages.forM fun m => IO.print (Command.line ["[ERROR] ", m])
  pure s

/-- Watches a project: looks for changes every second, and runs the analysis once they have settled or an interval of
polling has passed. -/
partial def watch (cwd : String) (o : Command.Options) (settings : Settings) (s : Session) (w : Watcher) (b : Debouncer)
    (quiet sincePoll : Nat) : IO Unit := do
  IO.sleep 1000
  let d ← diskFor cwd o
  let (w, changed, _) := w.check d
  let b := if changed then b.trigger else b
  let quiet := if changed then 0 else quiet + 1000
  let isSettled := b.isPending && decide (settings.debounceDelayMs ≤ quiet)
  let isPolled := settings.enablePolling && decide (settings.pollingIntervalSeconds ≤ sincePoll + 1)
  let b := if isSettled then b.fire else b
  let s ← if isSettled || isPolled then rerun s d settings else pure s
  watch cwd o settings s w b quiet (if isPolled then 0 else sincePoll + 1)

/-- Runs the command with its options read. -/
def runWith (arguments : List String) (o : Command.Options) : IO UInt32 := do
  let cwd := (← IO.currentDir).toString
  let d ← diskFor cwd o
  let begun ← IO.monoMsNow
  let world : World := { disk := d, environment := ← environment }
  let started ← IO.lazyPure fun _ => Command.start world arguments
  match started with
  | .error _ =>
    (← IO.getStderr).putStrLn "The settings hold a value that cannot be read."
    pure 1
  | .ok c =>
    let ended ← IO.monoMsNow
    if let some directory := c.reports then store c.disk directory
    IO.print (c.output (ended - begun))
    match c.watched with
    | some (s, settings) =>
      let (w, _) := ({ root := s.root, settings := settings } : Watcher).start d
      watch cwd o settings s w {} 0 0
      pure 0
    | none => pure (UInt32.ofNat (c.exit.getD 0))

end ExportAudit.Main

/-- The command line. -/
def main (arguments : List String) : IO UInt32 := do
  match ExportAudit.Command.Options.read arguments with
  | .options o => ExportAudit.Main.runWith arguments o
  | .help =>
    IO.print ExportAudit.Command.helpText
    pure 0
  | .misuse =>
    (← IO.getStderr).putStrLn "The arguments are not understood; --help shows what they may be."
    pure 2
