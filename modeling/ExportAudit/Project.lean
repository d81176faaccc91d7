import ExportAudit.Extraction
import ExportAudit.Journal
import ExportAudit.Route.Layout

/-!
# Facts of a project

`ProjectFacts.ofFiles` puts together the facts of the files of a project in their order. A file that cannot be read is
recorded as an error and yields no facts of its own; only a file without a path stops the gathering (`PathError`).
-/

namespace ExportAudit

/-- Why the facts of a file cannot be read: its content cannot, or its name is no name of a file. -/
inductive ReadingFault where
  | content (e : FileError)
  | name
  deriving DecidableEq, Repr

def ReadingFault.message : ReadingFault → String
  | .content e => e.message
  | .name => "embedded null byte"

/-- The facts of a file on a disk. -/
def readFacts (d : Disk) (file : String) : Except ReadingFault FileFacts :=
  if Text.hasChar file '\x00' then .error .name
  else
    match d.read file with
    | .ok bytes => .ok (.ofBytes file bytes)
    | .error e => .error (.content e)

/-- Why the path of a file from the root cannot be told. -/
inductive PathError where
  | empty
  deriving DecidableEq, Repr

def PathError.message : PathError → String
  | .empty => "no path specified"

/-- The path of a file from the root, with forward slashes. -/
def shownPath (d : Disk) (root file : String) : String :=
  Text.replaceChar '\\' '/' (Path.relativeTo d.cwd root file)

/-- The facts of a project with those of one more file, or with the error of reading it. -/
def ProjectFacts.addFile (d : Disk) (root : String) (p : ProjectFacts) (file : String) : Except PathError ProjectFacts :=
  if file.isEmpty then .error .empty
  else
    match readFacts d file with
    | .ok facts => .ok (p.add facts)
    | .error e =>
      .ok { p with errors := p.errors ++ ["Parse Error: " ++ shownPath d root file ++ " - " ++ e.message] }

/-- What is noted about a file that cannot be read. -/
def readingNote? (d : Disk) (root file : String) : Option Note :=
  match readFacts d file with
  | .ok _ => none
  | .error e => some (.error ("Failed to parse " ++ shownPath d root file ++ ": " ++ e.message))

/-- The exports of a file on a disk. -/
def exportsIn (d : Disk) (file : String) : List Export :=
  match readFacts d file with
  | .ok facts => facts.exports
  | .error _ => []

/-- The facts of a project with the routes that its files make. -/
def ProjectFacts.withRoutes (d : Disk) (root : String) (files : List String) (p : ProjectFacts) : ProjectFacts :=
  { p with routes := deriveRoutes d files root (exportsIn d) }

/-- The facts of the files of a project, and its routes. -/
def ProjectFacts.ofFiles (d : Disk) (root : String) (files : List String) : Except PathError ProjectFacts := do
  let facts ← files.foldlM (ProjectFacts.addFile d root) {}
  return facts.withRoutes d root files

end ExportAudit
