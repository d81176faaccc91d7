import ExportAudit.Resolution
import ExportAudit.Settings.Basic

/-!
# Finding source files

The source files of a project: those below its root with the extension of a source file, excluded directories left out.
Links to directories are not entered. A project with too many files, or with a file that is too large or cannot be
looked at, is refused (`DiscoveryError`).
-/

namespace ExportAudit

/-! ## Exclusions -/

/-- The directories that are always excluded. -/
def baseExcludes : List String :=
  [".git", "node_modules", ".next", ".dependencies", "dist", "out", ".vscode"]

def isSlash (c : Char) : Bool :=
  c == '/' || c == '\\'

/-- A configured exclusion without blanks and slashes around it, and with forward slashes inside. -/
def cleanExclude (folder : String) : String :=
  Text.replaceChar '\\' '/' (Text.strip isSlash (Text.strip Text.isBlank folder))

/-- The exclusions that apply: the fixed ones and the configured ones, each once. -/
def combinedExcludes (configured : List String) : List String :=
  ((baseExcludes ++ configured).map cleanExclude).foldl
    (fun merged folder => if folder.isEmpty || merged.contains folder then merged else merged ++ [folder]) []

/-- Whether a directory, given by its path from the root and its name, is excluded: by its name, or because it is, or
lies in, an exclusion of several segments. -/
def isExcluded (path name : String) (excludes : List String) : Bool :=
  excludes.contains name ||
    let path := Text.replaceChar '\\' '/' path
    excludes.any fun folder =>
      Text.hasChar folder '/' && (path == folder || Text.startsWith path (folder ++ "/"))

/-! ## Walking -/

/-- Whether a file is a source file by its name. -/
def isSourceName (name : String) : Bool :=
  sourceExtensions.any (Text.endsWith name)

/-- A name below a path from the root, which is empty at the root itself. -/
def below (path name : String) : String :=
  if path.isEmpty then name else Path.join path name

/-- The source file that an entry of a directory is, if it is one. -/
def sourceFile? (d : Disk) (place : String) : String × FileTree → Option String
  | (_, .directory _) => none
  | (name, .file _ _) => if isSourceName name then some (Path.join place name) else none
  | (name, .link _) =>
    if isSourceName name && !d.isDirectory (Path.join place name) then some (Path.join place name) else none

/-- The walks of directories one after another, by their names. -/
def inOrder (walks : List (String × List (List String))) : List (List String) :=
  (walks.mergeSort fun a b => decide (a.1 ≤ b.1)).flatMap (·.2)

mutual

/-- The walks of the directories among the entries of a directory, excluded ones left out: `place` is the path of the
directory as given, `path` its path from the root. -/
def walksBelow (d : Disk) (excludes : List String) (place path : String) :
    List (String × FileTree) → List (String × List (List String))
  | [] => []
  | entry :: rest => (walkOf d excludes place path entry).toList ++ walksBelow d excludes place path rest

/-- The walk of an entry that is a directory: its source files, and then those of each directory in it. -/
def walkOf (d : Disk) (excludes : List String) (place path : String) :
    String × FileTree → Option (String × List (List String))
  | (name, .directory entries) =>
    if isExcluded (below path name) name excludes then none
    else
      let place := Path.join place name
      some (name, entries.filterMap (sourceFile? d place) ::
        inOrder (walksBelow d excludes place (below path name) entries))
  | _ => none

end

/-! ## Limits -/

/-- Why the files of a project cannot be found. -/
inductive DiscoveryError where
  | noDirectory (root : String)
  | tooMany (limit : Int)
  | unreadable (error : FileError)
  | tooLarge (path : String) (size : Nat) (limit : Int)
  deriving DecidableEq, Repr

/-- The error in words. -/
def DiscoveryError.message : DiscoveryError → String
  | .noDirectory root => "Project root is not a directory: " ++ root
  | .tooMany limit =>
    "Found more than " ++ toString limit ++ " source files. Add folders to excluded_folders or raise max_files."
  | .unreadable e => "Cannot stat " ++ e.path ++ ": " ++ e.fault.text
  | .tooLarge path size limit =>
    "File " ++ path ++ " is " ++ toString size ++ " bytes, over the " ++ toString limit ++ " byte limit"

/-- The sizes of files, or the first error. -/
def fileSizes (d : Disk) : List String → Except FileError (List (String × Nat))
  | [] => .ok []
  | f :: fs => do
    let size ← d.size f
    let rest ← fileSizes d fs
    return (f, size) :: rest

/-- Refuses files that cannot be looked at or are too large. -/
def checkSizes (d : Disk) (root : String) (limit : Int) (files : List String) : Except DiscoveryError Unit := do
  let sizes ← (fileSizes d files).mapError .unreadable
  match sizes.find? fun (_, size) => limit < size with
  | some (path, size) => throw (.tooLarge (Path.relativeTo d.cwd root path) size limit)
  | none => return ()

/-! ## Discovery -/

/-- The source files of a project, directory by directory in the order of the walk. -/
def walkProject (d : Disk) (root : String) (settings : Settings) : Except DiscoveryError (List (List String)) :=
  match d.resolve true root with
  | .at _ (.directory entries) =>
    .ok (entries.filterMap (sourceFile? d root) ::
      inOrder (walksBelow d (combinedExcludes settings.excludedFolders) root "" entries))
  | _ => .error (.noDirectory root)

/-- Refuses more files than the limit. -/
def checkCount (settings : Settings) (files : List String) : Except DiscoveryError Unit :=
  if settings.maxFiles < files.length then throw (.tooMany settings.maxFiles) else return ()

/-- The files of a walk in order, each of them looked at. -/
def admitFiles (d : Disk) (root : String) (settings : Settings) (files : List String) :
    Except DiscoveryError (List String) := do
  let files := files.mergeSort fun a b => decide (a ≤ b)
  checkSizes d root settings.maxFileSizeBytes files
  return files

/-- The files of directories after those already found, counted after every directory. -/
def gatherFiles (settings : Settings) : List (List String) → List String → Except DiscoveryError (List String)
  | [], files => .ok files
  | own :: rest, files => do
    checkCount settings (files ++ own)
    gatherFiles settings rest (files ++ own)

/-- The source files of a project in order. -/
def findFiles (d : Disk) (root : String) (settings : Settings) : Except DiscoveryError (List String) := do
  let directories ← walkProject d root settings
  let files ← gatherFiles settings directories []
  admitFiles d root settings files

end ExportAudit
