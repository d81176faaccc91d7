import ExportAudit.Path
import ExportAudit.Text.Quoted

/-!
# File trees

A tree of files, directories and symbolic links, held in memory. `resolve` walks a path the way an operating system
does: links are followed, at most `maxLinks` of them, and every step but the last must be a directory. `Disk.real` is
the other way to follow links: it never fails, keeps what does not exist, and leaves a circular link as it is.
-/

namespace ExportAudit

/-- A file with its content and modification time, a symbolic link, or a directory. -/
inductive FileTree where
  | file (content : ByteArray) (modified : Int)
  | link (target : String)
  | directory (entries : List (String × FileTree))

/-- Why a file operation fails. -/
inductive FileFault where
  | missing
  | exists
  | notDirectory
  | isDirectory
  | tooManyLinks
  deriving DecidableEq, Repr

/-- A failed file operation and the path it was asked for. -/
structure FileError where
  fault : FileFault
  path : String
  deriving DecidableEq, Repr

namespace FileFault

/-- The number that operating systems give to a fault. -/
def number : FileFault → Nat
  | .missing => 2
  | .exists => 17
  | .notDirectory => 20
  | .isDirectory => 21
  | .tooManyLinks => 40

/-- The fault in words. -/
def text : FileFault → String
  | .missing => "No such file or directory"
  | .exists => "File exists"
  | .notDirectory => "Not a directory"
  | .isDirectory => "Is a directory"
  | .tooManyLinks => "Too many levels of symbolic links"

end FileFault

/-- The message of a failed file operation. -/
def FileError.message (e : FileError) : String :=
  "[Errno " ++ toString e.fault.number ++ "] " ++ e.fault.text ++ ": " ++ Text.quoted e.path

namespace FileTree

/-! ## Places in a tree -/

/-- A tree without entries. -/
def empty : FileTree := .directory []

/-- The entries of a directory; any other node has none. -/
def entries : FileTree → List (String × FileTree)
  | .directory es => es
  | _ => []

/-- The node at a place, reached through directories only. -/
def get? : FileTree → List String → Option FileTree
  | t, [] => some t
  | .directory es, name :: rest => (es.lookup name).bind (get? · rest)
  | _, _ :: _ => none

/-- An entry put in the place of the one of its name, or at the end. -/
def putEntry (name : String) (node : FileTree) : List (String × FileTree) → List (String × FileTree)
  | [] => [(name, node)]
  | (n, t) :: es => if n == name then (n, node) :: es else (n, t) :: putEntry name node es

/-- A node put at a place; the directories on the way are made, and a file or link on the way gives way. -/
def insert (t : FileTree) (place : List String) (node : FileTree) : FileTree :=
  match place with
  | [] => node
  | name :: rest => .directory (putEntry name (insert ((t.entries.lookup name).getD empty) rest node) t.entries)

/-- The node at a place taken away, with all below it. -/
def erase : List String → FileTree → FileTree
  | [], t => t
  | [name], .directory es => .directory (es.filter (·.1 != name))
  | name :: rest, .directory es =>
    match es.lookup name with
    | some t => .directory (putEntry name (erase rest t) es)
    | none => .directory es
  | _ :: _, t => t

mutual

/-- How many links a tree holds. -/
def linkCount : FileTree → Nat
  | .file _ _ => 0
  | .link _ => 1
  | .directory es => linkCountList es

/-- How many links the entries of a directory hold. -/
def linkCountList : List (String × FileTree) → Nat
  | [] => 0
  | e :: es => linkCountEntry e + linkCountList es

/-- How many links an entry holds. -/
def linkCountEntry : String × FileTree → Nat
  | (_, t) => linkCount t

end

/-! ## Following links -/

/-- Where a walk ends. -/
inductive Arrival where
  | at (place : List String) (node : FileTree)
  | fault (f : FileFault)

/-- A walk from the place `here` along the segments `todo`; `expand` goes on after a link. The last link of the walk is
followed only when `follow` is set. -/
def walk (root : FileTree) (follow : Bool) (expand : List String → List String → Arrival) :
    List String → List String → Arrival
  | here, [] =>
    match root.get? here with
    | some node => .at here node
    | none => .fault .missing
  | here, segment :: rest =>
    match root.get? here with
    | none => .fault .missing
    | some (.directory es) =>
      if segment == "" || segment == "." then walk root follow expand here rest
      else if segment == ".." then walk root follow expand here.dropLast rest
      else
        match es.lookup segment with
        | none => .fault .missing
        | some (.link target) =>
          if rest.isEmpty && !follow then .at (here ++ [segment]) (.link target)
          else expand (if Path.isAbsolute target then [] else here) (Path.segments target ++ rest)
        | some _ => walk root follow expand (here ++ [segment]) rest
    | some _ => .fault .notDirectory

/-- The greatest number of links on one walk. -/
def maxLinks : Nat := 40

/-- A walk that may pass a given number of links. -/
def walkLinks (root : FileTree) (follow : Bool) : Nat → List String → List String → Arrival
  | 0 => walk root follow fun _ _ => .fault .tooManyLinks
  | n + 1 => walk root follow (walkLinks root follow n)

/-- Where an absolute path leads. -/
def resolve (root : FileTree) (follow : Bool) (path : String) : Arrival :=
  walkLinks root follow maxLinks [] (Path.segments path)

/-- The canonical place that the way from `here` along `todo` leads to. Where a circular link is met there is none, and a
path is told instead: that of the link with the rest of the way behind it, as it is written. `expand` gives the canonical
place of a link's target. -/
def realWalk (root : FileTree) (expand : List String → List String → List String → Except String (List String)) :
    List String → List String → Except String (List String)
  | here, [] => .ok here
  | here, segment :: rest =>
    if segment == "" || segment == "." then realWalk root expand here rest
    else if segment == ".." then realWalk root expand here.dropLast rest
    else
      match root.get? (here ++ [segment]) with
      | some (.link target) =>
        match expand (here ++ [segment]) (if Path.isAbsolute target then [] else here) (Path.segments target) with
        | .ok place => realWalk root expand place rest
        | .error path => .error (Path.join path (Text.join "/" rest))
      | _ => realWalk root expand (here ++ [segment]) rest

/-- `realWalk` with the links that are being followed; one of them met again is circular. -/
def realLinks (root : FileTree) : Nat → List (List String) → List String → List String → Except String (List String)
  | 0, _ => realWalk root fun link _ _ => .error ("/" ++ Text.join "/" link)
  | n + 1, following => realWalk root fun link here target =>
      if following.contains link then .error ("/" ++ Text.join "/" link)
      else realLinks root n (link :: following) here target

/-- The canonical place of an absolute path. -/
def realPlace (root : FileTree) (path : String) : Except String (List String) :=
  realLinks root (root.linkCount + 1) [] [] (Path.segments path)

end FileTree

/-! ## A tree with a working directory -/

/-- A file tree and the directory that relative paths are seen from. -/
structure Disk where
  root : FileTree
  cwd : String

namespace Disk

/-- Where a path leads; the empty path leads nowhere. -/
def resolve (d : Disk) (follow : Bool) (path : String) : FileTree.Arrival :=
  if path.isEmpty then .fault .missing
  else d.root.resolve follow (Path.join d.cwd path)

/-- Whether a path leads to a file. -/
def isFile (d : Disk) (path : String) : Bool :=
  match d.resolve true path with
  | .at _ (.file _ _) => true
  | _ => false

/-- Whether a path leads to a directory. -/
def isDirectory (d : Disk) (path : String) : Bool :=
  match d.resolve true path with
  | .at _ (.directory _) => true
  | _ => false

/-- Whether a path leads anywhere. -/
def hasNode (d : Disk) (path : String) : Bool :=
  match d.resolve true path with
  | .at _ _ => true
  | .fault _ => false

/-- The content of a file. -/
def read (d : Disk) (path : String) : Except FileError ByteArray :=
  match d.resolve true path with
  | .at _ (.file content _) => .ok content
  | .at _ _ => .error ⟨.isDirectory, path⟩
  | .fault f => .error ⟨f, path⟩

/-- The size in bytes of what a path leads to; a directory counts as empty. -/
def size (d : Disk) (path : String) : Except FileError Nat :=
  match d.resolve true path with
  | .at _ (.file content _) => .ok content.size
  | .at _ _ => .ok 0
  | .fault f => .error ⟨f, path⟩

/-- The modification time of a file. -/
def modified? (d : Disk) (path : String) : Option Int :=
  match d.resolve true path with
  | .at _ (.file _ time) => some time
  | _ => none

/-- The names in a directory, or nothing when the path leads to no directory. -/
def list? (d : Disk) (path : String) : Option (List String) :=
  match d.resolve true path with
  | .at _ (.directory es) => some (es.map (·.1))
  | _ => none

/-- A path in normal form from the root. -/
def absolute (d : Disk) (path : String) : String :=
  Path.absolute d.cwd path

/-- The canonical path: absolute, in normal form, with every link followed that leads somewhere. -/
def real (d : Disk) (path : String) : String :=
  match d.root.realPlace (Path.join d.cwd path) with
  | .ok place => "/" ++ Text.join "/" place
  | .error path => Path.normalize path

/-! ## Changes -/

/-- Puts a node at a path without following links, and makes the directories on the way. -/
def put (d : Disk) (path : String) (node : FileTree) : Disk :=
  { d with root := d.root.insert (Path.steps d.cwd path) node }

/-- Makes a directory unless there is one. -/
def putDirectory (d : Disk) (path : String) : Disk :=
  if d.isDirectory path then d else d.put path .empty

/-- Takes away what stands at a path. -/
def remove (d : Disk) (path : String) : Disk :=
  { d with root := d.root.erase (Path.steps d.cwd path) }

/-- Makes one directory inside an existing one. -/
def makeDirectory (d : Disk) (path : String) : Except FileError Disk :=
  let trimmed := Text.stripRight (· == '/') path
  match d.resolve false trimmed with
  | .at _ _ => .error ⟨.exists, path⟩
  | .fault .missing =>
    match d.resolve true (Path.dirname (Path.join d.cwd trimmed)) with
    | .at place (.directory _) =>
      .ok { d with root := d.root.insert (place ++ [Path.basename trimmed]) .empty }
    | .at _ _ => .error ⟨.notDirectory, path⟩
    | .fault f => .error ⟨f, path⟩
  | .fault f => .error ⟨f, path⟩

/-- Where a new file of this path would be made: links to nowhere are followed. -/
def creationPlace (d : Disk) : Nat → String → Option (List String)
  | 0, _ => none
  | n + 1, path =>
    match d.resolve true (Path.dirname path) with
    | .at place (.directory es) =>
      match es.lookup (Path.basename path) with
      | some (.link target) =>
        creationPlace d n (Path.join ("/" ++ Text.join "/" place) target)
      | _ => some (place ++ [Path.basename path])
    | _ => none

/-- Writes a file, through links; its directory must exist. -/
def write (d : Disk) (path : String) (content : ByteArray) (time : Int) : Except FileError Disk :=
  match d.resolve true path with
  | .at place (.file _ _) => .ok { d with root := d.root.insert place (.file content time) }
  | .at _ _ => .error ⟨.isDirectory, path⟩
  | .fault .missing =>
    match d.creationPlace FileTree.maxLinks (Path.join d.cwd path) with
    | some place => .ok { d with root := d.root.insert place (.file content time) }
    | none => .error ⟨.missing, path⟩
  | .fault f => .error ⟨f, path⟩

/-- Makes a directory and those above it, from the nearest one that exists. `fuel` bounds the number of levels. -/
def makeDirectoriesUpTo (d : Disk) : Nat → String → Except FileError Disk
  | 0, path => .error ⟨.missing, path⟩
  | n + 1, path =>
    let name := if (Path.basename path).isEmpty then Path.dirname path else path
    let head := Path.dirname name
    let above : Except FileError Disk :=
      if !head.isEmpty && !(Path.basename name).isEmpty && !d.hasNode head then
        match makeDirectoriesUpTo d n head with
        | .error ⟨.exists, _⟩ => .ok d
        | other => other
      else .ok d
    above.bind fun d =>
      if !head.isEmpty && Path.basename name == "." && d.hasNode head then .ok d
      else
        match d.makeDirectory path with
        | .error e => if d.isDirectory path then .ok d else .error e
        | ok => ok

/-- Makes a directory and those above it; one that exists already is kept. -/
def makeDirectories (d : Disk) (path : String) : Except FileError Disk :=
  d.makeDirectoriesUpTo (path.length + 1) path

end Disk

end ExportAudit
