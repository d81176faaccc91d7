import ExportAudit.Text.Basic

/-!
# Paths

Paths are texts with `/` between the segments, and the operations here never look at a file tree. `normalize` removes
empty segments, `.`, and every `..` that has a segment to cancel; `relativeTo` is the shortest walk from one absolute
path to another.
-/

namespace ExportAudit.Path

/-! ## Joining and taking apart -/

/-- The parts between slashes, empty ones included. -/
def segments (p : String) : List String :=
  Text.splitOn '/' p

/-- A path from the root. -/
def isAbsolute (p : String) : Bool :=
  Text.startsWith p "/"

/-- `q` seen from the directory `p`; an absolute `q` stands for itself. -/
def join (p q : String) : String :=
  if isAbsolute q then q
  else if p.isEmpty || Text.endsWith p "/" then p ++ q
  else p ++ "/" ++ q

/-- What follows the last slash. -/
def basename (p : String) : String :=
  String.ofList (p.toList.reverse.takeWhile (· != '/')).reverse

/-- What precedes the last slash, without trailing slashes unless there is nothing else. -/
def dirname (p : String) : String :=
  let head := (p.toList.reverse.dropWhile (· != '/')).reverse
  if head.all (· == '/') then String.ofList head
  else Text.stripRight (· == '/') (String.ofList head)

/-- The last dot of a base name, when some character other than a dot precedes it, splits off the extension. -/
def splitBase (base : List Char) : List Char × List Char :=
  let ext := base.reverse.takeWhile (· != '.')
  let rest := base.reverse.drop ext.length
  match rest with
  | [] => (base, [])
  | dot :: stem => if stem.all (· == '.') then (base, []) else (stem.reverse, dot :: ext.reverse)

/-- A path without its extension, and the extension with its dot. Leading dots of the base name begin none. -/
def splitExtension (p : String) : String × String :=
  let head := (p.toList.reverse.dropWhile (· != '/')).reverse
  let (stem, ext) := splitBase (basename p).toList
  (String.ofList (head ++ stem), String.ofList ext)

/-- The extension with its dot, or nothing. -/
def extension (p : String) : String :=
  (splitExtension p).2

/-- The base name without its extension. -/
def stem (p : String) : String :=
  (splitExtension (basename p)).1

/-! ## Normal form -/

/-- One more segment for a stack of segments, the last one on top. -/
def push (rooted : Bool) (stack : List String) (segment : String) : List String :=
  if segment == "" || segment == "." then stack
  else if segment == ".." then
    match stack with
    | [] => if rooted then [] else [".."]
    | top :: rest => if top == ".." then ".." :: top :: rest else rest
  else segment :: stack

/-- The segments that remain when each `..` has cancelled the one before it. -/
def collapse (rooted : Bool) (parts : List String) : List String :=
  (parts.foldl (push rooted) []).reverse

/-- The slashes that a path keeps in front: exactly two stay two, any other number becomes one. -/
def rootMark (p : String) : String :=
  if !isAbsolute p then ""
  else if Text.startsWith p "//" && !Text.startsWith p "///" then "//"
  else "/"

/-- A path without `.`, empty segments and cancelled segments. -/
def normalize (p : String) : String :=
  let text := rootMark p ++ Text.join "/" (collapse (isAbsolute p) (segments p))
  if text.isEmpty then "." else text

/-- A path from the root in normal form, relative paths being seen from `cwd`. -/
def absolute (cwd p : String) : String :=
  normalize (if isAbsolute p then p else join cwd p)

/-- The segments of an absolute path in normal form. -/
def steps (cwd p : String) : List String :=
  (segments (absolute cwd p)).filter (· != "")

/-- Two lists without their common beginning. -/
def dropCommon : List String → List String → List String × List String
  | a :: as, b :: bs => if a == b then dropCommon as bs else (a :: as, b :: bs)
  | as, bs => (as, bs)

/-- The walk from the directory `start` to `p`: up as far as needed, then down. -/
def relativeTo (cwd start p : String) : String :=
  let (up, down) := dropCommon (steps cwd start) (steps cwd p)
  match up.map (fun _ => "..") ++ down with
  | [] => "."
  | walk => Text.join "/" walk

/-- The walk from `root` to an absolute path, with forward slashes only; any other text stands for itself. -/
def display (cwd root p : String) : String :=
  if isAbsolute p then Text.replaceChar '\\' '/' (relativeTo cwd root p) else p

end ExportAudit.Path
