import ExportAudit.Path
import ExportAudit.Value

/-!
# Import graphs

The files of a project and the imports between them. `addFile` and `addImport` grow a graph; an edge remembers the lines
of its imports in the order they were added and each module reference once.

- `importers`, `dependencies`: the neighbours of a file, in order;
- `dependents`: the files from which a chain of imports leads to a file;
- `simpleCycles`: the elementary cycles, found one at a time; `listed` takes the first of an enumeration, and writes each
  from its smallest file on;
- `statistics`: the figures of a graph.
-/

namespace ExportAudit

/-- The imports of one file by another. -/
structure Edge where
  source : String
  target : String
  lines : List Nat
  modules : List String
  deriving DecidableEq, Repr

/-- A graph of files: its nodes and edges in the order in which they were added. -/
structure ImportGraph where
  files : List String := []
  edges : List Edge := []
  deriving DecidableEq, Repr

/-- Items that are found one at a time, as far as they are asked for. -/
inductive Generator (α : Type) where
  | done
  | next (a : α) (rest : Unit → Generator α)

namespace Generator

variable {α β : Type}

/-- One item. -/
def single (a : α) : Generator α :=
  .next a fun _ => .done

/-- The items of one generator, then those of another. -/
def append : Generator α → (Unit → Generator α) → Generator α
  | .done, more => more ()
  | .next a rest, more => .next a fun _ => (rest ()).append more

/-- What is found for each member of a list, one after the other. -/
def each : List β → (β → Generator α) → Generator α
  | [], _ => .done
  | b :: bs, find => (find b).append fun _ => each bs find

/-- The first `n` items; nothing is asked for behind the last of them. -/
def take : Nat → Generator α → List α
  | 0, _ => []
  | _, .done => []
  | 1, .next a _ => [a]
  | n + 2, .next a rest => a :: take (n + 1) (rest ())

end Generator

/-- Texts in increasing order. -/
def sortTexts (items : List String) : List String :=
  items.mergeSort fun a b => decide (a ≤ b)

/-- An item added at the end unless it is there. -/
def addNew {α : Type} [BEq α] (items : List α) (a : α) : List α :=
  if items.contains a then items else items ++ [a]

/-- An edge with one more import. -/
def Edge.extend (e : Edge) (line : Nat) (reference : String) : Edge :=
  { e with lines := e.lines ++ [line], modules := addNew e.modules reference }

/-- Whether an edge leads from one file to another. -/
def Edge.joins (e : Edge) (source target : String) : Bool :=
  e.source == source && e.target == target

namespace ImportGraph

/-! ## Growing -/

/-- A graph with one more file. -/
def addFile (g : ImportGraph) (file : String) : ImportGraph :=
  { g with files := addNew g.files file }

/-- The edge between two files. -/
def edge? (g : ImportGraph) (source target : String) : Option Edge :=
  g.edges.find? (·.joins source target)

/-- A graph with one more import. -/
def addImport (g : ImportGraph) (source target : String) (line : Nat) (reference : String) : ImportGraph :=
  let g := (g.addFile source).addFile target
  if (g.edge? source target).isSome then
    { g with edges := g.edges.map fun e => if e.joins source target then e.extend line reference else e }
  else { g with edges := g.edges ++ [⟨source, target, [line], [reference]⟩] }

/-! ## Neighbours -/

/-- The files that import a file. -/
def importers (g : ImportGraph) (file : String) : List String :=
  sortTexts ((g.edges.filter (·.target == file)).map (·.source))

/-- The files that a file imports. -/
def dependencies (g : ImportGraph) (file : String) : List String :=
  sortTexts ((g.edges.filter (·.source == file)).map (·.target))

/-- The files of a class that import one of `layer` and are not in `found`, each once. -/
def nextLayer (g : ImportGraph) (p : String → Bool) (found layer : List String) : List String :=
  g.edges.foldl (fun next e =>
    if layer.contains e.target && p e.source && !found.contains e.source then addNew next e.source else next) []

/-- The files found so far and those of a class from which at most `n` imports lead to one of `layer`, the files found
last: the search ends with the first empty layer. -/
def ancestorsUpTo (g : ImportGraph) (p : String → Bool) : Nat → List String → List String → List String
  | 0, found, _ => found
  | n + 1, found, layer =>
    let next := g.nextLayer p found layer
    if next.isEmpty then found else ancestorsUpTo g p n (found ++ next) next

/-- The files of a class from which imports within the class lead to a file, and the file itself. Every layer but the
first holds the source of an edge that no earlier layer holds, so there are at most as many of them as edges. -/
def ancestors (g : ImportGraph) (p : String → Bool) (file : String) : List String :=
  g.ancestorsUpTo p g.edges.length [file] [file]

/-- The files that depend on a file, directly or through others. -/
def dependents (g : ImportGraph) (file : String) : List String :=
  sortTexts ((g.ancestors (fun _ => true) file).filter (· != file))

/-! ## Cycles -/

/-- The cycles that a path (its last file first) can be closed to by going on in `allowed`, at most `n` files further. -/
def closePath (g : ImportGraph) (start : String) (allowed : List String) :
    Nat → List String → Generator (List String)
  | 0, _ => .done
  | n + 1, path => Generator.each (g.dependencies (path.headD start)) fun next =>
      if next == start then .single path.reverse
      else if allowed.contains next && !path.contains next then closePath g start allowed n (next :: path)
      else .done

/-- The cycles whose smallest file is `start`. A path without repetition is at most as long as the list of files it may
visit. -/
def cyclesFrom (g : ImportGraph) (start : String) : Generator (List String) :=
  let allowed := g.ancestors (fun f => decide (start < f)) start
  g.closePath start allowed allowed.length [start]

/-- A graph without the imports of files by themselves. -/
def withoutLoops (g : ImportGraph) : ImportGraph :=
  { g with edges := g.edges.filter fun e => e.source != e.target }

/-- The elementary cycles of a graph: first the files that import themselves, then the cycles through other files, by
their smallest ones. -/
def simpleCycles (g : ImportGraph) : Generator (List String) :=
  (Generator.each (g.files.filter fun f => (g.edge? f f).isSome) fun f => .single [f]).append fun _ =>
    Generator.each (sortTexts g.files) g.withoutLoops.cyclesFrom

/-- The smaller of two files, the first if they are equal. -/
def smaller (least file : String) : String :=
  if file < least then file else least

/-- A cycle from its smallest file on. -/
def fromSmallest : List String → List String
  | [] => []
  | first :: rest =>
    let start := (first :: rest).idxOf (rest.foldl smaller first)
    (first :: rest).drop start ++ (first :: rest).take start

/-- The order of lists of texts, item by item. -/
def listLe : List String → List String → Bool
  | [], _ => true
  | _ :: _, [] => false
  | a :: as, b :: bs => if a == b then listLe as bs else decide (a < b)

/-- The first cycles of an enumeration, at most `limit` of them, each from its smallest file on, in order. -/
def listed (enumeration : Generator (List String)) (limit : Nat) : List (List String) :=
  ((enumeration.take limit).map fromSmallest).mergeSort listLe

/-- The elementary cycles of a graph, at most `limit` of them. -/
def cycles (g : ImportGraph) (limit : Nat) : List (List String) :=
  listed g.simpleCycles limit

/-- Why cycles cannot be listed up to a limit. -/
inductive LimitError
  | outOfRange
  deriving DecidableEq, Repr

/-- The text of such an error. -/
def LimitError.message : LimitError → String
  | .outOfRange => "Stop argument for islice() must be None or an integer: 0 <= x <= sys.maxsize."

/-- The greatest limit that can be asked for. -/
def greatestLimit : Nat := 0x7FFFFFFFFFFFFFFF

/-- The elementary cycles of a graph up to any limit that is asked for. -/
def cycles? (g : ImportGraph) (limit : Int) : Except LimitError (List (List String)) :=
  if 0 ≤ limit ∧ limit ≤ greatestLimit then .ok (g.cycles limit.toNat) else .error .outOfRange

/-! ## Figures -/

/-- The files that no edge leads to. -/
def unimported (g : ImportGraph) : List String :=
  sortTexts (g.files.filter fun f => !g.edges.any (·.target == f))

/-- The number of cycles that the figures list at most. -/
def reportedCycles : Nat := 50

/-- The figures of a graph. -/
structure Statistics where
  files : Nat
  edges : Nat
  cycles : List (List String)
  unimported : Nat
  deriving DecidableEq, Repr

/-- The figures of a graph, with each path as `written` gives it. -/
def statistics (g : ImportGraph) (written : String → String) : Statistics :=
  { files := g.files.length
    edges := g.edges.length
    cycles := (g.cycles reportedCycles).map fun cycle => cycle.map written
    unimported := g.unimported.length }

/-- The share of ordered pairs of files that are edges: numerator and denominator. A graph with one file at most has
none. -/
def Statistics.density? (s : Statistics) : Option (Nat × Nat) :=
  if s.files ≤ 1 then none else some (s.edges, s.files * (s.files - 1))

/-- The density in records: a decimal, or a plain zero when there are files but no edges. -/
def Statistics.densityValue (s : Statistics) : Value :=
  match s.density? with
  | none => .float 0.0
  | some (edges, pairs) => if edges == 0 then .int 0 else .float (Float.ofNat edges / Float.ofNat pairs)

/-- A path as the figures write it: the way from a root, with forward slashes. -/
def shownFrom (cwd root path : String) : String :=
  Text.replaceChar '\\' '/' (Path.relativeTo cwd root path)

/-- The figures as a record. -/
def Statistics.record (s : Statistics) : Value :=
  .record
    [("files", .int s.files), ("edges", .int s.edges), ("density", s.densityValue),
     ("cycles", .list (s.cycles.map Value.texts)), ("unimported_files", .int s.unimported)]

end ImportGraph

end ExportAudit
