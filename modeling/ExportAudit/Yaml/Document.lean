import ExportAudit.Yaml.Node
import ExportAudit.Yaml.ScalarValue

/-!
# The value of a YAML document

`Yaml.read` gives the value of a text with at most one document. Mappings that are merged in by the key `<<` come before
a mapping's own entries, so the own entries win (`Node.flatten`). Faults are found level by level (`Node.check`): of two
faults the one in the outer collection is told, wherever it stands in the text.
-/

namespace ExportAudit.Yaml.Node

def tag : Node → Tag
  | .scalar t _ | .sequence t _ | .mapping t _ => t
  | .cycle => .null

/-! ## Merging -/

/-- Whether a node is the key that merges mappings. -/
def isMergeKey (n : Node) : Bool :=
  n.tag == .merge

/-- The entries of a mapping. -/
def entries? : Node → Option (List (Node × Node))
  | .mapping _ entries => some entries
  | _ => none

/-- The entries that the value of a merge key gives: those of a mapping, or of the mappings of a list, the last first. -/
def mergeSource? : Node → Option (List (Node × Node))
  | .sequence _ items => (items.mapM entries?).map fun (sources : List (List (Node × Node))) => sources.reverse.flatten
  | n => n.entries?

/-- The key `=` is an ordinary text. -/
def plainKey : Node → Node
  | .scalar .default text => .scalar .text text
  | n => n

/-- The entries of a mapping with the merged ones in front; a merge key whose value cannot be merged stays. -/
def mergeEntries (entries : List (Node × Node)) : List (Node × Node) :=
  let sourceOf := fun (e : Node × Node) => if e.1.isMergeKey then e.2.mergeSource? else none
  (entries.filterMap sourceOf).flatten ++
    (entries.filter fun e => (sourceOf e).isNone).map fun (k, v) => (k.plainKey, v)

mutual

/-- A node with all merge keys replaced by the entries they stand for. -/
def flatten : Node → Node
  | .scalar t text => .scalar t text
  | .sequence t items => .sequence t (flattenList items)
  | .mapping t entries =>
    if t == .mapping || t == .set then .mapping t (mergeEntries (flattenEntries entries))
    else .mapping t (flattenEntries entries)
  | .cycle => .cycle

def flattenList : List Node → List Node
  | [] => []
  | n :: ns => flatten n :: flattenList ns

def flattenEntries : List (Node × Node) → List (Node × Node)
  | [] => []
  | e :: es => flattenEntry e :: flattenEntries es

def flattenEntry : Node × Node → Node × Node
  | (k, v) => (flatten k, flatten v)

end

/-! ## Values -/

mutual

/-- The text of a node that is read as a scalar; a mapping stands for the value of its key `=`. -/
def scalarText : Node → Except Fault String
  | .scalar _ text => .ok text
  | .mapping _ entries => defaultText entries
  | _ => .error (.malformed "a scalar is expected")

def defaultText : List (Node × Node) → Except Fault String
  | [] => .error (.malformed "a scalar is expected")
  | e :: es => if e.1.tag == .default then entryText e else defaultText es

def entryText : Node × Node → Except Fault String
  | (_, v) => scalarText v

end

/-- Whether a node of some kind holds others. -/
def isCollection (n : Node) : Bool :=
  [Tag.sequence, .mapping, .set, .orderedMapping, .pairs].contains n.tag

/-- The value of a node that holds no others. -/
def simpleValue (n : Node) : Except Fault Value := do
  match n with
  | .cycle => pure .null
  | _ =>
    if [Tag.merge, .default].contains n.tag then throw (.malformed "a scalar has a tag without values")
    let text ← n.scalarText
    scalarValue n.tag text

def keyFault : Fault := .malformed "a collection is no key"

def shapeFault : Fault := .malformed "a tag does not fit its node"

mutual

/-- The value of a flattened node. -/
def value : Node → Except Fault Value
  | .scalar t text => simpleValue (.scalar t text)
  | .cycle => .ok .null
  | .sequence t items =>
    match t with
    | .sequence => (values items).map .list
    | .orderedMapping | .pairs => (pairValues items).map .ofPairs
    | .mapping | .set => .error shapeFault
    | _ => simpleValue (.sequence t items)
  | .mapping t entries =>
    match t with
    | .mapping => (entryValues entries).map fun es => .map (es.foldl (fun acc (k, v) => Value.putEntry k v acc) [])
    | .set =>
      (entryValues entries).map fun es =>
        .set ((es.foldl (fun acc (k, v) => Value.putEntry k v acc) []).map (·.1))
    | .sequence | .orderedMapping | .pairs => .error shapeFault
    | _ => simpleValue (.mapping t entries)

def values : List Node → Except Fault (List Value)
  | [] => .ok []
  | n :: ns => do
    let v ← value n
    let vs ← values ns
    pure (v :: vs)

/-- The values of the entries of a mapping. -/
def entryValues : List (Node × Node) → Except Fault (List (Value × Value))
  | [] => .ok []
  | e :: es => do
    let v ← entryValue e
    let vs ← entryValues es
    pure (v :: vs)

def entryValue : Node × Node → Except Fault (Value × Value)
  | (k, v) => do
    let key ← value k
    if !key.isKey then throw keyFault
    let value ← value v
    pure (key, value)

/-- The pairs of a list of mappings with one entry each. -/
def pairValues : List Node → Except Fault (List (Value × Value))
  | [] => .ok []
  | n :: ns => do
    let v ← pairValue n
    let vs ← pairValues ns
    pure (v :: vs)

def pairValue : Node → Except Fault (Value × Value)
  | .mapping _ entries => onlyEntry entries
  | _ => .error shapeFault

def onlyEntry : List (Node × Node) → Except Fault (Value × Value)
  | [e] => freeEntry e
  | _ => .error shapeFault

/-- An entry whose key may be a collection. -/
def freeEntry : Node × Node → Except Fault (Value × Value)
  | (k, v) => do
    let key ← value k
    let value ← value v
    pure (key, value)

end

/-! ## The order of faults -/

/-- The fault of a node that holds no others. -/
def meet (n : Node) : Except Fault Unit :=
  if n.isCollection then .ok () else n.simpleValue.map fun _ => ()

/-- The faults that the members of a collection have on their own, and the members. -/
def members : Node → Except Fault (List Node)
  | .sequence .sequence items => do
    items.forM meet
    pure items
  | .mapping .mapping entries | .mapping .set entries => do
    if entries.any fun (k, _) => k.isMergeKey then throw (.malformed "the value of a merge key is no mapping")
    entries.forM fun (k, v) => do
      meet k
      if k.isCollection then throw keyFault
      meet v
    pure (entries.flatMap fun (k, v) => [k, v])
  | .sequence .orderedMapping items | .sequence .pairs items => do
    let found ← items.mapM fun (item : Node) =>
      match item with
      | .mapping _ [(k, v)] => do
        meet k
        meet v
        pure [k, v]
      | _ => throw shapeFault
    pure found.flatten
  | _ => throw shapeFault

/-- The faults of collections, level by level. -/
def checkLevels : Nat → List Node → Except Fault Unit
  | 0, _ => .ok ()
  | n + 1, level =>
    if level.isEmpty then .ok ()
    else do
      let next ← level.mapM members
      checkLevels n (next.flatten.filter isCollection)

mutual

/-- The number of levels of a node. -/
def depth : Node → Nat
  | .sequence _ items => depthList items + 1
  | .mapping _ entries => depthEntries entries + 1
  | _ => 1

def depthList : List Node → Nat
  | [] => 0
  | n :: ns => max (depth n) (depthList ns)

def depthEntries : List (Node × Node) → Nat
  | [] => 0
  | e :: es => max (depthEntry e) (depthEntries es)

def depthEntry : Node × Node → Nat
  | (k, v) => max (depth k) (depth v)

end

/-- The fault of the outermost level with one. -/
def check (n : Node) : Except Fault Unit := do
  meet n
  checkLevels n.depth ([n].filter isCollection)

end Node

/-- The value of a text with at most one document; a text without one has no value. -/
def read (s : Source) : Except Fault Value := do
  match ← Node.ofTokens (Tokens.scan s) with
  | none => pure .null
  | some root =>
    let flat := root.flatten
    flat.check
    flat.value

end ExportAudit.Yaml
