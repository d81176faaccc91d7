import ExportAudit.Yaml.Lexer
import ExportAudit.Yaml.Tag

/-!
# YAML nodes

`Node.ofTokens` gives the root node of the one document that some tokens spell. An alias stands for a copy of the node
with its anchor; an anchor that is used inside its own node is a `Node.cycle`. Who asks for more tokens than can be told
meets the fault behind them (`Compose.look`).
-/

namespace ExportAudit.Yaml

/-- A node: a scalar, a sequence or a mapping, with its kind. -/
inductive Node where
  | scalar (tag : Tag) (text : String)
  | sequence (tag : Tag) (items : List Node)
  | mapping (tag : Tag) (entries : List (Node × Node))
  | cycle

/-- The state of the reading of nodes. -/
structure Composition where
  tokens : List Token
  /-- The nodes with an anchor; none while the node is still open. -/
  anchors : List (String × Option Node) := []
  /-- The expansions of the tag handles. -/
  handles : List (String × String) := []

/-- The reading of nodes from tokens with a fault behind them, or with none. -/
abbrev Compose (_ : Option Fault) := StateT Composition (Except Fault)

namespace Compose

variable {ends : Option Fault}

def malformed {α : Type} (problem : String) : Compose ends α :=
  throw (.malformed problem)

/-- The next token; none at the end of the text. -/
def look : Compose ends (Option Token) := do
  match (← get).tokens, ends with
  | t :: _, _ => pure (some t)
  | [], some e => throw e
  | [], none => pure none

/-- Whether the text has ended. -/
def atEnd : Compose ends Bool := do
  pure (← look).isNone

/-- Moves over a token. -/
def advance : Compose ends Unit :=
  modify fun s => { s with tokens := s.tokens.tail }

/-- Whether the next token is one of some tokens. -/
def sees (ts : List Token) : Compose ends Bool := do
  pure ((← look).any ts.contains)

/-- Moves over a token if it is next. -/
def accept (t : Token) : Compose ends Bool := do
  if (← look) == some t then
    advance
    pure true
  else pure false

/-- The node that stands for nothing. -/
def emptyNode : Node := .scalar .null ""

/-! ## Marks before a node -/

/-- The tag with a handle expanded. -/
def expandTag (handle : Option String) (suffix : String) : Compose ends String := do
  match handle with
  | none => pure suffix
  | some h =>
    match (← get).handles.lookup h with
    | some expansion => pure (expansion ++ suffix)
    | none => malformed "a tag has an unknown handle"

/-- An anchor, if one is next. -/
def anchor? : Compose ends (Option String) := do
  match ← look with
  | some (.anchor name) =>
    advance
    pure (some name)
  | _ => pure none

/-- A tag, if one is next: its handle and its suffix. -/
def tag? : Compose ends (Option (Option String × String)) := do
  match ← look with
  | some (.tag handle suffix) =>
    advance
    pure (some (handle, suffix))
  | _ => pure none

/-- The anchor and the tag of a node, in either order. -/
def marks : Compose ends (Option String × Option String) := do
  let before? ← anchor?
  let given? ← tag?
  let name? ← if before?.isNone && given?.isSome then anchor? else pure before?
  match given? with
  | none => pure (name?, none)
  | some (handle, suffix) => do
    let tag ← expandTag handle suffix
    pure (name?, some tag)

/-- The kind of a node: its own tag, or the kind that it has without one. -/
def kind (name : Option String) (untagged : Tag) : Tag :=
  match name with
  | none | some "!" => untagged
  | some n => .ofName n

/-- The node of an alias. -/
def aliased (name : String) : Compose ends Node := do
  match (← get).anchors.lookup name with
  | some (some node) => pure node
  | some none => pure .cycle
  | none => malformed "an alias has no anchor"

/-- A node, known by its anchor as long as it is open and after it. -/
def anchored (name : Option String) (read : Compose ends Node) : Compose ends Node := do
  match name with
  | none => read
  | some a =>
    if ((← get).anchors.lookup a).isSome then malformed "an anchor is given twice"
    modify fun s => { s with anchors := (a, none) :: s.anchors }
    let node ← read
    modify fun s => { s with anchors := (a, some node) :: s.anchors }
    pure node

/-! ## Collections

The entries of a collection are read with `node`, which is told whether they stand in a block or in a flow collection.
The last argument of each reading bounds its steps.
-/

mutual

/-- A node. In a block it may be a block collection, and as the value of a key also a sequence that is not indented. -/
def node (inBlock unindented : Bool) : Nat → Compose ends Node
  | 0 => malformed "the nodes are nested too deeply"
  | n + 1 => do
    match ← look with
    | some (.alias name) =>
      advance
      aliased name
    | _ =>
      let (name, tag) ← marks
      let next ← look
      anchored name <|
        match next with
        | some (.scalar plain text) => do
          advance
          let untagged := if plain || tag == some "!" then Tag.ofPlain text else .text
          pure (.scalar (kind tag untagged) text)
        | some .flowSequenceStart => do
          advance
          pure (.sequence (kind tag .sequence) (← flowItems true n))
        | some .flowMappingStart => do
          advance
          pure (.mapping (kind tag .mapping) (← flowEntries true n))
        | some .blockEntry =>
          if unindented then do pure (.sequence (kind tag .sequence) (← unindentedItems n))
          else emptyOr name tag
        | some .blockSequenceStart =>
          if inBlock then do
            advance
            pure (.sequence (kind tag .sequence) (← blockItems n))
          else emptyOr name tag
        | some .blockMappingStart =>
          if inBlock then do
            advance
            pure (.mapping (kind tag .mapping) (← blockEntries n))
          else emptyOr name tag
        | _ => emptyOr name tag

/-- A node that has marks and no content. -/
def emptyOr (name tag : Option String) : Compose ends Node :=
  if name.isSome || tag.isSome then pure (.scalar (kind tag .null) "") else malformed "a node is expected"

/-- A node, or the empty node in front of some tokens. -/
def nodeUnless (stops : List Token) (inBlock unindented : Bool) : Nat → Compose ends Node
  | 0 => malformed "the nodes are nested too deeply"
  | n + 1 => do
    if ← sees stops then pure emptyNode else node inBlock unindented n

/-- The items of a block sequence. -/
def blockItems : Nat → Compose ends (List Node)
  | 0 => malformed "the nodes are nested too deeply"
  | n + 1 => do
    if ← accept .blockEntry then
      let item ← nodeUnless [.blockEntry, .blockEnd] true false n
      let rest ← blockItems n
      pure (item :: rest)
    else if ← accept .blockEnd then pure []
    else malformed "the end of a block is expected"

/-- The items of a sequence that is not indented. -/
def unindentedItems : Nat → Compose ends (List Node)
  | 0 => malformed "the nodes are nested too deeply"
  | n + 1 => do
    if ← accept .blockEntry then
      let item ← nodeUnless [.blockEntry, .key, .value, .blockEnd] true false n
      let rest ← unindentedItems n
      pure (item :: rest)
    else pure []

/-- The entries of a block mapping. -/
def blockEntries : Nat → Compose ends (List (Node × Node))
  | 0 => malformed "the nodes are nested too deeply"
  | n + 1 => do
    let stops := [Token.key, .value, .blockEnd]
    if ← accept .key then
      let key ← nodeUnless stops true true n
      let value ← if ← accept .value then nodeUnless stops true true n else pure emptyNode
      let rest ← blockEntries n
      pure ((key, value) :: rest)
    else if ← accept .blockEnd then pure []
    else malformed "the end of a block is expected"

/-- The items of a flow sequence; an entry with a key is a mapping of its own. -/
def flowItems (isFirst : Bool) : Nat → Compose ends (List Node)
  | 0 => malformed "the nodes are nested too deeply"
  | n + 1 => do
    if ← accept .flowSequenceEnd then pure []
    else
      let separated ← if isFirst then pure true else accept .flowEntry
      if !separated then malformed "a comma or the end of a sequence is expected"
      if ← accept .flowSequenceEnd then pure []
      else
        let item ←
          if ← accept .key then do
            let key ← nodeUnless [.value, .flowEntry, .flowSequenceEnd] false false n
            let value ←
              if ← accept .value then nodeUnless [.flowEntry, .flowSequenceEnd] false false n else pure emptyNode
            pure (Node.mapping .mapping [(key, value)])
          else node false false n
        let rest ← flowItems false n
        pure (item :: rest)

/-- The entries of a flow mapping. -/
def flowEntries (isFirst : Bool) : Nat → Compose ends (List (Node × Node))
  | 0 => malformed "the nodes are nested too deeply"
  | n + 1 => do
    if ← accept .flowMappingEnd then pure []
    else
      let separated ← if isFirst then pure true else accept .flowEntry
      if !separated then malformed "a comma or the end of a mapping is expected"
      if ← accept .flowMappingEnd then pure []
      else
        let entry ←
          if ← accept .key then do
            let key ← nodeUnless [.value, .flowEntry, .flowMappingEnd] false false n
            let value ←
              if ← accept .value then nodeUnless [.flowEntry, .flowMappingEnd] false false n else pure emptyNode
            pure (key, value)
          else do
            let key ← node false false n
            pure (key, emptyNode)
        let rest ← flowEntries false n
        pure (entry :: rest)

end

/-! ## Documents -/

/-- The handles that every document has. -/
def defaultHandles : List (String × String) :=
  [("!", "!"), ("!!", Tag.standardNames)]

/-- The directives before a document. -/
def directives (hasVersion : Bool) (handles : List (String × String)) : Nat → Compose ends (List (String × String))
  | 0 => pure handles
  | n + 1 => do
    match ← look with
    | some (.version major _) =>
      advance
      if hasVersion then malformed "a version is given twice"
      else if major != 1 then malformed "the version is not supported"
      else directives true handles n
    | some (.tagHandle handle expansion) =>
      advance
      if (handles.lookup handle).isSome then malformed "a tag handle is given twice"
      else directives hasVersion ((handle, expansion) :: handles) n
    | some .otherDirective =>
      advance
      directives hasVersion handles n
    | _ => pure handles

/-- Whether the next token is a directive. -/
def seesDirective : Compose ends Bool := do
  match ← look with
  | some (.version ..) | some (.tagHandle ..) | some .otherDirective => pure true
  | _ => pure false

/-- Moves over the marks of document ends. -/
def documentEnds : Nat → Compose ends Unit
  | 0 => pure ()
  | n + 1 => do
    if ← accept .documentEnd then documentEnds n

/-- The root node of a document, with what stands before it. -/
def root (bound : Nat) : Compose ends Node := do
  if (← sees [.documentStart]) || (← seesDirective) then
    let handles ← directives false [] bound
    modify fun s => { s with handles := handles ++ defaultHandles }
    if !(← accept .documentStart) then malformed "the start of a document is expected"
    if (← atEnd) || (← sees [.documentStart, .documentEnd]) || (← seesDirective) then pure emptyNode
    else node true false (4 * bound)
  else
    modify fun s => { s with handles := defaultHandles }
    node true false (4 * bound)

/-- The root node of the only document; none where there is no document. -/
def document : Compose ends (Option Node) := do
  let bound := (← get).tokens.length + 1
  if ← atEnd then pure none
  else
    let node ← root bound
    documentEnds bound
    if ← atEnd then pure (some node)
    else
      -- a second document is read as far as its start before it is refused
      let _ ← directives false [] bound
      malformed "a single document is expected"

end Compose

/-- The root node of the document that some tokens spell. -/
def Node.ofTokens (ts : Tokens) : Except Fault (Option Node) :=
  ((Compose.document : Compose ts.ends (Option Node)).run { tokens := ts.told }).map (·.1)

end ExportAudit.Yaml
