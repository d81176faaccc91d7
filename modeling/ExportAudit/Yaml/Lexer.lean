import ExportAudit.Yaml.Mark

/-!
# The tokens of a YAML text

`Tokens.scan` gives the tokens of a source. Each step skips blanks, comments and line breaks, closes the blocks that the
column has left, and reads one token; the kind of the token follows from its first characters.

Tokens are asked for one at a time, and where a step has a fault those before it have been given away, unless they wait
for a pending key (`Lexer.settled`). So a fault of the tokens comes after all faults of the nodes that they spell.
-/

namespace ExportAudit.Yaml

/-- The tokens of a source that can be told, and the fault that is met behind them, if there is one. -/
structure Tokens where
  told : List Token
  ends : Option Fault

namespace Lex

variable {s : Source}

/-! ## Blanks and blocks -/

/-- Skips blanks, comments and line breaks; outside flow collections a new line may start with a key. -/
def skipBlanks : Nat → Lex s Unit
  | 0 => pure ()
  | n + 1 => do
    let _ ← takeWhile (· == ' ')
    if (← peek 0) == '#' then
      let _ ← takeWhile fun c => !isBreakOrEnd c
    let b ← lineBreak
    if !b.isEmpty then
      modify fun l => if l.flow == 0 then { l with keyAllowed := true } else l
      skipBlanks n

/-- Skips to the next token. -/
def toNextToken : Lex s Unit := do
  let l ← get
  if l.cursor.index == 0 && isByteOrderMark (← peek 0) then forward
  skipBlanks (← steps)

/-- Closes the blocks that are indented deeper than a column. -/
def unwindTo (column : Int) : Nat → Lex s Unit
  | 0 => pure ()
  | n + 1 => do
    let l ← get
    if l.flow == 0 && l.indent > column then
      set { l with indent := l.outer.headD (-1), outer := l.outer.tail, tokens := l.tokens ++ [Token.blockEnd] }
      unwindTo column n

def unwind (column : Int) : Lex s Unit := do
  unwindTo column (← steps)

/-- Opens a block at a column, unless one of that depth is open. -/
def openBlock (column : Nat) : Lex s Bool := do
  let l ← get
  if l.indent < column then
    set { l with outer := l.indent :: l.outer, indent := column }
    pure true
  else pure false

/-! ## Simple keys -/

/-- Drops the pending keys that are too far back: on an earlier line, or more than 1024 characters away. -/
def dropStale : Lex s Unit := do
  let l ← get
  let isStale := fun (k : PendingKey) => k.start.line != l.cursor.line || l.cursor.index - k.start.index > 1024
  if l.pending.any fun (_, k) => isStale k && k.required then malformed "a key has no colon"
  set { l with pending := l.pending.filter fun (_, k) => !isStale k }

/-- Drops the pending key of the current flow depth. -/
def dropPending : Lex s Unit := do
  let l ← get
  if l.pending.any fun (flow, k) => flow == l.flow && k.required then malformed "a key has no colon"
  set { l with pending := l.pending.filter fun (flow, _) => flow != l.flow }

/-- Notes that a simple key may start here. -/
def notePending : Lex s Unit := do
  let l ← get
  if l.keyAllowed then
    dropPending
    modify fun l' =>
      let required := l.flow == 0 && l.indent == l.cursor.column
      { l' with pending := (l.flow, ⟨l.tokens.length, required, l.cursor⟩) :: l'.pending }

def allowKey (b : Bool) : Lex s Unit :=
  modify fun l => { l with keyAllowed := b }

/-! ## Tokens -/

/-- The mark `---` or `...` of a document. -/
def documentMark (t : Token) : Lex s Unit := do
  unwind (-1)
  dropPending
  allowKey false
  let _ ← take 3
  emit t

def flowStart (t : Token) : Lex s Unit := do
  notePending
  modify fun l => { l with flow := l.flow + 1, keyAllowed := true }
  forward
  emit t

def flowEnd (t : Token) : Lex s Unit := do
  dropPending
  modify fun l => { l with flow := l.flow - 1, keyAllowed := false }
  forward
  emit t

/-- An indicator that opens a block outside flow collections. -/
def blockIndicator (start t : Token) (keyAfter : Bool) : Lex s Unit := do
  let l ← get
  if l.flow == 0 then
    if !l.keyAllowed then malformed "an entry is not allowed here"
    if ← openBlock l.cursor.column then emit start
  allowKey (keyAfter || l.flow == 0)
  dropPending
  forward
  emit t

/-- The colon of an entry: the pending key of the current flow depth becomes its key. -/
def fetchValue : Lex s Unit := do
  let l ← get
  match l.pending.find? fun (flow, _) => flow == l.flow with
  | some (_, k) =>
    let opened ← if l.flow == 0 then openBlock k.start.column else pure false
    let keyTokens := if opened then [Token.blockMappingStart, .key] else [.key]
    modify fun l' =>
      { l' with
        pending := l.pending.filter fun (flow, _) => flow != l.flow
        tokens := l.tokens.take k.position ++ keyTokens ++ l.tokens.drop k.position
        keyAllowed := false }
    forward
    emit .value
  | none => blockIndicator .blockMappingStart .value false

/-- A token that may be the start of a simple key. -/
def content (read : Lex s Token) : Lex s Unit := do
  notePending
  allowKey false
  emit (← read)

/-- Whether a gap follows the next character. -/
def gapFollows : Lex s Bool := do
  pure (isGapOrEnd (← peek 1))

/-- Whether a character starts the mark of a document. -/
def startsMark (c : Char) : Lex s Bool := do
  if (← column) == 0 && (c == '-' || c == '.') then atDocumentMark else pure false

/-- Whether a character is the indicator of an entry, a key or a value. -/
def isIndicator (inFlow : Bool) (c : Char) : Lex s Bool := do
  if inFlow && (c == '?' || c == ':') then pure true
  else if c == '-' || c == '?' || c == ':' then gapFollows
  else pure false

/-- A character that starts something other than a plain scalar, or nothing. -/
def isSpecial (c : Char) : Bool :=
  isGapOrEnd c || "-?:,[]\x7b\x7d#&*!|>'\"%@\x60".toList.contains c

/-- Whether a plain scalar may start with a character. -/
def startsPlain (inFlow : Bool) (c : Char) : Lex s Bool := do
  if isSpecial c then
    pure (!(← gapFollows) && (c == '-' || (!inFlow && (c == '?' || c == ':'))))
  else pure true

/-- Reads the token that starts with the next character. -/
def readToken (c : Char) : Lex s Unit := do
  let l ← get
  let inFlow := l.flow != 0
  let isMark ← startsMark c
  let indicates ← isIndicator inFlow c
  if c == '%' && l.cursor.column == 0 then
    unwind (-1)
    dropPending
    allowKey false
    emit (← directive)
  else if isMark then documentMark (if c == '-' then .documentStart else .documentEnd)
  else if c == '[' then flowStart .flowSequenceStart
  else if c == '\x7b' then flowStart .flowMappingStart
  else if c == ']' then flowEnd .flowSequenceEnd
  else if c == '\x7d' then flowEnd .flowMappingEnd
  else if c == ',' then
    allowKey true
    dropPending
    forward
    emit .flowEntry
  else if c == '-' && indicates then blockIndicator .blockSequenceStart .blockEntry true
  else if c == '?' && indicates then blockIndicator .blockMappingStart .key false
  else if c == ':' && indicates then fetchValue
  else if c == '*' then content (do pure (.alias (← anchorName)))
  else if c == '&' then content (do pure (.anchor (← anchorName)))
  else if c == '!' then content tag
  else if (c == '|' || c == '>') && !inFlow then
    allowKey true
    dropPending
    emit (.scalar false (← blockScalar (c == '>')))
  else if c == '\'' || c == '"' then content (do pure (.scalar false (← flowScalar c)))
  else if ← startsPlain inFlow c then content (do pure (.scalar true (← plainScalar)))
  else malformed ("no token starts with " ++ Text.quoted (String.ofList [c]))

/-- Reads the next token; `false` at the end of the text. -/
def fetch : Lex s Bool := do
  toNextToken
  dropStale
  unwind (← column)
  let c ← peek 0
  if c == endMark then
    unwind (-1)
    dropPending
    pure false
  else
    readToken c
    pure true

end Lex

/-! ## All tokens -/

/-- The tokens before all pending keys. -/
def Lexer.settled (l : Lexer) : List Token :=
  l.tokens.take (l.pending.foldl (fun n (_, k) => min n k.position) l.tokens.length)

/-- The tokens that follow from a state. Keys that cannot be completed are given up before the text is looked at again.
The last argument bounds the number of steps. -/
def Tokens.scanFrom (s : Source) (l : Lexer) : Nat → Tokens
  | 0 => ⟨l.tokens, s.ends⟩
  | n + 1 =>
    match (Lex.dropStale : Lex s Unit).run l with
    | .error e => ⟨l.settled, some e⟩
    | .ok (_, l) =>
      match (Lex.fetch : Lex s Bool).run l with
      | .error e => ⟨l.settled, some e⟩
      | .ok (true, l) => scanFrom s l n
      | .ok (false, l) => ⟨l.tokens, none⟩

/-- The tokens of a source. -/
def Tokens.scan (s : Source) : Tokens :=
  scanFrom s {} (s.text.size + 2)

end ExportAudit.Yaml
