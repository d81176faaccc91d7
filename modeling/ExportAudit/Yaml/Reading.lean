import ExportAudit.Yaml.Source

/-!
# The position in a YAML text

`Lex` is the reading of tokens from a source, with the place in its text, the open indentations, and the places where a
simple key may have started. A key without `?` is known only when its `:` is met, so each such place is kept as a
`PendingKey` and the token for the key is put in front of the tokens read since (`Lex.fetchValue`).

Only what is looked at can be a fault, so no reading looks further ahead than it has to. Moving on looks at the character
at the new place.
-/

namespace ExportAudit.Yaml

/-! ## Characters -/

def isBreak (c : Char) : Bool :=
  c == '\n' || c == '\r' || c.toNat == 0x85 || c.toNat == 0x2028 || c.toNat == 0x2029

def isBreakOrEnd (c : Char) : Bool :=
  c == endMark || isBreak c

/-- What may follow a directive, a tag or the header of a block scalar. -/
def isSpaceOrEnd (c : Char) : Bool :=
  c == ' ' || isBreakOrEnd c

/-- What may follow an indicator. -/
def isGapOrEnd (c : Char) : Bool :=
  c == '\t' || isSpaceOrEnd c

/-- A character of the name of an anchor, a directive or a tag handle. -/
def isNameChar (c : Char) : Bool :=
  c.isAlphanum || c == '-' || c == '_'

/-- The mark that may open a text and takes no column. -/
def isByteOrderMark (c : Char) : Bool :=
  c.toNat == 0xFEFF

/-! ## State -/

/-- A place in the text. -/
structure Cursor where
  index : Nat := 0
  line : Nat := 0
  column : Nat := 0

/-- The place after a character. -/
def Cursor.next (c : Cursor) (char : Char) : Cursor where
  index := c.index + 1
  line := if isBreak char then c.line + 1 else c.line
  column := if isBreak char then 0 else if isByteOrderMark char then c.column else c.column + 1

/-- A place where a simple key may have started. -/
structure PendingKey where
  /-- The number of tokens before the key. -/
  position : Nat
  /-- Whether only a key can stand there. -/
  required : Bool
  start : Cursor

/-- The state of the reading of tokens. -/
structure Lexer where
  cursor : Cursor := {}
  /-- The depth of flow collections. -/
  flow : Nat := 0
  /-- The column of the open block, `-1` outside all blocks. -/
  indent : Int := -1
  outer : List Int := []
  keyAllowed : Bool := true
  /-- The pending key of each flow depth that has one. -/
  pending : List (Nat × PendingKey) := []
  tokens : List Token := []

/-- The reading of tokens from a source. -/
abbrev Lex (_ : Source) := StateT Lexer (Except Fault)

namespace Lex

variable {s : Source}

def malformed {α : Type} (problem : String) : Lex s α :=
  throw (.malformed problem)

/-- The character some places ahead. -/
def peek (ahead : Nat) : Lex s Char := do
  match s.charAt ((← get).cursor.index + ahead) with
  | .ok c => pure c
  | .error e => throw e

/-- The characters of a cursor's place onwards that satisfy a test, and the place after them. -/
def spanFrom (text : Array Char) (p : Char → Bool) (c : Cursor) : List Char × Cursor :=
  if h : c.index < text.size then
    if p text[c.index] then
      let (cs, c') := spanFrom text p (c.next text[c.index])
      (text[c.index] :: cs, c')
    else ([], c)
  else ([], c)
termination_by text.size - c.index
decreasing_by simp only [Cursor.next]; omega

/-- The longest run of characters that satisfy a test. -/
def takeWhile (p : Char → Bool) : Lex s String := do
  let l ← get
  let (cs, c) := spanFrom s.text p l.cursor
  set { l with cursor := c }
  let _ ← peek 0
  pure (String.ofList cs)

/-- Moves over one character. -/
def forward : Lex s Unit := do
  let l ← get
  match s.text[l.cursor.index]? with
  | some c =>
    set { l with cursor := l.cursor.next c }
    let _ ← peek 0
  | none => pure ()

/-- Moves over some characters and gives them. -/
def take : Nat → Lex s String
  | 0 => pure ""
  | n + 1 => do
    let c ← peek 0
    forward
    let rest ← take n
    pure (String.ofList [c] ++ rest)

/-- Moves over a line break, if there is one, and gives its text; the text of an ordinary line break is one newline. -/
def lineBreak : Lex s String := do
  let c ← peek 0
  if isBreak c then
    if c == '\r' && (← peek 1) == '\n' then forward
    forward
    pure (if c.toNat == 0x2028 || c.toNat == 0x2029 then String.ofList [c] else "\n")
  else pure ""

def column : Lex s Nat := do
  pure (← get).cursor.column

/-- Whether the text goes on with `---` or `...` and a gap. -/
def atDocumentMark : Lex s Bool := do
  let a ← peek 0
  let b ← peek 1
  let c ← peek 2
  if (a == '-' || a == '.') && b == a && c == a then
    let d ← peek 3
    pure (isGapOrEnd d)
  else pure false

def emit (t : Token) : Lex s Unit :=
  modify fun l => { l with tokens := l.tokens ++ [t] }

/-- A bound on the number of steps of a loop that moves on in every step. -/
def steps : Lex s Nat :=
  pure (s.text.size + 2)

end Lex

end ExportAudit.Yaml
