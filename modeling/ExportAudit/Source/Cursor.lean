import ExportAudit.Source.Tree
import ExportAudit.Text.Basic

/-!
# Reading source text

A `Parse` reads the characters of a file from a position on and yields a value and the position after it, or fails; a
failed alternative leaves no trace. A position always stands right behind the last token, so that line breaks before
the next token can be seen: `endsStatement` tells whether a statement may end there although no semicolon is written.
-/

namespace ExportAudit.Source

/-! ## Characters -/

/-- The characters of a file, the line of each, and whether the file may hold markup elements in expressions. -/
structure Input where
  chars : Array Char
  lines : Array Nat
  markup : Bool

/-- The line number before each character and at the end. -/
def lineNumbers (line : Nat) : List Char → List Nat
  | [] => [line]
  | c :: cs => line :: lineNumbers (if c == '\n' then line + 1 else line) cs

/-- The input that a text is. -/
def Input.ofText (markup : Bool) (text : List Char) : Input :=
  ⟨text.toArray, (lineNumbers 1 text).toArray, markup⟩

/-- White space between tokens: blanks and the zero-width spaces. -/
def isSpace (c : Char) : Bool :=
  Text.isBlank c || c.toNat == 0xFEFF || c.toNat == 0x2060 || c.toNat == 0x200B

/-- The characters that end a name. -/
def isPunctuation (c : Char) : Bool :=
  "!\"#%&'()*+,-./:;<=>?@[\\]^\x60\x7b|\x7d~".toList.contains c

/-- The characters that a name may hold. -/
def isNameChar (c : Char) : Bool :=
  !(c.toNat < 0x20 || isSpace c || isPunctuation c) || c == '\\'

/-- The characters that a name may begin with. -/
def isNameStart (c : Char) : Bool :=
  isNameChar c && !c.isDigit

namespace Input

/-- The character at a position; the end of the text reads as NUL. -/
def charAt (s : Input) (i : Nat) : Char :=
  s.chars.getD i '\x00'

def atEnd (s : Input) (i : Nat) : Bool :=
  s.chars.size ≤ i

/-- The line of a position. -/
def lineAt (s : Input) (i : Nat) : Nat :=
  s.lines.getD i 1

/-- The text between two positions. -/
def slice (s : Input) (start stop : Nat) : String :=
  String.ofList (s.chars.extract start stop).toList

/-- The first position from `i` on whose character is not in a class. -/
def skipWhile (s : Input) (p : Char → Bool) (i : Nat) : Nat :=
  if h : i < s.chars.size then
    if p s.chars[i] then skipWhile s p (i + 1) else i
  else i
termination_by s.chars.size - i

/-- The position after the next `*/`. -/
def skipBlock (s : Input) (i : Nat) : Nat :=
  if i < s.chars.size then
    if s.charAt i == '*' && s.charAt (i + 1) == '/' then i + 2 else skipBlock s (i + 1)
  else s.chars.size
termination_by s.chars.size - i

/-- The end of the comment that begins at a position, if one does. -/
def commentEnd? (s : Input) (i : Nat) : Option Nat :=
  if s.charAt i == '/' && s.charAt (i + 1) == '/' then some (s.skipWhile (· != '\n') (i + 2))
  else if s.charAt i == '/' && s.charAt (i + 1) == '*' then some (s.skipBlock (i + 2))
  else none

/-- The comments from a position on, with white space around them, and the position of the next token. At most `n`
comments are passed. -/
def commentsFrom (s : Input) : Nat → Nat → List (Nat × Nat) × Nat
  | 0, i => ([], i)
  | n + 1, i =>
    let start := s.skipWhile isSpace i
    match s.commentEnd? start with
    | some stop =>
      let (more, next) := commentsFrom s n stop
      ((start, stop) :: more, next)
    | none => ([], start)

/-- The position of the next token. -/
def next (s : Input) (i : Nat) : Nat :=
  (s.commentsFrom (s.chars.size - i + 1) i).2

/-! ## The end of a statement -/

/-- The next line break or token: comments are passed, and line breaks inside them do not count. -/
def lineEnd (s : Input) : Nat → Nat → Nat
  | 0, i => i
  | n + 1, i =>
    let j := s.skipWhile (fun c => isSpace c && c != '\n') i
    match s.commentEnd? j with
    | some stop => lineEnd s n stop
    | none => j

/-- Whether a word stands at a position and ends there. -/
def wordAt (s : Input) (w : String) (i : Nat) : Bool :=
  s.slice i (i + w.length) == w && !(s.charAt (i + w.length)).isAlpha

/-- Whether the token at a position, the first of its line, begins a new statement: it does unless it can only go on
with the one before. In an expression (`binary`) a bracket goes on with it. -/
def beginsStatement (s : Input) (binary : Bool) (i : Nat) : Bool :=
  let c := s.charAt i
  if "\x60,.;*%><=?^|&/:".toList.contains c then false
  else if c == '(' || c == '[' then !binary
  else if c == '+' then s.charAt (i + 1) == '+'
  else if c == '-' then s.charAt (i + 1) == '-'
  else if c == '!' then s.charAt (i + 1) != '='
  else !(s.wordAt "in" i || s.wordAt "instanceof" i)

/-- Whether a statement that is complete up to a position may end there without a semicolon. -/
def endsStatement (s : Input) (binary : Bool) (i : Nat) : Bool :=
  let j := s.lineEnd (s.chars.size - i + 1) i
  if s.atEnd j then true
  else if s.charAt j == '\x7d' then
    -- a brace before a colon closes a pattern, not a block
    if s.charAt (s.skipWhile isSpace (j + 1)) == ':' then binary else true
  else if s.charAt j == '\n' then s.beginsStatement binary (s.next j)
  else false

/-! ## Operators -/

/-- Operators of several characters, longer ones first. -/
def longOperators : List String :=
  [">>>=", "...", "===", "!==", "**=", "<<=", ">>=", ">>>", "&&=", "||=", "??=", "=>", "==", "!=", "<=", ">=", "&&",
   "||", "??", "?.", "++", "--", "+=", "-=", "*=", "/=", "%=", "&=", "|=", "^=", "<<", ">>", "**"]

/-- The operator at a position, or nothing. A question mark before a decimal is an operator of its own. -/
def operatorAt (s : Input) (i : Nat) : String :=
  if s.atEnd i || !isPunctuation (s.charAt i) || s.charAt i == '\\' then ""
  else
    match longOperators.find? fun o => s.slice i (i + o.length) == o with
    | some "?." => if (s.charAt (i + 2)).isDigit then "?" else "?."
    | some o => o
    | none => String.ofList [s.charAt i]

end Input

/-! ## Readers -/

/-- A reader of a value from a position on. -/
abbrev Parse := ReaderT Input (StateT Nat Option)

namespace Parse

/-- A reader that fails with a text that cannot be read. -/
def fail {α : Type} : Parse α := fun _ _ => none

/-- What a reader yields, or nothing and no step when it fails. -/
def attempt {α : Type} (p : Parse α) : Parse (Option α) := fun s i =>
  match p s i with
  | some (a, j) => some (some a, j)
  | none => some (none, i)

/-- What a reader would yield here, without a step. -/
def lookahead {α : Type} (p : Parse α) : Parse (Option α) := fun s i =>
  some ((p s i).map (·.1), i)

/-- The first reader, or the second where it fails. -/
def orElse {α : Type} (p q : Parse α) : Parse α := fun s i =>
  match p s i with
  | some r => some r
  | none => q s i

/-- The values of a reader that is run until it yields none, at most `n` times. -/
def manyUpTo {α : Type} (p : Parse (Option α)) : Nat → Parse (List α)
  | 0 => pure []
  | n + 1 => do
    match ← p with
    | none => pure []
    | some a => return a :: (← manyUpTo p n)

/-- The number of characters that are left, and one. -/
def budget : Parse Nat := fun s i => some (s.chars.size - i + 1, i)

/-- The values of a reader that is run until it yields none. -/
def many {α : Type} (p : Parse (Option α)) : Parse (List α) := do
  manyUpTo p (← budget)

/-! ## Tokens -/

/-- The position behind the last token. -/
def position : Parse Nat := fun _ i => some (i, i)

/-- Continues at a position. -/
def jump (i : Nat) : Parse Unit := fun _ _ => some ((), i)

/-- The position of the next token. -/
def start : Parse Nat := fun s i => some (s.next i, i)

def input : Parse Input := fun s i => some (s, i)

/-- The first character of the next token. -/
def peek : Parse Char := fun s i => some (s.charAt (s.next i), i)

/-- Whether nothing but space and comments is left. -/
def atEnd : Parse Bool := fun s i => some (s.atEnd (s.next i), i)

/-- The next token when it is an operator, else nothing. -/
def peekOp : Parse String := fun s i => some (s.operatorAt (s.next i), i)

/-- The next token when it is a word, else nothing. -/
def peekWord : Parse String := fun s i =>
  let j := s.next i
  if isNameStart (s.charAt j) && !s.atEnd j then some (s.slice j (s.skipWhile isNameChar j), i) else some ("", i)

/-- The operator `o`. -/
def op (o : String) : Parse Unit := fun s i =>
  let j := s.next i
  if s.operatorAt j == o then some ((), j + o.length) else none

/-- The character `c`, also as the beginning of a longer operator. -/
def char (c : Char) : Parse Unit := fun s i =>
  let j := s.next i
  if s.charAt j == c && !s.atEnd j then some ((), j + 1) else none

/-- Takes the operator `o` if it is next. -/
def acceptOp (o : String) : Parse Bool := do
  return (← attempt (op o)).isSome

/-- The word `w`. -/
def keyword (w : String) : Parse Unit := do
  if (← peekWord) == w then jump ((← start) + w.length) else fail

/-- Takes the word `w` if it is next. -/
def acceptWord (w : String) : Parse Bool := do
  return (← attempt (keyword w)).isSome

/-- Whether the statement may end at the present position without a semicolon. -/
def endsHere (binary : Bool) : Parse Bool := fun s i => some (s.endsStatement binary i, i)

/-- Whether a line break stands before the next token. -/
def breaksHere : Parse Bool := fun s i =>
  some (s.charAt (s.lineEnd (s.chars.size - i + 1) i) == '\n', i)

/-- Takes a semicolon if one is next. -/
def semicolon : Parse Unit := do
  let _ ← acceptOp ";"

/-! ## Nodes -/

/-- A node that begins at a position. -/
def node (k : Kind) (start : Nat) (children : List Tree) : Parse Tree := fun s i =>
  some (.node k none (s.lineAt start) "" children, i)

/-- A leaf between a position and the present one. -/
def leaf (k : Kind) (start : Nat) : Parse Tree := fun s i =>
  some (.node k none (s.lineAt start) (s.slice start i) [], i)

/-- A node with children and the text up to the present position. -/
def named (k : Kind) (start : Nat) (children : List Tree) : Parse Tree := fun s i =>
  some (.node k none (s.lineAt start) (s.slice start i) children, i)

/-- The comments before the next token, as nodes. -/
def comments : Parse (List Tree) := fun s i =>
  let (cs, j) := s.commentsFrom (s.chars.size - i + 1) i
  some (cs.map fun (a, b) => .node .comment none (s.lineAt a) (s.slice a b) [], j)

/-- Any word, as a leaf of a kind. -/
def anyWord (k : Kind) : Parse Tree := do
  let w ← peekWord
  if w.isEmpty then fail
  else
    let i ← start
    jump (i + w.length)
    leaf k i

/-- Items with commas between them, up to a closing character, which is taken. A comma may stand before it. -/
def commaList {α : Type} (close : Char) (item : Parse α) : Parse (List α) := do
  let items ← many do
    if (← peek) == close then return none
    let a ← item
    if !(← acceptOp ",") && (← peek) != close then fail
    return some a
  char close
  return items

/-- One or more items with commas between them. -/
def commaSeparated {α : Type} (item : Parse α) : Parse (List α) := do
  let first ← item
  let others ← many do
    if ← acceptOp "," then return some (← item) else return none
  return first :: others

end Parse

end ExportAudit.Source
