import ExportAudit.Source.Cursor

/-!
# Literals and names

Readers of strings, templates, numbers, regular expressions and names. A literal is kept as its source text: escapes
are passed over, not decoded.
-/

namespace ExportAudit.Source

namespace Input

/-- The position of the next character `q` that no backslash precedes. -/
def closingQuote (s : Input) (q : Char) (i : Nat) : Nat :=
  if i < s.chars.size then
    if s.charAt i == q then i
    else if s.charAt i == '\\' then closingQuote s q (i + 2)
    else closingQuote s q (i + 1)
  else s.chars.size
termination_by s.chars.size - i

/-- The position where the text of a template stops: its closing quote or the next substitution. -/
def templateStop (s : Input) (i : Nat) : Nat :=
  if i < s.chars.size then
    if s.charAt i == '\x60' || (s.charAt i == '$' && s.charAt (i + 1) == '\x7b') then i
    else if s.charAt i == '\\' then templateStop s (i + 2)
    else templateStop s (i + 1)
  else s.chars.size
termination_by s.chars.size - i

/-- The position of the slash that closes a regular expression; a slash in a character class does not. -/
def closingSlash? (s : Input) (inClass : Bool) (i : Nat) : Option Nat :=
  if i < s.chars.size then
    match s.charAt i with
    | '\n' => none
    | '\\' => closingSlash? s inClass (i + 2)
    | '[' => closingSlash? s true (i + 1)
    | ']' => closingSlash? s false (i + 1)
    | '/' => if inClass then closingSlash? s inClass (i + 1) else some i
    | _ => closingSlash? s inClass (i + 1)
  else none
termination_by s.chars.size - i

/-- The end of the number at a position. -/
def numberEnd (s : Input) (i : Nat) : Nat :=
  let alnum := fun c : Char => c.isAlphanum || c == '_'
  if s.charAt i == '0' && "xXoObB".toList.contains (s.charAt (i + 1)) then s.skipWhile alnum i
  else
    let digits := fun c : Char => c.isDigit || c == '_'
    let whole := s.skipWhile digits i
    let decimals := if s.charAt whole == '.' then s.skipWhile digits (whole + 1) else whole
    let exponent :=
      if s.charAt decimals == 'e' || s.charAt decimals == 'E' then
        let k := if s.charAt (decimals + 1) == '+' || s.charAt (decimals + 1) == '-' then decimals + 2 else decimals + 1
        s.skipWhile digits k
      else decimals
    if s.charAt exponent == 'n' then exponent + 1 else exponent

end Input

namespace Parse

/-- A string in single or double quotes. -/
def string : Parse Tree := do
  let q ← peek
  if q == '"' || q == '\x27' then
    let i ← start
    let s ← input
    let j := s.closingQuote q (i + 1)
    if s.atEnd j then fail
    jump (j + 1)
    leaf .string i
  else fail

/-- A number. -/
def number : Parse Tree := do
  let i ← start
  let s ← input
  if (s.charAt i).isDigit || (s.charAt i == '.' && (s.charAt (i + 1)).isDigit) then
    jump (s.numberEnd i)
    leaf .other i
  else fail

/-- A regular expression. -/
def regularExpression : Parse Tree := do
  let i ← start
  let s ← input
  match s.closingSlash? false (i + 1) with
  | some j =>
    jump (s.skipWhile Char.isAlpha (j + 1))
    leaf .other i
  | none => fail

/-- The next substitution of a template, whose inner part `hole` reads. -/
def substitution (hole : Parse Tree) : Parse (Option Tree) := do
  let s ← input
  let i ← position
  let j := s.templateStop i
  jump j
  if s.charAt j == '$' then
    jump (j + 2)
    let inner ← hole
    char '\x7d'
    return some (← node .substitution j [inner])
  else return none

/-- A template, with `hole` for what stands in its substitutions. -/
def template (hole : Parse Tree) : Parse Tree := do
  let i ← start
  char '\x60'
  let parts ← many (substitution hole)
  char '\x60'
  named .template i parts

/-- Words that are no names. -/
def reservedWords : List String :=
  ["break", "case", "catch", "class", "const", "continue", "debugger", "default", "delete", "do", "else", "enum",
   "extends", "finally", "for", "function", "if", "import", "in", "instanceof", "return", "super", "switch", "this",
   "throw", "try", "typeof", "var", "void", "while", "with", "null", "true", "false"]

/-- A name. -/
def identifier : Parse Tree := do
  if reservedWords.contains (← peekWord) then fail else anyWord .identifier

/-- A private name, with its mark. -/
def privateName : Parse Tree := do
  let i ← start
  op "#"
  let _ ← anyWord .other
  leaf .other i

/-- The name of a property; `computed` reads what stands in brackets. -/
def propertyName (computed : Parse Tree) : Parse Tree := do
  let i ← start
  match ← peek with
  | '"' | '\x27' => string
  | '#' => privateName
  | '[' =>
    char '['
    let inner ← computed
    char ']'
    named .other i [inner]
  | c => if c.isDigit || c == '.' then number else anyWord .other

end Parse

end ExportAudit.Source
