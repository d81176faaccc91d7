import ExportAudit.Source.Types

/-!
# Expressions

Readers of expressions. Operators are read flat, without their precedence: the facts rest on calls, arguments, literals
and functions, not on the order of evaluation. A comment among the arguments of a call and around the equals sign of an
attribute takes up a position of its own.
-/

namespace ExportAudit.Source.Parse

/-! ## Functions -/

/-- A block of statements. -/
def block (g : Grammar) : Parse Tree := do
  let i ← start
  char '\x7b'
  let body ← many do
    if (← peek) == '\x7d' then return none else return some (← g .statement)
  char '\x7d'
  node .block i body

/-- The body of an arrow function. -/
def arrowBody (g : Grammar) (m : Mode) : Parse Tree := do
  if (← peek) == '\x7b' then block g else g (.assignment m)

/-- The word `async` where it marks a function on its line. -/
def asyncMark : Parse Unit := do
  keyword "async"
  if ← breaksHere then fail

/-- An arrow function up to its arrow: a name, or parameters with types. -/
def arrowHead (g : Grammar) (m : Mode) : Parse (List Tree) := do
  let word ← peekWord
  if !word.isEmpty then
    let name ← identifier
    op "=>"
    return [name]
  else
    let types ← typeParametersIf g
    let params ← parameters g
    let result ← if m.resultTypes then resultAnnotation g false else pure []
    op "=>"
    return types ++ params :: result

/-- Whether angle brackets here may open the type parameters of an arrow function; in a file with markup they do only
when a bound or a comma follows the first name. -/
def mayOpenTypeParameters : Parse Bool := do
  if !(← input).markup then return true
  let found ← lookahead do
    char '<'
    let _ ← acceptWord "const"
    let _ ← anyWord .other
    if !(← acceptOp ",") then keyword "extends"
  return found.isSome

/-- An arrow function. -/
def arrowFunction (g : Grammar) (m : Mode) : Parse Tree := do
  let i ← start
  if (← peekWord) == "async" && (← opAfterWord) != "=>" then
    asyncMark
  let word ← peekWord
  if word.isEmpty then
    match ← peek with
    | '(' => pure ()
    | '<' => if !(← mayOpenTypeParameters) then fail
    | _ => fail
  else if (← opAfterWord) != "=>" then fail
  let head ← arrowHead g m
  let body ← arrowBody g m
  node .arrowFunction i (head ++ [body.playing .body])

/-- A function from the word `function` on, with its name if it has one. A function without a body is a signature. -/
def functionFrom (g : Grammar) (i : Nat) (declared : Bool) : Parse Tree := do
  keyword "function"
  let generator ← acceptOp "*"
  let name ← if (← peek) == '(' || (← peek) == '<' then pure [] else optional (anyWord .identifier)
  let parts ← signature g declared
  let head := name.map (·.playing .name) ++ parts
  if (← peek) == '\x7b' then
    let body ← block g
    let kind : Kind :=
      match declared, generator with
      | true, false => .functionDeclaration
      | true, true => .generatorDeclaration
      | false, false => .functionExpression
      | false, true => .generatorExpression
    node kind i (head ++ [body.playing .body])
  else if declared then
    if !(← acceptOp ";") && !(← endsHere false) then fail
    node .functionSignature i head
  else fail

/-- A function with the words before it. -/
def function (g : Grammar) (declared : Bool) : Parse Tree := do
  let i ← start
  if (← peekWord) == "async" then asyncMark
  functionFrom g i declared

/-! ## Object and array literals -/

/-- Parameters and body of a method; a method without a body is a signature. -/
def methodTail (g : Grammar) (line : Bool) : Parse (List Tree) := do
  let parts ← signature g line
  if (← peek) == '\x7b' then return parts ++ [← block g] else return parts

/-- One entry of an object literal. -/
def objectEntry (g : Grammar) : Parse Tree := do
  let i ← start
  if ← acceptOp "..." then
    node .other i [← g (.assignment .inner)]
  else
    let marks ← many do
      if ["async", "get", "set", "static"].contains (← peekWord) && ((← beforeName) || (← opAfterWord) == "*") then
        return some (← anyWord .other)
      else return none
    let generator ← acceptOp "*"
    let key ← propertyName (g (.sequence .inner))
    let c ← peek
    if c == '(' || c == '<' then
      node .other i (key :: (← methodTail g false))
    else if !marks.isEmpty || generator then fail
    else if ← acceptOp ":" then
      let value ← g (.assignment .inner)
      node .pair i [key.playing .key, value.playing .value]
    else
      node .other i (← defaultValue g)

def objectLiteral (g : Grammar) : Parse Tree := do
  let i ← start
  char '\x7b'
  node .object i (← commaList '\x7d' (objectEntry g))

/-- One entry of an array literal: holes are passed. -/
def arrayEntry (g : Grammar) : Parse Tree := do
  let i ← start
  if (← peekOp) == "," then node .other i []
  else if ← acceptOp "..." then node .other i [← g (.assignment .inner)]
  else g (.assignment .inner)

def arrayLiteral (g : Grammar) : Parse Tree := do
  let i ← start
  char '['
  node .other i (← commaList ']' (arrayEntry g))

/-! ## Calls and members -/

/-- The arguments of a call, the comments between them included. -/
def callArguments (g : Grammar) : Parse Tree := do
  let i ← start
  char '('
  let groups ← many do
    let before ← comments
    if (← peek) == ')' then
      if before.isEmpty then return none else return some before
    if ← acceptOp "," then return some before
    let k ← start
    let item ← if ← acceptOp "..." then node .other k [← g (.assignment .inner)] else g (.assignment .inner)
    return some (before ++ [item])
  char ')'
  node .arguments i groups.flatten

/-- A call of what stands before. -/
def call (i : Nat) (callee : Tree) (types : List Tree) (arguments : Tree) : Parse Tree :=
  node .call i (callee.playing .callee :: types ++ [arguments.playing .arguments])

/-- Arguments in parentheses or a template behind a callee. -/
def callTail (g : Grammar) : Parse Tree := do
  if (← peek) == '(' then callArguments g else template (g (.sequence .inner))

/-- Whether type arguments that end here may stand without a call. -/
def endsInstantiation : Parse Bool := do
  let o ← peekOp
  return (← atEnd) || [")", "]", "\x7d", ",", ";", ":", ".", "?."].contains o || (← breaksHere)

/-- A call with type arguments. -/
def genericCall (g : Grammar) (i : Nat) (t : Tree) : Parse Tree := do
  let types ← typeArguments g
  let c ← peek
  if c == '(' || c == '\x60' then call i t [types] (← callTail g) else fail

/-- Type arguments without a call. -/
def instantiation (g : Grammar) (i : Nat) (t : Tree) : Parse Tree := do
  let types ← typeArguments g
  if ← endsInstantiation then node .other i [t, types] else fail

/-- One member access, call or mark behind an expression; `calls` tells whether calls belong to it. -/
def suffix (g : Grammar) (m : Mode) (calls : Bool) (i : Nat) (t : Tree) : Parse (Option Tree) := do
  if !(← goesOn m) then return none
  match ← peekOp with
  | "." =>
    op "."
    let name ← if (← peek) == '#' then privateName else anyWord .other
    return some (← node .other i [t, name])
  | "?." =>
    if !calls then return none
    op "?."
    match ← peek with
    | '(' => return some (← call i t [] (← callArguments g))
    | '[' =>
      char '['
      let index ← g (.sequence .inner)
      char ']'
      return some (← node .other i [t, index])
    | '<' => return some (← genericCall g i t)
    | '\x60' => return some (← call i t [] (← callTail g))
    | '#' => return some (← node .other i [t, ← privateName])
    | _ => return some (← node .other i [t, ← anyWord .other])
  | "[" =>
    char '['
    let index ← g (.sequence .inner)
    char ']'
    return some (← node .other i [t, index])
  | "(" => if calls then return some (← call i t [] (← callArguments g)) else return none
  | "\x60" => return some (← call i t [] (← callTail g))
  | "!" =>
    op "!"
    return some (← node .other i [t])
  | "<" | "<<" => if calls then attempt (orElse (genericCall g i t) (instantiation g i t)) else return none
  | _ => return none

/-- An expression behind `new`, with its arguments. At most `n` words `new` follow each other. -/
def newExpression (g : Grammar) (m : Mode) (primary : Parse Tree) : Nat → Parse Tree
  | 0 => fail
  | n + 1 => do
    let i ← start
    keyword "new"
    if ← acceptOp "." then
      let _ ← anyWord .other
      node .other i []
    else
      let k ← start
      let base ← if (← peekWord) == "new" then newExpression g m primary n else primary
      let callee ← extend (suffix g m false k) base
      let types ← if (← peekOp) == "<" then optional (typeArguments g) else pure []
      let arguments ← if (← goesOn m) && (← peek) == '(' then pure [← callArguments g] else pure []
      node .other i (callee :: types ++ arguments)

/-! ## Classes -/

/-- A base of a class: a value with its members and calls, and type arguments that belong to the base. -/
def baseClass (g : Grammar) (primary : Parse Tree) : Parse (List Tree) := do
  let i ← start
  let value ← extend (fun t => do
    if (← peek) == '<' then attempt (genericCall g i t) else suffix g .inner true i t) (← primary)
  let types ← if (← peek) == '<' then optional (typeArguments g) else pure []
  return value :: types

/-- What a class extends and implements. -/
def heritage (g : Grammar) (primary : Parse Tree) : Parse (List Tree) :=
  many do
    let i ← start
    if ← acceptWord "extends" then
      return some (← node .extendsClause i (← commaSeparated (baseClass g primary)).flatten)
    if ← acceptWord "implements" then
      return some (← node .other i (← commaSeparated (g (.type false))))
    return none

/-- Words that may stand before a member of a class. -/
def classModifiers : List String :=
  ["public", "private", "protected", "static", "override", "readonly", "abstract", "declare", "accessor", "async", "get",
   "set"]

/-- One member of a class. -/
def classMember (g : Grammar) : Parse Tree := do
  let i ← start
  let marks ← decorators g
  let _ ← many do
    if classModifiers.contains (← peekWord) && ((← beforeName) || (← opAfterWord) == "*") then
      return some (← anyWord .other)
    else return none
  if (← peekWord) == "static" && (← opAfterWord) == "\x7b" then
    keyword "static"
    node .other i (marks ++ [← block g])
  else
    let _ ← acceptOp "*"
    let key ← if (← peek) == '[' then bracketKey g else pure [← propertyName (g (.sequence .inner))]
    let _ ← if !(← endsHere false) then (do return (← acceptOp "?") || (← acceptOp "!")) else pure false
    let c ← peek
    if (c == '(' || c == '<') && !(← endsHere false) then
      let parts ← methodTail g true
      node .other i (marks ++ key ++ parts)
    else
      let type ← annotation g true
      let value ← if ← acceptOp "=" then pure [← g (.assignment .statement)] else pure []
      if (← peekOp) == ";" || (← peekOp) == "," || (← endsHere true) || (← endsHere false) then
        node .other i (marks ++ key ++ type ++ value)
      else fail

/-- The members of a class between braces. -/
def classBody (g : Grammar) : Parse Tree := do
  let i ← start
  char '\x7b'
  let members ← many do
    let _ ← many do
      if (← acceptOp ";") || (← acceptOp ",") then return some () else return none
    if (← peek) == '\x7d' then return none else return some (← classMember g)
  char '\x7d'
  node .other i members

/-- A class from the word `class` on. -/
def classFrom (g : Grammar) (primary : Parse Tree) (i : Nat) (kind : Kind) (marks : List Tree) : Parse Tree := do
  keyword "class"
  let w ← peekWord
  let name ← if w.isEmpty || w == "extends" || (w == "implements" && (← opAfterWord) != "\x7b") then pure []
    else pure [(← anyWord .typeIdentifier).playing .name]
  let types ← typeParametersIf g
  let bases ← heritage g primary
  let body ← classBody g
  node kind i (marks ++ name ++ types ++ bases ++ [body.playing .body])

/-! ## Primary expressions -/

/-- Words that stand for a value of their own. -/
def valueWords : List String := ["this", "super", "null", "true", "false", "undefined"]

/-- An expression without operators or suffixes; `fuel` bounds how often `new` and class heads nest. -/
def primary (g : Grammar) (m : Mode) : Nat → Parse Tree
  | 0 => fail
  | fuel + 1 => do
    let i ← start
    match ← peek with
    | '"' | '\x27' => string
    | '\x60' => template (g (.sequence .inner))
    | '(' =>
      char '('
      let inner ← g (.sequence .inner)
      char ')'
      node .other i [inner]
    | '[' => arrayLiteral g
    | '\x7b' => objectLiteral g
    | '/' => regularExpression
    | '<' => if (← input).markup then g .element else fail
    | '#' => privateName
    | '@' =>
      let marks ← decorators g
      classFrom g (primary g m fuel) i .classExpression marks
    | c =>
      if c.isDigit || c == '.' then number
      else
        let w ← peekWord
        if w == "function" then function g false
        else if w == "async" && (← secondWord) == "function" then orElse (function g false) identifier
        else if w == "class" then classFrom g (primary g m fuel) i .classExpression []
        else if w == "new" then newExpression g m (primary g m fuel) (← budget)
        else if w == "import" || valueWords.contains w then anyWord .other
        else identifier

/-- An expression with its members and calls. -/
def memberExpression (g : Grammar) (m : Mode) : Parse Tree := do
  let i ← start
  let base ← primary g m (← budget)
  extend (suffix g m true i) base

/-! ## Operators -/

/-- Operators before an operand. -/
def prefixOperators : List String := ["!", "~", "-", "+", "++", "--"]

/-- Words that are operators before an operand. -/
def prefixWords : List String := ["typeof", "void", "delete", "await"]

/-- An operand with the operators before and behind it. -/
def unary (g : Grammar) (m : Mode) : Parse Tree := do
  let i ← start
  let o ← peekOp
  let w ← peekWord
  if prefixOperators.contains o then
    op o
    node .other i [← g (.unary m)]
  else if prefixWords.contains w && (← opAfterWord) != "=>" then
    keyword w
    node .other i [← g (.unary m)]
  else if o == "<" && !(← input).markup then
    char '<'
    let t ← g (.type false)
    char '>'
    node .other i [t, ← g (.unary m)]
  else
    let t ← memberExpression g m
    if ← goesOn m then
      if (← acceptOp "++") || (← acceptOp "--") then node .other i [t] else return t
    else return t

/-- Operators between operands. -/
def binaryOperators : List String :=
  ["&&", "||", "??", "==", "!=", "===", "!==", "<", ">", "<=", ">=", "<<", ">>", ">>>", "+", "-", "*", "/", "%", "**",
   "&", "|", "^"]

/-- One further operand, or a type behind `as` or `satisfies`. -/
def operation (g : Grammar) (m : Mode) : Parse (Option Tree) := do
  if !(← goesOn m) then return none
  let w ← peekWord
  if w == "as" || w == "satisfies" then
    keyword w
    if (← peekWord) == "const" then return some (← anyWord .other)
    return some (← g (.type m.line))
  else if w == "instanceof" || (w == "in" && m.membership) then
    keyword w
    return some (← g (.unary m))
  else
    let o ← peekOp
    if binaryOperators.contains o then
      op o
      return some (← g (.unary m))
    else return none

/-- Operators that assign. -/
def assignmentOperators : List String :=
  ["=", "+=", "-=", "*=", "/=", "%=", "**=", "<<=", ">>=", ">>>=", "&=", "|=", "^=", "&&=", "||=", "??="]

/-- The two branches of a conditional expression, behind its question mark. -/
def branches (g : Grammar) (m : Mode) : Parse (List Tree) := do
  let branch (resultTypes : Bool) : Parse Tree := do
    let t ← g (.assignment ⟨false, true, resultTypes⟩)
    op ":"
    return t
  let yes ← orElse (branch true) (branch false)
  return [yes, ← g (.assignment m)]

/-- An expression with operators, a condition or an assignment. -/
def operatorExpression (g : Grammar) (m : Mode) : Parse Tree := do
  let i ← start
  let first ← g (.unary m)
  let others ← many (operation g m)
  let t ← if others.isEmpty then pure first else node .other i (first :: others)
  if !(← goesOn m) then return t
  let o ← peekOp
  if o == "?" then
    op "?"
    node .other i (t :: (← branches g m))
  else if assignmentOperators.contains o then
    op o
    node .other i [t, ← g (.assignment m)]
  else return t

/-- A `yield` and its operand. -/
def yieldExpression (g : Grammar) (m : Mode) : Parse Tree := do
  let i ← start
  keyword "yield"
  let _ ← acceptOp "*"
  if ← endsHere true then node .other i []
  else if [")", "]", "\x7d", ",", ";", ":"].contains (← peekOp) then node .other i []
  else node .other i [← g (.assignment m)]

/-- An expression without commas. -/
def assignment (g : Grammar) (m : Mode) : Parse Tree := do
  let c ← peek
  let w ← peekWord
  if w == "yield" then yieldExpression g m
  else if c == '(' || c == '<' || !w.isEmpty then orElse (arrowFunction g m) (operatorExpression g m)
  else operatorExpression g m

/-- An expression with commas. -/
def sequence (g : Grammar) (m : Mode) : Parse Tree := do
  let i ← start
  let first ← g (.assignment m)
  let others ← many do
    if ← acceptOp "," then return some (← g (.assignment m)) else return none
  if others.isEmpty then return first else node .other i (first :: others)

end ExportAudit.Source.Parse
