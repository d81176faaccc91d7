import ExportAudit.Source.Rule

/-!
# Types

Readers of types and of what is shared with functions: type parameters, type arguments, parameters and patterns. A
name that stands for a type is a node `typeIdentifier`; the name before type arguments and the last name behind a dot
play the part `name`.
-/

namespace ExportAudit.Source.Parse

/-! ## Arguments and parameters of types -/

/-- Type arguments in angle brackets. -/
def typeArguments (g : Grammar) : Parse Tree := do
  let i ← start
  char '<'
  let items ← commaList '>' (g (.type false))
  if items.isEmpty then fail
  node .other i items

/-- One type parameter with its bounds. -/
def typeParameter (g : Grammar) : Parse Tree := do
  let i ← start
  let _ ← many do
    let w ← peekWord
    if ["const", "in", "out"].contains w && !(← secondWord).isEmpty && (← secondWord) != "extends" then
      return some (← anyWord .other)
    return none
  let name ← anyWord .typeIdentifier
  let bound ← if ← acceptWord "extends" then pure [← node .other i [← g (.type false)]] else pure []
  let fallback ← if ← acceptOp "=" then pure [← node .other i [← g (.type false)]] else pure []
  node .typeParameter i (name.playing .name :: bound ++ fallback)

/-- Type parameters in angle brackets. -/
def typeParameters (g : Grammar) : Parse Tree := do
  let i ← start
  char '<'
  let items ← commaList '>' (typeParameter g)
  if items.isEmpty then fail
  node .other i items

/-- Type parameters, if there are any. -/
def typeParametersIf (g : Grammar) : Parse (List Tree) := do
  if (← peek) == '<' then return [← typeParameters g] else return []

/-! ## Patterns and parameters -/

/-- A default value behind a pattern. -/
def defaultValue (g : Grammar) : Parse (List Tree) := do
  if ← acceptOp "=" then return [← g (.assignment .inner)] else return []

/-- One entry of an object pattern. -/
def patternEntry (g : Grammar) : Parse Tree := do
  let i ← start
  if ← acceptOp "..." then
    node .other i [← g .pattern]
  else
    let name ← propertyName (g (.sequence .inner))
    if ← acceptOp ":" then
      let target ← g .pattern
      node .other i (name :: target :: (← defaultValue g))
    else
      node .other i (name :: (← defaultValue g))

/-- One entry of an array pattern: holes are passed. -/
def arrayPatternEntry (g : Grammar) : Parse Tree := do
  let i ← start
  if (← peekOp) == "," then node .other i []
  else if ← acceptOp "..." then node .other i [← g .pattern]
  else
    let target ← g .pattern
    node .other i (target :: (← defaultValue g))

/-- A pattern that binds names. -/
def pattern (g : Grammar) : Parse Tree := do
  let i ← start
  match ← peek with
  | '\x7b' =>
    char '\x7b'
    node .other i (← commaList '\x7d' (patternEntry g))
  | '[' =>
    char '['
    node .other i (← commaList ']' (arrayPatternEntry g))
  | _ => identifier

/-- A type behind a colon. -/
def annotation (g : Grammar) (line : Bool) : Parse (List Tree) := do
  if ← acceptOp ":" then return [← g (.type line)] else return []

/-- The primary part of an expression behind an at sign: a name with members, calls of it, or a parenthesis. -/
def decorator (g : Grammar) : Parse Tree := do
  let i ← start
  op "@"
  if (← peek) == '(' then
    char '('
    let inner ← g (.sequence .inner)
    char ')'
    node .other i [inner]
  else
    let name ← anyWord .identifier
    let callee ← extend (fun t => do
      if ← acceptOp "." then
        let _ ← anyWord .other
        return some (← node .other i [t])
      return none) name
    let types ← if (← peek) == '<' then optional (typeArguments g) else pure []
    if (← peek) == '(' then
      let k ← start
      char '('
      let items ← commaList ')' do
        let _ ← acceptOp "..."
        g (.assignment .inner)
      let call ← node .call i (callee.playing .callee :: types ++ [(← node .arguments k items).playing .arguments])
      node .other i [call]
    else node .other i (callee :: types)

def decorators (g : Grammar) : Parse (List Tree) :=
  many do
    if (← peek) == '@' then return some (← decorator g) else return none

/-- Words that may stand before a parameter. -/
def parameterModifiers : List String := ["public", "private", "protected", "override", "readonly"]

/-- One parameter of a function. -/
def parameter (g : Grammar) : Parse Tree := do
  let i ← start
  let marks ← decorators g
  let _ ← many do
    if parameterModifiers.contains (← peekWord) && (!(← secondWord).isEmpty || ["\x7b", "["].contains (← opAfterWord))
    then return some (← anyWord .other)
    else return none
  let rest ← acceptOp "..."
  let target ← if (← peekWord) == "this" then anyWord .other else g .pattern
  let _ ← if rest then pure false else acceptOp "?"
  let type ← annotation g false
  node .other i (marks ++ target :: type ++ (← defaultValue g))

/-- Parameters in parentheses. -/
def parameters (g : Grammar) : Parse Tree := do
  let i ← start
  char '('
  node .other i (← commaList ')' (parameter g))

/-- What a function promises about its result: a type, or a statement about a parameter. -/
def resultType (g : Grammar) (line : Bool) : Parse Tree := do
  let i ← start
  let w ← peekWord
  let second ← secondWord
  if w == "asserts" && !second.isEmpty && second != "is" && second != "extends" then
    let _ ← anyWord .other
    let subject ← anyWord .other
    if (← peekWord) == "is" then
      keyword "is"
      node .other i [subject, ← g (.type line)]
    else node .other i [subject]
  else if !w.isEmpty && second == "is" then
    let subject ← anyWord .other
    keyword "is"
    node .other i [subject, ← g (.type line)]
  else g (.type line)

/-- A result type behind a colon. -/
def resultAnnotation (g : Grammar) (line : Bool) : Parse (List Tree) := do
  if ← acceptOp ":" then return [← resultType g line] else return []

/-- Type parameters, parameters and result of a function. -/
def signature (g : Grammar) (line : Bool) : Parse (List Tree) := do
  let types ← typeParametersIf g
  let params ← parameters g
  return types ++ params :: (← resultAnnotation g line)

/-! ## Function types -/

/-- A function type from its parameters on. -/
def functionTypeTail (g : Grammar) (line : Bool) (i : Nat) : Parse Tree := do
  let types ← typeParametersIf g
  let params ← parameters g
  op "=>"
  node .other i (types ++ [params, ← resultType g line])

/-- A function or constructor type. -/
def functionType (g : Grammar) (line : Bool) : Parse Tree := do
  let i ← start
  let _ ← if (← secondWord) == "new" then acceptWord "abstract" else pure false
  let _ ← acceptWord "new"
  functionTypeTail g line i

/-! ## Members of object types -/

/-- A modifier and its sign before a mapped key. -/
def mappedModifier : Parse Unit := do
  let _ ← attempt do
    if !(← acceptOp "+") then
      op "-"
    keyword "readonly"

/-- A key in brackets: an index `[key: K]`, a mapped key `[K in T as U]`, or a computed name. -/
def bracketKey (g : Grammar) : Parse (List Tree) := do
  char '['
  let i ← start
  if (← opAfterWord) == ":" then
    let name ← anyWord .other
    char ':'
    let t ← g (.type false)
    char ']'
    return [name, t]
  else if (← secondWord) == "in" then
    let name ← anyWord .typeIdentifier
    keyword "in"
    let t ← g (.type false)
    let renamed ← if ← acceptWord "as" then pure [← g (.type false)] else pure []
    char ']'
    return [← node .other i (name.playing .name :: t :: renamed)]
  else
    let e ← g (.sequence .inner)
    char ']'
    return [e]

/-- Words that may stand before a member of an object type. -/
def memberModifiers : List String :=
  ["readonly", "public", "private", "protected", "static", "override", "get", "set", "async"]

/-- Whether the next word is followed by the name of a member, so that it is a modifier itself. -/
def beforeName : Parse Bool := do
  let o ← opAfterWord
  let s ← input
  let quoted ← lookahead do
    let _ ← anyWord .other
    return (s.charAt (← start)).isDigit
  return !(← secondWord).isEmpty || ["\"", "\x27", "[", "#"].contains o || quoted == some true

/-- One member of an object type. -/
def typeMember (g : Grammar) : Parse Tree := do
  let i ← start
  mappedModifier
  let _ ← many do
    if memberModifiers.contains (← peekWord) && (← beforeName) then return some (← anyWord .other) else return none
  let c ← peek
  let next ← opAfterWord
  if c == '(' || c == '<' then
    node .other i (← signature g true)
  else if (← peekWord) == "new" && (next == "(" || next == "<") then
    keyword "new"
    node .other i (← signature g true)
  else
    let key ← if c == '[' then bracketKey g else pure [← propertyName (g (.sequence .inner))]
    let _ ← attempt do
      if !(← acceptOp "+") then
        op "-"
    let _ ← acceptOp "?"
    let c ← peek
    if c == '(' || c == '<' then
      if ← endsHere false then node .other i key
      else node .other i (key ++ (← signature g true))
    else node .other i (key ++ (← annotation g true))

/-- The members of an object type between braces. -/
def objectType (g : Grammar) : Parse Tree := do
  let i ← start
  char '\x7b'
  let _ ← acceptOp "|"
  let members ← many do
    let _ ← many do
      if (← acceptOp ";") || (← acceptOp ",") then return some () else return none
    if (← peek) == '\x7d' || (← peekOp) == "|" then return none
    let m ← typeMember g
    if (← acceptOp ";") || (← acceptOp ",") || (← endsHere false) || (← peekOp) == "|" then return some m else fail
  let _ ← acceptOp "|"
  char '\x7d'
  node .other i members

/-! ## Primary types -/

/-- Types with a name of their own. -/
def predefinedTypes : List String :=
  ["any", "number", "boolean", "string", "symbol", "void", "unknown", "never", "object", "undefined", "null", "true",
   "false", "this"]

/-- A name with members, and type arguments behind it. -/
def typeName (g : Grammar) : Parse Tree := do
  let i ← start
  let first ← anyWord .typeIdentifier
  let nested ← many do
    if ← acceptOp "." then return some (← anyWord .other) else return none
  let name ← if nested.isEmpty then pure first else leaf .other i
  if (← peek) == '<' then
    node .other i [name.playing .name, ← typeArguments g]
  else return name

/-- The type of a value: `typeof` with a name, its members and type arguments. -/
def typeQuery (g : Grammar) : Parse Tree := do
  let i ← start
  keyword "typeof"
  let first ← anyWord .other
  let argument ← if first.text == "import" then
      char '('
      let t ← g (.type false)
      char ')'
      pure [t]
    else pure []
  let _ ← many do
    if (← acceptOp ".") || (← acceptOp "?.") then
      if (← peek) == '#' then return some (← privateName)
      return some (← anyWord .other)
    return none
  let types ← if (← peek) == '<' then optional (typeArguments g) else pure []
  node .other i (argument ++ types)

/-- One entry of a tuple type. -/
def tupleEntry (g : Grammar) : Parse Tree := do
  let i ← start
  let _ ← acceptOp "..."
  let _ ← attempt do
    let _ ← anyWord .other
    let _ ← acceptOp "?"
    op ":"
  let t ← g (.type false)
  let _ ← acceptOp "?"
  node .other i [t]

/-- A type that begins with a word. -/
def wordType (g : Grammar) (line : Bool) (operand : Parse Tree) : Parse Tree := do
  let i ← start
  let w ← peekWord
  let second ← secondWord
  let o ← opAfterWord
  if w == "typeof" then typeQuery g
  else if w == "unique" && second == "symbol" then
    keyword "unique"
    keyword "symbol"
    node .other i []
  else if (w == "keyof" || w == "readonly") &&
      (!second.isEmpty || ["(", "[", "\x7b", "\x60", "\"", "\x27"].contains o) then
    keyword w
    node .other i [← operand]
  else if w == "infer" && !second.isEmpty then
    keyword w
    let name ← anyWord .typeIdentifier
    -- a question mark behind the bound makes it the condition of the whole type
    let bound ← attempt do
      keyword "extends"
      let t ← g (.type line)
      if (← peekOp) == "?" then fail
      return t
    node .other i (name :: bound.toList)
  else if w == "import" && o == "(" then
    keyword w
    char '('
    let t ← g (.type false)
    char ')'
    let _ ← many do
      if ← acceptOp "." then return some (← anyWord .other) else return none
    let types ← if (← peek) == '<' then optional (typeArguments g) else pure []
    node .other i (t :: types)
  else if predefinedTypes.contains w then anyWord .other
  else typeName g

/-- A type in parentheses. -/
def parenthesizedType (g : Grammar) : Parse Tree := do
  let i ← start
  char '('
  let t ← g (.type false)
  char ')'
  node .other i [t]

/-- A type without operators behind it. -/
def primaryType (g : Grammar) (line : Bool) (operand : Parse Tree) : Parse Tree := do
  let i ← start
  match ← peek with
  | '(' => parenthesizedType g
  | '\x7b' => objectType g
  | '[' =>
    char '['
    node .other i (← commaList ']' (tupleEntry g))
  | '"' | '\x27' => return (← string).ofKind .other
  | '\x60' => return (← template (g (.type false))).ofKind .other
  | '-' =>
    char '-'
    number
  | c => if c.isDigit then number else wordType g line operand

/-- An array suffix or an index behind a type. -/
def typeSuffix (g : Grammar) (line : Bool) (t : Tree) : Parse (Option Tree) := do
  if line && (← endsHere false) then return none
  if (← peek) == '[' then
    let i ← start
    char '['
    if (← peek) == ']' then
      char ']'
      return some (← node .other i [t])
    let index ← g (.type false)
    char ']'
    return some (← node .other i [t, index])
  return none

/-- An operand of a union: a function type, or a primary type with its suffixes. At most `n` type operators precede it. -/
def typeOperand (g : Grammar) (line : Bool) : Nat → Parse Tree
  | 0 => fail
  | n + 1 => do
    let c ← peek
    let w ← peekWord
    let isConstructor := w == "new" || (w == "abstract" && (← secondWord) == "new")
    let plain : Parse Tree := do
      extend (typeSuffix g line) (← primaryType g line (typeOperand g line n))
    if isConstructor then functionType g line
    else if c == '(' || c == '<' then orElse (functionType g line) plain
    else plain

/-- A union or intersection of types. -/
def unionType (g : Grammar) (line : Bool) : Parse Tree := do
  let i ← start
  let _ ← many do
    if (← acceptOp "|") || (← acceptOp "&") then return some () else return none
  let operand := typeOperand g line (← budget)
  let first ← operand
  let others ← many do
    if line && (← endsHere false) then return none
    if (← acceptOp "|") || (← acceptOp "&") then return some (← operand) else return none
  if others.isEmpty then return first else node .other i (first :: others)

/-- A variable of a condition with a bound of its own, right before the question mark of the condition. -/
def boundedVariable (g : Grammar) (line : Bool) : Parse Tree := do
  let i ← start
  keyword "infer"
  let name ← anyWord .typeIdentifier
  keyword "extends"
  let bound ← unionType g line
  if (← peekOp) == "?" then node .other i [name, bound] else fail

/-- A type: a union or intersection, and a condition behind it. -/
def type (g : Grammar) (line : Bool) : Parse Tree := do
  let i ← start
  let subject ← unionType g line
  let conditional ← attempt do
    if line && (← endsHere false) then fail
    keyword "extends"
    let bound ← orElse (boundedVariable g line) (g (.type line))
    op "?"
    let yes ← g (.type false)
    char ':'
    let no ← g (.type line)
    return [bound, yes, no]
  match conditional with
  | some parts => node .other i (subject :: parts)
  | none => return subject

end ExportAudit.Source.Parse
