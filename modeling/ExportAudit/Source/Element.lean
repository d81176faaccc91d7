import ExportAudit.Source.Expression

/-!
# Markup elements

Readers of elements in expressions: `<form action={save}>…</form>`. An attribute is a node whose children are its name,
the comments around its equals sign, and its value.
-/

namespace ExportAudit.Source

/-- The characters of an element or attribute name. -/
def isMarkupNameChar (c : Char) : Bool :=
  isNameChar c || c == '-' || c == ':'

namespace Parse

/-- A name of an element or attribute; `dots` tells whether members may stand in it. -/
def markupName (dots : Bool) : Parse Tree := do
  let i ← start
  let s ← input
  if !isNameStart (s.charAt i) || s.atEnd i then fail
  jump (s.skipWhile (fun c => isMarkupNameChar c || (dots && c == '.')) i)
  leaf .other i

/-- A string of an attribute, in which a backslash has no meaning. -/
def markupString : Parse Tree := do
  let i ← start
  let s ← input
  let q := s.charAt i
  let j := s.skipWhile (· != q) (i + 1)
  if s.atEnd j then fail
  jump (j + 1)
  leaf .string i

/-- What stands in braces: an expression, a spread, or nothing but comments. -/
def braced (g : Grammar) : Parse Tree := do
  let i ← start
  char '\x7b'
  if (← peek) == '\x7d' then
    char '\x7d'
    node .attributeExpression i []
  else
    let k ← start
    let inner ← if ← acceptOp "..." then node .other k [← g (.assignment .inner)] else g (.sequence .inner)
    char '\x7d'
    node .attributeExpression i [inner]

/-- The value of an attribute. -/
def attributeValue (g : Grammar) : Parse Tree := do
  match ← peek with
  | '\x7b' => braced g
  | '<' => g .element
  | '"' | '\x27' => markupString
  | _ => fail

/-- One attribute, or a spread of attributes. -/
def elementAttribute (g : Grammar) : Parse Tree := do
  if (← peek) == '\x7b' then braced g
  else
    let i ← start
    let name ← markupName false
    let behind ← position
    let before ← comments
    if ← acceptOp "=" then
      let after ← comments
      node .attribute i (name :: before ++ after ++ [← attributeValue g])
    else
      jump behind
      node .attribute i [name]

/-- The text up to the next element or brace. -/
def markupText : Parse Unit := do
  let s ← input
  jump (s.skipWhile (fun c => c != '<' && c != '\x7b') (← position))

/-- What stands between the tags of an element. -/
def markupChildren (g : Grammar) : Parse (List Tree) :=
  many do
    markupText
    let s ← input
    let i ← position
    if s.charAt i == '\x7b' then return some (← braced g)
    else if s.charAt i == '<' && s.charAt (s.next (i + 1)) != '/' then return some (← g .element)
    else return none

/-- The closing tag of an element. -/
def closingTag : Parse Unit := do
  char '<'
  char '/'
  let _ ← optional (markupName true)
  char '>'

/-- An element. -/
def element (g : Grammar) : Parse Tree := do
  let i ← start
  char '<'
  if (← peek) == '>' then
    char '>'
    let inner ← markupChildren g
    closingTag
    node .other i inner
  else
    let _ ← markupName true
    let types ← if (← peek) == '<' then optional (typeArguments g) else pure []
    let attributes ← many do
      let c ← peek
      if c == '>' || c == '/' then return none else return some (← elementAttribute g)
    if ← acceptOp "/" then
      char '>'
      node .other i (types ++ attributes)
    else
      char '>'
      let inner ← markupChildren g
      closingTag
      node .other i (types ++ attributes ++ inner)

end Parse

end ExportAudit.Source
