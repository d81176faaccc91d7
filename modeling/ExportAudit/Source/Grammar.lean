import ExportAudit.Source.Statement

/-!
# Source files

The knot of the grammar, `Source.grammar`, and the reader of whole files, `Source.parse`. The nesting of constructs is
bounded by the length of the file, so the bound that ties the knot is never met by a file that can be read. A line on
which no statement can be read is passed over.
-/

namespace ExportAudit.Source

/-- Every construct of the language, nested at most `fuel` deep. -/
def grammar : Nat → Grammar
  | 0, _ => Parse.fail
  | fuel + 1, rule =>
    let g := grammar fuel
    match rule with
    | .statement => Parse.statement g
    | .sequence m => Parse.sequence g m
    | .assignment m => Parse.assignment g m
    | .unary m => Parse.unary g m
    | .type line => Parse.type g line
    | .pattern => Parse.pattern g
    | .element => Parse.element g

namespace Parse

/-- A first line that names the interpreter of the file. -/
def hashBang : Parse (List Tree) := do
  let s ← input
  if s.charAt 0 == '#' && s.charAt 1 == '!' then
    jump (s.skipWhile (· != '\n') 0)
    return [← leaf .hashBang 0]
  else return []

/-- The next statement of a file, after lines that cannot be read. -/
def topStatement (g : Grammar) : Parse (Option (List Tree)) := do
  if ← atEnd then return none
  match ← attempt (g .statement) with
  | some t => return some [t]
  | none =>
    let s ← input
    jump (s.skipWhile (· != '\n') (← start) + 1)
    return some []

/-- The statements of a file. -/
def program (g : Grammar) : Parse Tree := do
  let first ← hashBang
  let statements ← many (topStatement g)
  node .program 0 (first ++ statements.flatten)

end Parse

/-- The tree of a file; `markup` tells whether elements may stand in its expressions. -/
def parse (markup : Bool) (text : List Char) : Tree :=
  let s := Input.ofText markup text
  match Parse.program (grammar (8 * s.chars.size + 64)) s 0 with
  | some (t, _) => t
  | none => .node .program none 1 "" []

end ExportAudit.Source
