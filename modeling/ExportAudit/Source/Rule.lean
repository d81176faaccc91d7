import ExportAudit.Source.Literal

/-!
# Rules of the grammar

The grammar is written in open recursion: every reader takes a `Grammar`, which reads any construct that may stand
inside the one being read, and the knot is tied once, over the whole of it.
-/

namespace ExportAudit.Source

/-- How an expression is read: whether a line break may end it, whether the operator `in` belongs to it, and whether a
type may stand between the parameters of an arrow function and its arrow. -/
structure Mode where
  line : Bool
  membership : Bool
  resultTypes : Bool
  deriving DecidableEq, Repr

/-- Inside brackets of any sort. -/
def Mode.inner : Mode := ⟨false, true, true⟩

/-- As part of a statement. -/
def Mode.statement : Mode := ⟨true, true, true⟩

/-- The constructs that nest. In a type, `line` tells whether a line break may end it. -/
inductive Rule where
  | statement
  | sequence (m : Mode)
  | assignment (m : Mode)
  | unary (m : Mode)
  | type (line : Bool)
  | pattern
  | element
  deriving DecidableEq, Repr

/-- A reader of every construct. -/
abbrev Grammar := Rule → Parse Tree

namespace Parse

/-- Whether an expression may go on at the present position. -/
def goesOn (m : Mode) : Parse Bool := do
  if m.line then return !(← endsHere true) else return true

/-- Applies a step to a tree until it yields none, at most `n` times. -/
def extendUpTo (step : Tree → Parse (Option Tree)) : Nat → Tree → Parse Tree
  | 0, t => pure t
  | n + 1, t => do
    match ← step t with
    | none => pure t
    | some u => extendUpTo step n u

/-- Applies a step to a tree until it yields none. -/
def extend (step : Tree → Parse (Option Tree)) (t : Tree) : Parse Tree := do
  extendUpTo step (← budget) t

/-- One child where a reader applies and yields a tree, else none. -/
def optional (p : Parse Tree) : Parse (List Tree) := do
  return (← attempt p).toList

/-- The word after the next one, with no line break or operator between. -/
def secondWord : Parse String := do
  let w ← lookahead do
    let _ ← anyWord .other
    peekWord
  return w.getD ""

/-- The operator after the next word. -/
def opAfterWord : Parse String := do
  let o ← lookahead do
    let _ ← anyWord .other
    peekOp
  return o.getD ""

end Parse

end ExportAudit.Source
