import ExportAudit.Json.Reader
import ExportAudit.Yaml.Reading

/-!
# The text of YAML scalars

The five styles: plain, single and double quoted (`flowScalar`), literal and folded (`blockScalar`). In all of them a
single line break inside folds to a blank and `n + 1` breaks to `n` newlines, the literal style apart.
-/

namespace ExportAudit.Yaml.Lex

variable {s : Source}

/-! ## Quoted scalars -/

/-- The characters that a backslash and one letter stand for. -/
def escape? : Char → Option Char
  | '0' => some '\x00'
  | 'a' => some '\x07'
  | 'b' => some '\x08'
  | 't' | '\t' => some '\t'
  | 'n' => some '\n'
  | 'v' => some '\x0b'
  | 'f' => some '\x0c'
  | 'r' => some '\r'
  | 'e' => some '\x1b'
  | ' ' => some ' '
  | '"' => some '"'
  | '\\' => some '\\'
  | '/' => some '/'
  | 'N' => some (Char.ofNat 0x85)
  | '_' => some (Char.ofNat 0xA0)
  | 'L' => some (Char.ofNat 0x2028)
  | 'P' => some (Char.ofNat 0x2029)
  | _ => none

/-- The number of digits after the letter of an escape by code point. -/
def escapeWidth? : Char → Option Nat
  | 'x' => some 2
  | 'u' => some 4
  | 'U' => some 8
  | _ => none

/-- The number that some hexadecimal digits ahead stand for, with the number in front of them. -/
def hexAhead (front start : Nat) : Nat → Lex s (Option Nat)
  | 0 => pure (some front)
  | n + 1 => do
    match Json.hexValue? (← peek start) with
    | none => pure none
    | some digit => hexAhead (front * 16 + digit) (start + 1) n

/-- The second surrogate of a pair, if its escape is next. -/
def lowSurrogate? : Lex s (Option Nat) := do
  if (← peek 0) == '\\' then
    if (← peek 1) == 'u' then
      let low? ← hexAhead 0 2 4
      pure (low?.filter fun low => 0xDC00 ≤ low && low ≤ 0xDFFF)
    else pure none
  else pure none

/-- The character of an escape by code point; a pair of surrogates stands for one character. -/
def codePointEscape (width : Nat) : Lex s String := do
  match ← hexAhead 0 0 width with
  | none => malformed "an escape has too few hexadecimal digits"
  | some code =>
    if code ≥ 0x110000 then throw (.scalar .codePoint)
    let _ ← take width
    if 0xD800 ≤ code && code ≤ 0xDBFF then
      match ← lowSurrogate? with
      | some low =>
        let _ ← take 6
        pure (String.ofList [Char.ofNat (0x10000 + (code - 0xD800) * 0x400 + (low - 0xDC00))])
      | none => pure "�"
    else if 0xD800 ≤ code && code ≤ 0xDFFF then pure "�"
    else pure (String.ofList [Char.ofNat code])

/-- The line breaks of empty lines inside a quoted scalar. -/
def quotedBreaks : Nat → Lex s String
  | 0 => pure ""
  | n + 1 => do
    if ← atDocumentMark then malformed "a document mark stands inside a quoted scalar"
    let _ ← takeWhile fun c => c == ' ' || c == '\t'
    if isBreak (← peek 0) then
      let b ← lineBreak
      let rest ← quotedBreaks n
      pure (b ++ rest)
    else pure ""

/-- Blanks and line breaks inside a quoted scalar. -/
def quotedSpaces : Lex s String := do
  let spaces ← takeWhile fun c => c == ' ' || c == '\t'
  let c ← peek 0
  if c == endMark then malformed "a quoted scalar is not closed"
  else if isBreak c then
    let first ← lineBreak
    let rest ← quotedBreaks (← steps)
    pure ((if first != "\n" then first else if rest.isEmpty then " " else "") ++ rest)
  else pure spaces

/-- The part of a quoted scalar up to the next blank, line break or closing quote. -/
def quotedWord (double : Bool) : Nat → Lex s String
  | 0 => pure ""
  | n + 1 => do
    let run ← takeWhile fun c =>
      !(c == '\'' || c == '"' || c == '\\' || isGapOrEnd c)
    let c ← peek 0
    let isDoubled ← if !double && c == '\'' then do pure ((← peek 1) == '\'') else pure false
    if isDoubled then
      let _ ← take 2
      let rest ← quotedWord double n
      pure (run ++ "'" ++ rest)
    else if (double && c == '\'') || (!double && (c == '"' || c == '\\')) then
      forward
      let rest ← quotedWord double n
      pure (run ++ String.ofList [c] ++ rest)
    else if double && c == '\\' then
      forward
      let next ← peek 0
      let part ←
        match escape? next, escapeWidth? next with
        | some e, _ => do
          forward
          pure (String.ofList [e])
        | none, some width => do
          forward
          codePointEscape width
        | none, none => do
          if isBreak next then
            let _ ← lineBreak
            quotedBreaks (← steps)
          else malformed "an escape is unknown"
      let rest ← quotedWord double n
      pure (run ++ part ++ rest)
    else pure run

/-- The rest of a quoted scalar after its first word. -/
def quotedRest (double : Bool) (quote : Char) : Nat → Lex s String
  | 0 => pure ""
  | n + 1 => do
    if (← peek 0) == quote then pure ""
    else
      let spaces ← quotedSpaces
      let word ← quotedWord double (← steps)
      let rest ← quotedRest double quote n
      pure (spaces ++ word ++ rest)

/-- A quoted scalar. -/
def flowScalar (quote : Char) : Lex s String := do
  let double := quote == '"'
  forward
  let word ← quotedWord double (← steps)
  let rest ← quotedRest double quote (← steps)
  forward
  pure (word ++ rest)

/-! ## Plain scalars -/

/-- The line breaks of empty lines inside a plain scalar; none where a document mark ends it. -/
def plainBreaks : Nat → Lex s (Option String)
  | 0 => pure (some "")
  | n + 1 => do
    let c ← peek 0
    if c == ' ' then
      forward
      plainBreaks n
    else if isBreak c then
      let b ← lineBreak
      if ← atDocumentMark then pure none
      else
        let rest ← plainBreaks n
        pure (rest.map (b ++ ·))
    else pure (some "")

/-- Blanks and line breaks inside a plain scalar; empty where the scalar ends. -/
def plainSpaces : Lex s String := do
  let spaces ← takeWhile (· == ' ')
  if isBreak (← peek 0) then
    let first ← lineBreak
    modify fun l => { l with keyAllowed := true }
    if ← atDocumentMark then pure ""
    else
      match ← plainBreaks (← steps) with
      | none => pure ""
      | some rest => pure ((if first != "\n" then first else if rest.isEmpty then " " else "") ++ rest)
  else pure spaces

/-- The number of characters up to the end of a word of a plain scalar. -/
def plainLength (inFlow : Bool) : Nat → Nat → Lex s Nat
  | 0, length => pure length
  | n + 1, length => do
    let c ← peek length
    let isEnd ←
      if c == ':' then do
        let next ← peek (length + 1)
        pure (isGapOrEnd next || (inFlow && [',', '[', ']', '\x7b', '\x7d'].contains next))
      else pure (isGapOrEnd c || (inFlow && [',', '?', '[', ']', '\x7b', '\x7d'].contains c))
    if isEnd then pure length else plainLength inFlow n (length + 1)

/-- The words of a plain scalar, with the blanks between them. -/
def plainWords (indent : Int) (spaces : String) : Nat → Lex s String
  | 0 => pure ""
  | n + 1 => do
    let inFlow := (← get).flow != 0
    if (← peek 0) == '#' then pure ""
    else
      let length ← plainLength inFlow (← steps) 0
      if length == 0 then pure ""
      else
        modify fun l => { l with keyAllowed := false }
        let word ← take length
        let next ← plainSpaces
        if next.isEmpty || (← peek 0) == '#' || (!inFlow && (← column) < indent) then pure (spaces ++ word)
        else
          let rest ← plainWords indent next n
          pure (spaces ++ word ++ rest)

/-- A plain scalar. -/
def plainScalar : Lex s String := do
  plainWords ((← get).indent + 1) "" (← steps)

/-! ## Block scalars -/

/-- What happens to the line breaks at the end of a block scalar. -/
inductive Chomping where
  | strip
  | clip
  | keep
  deriving DecidableEq

/-- The chomping that an indicator asks for. -/
def chompingOf (c : Char) : Chomping :=
  if c == '+' then .keep else .strip

/-- The indentation that a digit asks for. -/
def indentationIndicator : Lex s (Option Nat) := do
  let c ← peek 0
  if c.isDigit then
    if c == '0' then malformed "an indentation indicator is zero"
    forward
    pure (some (c.toNat - '0'.toNat))
  else pure none

/-- The indicators after `|` or `>`. -/
def blockHeader : Lex s (Chomping × Option Nat) := do
  let isChomping := fun c : Char => c == '+' || c == '-'
  let c ← peek 0
  let header ←
    if isChomping c then do
      forward
      let increment ← indentationIndicator
      pure (chompingOf c, increment)
    else do
      let increment ← indentationIndicator
      let c ← peek 0
      if increment.isSome && isChomping c then
        forward
        pure (chompingOf c, increment)
      else pure (.clip, increment)
  if isSpaceOrEnd (← peek 0) then pure header else malformed "a block scalar's header has an unknown indicator"

/-- The rest of a line that holds no content. -/
def ignoredLine : Lex s Unit := do
  let _ ← takeWhile (· == ' ')
  if (← peek 0) == '#' then
    let _ ← takeWhile fun c => !isBreakOrEnd c
  if isBreakOrEnd (← peek 0) then
    let _ ← lineBreak
  else malformed "a comment or a line break is expected"

/-- The leading empty lines of a block scalar, and the deepest column they reach. -/
def blockIndentation (deepest : Nat) : Nat → Lex s (String × Nat)
  | 0 => pure ("", deepest)
  | n + 1 => do
    let c ← peek 0
    if c == ' ' then
      forward
      blockIndentation (max deepest (← column)) n
    else if isBreak c then
      let b ← lineBreak
      let (rest, deepest) ← blockIndentation deepest n
      pure (b ++ rest, deepest)
    else pure ("", deepest)

/-- Moves over blanks up to a column. -/
def skipIndent (indent : Nat) : Nat → Lex s Unit
  | 0 => pure ()
  | n + 1 => do
    if (← column) < indent && (← peek 0) == ' ' then
      forward
      skipIndent indent n

/-- The empty lines before the next line of a block scalar. -/
def blockBreaks (indent : Nat) : Nat → Lex s String
  | 0 => pure ""
  | n + 1 => do
    skipIndent indent indent
    if isBreak (← peek 0) then
      let b ← lineBreak
      let rest ← blockBreaks indent n
      pure (b ++ rest)
    else pure ""

/-- The lines of a block scalar after some empty lines, the last line break, and the empty lines after it. -/
def blockLines (folded : Bool) (indent : Nat) (breaks : String) : Nat → Lex s (String × String × String)
  | 0 => pure ("", "", breaks)
  | n + 1 => do
    let isIndented := fun c : Char => c == ' ' || c == '\t'
    if (← column) == indent && (← peek 0) != endMark then
      let flush := !isIndented (← peek 0)
      let content ← takeWhile fun c => !isBreakOrEnd c
      let last ← lineBreak
      let next ← blockBreaks indent (← steps)
      let c ← peek 0
      if (← column) == indent && c != endMark then
        let glue :=
          if folded && last == "\n" && flush && !isIndented c then (if next.isEmpty then " " else "") else last
        let (rest, ending) ← blockLines folded indent next n
        pure (breaks ++ content ++ glue ++ rest, ending)
      else pure (breaks ++ content, last, next)
    else pure ("", "", breaks)

/-- A literal or folded scalar. -/
def blockScalar (folded : Bool) : Lex s String := do
  forward
  let (chomping, increment) ← blockHeader
  ignoredLine
  let least := ((← get).indent + 1).toNat.max 1
  let (breaks, indent) ←
    match increment with
    | none => do
      let (breaks, deepest) ← blockIndentation 0 (← steps)
      pure (breaks, max least deepest)
    | some increment => do
      let indent := least + increment - 1
      let breaks ← blockBreaks indent (← steps)
      pure (breaks, indent)
  let (content, last, trailing) ← blockLines folded indent breaks (← steps)
  match chomping with
  | .strip => pure content
  | .clip => pure (content ++ last)
  | .keep => pure (content ++ last ++ trailing)

end ExportAudit.Yaml.Lex
