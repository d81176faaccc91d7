import ExportAudit.Json.Reader
import ExportAudit.Text.Utf8
import ExportAudit.Yaml.Scalar

/-!
# Anchors, tags and directives

The marks that stand before a node, and the lines that stand before a document.
-/

namespace ExportAudit.Yaml.Lex

variable {s : Source}

/-! ## Anchors and aliases -/

/-- The name after `&` or `*`. -/
def anchorName : Lex s String := do
  forward
  let name ← takeWhile isNameChar
  let c ← peek 0
  if name.isEmpty then malformed "an anchor has no name"
  else if isGapOrEnd c || ['?', ':', ',', ']', '\x7d', '%', '@', '\x60'].contains c then pure name
  else malformed "an anchor's name has an unknown character"

/-! ## Tags -/

/-- A character of a tag besides its escapes. -/
def isTagChar (c : Char) : Bool :=
  c.isAlphanum || "-;/?:@&=+$,_.!~*'()[]".toList.contains c

/-- The bytes of consecutive escapes in a tag. -/
def tagEscapes : Nat → Lex s (List UInt8)
  | 0 => pure []
  | n + 1 => do
    if (← peek 0) == '%' then
      match ← hexAhead 0 1 2 with
      | none => malformed "an escape in a tag has too few hexadecimal digits"
      | some byte =>
        let _ ← take 3
        let rest ← tagEscapes n
        pure (UInt8.ofNat byte :: rest)
    else pure []

/-- The parts of a tag: runs of characters, and escapes. -/
def tagParts : Nat → Lex s String
  | 0 => pure ""
  | n + 1 => do
    let run ← takeWhile isTagChar
    if (← peek 0) == '%' then
      let bytes ← tagEscapes (← steps)
      match Text.decode? (ByteArray.mk bytes.toArray) with
      | none => malformed "the escapes in a tag are no text"
      | some cs =>
        let rest ← tagParts n
        pure (run ++ String.ofList cs ++ rest)
    else pure run

/-- The part of a tag after its handle. -/
def tagSuffix : Lex s String := do
  let c ← peek 0
  if isTagChar c || c == '%' then tagParts (← steps) else malformed "a tag is empty"

/-- The handle of a tag: `!`, `!!`, or a name between two `!`. -/
def tagHandle : Lex s String := do
  if (← peek 0) != '!' then malformed "a tag's handle starts with an exclamation mark"
  forward
  if (← peek 0) == ' ' then pure "!"
  else
    let name ← takeWhile isNameChar
    if (← peek 0) != '!' then malformed "a tag's handle ends with an exclamation mark"
    forward
    pure ("!" ++ name ++ "!")

/-- Whether a second exclamation mark follows before the next gap. -/
def hasSecondMark (ahead : Nat) : Nat → Lex s Bool
  | 0 => pure false
  | n + 1 => do
    let c ← peek ahead
    if isSpaceOrEnd c then pure false
    else if c == '!' then pure true
    else hasSecondMark (ahead + 1) n

/-- A tag. -/
def tag : Lex s Token := do
  let next ← peek 1
  let t ←
    if next == '<' then do
      let _ ← take 2
      let suffix ← tagSuffix
      if (← peek 0) != '>' then malformed "a verbatim tag is not closed"
      forward
      pure (Token.tag none suffix)
    else if isGapOrEnd next then do
      forward
      pure (Token.tag none "!")
    else do
      let handle ← if ← hasSecondMark 1 (← steps) then tagHandle else take 1
      let suffix ← tagSuffix
      pure (Token.tag (some handle) suffix)
  if isSpaceOrEnd (← peek 0) then pure t else malformed "a tag is followed by an unknown character"

/-! ## Directives -/

/-- A number in a directive. -/
def directiveNumber : Lex s Nat := do
  let digits ← takeWhile Char.isDigit
  let count := digits.toList.length
  if count == 0 then malformed "a version number is expected"
  else if count > Text.maxDigits then throw (.scalar (.tooManyDigits count))
  else pure (digitsValue digits.toList)

def versionDirective : Lex s Token := do
  let _ ← takeWhile (· == ' ')
  let major ← directiveNumber
  if (← peek 0) != '.' then malformed "a version has two numbers"
  forward
  let minor ← directiveNumber
  if isSpaceOrEnd (← peek 0) then pure (.version major minor) else malformed "a version has two numbers"

def handleDirective : Lex s Token := do
  let _ ← takeWhile (· == ' ')
  let handle ← tagHandle
  if (← peek 0) != ' ' then malformed "a blank follows a tag's handle"
  let _ ← takeWhile (· == ' ')
  let expansion ← tagSuffix
  if isSpaceOrEnd (← peek 0) then pure (.tagHandle handle expansion)
  else malformed "a tag's expansion has an unknown character"

/-- A directive, with the rest of its line. -/
def directive : Lex s Token := do
  forward
  let name ← takeWhile isNameChar
  if name.isEmpty then malformed "a directive has no name"
  if !isSpaceOrEnd (← peek 0) then malformed "a directive's name has an unknown character"
  let t ←
    if name == "YAML" then versionDirective
    else if name == "TAG" then handleDirective
    else do
      let _ ← takeWhile fun c => !isBreakOrEnd c
      pure .otherDirective
  ignoredLine
  pure t

end ExportAudit.Yaml.Lex
