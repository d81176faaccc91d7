import ExportAudit.Value

/-!
# Writing JSON

`render` writes a value over several lines, two blanks for every level, in ASCII: a character beyond ASCII is written by
its UTF-16 units. A mapping is written in its own order.
-/

namespace ExportAudit.Json

/-- A UTF-16 unit as an escape. -/
def unitEscape (n : Nat) : String :=
  "\\u" ++ Text.digits 16 4 n

/-- One character of a text. -/
def escapedChar (c : Char) : String :=
  if c == '"' then "\\\""
  else if c == '\\' then "\\\\"
  else if c == '\n' then "\\n"
  else if c == '\r' then "\\r"
  else if c == '\t' then "\\t"
  else if c.toNat == 8 then "\\b"
  else if c.toNat == 12 then "\\f"
  else if 0x20 ≤ c.toNat && c.toNat < 0x7F then String.ofList [c]
  else if c.toNat < 0x10000 then unitEscape c.toNat
  else
    let n := c.toNat - 0x10000
    unitEscape (0xD800 + n / 0x400) ++ unitEscape (0xDC00 + n % 0x400)

/-- A text in double quotes. -/
def quoteText (s : String) : String :=
  Text.join "" (["\""] ++ s.toList.map escapedChar ++ ["\""])

/-- A line break and the blanks of a level. -/
def newline (level : Nat) : String :=
  String.ofList ('\n' :: List.replicate (2 * level) ' ')

/-- Items between brackets, one on each line. -/
def block (opening closing : String) (level : Nat) (items : List String) : String :=
  if items.isEmpty then opening ++ closing
  else opening ++ newline (level + 1) ++ Text.join ("," ++ newline (level + 1)) items ++ newline level ++ closing

mutual

/-- A value at a level of nesting. Kinds that JSON does not have are written as the texts that warnings show. -/
def renderAt (level : Nat) : Value → String
  | .null => "null"
  | .bool true => "true"
  | .bool false => "false"
  | .int n => toString n
  | .float x => Layout.json.write x
  | .text s => quoteText s
  | .list items => block "[" "]" level (renderItems (level + 1) items)
  | .map entries => block "\x7b" "\x7d" level (renderEntries (level + 1) entries)
  | .day d => quoteText (Value.shownDay d)
  | .moment m => quoteText (Value.shownMoment m)
  | .bytes b => quoteText (Value.shownBytes b)
  | .set items => block "[" "]" level (renderItems (level + 1) items)
  | .pairs entries => block "\x7b" "\x7d" level (renderEntries (level + 1) entries)

/-- The items of a list. -/
def renderItems (level : Nat) : List Value → List String
  | [] => []
  | v :: vs => renderAt level v :: renderItems level vs

/-- The entries of a mapping. -/
def renderEntries (level : Nat) : List (Value × Value) → List String
  | [] => []
  | e :: es => renderEntry level e :: renderEntries level es

/-- An entry of a mapping. -/
def renderEntry (level : Nat) : Value × Value → String
  | (.text k, v) => quoteText k ++ ": " ++ renderAt level v
  | (k, v) => quoteText (Value.shown k) ++ ": " ++ renderAt level v

end

/-- A value as a document. -/
def render (v : Value) : String :=
  renderAt 0 v

end ExportAudit.Json
