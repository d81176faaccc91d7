import ExportAudit.Text.Basic
import ExportAudit.Text.Printable

/-!
# Quoted text

A text in quotes, as warnings and file errors show it. Single quotes are used unless the text holds a single quote and
no double quote; the backslash, the chosen quote, line feed, carriage return and tab get a backslash, and any other
character that is not printable is shown by its code point.
-/

namespace ExportAudit.Text

/-- The quote that a text is shown in. -/
def quoteFor (s : String) : Char :=
  if hasChar s '\'' && !hasChar s '"' then '"' else '\''

/-- One character of a quoted text. -/
def quotedChar (quote c : Char) : String :=
  if c == quote || c == '\\' then String.ofList ['\\', c]
  else if c == '\n' then "\\n"
  else if c == '\r' then "\\r"
  else if c == '\t' then "\\t"
  else if isPrintable c then String.ofList [c]
  else if c.toNat < 0x100 then "\\x" ++ digits 16 2 c.toNat
  else if c.toNat < 0x10000 then "\\u" ++ digits 16 4 c.toNat
  else "\\U" ++ digits 16 8 c.toNat

/-- A text in quotes. -/
def quoted (s : String) : String :=
  let q := quoteFor s
  join "" ([String.ofList [q]] ++ s.toList.map (quotedChar q) ++ [String.ofList [q]])

end ExportAudit.Text
