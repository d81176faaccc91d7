import ExportAudit.Regex
import ExportAudit.Route.Pattern

/-!
# The regular expression of a route

The expression of a route is made from its text: every character that has a meaning in expressions is escaped, and then
each name in brackets, as it is written after that, is replaced by an expression for the segments that it stands for. The
longer forms are replaced first, so that `[...slug]` is not taken for one segment.
-/

namespace ExportAudit.Route

/-- A text with a backslash before every character that has a meaning in regular expressions. -/
def escape (cs : List Char) : List Char :=
  cs.flatMap fun c => if Pattern.isSpecial c then ['\\', c] else [c]

/-- Takes `/[[...name]]` in an escaped text. -/
def optionalName : String := r"/\\\[\\\[\\\.\\\.\\\.[^\]]+\\\]\\\]"

/-- Takes `[...name]` in an escaped text. -/
def catchAllName : String := r"\\\[\\\.\\\.\\\.[^\]]+\\\]"

/-- Takes `[name]` in an escaped text. -/
def dynamicName : String := r"\\\[[^\]]+\\\]"

/-- A text with a replacement for all that an expression takes of it. -/
def substitute (expression replacement : String) (cs : List Char) : List Char :=
  match Regex.read? expression with
  | some e => e.replaceAll replacement.toList cs
  | none => cs

/-- The regular expression of a route. Behind what it describes, any path may follow. -/
def expression (route : String) : String :=
  let escaped := escape route.toList
  let escaped := substitute optionalName "(?:/[^/]+)*" escaped
  let escaped := substitute catchAllName "[^/]+(?:/[^/]+)*" escaped
  let escaped := substitute dynamicName "[^/]+" escaped
  "^" ++ String.ofList escaped ++ "(?:/.*)?$"

/-- The regular expression of a route as it is read. -/
def compile? (route : String) : Option Regex :=
  Regex.read? (expression route)

end ExportAudit.Route
