import ExportAudit.Text.Basic
import ExportAudit.Value

/-!
# YAML tags

A tag tells the kind of a node. `Tag.ofPlain` is the kind of a plain scalar that has no tag of its own, by its form
alone: `1_000`, `0x1f` and `1:30` are integers, `1.` and `1:30.5` are floating-point numbers, `2001-01-01` is a day, and
`yes` is a truth value, while `1e3`, `08` and `y` are texts.
-/

namespace ExportAudit.Yaml

/-- The kind of a node. -/
inductive Tag where
  | null
  | bool
  | int
  | float
  | timestamp
  | text
  | binary
  | merge
  | default
  | sequence
  | mapping
  | set
  | orderedMapping
  | pairs
  | other (name : String)
  deriving DecidableEq, Repr

namespace Tag

/-- What the names of the standard tags start with. -/
def standardNames : String := "tag:yaml.org,2002:"

def standard : List (String × Tag) :=
  [("null", .null), ("bool", .bool), ("int", .int), ("float", .float), ("timestamp", .timestamp), ("str", .text),
   ("binary", .binary), ("merge", .merge), ("value", .default), ("seq", .sequence), ("map", .mapping), ("set", .set),
   ("omap", .orderedMapping), ("pairs", .pairs)]

/-- The tag of a full name. -/
def ofName (name : String) : Tag :=
  match standard.find? fun (short, _) => name == standardNames ++ short with
  | some (_, t) => t
  | none => .other name

end Tag

/-! ## Forms of numbers -/

/-- A text without its leading sign. -/
def unsigned : List Char → List Char
  | '+' :: rest | '-' :: rest => rest
  | cs => cs

def isDigitOrLine (c : Char) : Bool :=
  c.isDigit || c == '_'

/-- A part of a number in base sixty after the first: one digit, or two below sixty. -/
def isSixtieth (part : String) : Bool :=
  match part.toList with
  | [a] => a.isDigit
  | [a, b] => '0' ≤ a && a ≤ '5' && b.isDigit
  | _ => false

/-- A digit, then digits and underscores. -/
def isDigits : List Char → Bool
  | [] => false
  | c :: rest => c.isDigit && rest.all isDigitOrLine

/-- At least one character, and all pass a test or are underscores. -/
def isRadix (p : Char → Bool) (cs : List Char) : Bool :=
  !cs.isEmpty && cs.all fun c => p c || c == '_'

def isHexDigit (c : Char) : Bool :=
  c.isDigit || ('a' ≤ c && c ≤ 'f') || ('A' ≤ c && c ≤ 'F')

/-- The form of an integer. -/
def isInteger (cs : List Char) : Bool :=
  match unsigned cs with
  | '0' :: 'b' :: rest => isRadix (fun c => c == '0' || c == '1') rest
  | '0' :: 'x' :: rest => isRadix isHexDigit rest
  | ['0'] => true
  | '0' :: rest => isRadix (fun c => '0' ≤ c && c ≤ '7') rest
  | u =>
    match Text.splitOn ':' (String.ofList u) with
    | [] => false
    | first :: parts => isDigits first.toList && parts.all isSixtieth

/-- No exponent, or one with a sign. -/
def isExponent : List Char → Bool
  | [] => true
  | e :: sign :: digits =>
    (e == 'e' || e == 'E') && (sign == '+' || sign == '-') && !digits.isEmpty && digits.all Char.isDigit
  | _ => false

/-- A point between digits, or before the first of them, and an exponent. -/
def isPointed (cs : List Char) : Bool :=
  match cs with
  | '.' :: d :: rest => d.isDigit && isExponent (rest.dropWhile isDigitOrLine)
  | _ =>
    let u := unsigned cs
    match u.dropWhile isDigitOrLine with
    | '.' :: rest => isDigits (u.takeWhile isDigitOrLine) && isExponent (rest.dropWhile isDigitOrLine)
    | _ => false

/-- A number in base sixty with a point after its last part. -/
def isPointedSixty (cs : List Char) : Bool :=
  match Text.splitOn '.' (String.ofList (unsigned cs)) with
  | [whole, fraction] =>
    fraction.toList.all isDigitOrLine &&
      match Text.splitOn ':' whole with
      | first :: part :: parts => isDigits first.toList && isSixtieth part && parts.all isSixtieth
      | _ => false
  | _ => false

/-- The form of a floating-point number. -/
def isFloat (cs : List Char) : Bool :=
  isPointed cs || isPointedSixty cs ||
    [".inf", ".Inf", ".INF"].contains (String.ofList (unsigned cs)) ||
    [".nan", ".NaN", ".NAN"].contains (String.ofList cs)

/-! ## Forms of days and times -/

/-- The time of day in a timestamp. -/
structure Clock where
  hour : Nat
  minute : Nat
  second : Nat
  /-- The digits after the point. -/
  fraction : List Char
  /-- No zone, or its offset in seconds. -/
  zone : Option Int

/-- A timestamp as it is written; its numbers may be out of range. -/
structure Timestamp where
  year : Nat
  month : Nat
  day : Nat
  clock : Option Clock
  /-- Whether month and day have two digits each. -/
  isPadded : Bool

/-- One digit, or two. -/
def shortNumber? : List Char → Option (Nat × Bool × List Char)
  | a :: b :: rest =>
    if a.isDigit && b.isDigit then some (digitsValue [a, b], true, rest)
    else if a.isDigit then some (digitsValue [a], false, b :: rest)
    else none
  | [a] => if a.isDigit then some (digitsValue [a], false, []) else none
  | [] => none

/-- Exactly two digits. -/
def pairNumber? (cs : List Char) : Option (Nat × List Char) :=
  match shortNumber? cs with
  | some (n, true, rest) => some (n, rest)
  | _ => none

/-- A zone to the end of the text: `Z`, or a sign, hours, and perhaps minutes. -/
def zone? (cs : List Char) : Option Int :=
  match cs with
  | ['Z'] => some 0
  | sign :: rest => do
    if sign != '+' && sign != '-' then none
    let (hours, _, rest) ← shortNumber? rest
    let minutes ←
      match rest with
      | [] => some 0
      | ':' :: rest => do
        let (n, rest) ← pairNumber? rest
        if rest.isEmpty then some n else none
      | _ => none
    let seconds : Int := hours * 3600 + minutes * 60
    some (if sign == '-' then -seconds else seconds)
  | [] => none

/-- A time of day to the end of the text. -/
def clock? (cs : List Char) : Option Clock := do
  let (hour, _, rest) ← shortNumber? cs
  let rest ← match rest with | ':' :: rest => some rest | _ => none
  let (minute, rest) ← pairNumber? rest
  let rest ← match rest with | ':' :: rest => some rest | _ => none
  let (second, rest) ← pairNumber? rest
  let (fraction, rest) :=
    match rest with
    | '.' :: rest => (rest.takeWhile Char.isDigit, rest.dropWhile Char.isDigit)
    | _ => ([], rest)
  if rest.isEmpty then some ⟨hour, minute, second, fraction, none⟩
  else
    let seconds ← zone? (rest.dropWhile fun c => c == ' ' || c == '\t')
    some ⟨hour, minute, second, fraction, some seconds⟩

/-- A timestamp: a day, and perhaps a time of day after a `T` or blanks. -/
def timestamp? (cs : List Char) : Option Timestamp := do
  let year := cs.take 4
  if year.length != 4 || !year.all Char.isDigit then none
  let rest ← match cs.drop 4 with | '-' :: rest => some rest | _ => none
  let (month, isPadded, rest) ← shortNumber? rest
  let rest ← match rest with | '-' :: rest => some rest | _ => none
  let (day, isPadded', rest) ← shortNumber? rest
  let clock ←
    match rest with
    | [] => some none
    | 'T' :: rest | 't' :: rest => (clock? rest).map some
    | c :: _ =>
      if c == ' ' || c == '\t' then (clock? (rest.dropWhile fun c => c == ' ' || c == '\t')).map some else none
  some ⟨digitsValue year, month, day, clock, isPadded && isPadded'⟩

/-! ## Plain scalars -/

def trueWords : List String := ["yes", "Yes", "YES", "true", "True", "TRUE", "on", "On", "ON"]

def falseWords : List String := ["no", "No", "NO", "false", "False", "FALSE", "off", "Off", "OFF"]

def nullWords : List String := ["", "~", "null", "Null", "NULL"]

/-- The kind of a plain scalar. -/
def Tag.ofPlain (text : String) : Tag :=
  let cs := text.toList
  if (trueWords ++ falseWords).contains text then .bool
  else if isFloat cs then .float
  else if isInteger cs then .int
  else if text == "<<" then .merge
  else if nullWords.contains text then .null
  else if text == "=" then .default
  else
    match timestamp? cs with
    | some t => if t.clock.isSome || t.isPadded then .timestamp else .text
    | none => .text

end ExportAudit.Yaml
