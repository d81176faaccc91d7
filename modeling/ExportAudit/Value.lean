import ExportAudit.Decimal
import ExportAudit.Text.Quoted

/-!
# Values of data files

The values that JSON and YAML documents hold. `Value.shown` is their text in warnings. A mapping keeps the order in
which its keys first appeared, and a later entry with the same key replaces the value in its place (`putEntry`); the
keys `1`, `1.0` and `true` are the same key.
-/

namespace ExportAudit

/-- A calendar day. -/
structure Day where
  year : Nat
  month : Nat
  day : Nat
  deriving DecidableEq, Repr

/-- The zone of a point in time. -/
inductive Zone where
  | unspecified
  | utc
  | offset (seconds : Int)
  deriving DecidableEq, Repr

/-- A point in time to the microsecond. -/
structure Moment where
  day : Day
  hour : Nat
  minute : Nat
  second : Nat
  microsecond : Nat
  zone : Zone
  deriving DecidableEq, Repr

/-- A value of a JSON or YAML document. -/
inductive Value where
  | null
  | bool (b : Bool)
  | int (n : Int)
  | float (x : Float)
  | text (s : String)
  | day (d : Day)
  | moment (m : Moment)
  | bytes (b : List UInt8)
  | list (items : List Value)
  | set (items : List Value)
  | pairs (items : List (Value × Value))
  | map (entries : List (Value × Value))
  deriving Inhabited

namespace Value

/-! ## Mappings -/

/-- The number that a key stands for, if it stands for one. -/
def number? : Value → Option Float
  | .bool b => some (if b then 1.0 else 0.0)
  | .int n => some (Float.ofInt n)
  | .float x => some x
  | _ => none

/-- Whether two values are the same key of a mapping. -/
def sameKey : Value → Value → Bool
  | .null, .null => true
  | .text a, .text b => a == b
  | .day a, .day b => a == b
  | .moment a, .moment b => a == b
  | .bytes a, .bytes b => a == b
  | .int a, .int b => a == b
  | a, b =>
    match a.number?, b.number? with
    | some x, some y => x == y
    | _, _ => false

/-- Whether a value can be a key. -/
def isKey : Value → Bool
  | .list _ | .set _ | .pairs _ | .map _ => false
  | _ => true

/-- An entry put in the place of the one with its key, or at the end. -/
def putEntry (key value : Value) : List (Value × Value) → List (Value × Value)
  | [] => [(key, value)]
  | (k, v) :: rest => if sameKey k key then (k, value) :: rest else (k, v) :: putEntry key value rest

/-- The value of a text key. -/
def field? (name : String) : Value → Option Value
  | .map entries => (entries.find? fun e => sameKey e.1 (.text name)).map (·.2)
  | _ => none

/-- A mapping with text keys. -/
def record (fields : List (String × Value)) : Value :=
  .map (fields.map fun (k, v) => (.text k, v))

/-- A list of texts. -/
def texts (items : List String) : Value :=
  .list (items.map .text)

/-- A list of pairs; without pairs it is the empty list. -/
def ofPairs : List (Value × Value) → Value
  | [] => .list []
  | items => .pairs items

/-- A text, or null. -/
def textOrNull : Option String → Value
  | some s => .text s
  | none => .null

/-- Null, false, zero and everything empty. -/
def isBlank : Value → Bool
  | .null => true
  | .bool b => !b
  | .int n => n == 0
  | .float x => x == 0.0
  | .text s => s.isEmpty
  | .bytes b => b.isEmpty
  | .list items | .set items => items.isEmpty
  | .pairs items | .map items => items.isEmpty
  | .day _ | .moment _ => false

/-! ## Values in warnings -/

/-- One byte in a warning. -/
def shownByte (quote : Char) (b : UInt8) : String :=
  let c := Char.ofNat b.toNat
  if c == quote || c == '\\' then String.ofList ['\\', c]
  else if c == '\n' then "\\n"
  else if c == '\r' then "\\r"
  else if c == '\t' then "\\t"
  else if 0x20 ≤ b.toNat && b.toNat < 0x7F then String.ofList [c]
  else "\\x" ++ Text.digits 16 2 b.toNat

/-- A byte sequence in a warning. -/
def shownBytes (bs : List UInt8) : String :=
  let q := Text.quoteFor (String.ofList (bs.map fun b => Char.ofNat b.toNat))
  Text.join "" (["b", String.ofList [q]] ++ bs.map (shownByte q) ++ [String.ofList [q]])

/-- A span of time of less than a day in either direction. -/
def shownSpan (seconds : Int) : String :=
  let days := seconds.fdiv 86400
  let rest := seconds.fmod 86400
  let parts :=
    (if days == 0 then [] else ["days=" ++ toString days]) ++
      (if rest == 0 then [] else ["seconds=" ++ toString rest])
  "datetime.timedelta(" ++ (if parts.isEmpty then "0" else Text.join ", " parts) ++ ")"

/-- A calendar day in a warning. -/
def shownDay (d : Day) : String :=
  "datetime.date(" ++ Text.join ", " ([d.year, d.month, d.day].map toString) ++ ")"

/-- A point in time in a warning; trailing zero seconds and microseconds are left out. -/
def shownMoment (m : Moment) : String :=
  let fine :=
    if m.microsecond != 0 then [m.second, m.microsecond] else if m.second != 0 then [m.second] else []
  let zone :=
    match m.zone with
    | .unspecified => []
    | .utc => ["tzinfo=datetime.timezone.utc"]
    | .offset s => ["tzinfo=datetime.timezone(" ++ shownSpan s ++ ")"]
  let fields := [m.day.year, m.day.month, m.day.day, m.hour, m.minute] ++ fine
  "datetime.datetime(" ++ Text.join ", " (fields.map toString ++ zone) ++ ")"

mutual

/-- A value in a warning. -/
def shown : Value → String
  | .null => "None"
  | .bool true => "True"
  | .bool false => "False"
  | .int n => toString n
  | .float x => Layout.plain.write x
  | .text s => Text.quoted s
  | .day d => shownDay d
  | .moment m => shownMoment m
  | .bytes b => shownBytes b
  | .list items => "[" ++ Text.join ", " (shownList items) ++ "]"
  | .set items => if items.isEmpty then "set()" else "\x7b" ++ Text.join ", " (shownList items) ++ "\x7d"
  | .pairs items => "[" ++ Text.join ", " ((shownPairs items).map fun (k, v) => "(" ++ k ++ ", " ++ v ++ ")") ++ "]"
  | .map entries =>
    "\x7b" ++ Text.join ", " ((shownPairs entries).map fun (k, v) => k ++ ": " ++ v) ++ "\x7d"

/-- The values of a list in a warning. -/
def shownList : List Value → List String
  | [] => []
  | v :: vs => shown v :: shownList vs

/-- The entries of a mapping in a warning. -/
def shownPairs : List (Value × Value) → List (String × String)
  | [] => []
  | e :: es => shownPair e :: shownPairs es

/-- An entry of a mapping in a warning. -/
def shownPair : Value × Value → String × String
  | (k, v) => (shown k, shown v)

end

end Value

end ExportAudit
