import ExportAudit.Text.Digits
import ExportAudit.Text.LetterCase
import ExportAudit.Yaml.Tag
import ExportAudit.Yaml.Token

/-!
# The value of a YAML scalar

`scalarValue` gives the value of a text as a scalar of a kind. A scalar that got its kind from its form can fail only by
being out of range; a scalar with a tag can also have a form that its kind does not know.
-/

namespace ExportAudit.Yaml

/-! ## Integers -/

/-- The value of a digit in a base. -/
def digitIn? (base : Nat) (c : Char) : Option Nat :=
  let d :=
    if c.isDigit then c.toNat - '0'.toNat
    else if 'a' ≤ c && c ≤ 'z' then c.toNat - 'a'.toNat + 10
    else if 'A' ≤ c && c ≤ 'Z' then c.toNat - 'A'.toNat + 10
    else base
  if d < base then some d else none

/-- The letter after the leading zero of an integer in a base. -/
def radixLetter (base : Nat) : Char :=
  if base == 2 then 'b' else if base == 8 then 'o' else 'x'

/-- Digits in a base, at least one. -/
def radixDigits? (base : Nat) (cs : List Char) : Option Nat :=
  if cs.isEmpty then none else cs.foldlM (fun n c => (digitIn? base c).map (n * base + ·)) 0

/-- An integer in base two, eight or sixteen: blanks around it, a sign and the mark of the base are allowed. -/
def readRadix (base : Nat) (text : List Char) : Except Fault Int :=
  let cs := (Text.strip Text.isNumberBlank (String.ofList text)).toList
  let u := unsigned cs
  let digits :=
    match u with
    | '0' :: c :: rest => if c.toLower == radixLetter base then rest else u
    | _ => u
  match radixDigits? base digits with
  | some n => .ok (if cs.head? == some '-' then -n else n)
  | none => .error (.scalar (.integer base (String.ofList text)))

/-- An integer in base ten. -/
def readDecimal (text : String) : Except Fault Int :=
  let count := (text.toList.filter fun c => (Text.digitValue? c).isSome).length
  match Text.readInt? text with
  | some n => .ok n
  | none =>
    if count > Text.maxDigits then .error (.scalar (.tooManyDigits count))
    else .error (.scalar (.integer 10 text))

/-- The value of the parts of a number in base sixty. -/
def sixties (parts : List Int) : Int :=
  parts.foldl (fun n part => n * 60 + part) 0

/-- The value of an integer scalar; underscores do not count. -/
def integerValue (text : String) : Except Fault Int :=
  let cs := text.toList.filter (· != '_')
  let sign : Int := if cs.head? == some '-' then -1 else 1
  let magnitude : Except Fault Int :=
    match unsigned cs with
    | [] => .error .emptyNumber
    | ['0'] => .ok 0
    | '0' :: 'b' :: rest => readRadix 2 rest
    | '0' :: 'x' :: rest => readRadix 16 rest
    | '0' :: rest => readRadix 8 ('0' :: rest)
    | u =>
      if u.contains ':' then ((Text.splitOn ':' (String.ofList u)).mapM readDecimal).map sixties
      else readDecimal (String.ofList u)
  magnitude.map (sign * ·)

/-! ## Floating-point numbers -/

/-- The exponent that a text of digits and a sign gives. -/
def exponentValue? (cs : List Char) : Option Int :=
  let u := unsigned cs
  if u.isEmpty || !u.all Char.isDigit then none
  else some (if cs.head? == some '-' then -(digitsValue u : Int) else digitsValue u)

/-- Digits with at most one point among them, and perhaps an exponent. -/
def decimalFloat? (cs : List Char) : Option Float := do
  let whole := cs.takeWhile Char.isDigit
  let rest := cs.dropWhile Char.isDigit
  let (fraction, rest) :=
    match rest with
    | '.' :: rest => (rest.takeWhile Char.isDigit, rest.dropWhile Char.isDigit)
    | _ => ([], rest)
  if whole.isEmpty && fraction.isEmpty then none
  let exponent ←
    match rest with
    | [] => some 0
    | 'e' :: rest => exponentValue? rest
    | _ => none
  some (nearestFloat (digitsValue (whole ++ fraction)) (exponent - fraction.length))

/-- A floating-point number in lower case: blanks around it, a sign, and the words for infinity and for no number. -/
def readFloat (text : String) : Except Fault Float :=
  let cs := (Text.strip Text.isNumberBlank text).toList
  let u := unsigned cs
  let magnitude :=
    if u == "inf".toList || u == "infinity".toList then some (1.0 / 0.0)
    else if u == "nan".toList then some (0.0 / 0.0)
    else decimalFloat? u
  match magnitude with
  | some x => .ok (if cs.head? == some '-' then -x else x)
  | none => .error (.scalar (.float text))

/-- The value of the parts of a number in base sixty, the last part first. -/
def floatSixties (parts : List Float) : Float :=
  (parts.foldl (fun (sum, base) part => (sum + part * base, base * 60.0)) ((0.0 : Float), (1.0 : Float))).1

/-- The value of a floating-point scalar; underscores do not count. -/
def floatValue (text : String) : Except Fault Float :=
  let cs := (Text.lowerAscii text).toList.filter (· != '_')
  let u := String.ofList (unsigned cs)
  let magnitude : Except Fault Float :=
    if cs.isEmpty then .error .emptyNumber
    else if u == ".inf" then .ok (1.0 / 0.0)
    else if u == ".nan" then .ok (0.0 / 0.0)
    else if Text.hasChar u ':' then ((Text.splitOn ':' u).mapM readFloat).map fun ps => floatSixties ps.reverse
    else readFloat u
  magnitude.map fun x => if cs.head? == some '-' then -x else x

/-! ## Days and times -/

def isLeapYear (y : Nat) : Bool :=
  y % 4 == 0 && (y % 100 != 0 || y % 400 == 0)

def daysInMonth (y m : Nat) : Nat :=
  if m == 2 then (if isLeapYear y then 29 else 28)
  else if [4, 6, 9, 11].contains m then 30
  else 31

/-- A day of the calendar. -/
def calendarDay (y m d : Nat) : Except ScalarFault Day :=
  if y == 0 then .error (.year y)
  else if m == 0 || m > 12 then .error .month
  else if d == 0 || d > daysInMonth y m then .error .day
  else .ok ⟨y, m, d⟩

/-- Microseconds from the digits after the point; digits after the sixth are dropped. -/
def microseconds (fraction : List Char) : Nat :=
  digitsValue ((fraction ++ List.replicate 6 '0').take 6)

/-- The zone with an offset in seconds. -/
def zoneOf : Option Int → Except ScalarFault Zone
  | none => .ok .unspecified
  | some s => if s == 0 then .ok .utc else if s.natAbs ≥ 86400 then .error (.zone s) else .ok (.offset s)

/-- The value of a timestamp. -/
def Timestamp.value (t : Timestamp) : Except ScalarFault Value :=
  match t.clock with
  | none => (calendarDay t.year t.month t.day).map .day
  | some c => do
    let zone ← zoneOf c.zone
    let day ← calendarDay t.year t.month t.day
    if c.hour > 23 then throw .hour
    if c.minute > 59 then throw .minute
    if c.second > 59 then throw .second
    pure (.moment ⟨day, c.hour, c.minute, c.second, microseconds c.fraction, zone⟩)

/-! ## Bytes -/

/-- The six bits that a character of base 64 stands for. -/
def sixBits? (c : Char) : Option Nat :=
  if 'A' ≤ c && c ≤ 'Z' then some (c.toNat - 'A'.toNat)
  else if 'a' ≤ c && c ≤ 'z' then some (c.toNat - 'a'.toNat + 26)
  else if c.isDigit then some (c.toNat - '0'.toNat + 52)
  else if c == '+' then some 62
  else if c == '/' then some 63
  else none

/-- The bytes of a base 64 text. The position in the group of four characters and the bits left over from the last
character are carried along; other characters are skipped, and padding ends the text where a group can end. -/
def base64? (position left pads : Nat) : List Char → Option (List UInt8)
  | [] => if position == 0 then some [] else none
  | '=' :: rest =>
    if position ≥ 2 && position + pads + 1 ≥ 4 then some []
    else base64? position left (if position ≥ 2 then pads + 1 else pads) rest
  | c :: rest =>
    match sixBits? c with
    | none => base64? position left pads rest
    | some bits =>
      match position with
      | 0 => base64? 1 bits 0 rest
      | 1 => (base64? 2 (bits % 16) 0 rest).map (UInt8.ofNat (left * 4 + bits / 16) :: ·)
      | 2 => (base64? 3 (bits % 4) 0 rest).map (UInt8.ofNat (left * 16 + bits / 4) :: ·)
      | _ => (base64? 0 0 0 rest).map (UInt8.ofNat (left * 64 + bits) :: ·)

/-! ## Scalars -/

/-- The truth value of a word in any case. -/
def truthValue? (text : String) : Option Bool :=
  let word := Text.lowerAscii text
  if trueWords.contains word then some true else if falseWords.contains word then some false else none

/-- The value of a text as a scalar of a kind. -/
def scalarValue (tag : Tag) (text : String) : Except Fault Value :=
  match tag with
  | .null => .ok .null
  | .text => .ok (.text text)
  | .bool =>
    match truthValue? text with
    | some b => .ok (.bool b)
    | none => .error (.noTruthValue text)
  | .int => (integerValue text).map .int
  | .float => (floatValue text).map .float
  | .timestamp =>
    match timestamp? text.toList with
    | some t => t.value.mapError .scalar
    | none => .error .noTimestamp
  | .binary =>
    match if text.toList.all (·.toNat < 128) then base64? 0 0 0 text.toList else none with
    | some bytes => .ok (.bytes bytes)
    | none => .error (.malformed "a text is not in base 64")
  | _ => .error (.malformed "a scalar has a tag without values")

end ExportAudit.Yaml
