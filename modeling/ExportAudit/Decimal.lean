import ExportAudit.Text.Basic

/-!
# Decimal text of binary numbers

`Binary.shortest` gives the fewest decimal digits that read back as the same binary floating-point number, and of those
the nearest to it. The number is `m * 2^q`; every real between the midpoints to its two neighbours reads back as it, the
midpoints themselves exactly when `m` is even. For each count of digits only the two decimals next to the number need a
test. `Layout` holds the decisions of a written form: where positional notation ends and how an exponent looks.
-/

namespace ExportAudit

/-- A positive binary number `mantissa * 2^exponent`; `narrow` marks a power of two, whose lower neighbour is nearer. -/
structure Binary where
  mantissa : Nat
  exponent : Int
  narrow : Bool

namespace Binary

/-- A quarter of the last binary place as a fraction: numerator and denominator. -/
def quarter (b : Binary) : Nat × Nat :=
  if b.exponent ≥ 2 then (Nat.pow 2 (b.exponent - 2).toNat, 1) else (1, Nat.pow 2 (2 - b.exponent).toNat)

/-- The power of ten of the leading digit of `num / den`. -/
def leadingPower (num den : Nat) : Int :=
  if num ≥ den then (Nat.toDigits 10 (num / den)).length - 1
  else
    let guess := (Nat.toDigits 10 (den / num)).length
    if num * Nat.pow 10 (guess - 1) ≥ den then -((guess : Int) - 1) else -(guess : Int)

/-- The decimal of `count` digits that reads back as the number, if there is one: its digits as a number. -/
def withDigits? (b : Binary) (power : Int) (count : Nat) : Option Nat :=
  let (qn, qd) := b.quarter
  -- the unit of the last decimal place is `un / ud`; all comparisons are multiplied out
  let place := power - ((count : Int) - 1)
  let un := if place ≥ 0 then Nat.pow 10 place.toNat else 1
  let ud := if place ≥ 0 then 1 else Nat.pow 10 (-place).toNat
  let value := 4 * b.mantissa * qn * ud
  let low := (4 * b.mantissa - (if b.narrow then 1 else 2)) * qn * ud
  let high := (4 * b.mantissa + 2) * qn * ud
  let unit := un * qd
  let even := b.mantissa % 2 == 0
  let fits (d : Nat) : Bool :=
    if even then low ≤ d * unit && d * unit ≤ high else low < d * unit && d * unit < high
  let below := value / unit
  let down := value - below * unit
  let up := (below + 1) * unit - value
  match fits below, fits (below + 1) with
  | true, true => some (if down < up || (down == up && below % 2 == 0) then below else below + 1)
  | true, false => some below
  | false, true => some (below + 1)
  | false, false => none

/-- The first count of digits from `count` on that suffices, and the digits. -/
def search (b : Binary) (power : Int) : Nat → Nat → Nat × Nat
  | 0, count => (count, (b.withDigits? power count).getD 0)
  | n + 1, count =>
    match b.withDigits? power count with
    | some d => (count, d)
    | none => search b power n (count + 1)

/-- The fewest digits that read back as the number, as text, and the power of ten of the first one. -/
def shortest (b : Binary) : List Char × Int :=
  let (qn, qd) := b.quarter
  let power := leadingPower (4 * b.mantissa * qn) qd
  let (count, d) := b.search power 17 1
  let ds := Nat.toDigits 10 d
  -- a carry out of the first digit gives one digit more
  let power := if ds.length > count then power + 1 else power
  ((ds.reverse.dropWhile (· == '0')).reverse, power)

end Binary

/-- How digits and a power of ten are written. -/
structure Layout where
  /-- The least power of ten in positional notation. -/
  leastPositional : Int
  /-- The least power of ten above those in positional notation. -/
  firstScientific : Int
  /-- The least number of digits of an exponent. -/
  exponentWidth : Nat
  infinity : String
  notANumber : String

namespace Layout

/-- Positional notation with at least one digit on both sides of the point. -/
def positional (ds : List Char) (power : Int) : List Char :=
  if power < 0 then '0' :: '.' :: (List.replicate (-power - 1).toNat '0' ++ ds)
  else
    let whole := power.toNat + 1
    let front := ds.take whole ++ List.replicate (whole - ds.length) '0'
    let back := ds.drop whole
    front ++ '.' :: (if back.isEmpty then ['0'] else back)

/-- One digit before the point, and the power of ten with its sign. -/
def scientific (l : Layout) (ds : List Char) (power : Int) : List Char :=
  let mantissa :=
    match ds with
    | [] => ['0']
    | [d] => [d]
    | d :: rest => d :: '.' :: rest
  let sign := if power < 0 then '-' else '+'
  mantissa ++ 'e' :: sign :: (Text.digits 10 l.exponentWidth power.natAbs).toList

/-- A floating-point number as text. -/
def write (l : Layout) (x : Float) : String :=
  let bits := x.toBits.toNat
  let negative := bits ≥ Nat.pow 2 63
  let exponent : Nat := bits / Nat.pow 2 52 % Nat.pow 2 11
  let fraction := bits % Nat.pow 2 52
  let sign := if negative then "-" else ""
  if exponent == 2047 then
    if fraction == 0 then sign ++ l.infinity else l.notANumber
  else if exponent == 0 && fraction == 0 then sign ++ "0.0"
  else
    let b : Binary :=
      if exponent == 0 then ⟨fraction, -1074, false⟩
      else ⟨fraction + Nat.pow 2 52, (exponent : Int) - 1075, fraction == 0 && exponent > 1⟩
    let (ds, power) := b.shortest
    let body :=
      if l.leastPositional ≤ power && power < l.firstScientific then positional ds power
      else l.scientific ds power
    sign ++ String.ofList body

/-- Numbers in warnings and answers: positional from `0.0001` up to sixteen digits before the point. -/
def plain : Layout := ⟨-4, 16, 2, "inf", "nan"⟩

/-- Numbers in JSON documents: the same with the names of JavaScript for the infinities and for no number. -/
def json : Layout := { plain with infinity := "Infinity", notANumber := "NaN" }

end Layout

/-! ## Reading -/

/-- The floating-point number nearest to `digits * 10^exponent`; beyond the range it is infinite or zero. -/
def nearestFloat (digits : Nat) (exponent : Int) : Float :=
  let size := (Nat.toDigits 10 digits).length
  if digits == 0 then 0.0
  else if exponent + size > 400 then 1.0 / 0.0
  else if exponent + size < -400 then 0.0
  else if exponent ≥ 0 then Float.ofScientific digits false exponent.toNat
  else Float.ofScientific digits true (-exponent).toNat

/-- The value of a run of ASCII digits. -/
def digitsValue (ds : List Char) : Nat :=
  ds.foldl (fun n c => n * 10 + (c.toNat - '0'.toNat)) 0

end ExportAudit
