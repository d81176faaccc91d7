import ExportAudit.Text.Basic

/-!
# Decimal digits

Every script with decimal digits has them as ten consecutive code points. `digitValue?` reads one of them, and
`readInt?` reads a whole integer: blanks around it, one sign, and single underscores between digits are allowed.
-/

namespace ExportAudit.Text

/-- The code points of the digit zero in every script. -/
def zeros : List Nat :=
  [0x30, 0x660, 0x6F0, 0x7C0, 0x966, 0x9E6, 0xA66, 0xAE6, 0xB66, 0xBE6, 0xC66, 0xCE6, 0xD66, 0xDE6, 0xE50, 0xED0,
   0xF20, 0x1040, 0x1090, 0x17E0, 0x1810, 0x1946, 0x19D0, 0x1A80, 0x1A90, 0x1B50, 0x1BB0, 0x1C40, 0x1C50, 0xA620,
   0xA8D0, 0xA900, 0xA9D0, 0xA9F0, 0xAA50, 0xABF0, 0xFF10, 0x104A0, 0x10D30, 0x11066, 0x110F0, 0x11136, 0x111D0,
   0x112F0, 0x11450, 0x114D0, 0x11650, 0x116C0, 0x11730, 0x118E0, 0x11950, 0x11C50, 0x11D50, 0x11DA0, 0x16A60,
   0x16AC0, 0x16B50, 0x1D7CE, 0x1D7D8, 0x1D7E2, 0x1D7EC, 0x1D7F6, 0x1E140, 0x1E2F0, 0x1E950, 0x1FBF0]

/-- The value of a decimal digit of any script. -/
def digitValue? (c : Char) : Option Nat :=
  (zeros.find? fun z => z ≤ c.toNat && c.toNat < z + 10).map (c.toNat - ·)

/-- The digits of an integer, where an underscore may stand between two digits. -/
def readDigits? (acc : Nat) : List Char → Option Nat
  | [] => some acc
  | '_' :: c :: rest => (digitValue? c).bind fun d => readDigits? (acc * 10 + d) rest
  | c :: rest => (digitValue? c).bind fun d => readDigits? (acc * 10 + d) rest

/-- An unsigned integer: a digit, then digits and single underscores. -/
def readNat? : List Char → Option Nat
  | [] => none
  | c :: rest => (digitValue? c).bind (readDigits? · rest)

/-- Blanks that may stand around a number: all but the four separators among the control characters. -/
def isNumberBlank (c : Char) : Bool :=
  isBlank c && !(0x1C ≤ c.toNat && c.toNat ≤ 0x1F)

/-- Integers of more digits than this are refused. -/
def maxDigits : Nat := 4300

/-- An integer as text: blanks around it, at most one sign, and single underscores between digits are allowed. -/
def readInt? (s : String) : Option Int :=
  let cs := (strip isNumberBlank s).toList
  if (cs.filter fun c => (digitValue? c).isSome).length > maxDigits then none
  else
    match cs with
    | '-' :: rest => (readNat? rest).map fun n => -(n : Int)
    | '+' :: rest => (readNat? rest).map fun n => (n : Int)
    | rest => (readNat? rest).map fun n => (n : Int)

end ExportAudit.Text
