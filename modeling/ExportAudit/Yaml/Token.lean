import ExportAudit.Text.Digits
import ExportAudit.Value

/-!
# YAML tokens

A YAML text is read in three steps: its tokens (`Yaml.Lexer`), the nodes they spell (`Yaml.Node`), and the value of the
root node (`Yaml.Document`). This module holds the tokens, and the faults that can end the reading.
-/

namespace ExportAudit.Yaml

/-- A token. Indentation is told by tokens of its own: where a block collection starts, and where a block ends. -/
inductive Token where
  | version (major minor : Nat)
  | tagHandle (handle expansion : String)
  | otherDirective
  | documentStart
  | documentEnd
  | blockSequenceStart
  | blockMappingStart
  | blockEnd
  | flowSequenceStart
  | flowSequenceEnd
  | flowMappingStart
  | flowMappingEnd
  | key
  | value
  | blockEntry
  | flowEntry
  | alias (name : String)
  | anchor (name : String)
  | tag (handle : Option String) (suffix : String)
  | scalar (plain : Bool) (text : String)
  deriving DecidableEq, Repr

/-- A scalar whose form is right and that still has no value. -/
inductive ScalarFault where
  | integer (base : Nat) (text : String)
  | tooManyDigits (count : Nat)
  | float (text : String)
  | year (year : Nat)
  | month
  | day
  | hour
  | minute
  | second
  | zone (seconds : Int)
  | codePoint
  deriving DecidableEq, Repr

def ScalarFault.message : ScalarFault → String
  | .integer base text => "invalid literal for int() with base " ++ toString base ++ ": " ++ Text.quoted text
  | .tooManyDigits count =>
    Text.join ""
      ["Exceeds the limit (", toString Text.maxDigits, " digits) for integer string conversion: value has ",
       toString count, " digits; use sys.set_int_max_str_digits() to increase the limit"]
  | .float text => "could not convert string to float: " ++ Text.quoted text
  | .year y => "year " ++ toString y ++ " is out of range"
  | .month => "month must be in 1..12"
  | .day => "day is out of range for month"
  | .hour => "hour must be in 0..23"
  | .minute => "minute must be in 0..59"
  | .second => "second must be in 0..59"
  | .zone seconds =>
    Text.join ""
      ["offset must be a timedelta strictly between -timedelta(hours=24) and timedelta(hours=24), not ",
       Value.shownSpan seconds, "."]
  | .codePoint => "chr() arg not in range(0x110000)"

/-- Why a text has no value. -/
inductive Fault where
  /-- The text is not YAML, or its structure stands for no value. -/
  | malformed (problem : String)
  /-- A scalar of a known kind is out of range. -/
  | scalar (fault : ScalarFault)
  /-- A scalar tagged as a truth value is none. -/
  | noTruthValue (text : String)
  /-- A scalar tagged as a number is empty. -/
  | emptyNumber
  /-- A scalar tagged as a point in time is none. -/
  | noTimestamp
  /-- The bytes are not text. -/
  | notText
  deriving DecidableEq, Repr

end ExportAudit.Yaml
