/-!
# Notes of a run

Warnings and errors that a run leaves behind besides its result.
-/

namespace ExportAudit

/-- How serious a note is. -/
inductive Level where
  | warning
  | error
  deriving DecidableEq, Repr

def Level.label : Level → String
  | .warning => "WARNING"
  | .error => "ERROR"

/-- One note. -/
structure Note where
  level : Level
  text : String
  deriving DecidableEq, Repr

def Note.warning (text : String) : Note := ⟨.warning, text⟩

def Note.error (text : String) : Note := ⟨.error, text⟩

/-- A note as one line. -/
def Note.line (n : Note) : String :=
  n.level.label ++ ": " ++ n.text

end ExportAudit
