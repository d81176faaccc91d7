/-!
# Regular expressions

The regular expressions that the library writes: characters, the dot, classes of characters that are left out, groups
without a number, the anchors, and repetition that takes as much as it can.

`Regex.read?` reads the text of an expression, character by character. `Regex.rests` lists what may be left of a text
after an expression, in the order in which it is tried: the first rest is what the expression leaves. `Regex.matchesFront`
tells whether there is one, and `Regex.replaceAll` puts another text in the place of all that an expression takes, from
left to right.
-/

namespace ExportAudit

/-- A regular expression. -/
inductive Regex where
  | empty
  | char (c : Char)
  | anyChar
  | noneOf (members : List Char)
  | start
  | finish
  | seq (first second : Regex)
  | group (inner : Regex)
  | star (inner : Regex)
  | plus (inner : Regex)
  | optional (inner : Regex)
  deriving DecidableEq, Repr

namespace Regex

/-- Expressions one after the other. -/
def ofList : List Regex → Regex
  | [] => .empty
  | e :: es => .seq e (ofList es)

/-! ## Reading -/

/-- Where a reader stands: between two parts of an expression, behind a backslash, behind `(` or `(?`, behind the bracket
of a class, or among the members of a class, which are kept with the last in front. -/
inductive Mode where
  | plain
  | escape
  | groupOpen
  | groupMark
  | classOpen
  | members (read : List Char)
  | memberEscape (read : List Char)
  deriving DecidableEq, Repr

/-- What has been read of the innermost group that is open, and of the groups around it, the last part in front. -/
structure Reader where
  mode : Mode := .plain
  parts : List Regex := []
  outer : List (List Regex) := []
  deriving DecidableEq, Repr

namespace Reader

def add (r : Reader) (e : Regex) : Reader :=
  { r with mode := .plain, parts := e :: r.parts }

/-- Parts that may be repeated: no anchors, and none that is repeated already. -/
def isRepeatable : Regex → Bool
  | .char _ | .anyChar | .noneOf _ | .group _ => true
  | _ => false

/-- The last part repeated. -/
def repeatLast (r : Reader) (form : Regex → Regex) : Option Reader :=
  match r.parts with
  | e :: es => if isRepeatable e then some { r with parts := form e :: es } else none
  | [] => none

/-- The innermost group closed. -/
def close (r : Reader) : Option Reader :=
  match r.outer with
  | around :: outer => some { r with parts := .group (ofList r.parts.reverse) :: around, outer := outer }
  | [] => none

/-- One character between two parts. Alternatives and counted repetition are not read. -/
def stepPlain (r : Reader) : Char → Option Reader
  | '\\' => some { r with mode := .escape }
  | '(' => some { r with mode := .groupOpen }
  | ')' => r.close
  | '[' => some { r with mode := .classOpen }
  | '.' => some (r.add .anyChar)
  | '^' => some (r.add .start)
  | '$' => some (r.add .finish)
  | '*' => r.repeatLast .star
  | '+' => r.repeatLast .plus
  | '?' => r.repeatLast .optional
  | '|' => none
  | '\x7b' => none
  | c => some (r.add (.char c))

/-- One more member of a class, or its end. Ranges are not read. -/
def stepMembers (r : Reader) (read : List Char) : Char → Option Reader
  | ']' => if read.isEmpty then none else some (r.add (.noneOf read.reverse))
  | '\\' => some { r with mode := .memberEscape read }
  | '-' => none
  | c => some { r with mode := .members (c :: read) }

/-- One character. A letter or a digit behind a backslash would have a meaning of its own. -/
def step (r : Reader) (c : Char) : Option Reader :=
  match r.mode with
  | .plain => r.stepPlain c
  | .escape => if c.isAlphanum then none else some (r.add (.char c))
  | .groupOpen => if c == '?' then some { r with mode := .groupMark } else none
  | .groupMark => if c == ':' then some { mode := .plain, parts := [], outer := r.parts :: r.outer } else none
  | .classOpen => if c == '^' then some { r with mode := .members [] } else none
  | .members read => r.stepMembers read c
  | .memberEscape read => if c.isAlphanum then none else some { r with mode := .members (c :: read) }

/-- All characters of a text. -/
def advance (r : Reader) : List Char → Option Reader
  | [] => some r
  | c :: cs => (r.step c).bind fun next => advance next cs

/-- The expression that has been read, if nothing is left open. -/
def result? (r : Reader) : Option Regex :=
  match r.mode, r.outer with
  | .plain, [] => some (ofList r.parts.reverse)
  | _, _ => none

end Reader

/-- The expression that a text spells. -/
def read? (text : String) : Option Regex :=
  (Reader.advance {} text.toList).bind Reader.result?

/-! ## Matching -/

/-- The rest of a text after one character of a class. -/
def charRests (p : Char → Bool) : List Char → List (List Char)
  | c :: cs => if p c then [cs] else []
  | [] => []

/-- The rests of a text after any number of rounds that each take something, more rounds first. -/
def roundRests (round : List Char → List (List Char)) (cs : List Char) : List (List Char) :=
  ((round cs).filter (·.length < cs.length)).attach.flatMap (fun r => roundRests round r.1) ++ [cs]
termination_by cs.length
decreasing_by simpa using (List.mem_filter.mp r.2).2

/-- The rests of a text after an expression, in the order in which they are tried; the text is the end of `whole`. The
end is also before a final line break, and the dot takes no line break. -/
def rests (whole : List Char) : Regex → List Char → List (List Char)
  | .empty, cs => [cs]
  | .char c, cs => charRests (· == c) cs
  | .anyChar, cs => charRests (· != '\n') cs
  | .noneOf members, cs => charRests (!members.contains ·) cs
  | .start, cs => if cs == whole then [cs] else []
  | .finish, cs => if cs.isEmpty || cs == ['\n'] then [cs] else []
  | .seq first second, cs => (rests whole first cs).flatMap (rests whole second)
  | .group inner, cs => rests whole inner cs
  | .star inner, cs => roundRests (rests whole inner) cs
  | .plus inner, cs => (rests whole inner cs).flatMap (roundRests (rests whole inner))
  | .optional inner, cs => rests whole inner cs ++ [cs]

/-- Whether an expression takes a front part of a text. -/
def matchesFront (e : Regex) (text : List Char) : Bool :=
  !(e.rests text text).isEmpty

/-- A text, the end of `whole`, with a replacement for all that an expression takes of it; what takes nothing is not
replaced. -/
def replaceFrom (e : Regex) (replacement whole : List Char) : List Char → List Char
  | [] => []
  | c :: cs =>
    match (e.rests whole (c :: cs)).head? with
    | some rest =>
      if rest.length ≤ cs.length then replacement ++ replaceFrom e replacement whole rest
      else c :: replaceFrom e replacement whole cs
    | none => c :: replaceFrom e replacement whole cs
termination_by cs => cs.length

/-- A text with a replacement for all that an expression takes of it. -/
def replaceAll (e : Regex) (replacement text : List Char) : List Char :=
  e.replaceFrom replacement text text

end Regex

end ExportAudit
