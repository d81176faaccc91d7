import ExportAudit.Text.Basic

/-!
# Route patterns

A route path may hold segments that stand for others: `[id]` for one segment, `[...slug]` for one or more, `[[...slug]]`,
together with the slash before it, for any number. `Pattern.ofRoute` finds them, `Pattern.text` writes the pattern as a
regular expression, and `Pattern.accepts` tells whether a path, or a path above it, has the form of the route.
-/

namespace ExportAudit.Route

/-- A part of a pattern: a character, one segment, one or more segments, or any number of segments with slashes before
them. -/
inductive Part where
  | char (c : Char)
  | segment
  | segments
  | anySegments
  deriving DecidableEq, Repr

/-- A pattern is a list of parts. -/
abbrev Pattern := List Part

namespace Pattern

/-! ## Finding brackets -/

/-- What follows the next closing bracket, if some characters and nothing else stand before it. -/
def afterBracket? (some_before : Bool) : Pattern → Option Pattern
  | .char ']' :: rest => if some_before then some rest else none
  | .char _ :: rest => afterBracket? true rest
  | _ => none

theorem afterBracket?_length {b : Bool} {p rest : Pattern} (h : afterBracket? b p = some rest) :
    rest.length < p.length := by
  fun_induction afterBracket? b p <;> grind

/-- Every `/[[...name]]` made a part for any number of segments. -/
def markOptional : Pattern → Pattern
  | .char '/' :: .char '[' :: .char '[' :: .char '.' :: .char '.' :: .char '.' :: rest =>
    match h : afterBracket? false rest with
    | some (.char ']' :: rest') =>
      have : rest'.length + 1 < rest.length := afterBracket?_length h
      .anySegments :: markOptional rest'
    | _ => .char '/' :: markOptional (.char '[' :: .char '[' :: .char '.' :: .char '.' :: .char '.' :: rest)
  | part :: rest => part :: markOptional rest
  | [] => []
termination_by p => p.length
decreasing_by all_goals simp only [List.length_cons]; omega

/-- Every `[...name]` made a part for one or more segments. -/
def markCatchAll : Pattern → Pattern
  | .char '[' :: .char '.' :: .char '.' :: .char '.' :: rest =>
    match h : afterBracket? false rest with
    | some rest' =>
      have : rest'.length < rest.length := afterBracket?_length h
      .segments :: markCatchAll rest'
    | none => .char '[' :: markCatchAll (.char '.' :: .char '.' :: .char '.' :: rest)
  | part :: rest => part :: markCatchAll rest
  | [] => []
termination_by p => p.length
decreasing_by all_goals simp only [List.length_cons]; omega

/-- Every `[name]` made a part for one segment. -/
def markDynamic : Pattern → Pattern
  | .char '[' :: rest =>
    match h : afterBracket? false rest with
    | some rest' =>
      have : rest'.length < rest.length := afterBracket?_length h
      .segment :: markDynamic rest'
    | none => .char '[' :: markDynamic rest
  | part :: rest => part :: markDynamic rest
  | [] => []
termination_by p => p.length
decreasing_by all_goals simp only [List.length_cons]; omega

/-- The pattern of a route; the longer forms are found first, so that `[...slug]` is not taken for one segment. -/
def ofRoute (route : String) : Pattern :=
  markDynamic (markCatchAll (markOptional (route.toList.map .char)))

/-! ## Writing -/

/-- The characters that have a meaning in regular expressions. -/
def isSpecial (c : Char) : Bool :=
  "()[]\x7b\x7d?*+-|^$\\.&~# \t\n\r\x0b\x0c".toList.contains c

/-- A part as a regular expression. -/
def partText : Part → String
  | .char c => if isSpecial c then String.ofList ['\\', c] else String.ofList [c]
  | .segment => "[^/]+"
  | .segments => "[^/]+(?:/[^/]+)*"
  | .anySegments => "(?:/[^/]+)*"

/-- A pattern as a regular expression. -/
def text (p : Pattern) : String :=
  "^" ++ Text.join "" (p.map partText) ++ "(?:/.*)?$"

/-! ## Matching -/

/-- The rests of a text after one or more characters other than slashes. -/
def segmentRests : List Char → List (List Char)
  | [] => []
  | c :: cs => if c == '/' then [] else cs :: segmentRests cs

theorem length_lt_of_mem_segmentRests {cs r : List Char} (h : r ∈ segmentRests cs) : r.length < cs.length := by
  fun_induction segmentRests cs <;> grind

/-- The rests of a text after any number of segments with slashes before them. -/
def anySegmentsRests : List Char → List (List Char)
  | '/' :: cs => ('/' :: cs) :: (segmentRests cs).attach.flatMap fun ⟨r, _⟩ => anySegmentsRests r
  | cs => [cs]
termination_by cs => cs.length
decreasing_by
  rename_i h
  have := length_lt_of_mem_segmentRests h
  simp
  omega

/-- The rests of a text after a part. -/
def rests (cs : List Char) : Part → List (List Char)
  | .char c => if cs.head? == some c then [cs.drop 1] else []
  | .segment => segmentRests cs
  | .segments => (segmentRests cs).flatMap anySegmentsRests
  | .anySegments => anySegmentsRests cs

/-- Whether a text is at its end, a final line break apart. -/
def atEnd (cs : List Char) : Bool :=
  cs.isEmpty || cs == ['\n']

/-- Whether a text may follow what a pattern describes: nothing, or a slash and the rest of the line. -/
def endsPath : List Char → Bool
  | '/' :: cs => atEnd (cs.dropWhile (· != '\n'))
  | cs => atEnd cs

/-- Whether a text has the form of a pattern, or begins with a path that has. -/
def accepts : Pattern → List Char → Bool
  | [], cs => endsPath cs
  | part :: rest, cs => (rests cs part).any (accepts rest)

end Pattern

end ExportAudit.Route
