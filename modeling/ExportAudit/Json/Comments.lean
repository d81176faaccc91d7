import ExportAudit.Text.Basic

/-!
# JSON with comments

`strip` turns a document with comments and trailing commas into plain JSON. Texts are kept. A line comment goes up to
the end of its line, a block comment up to the first `*/`, and a comma goes when only white space stands between it and a
closing bracket. A quote or a `/*` that is never closed is an ordinary character.
-/

namespace ExportAudit.Json

/-- What follows the opening quote of a text, up to and with its closing quote, and what comes after. -/
def closeText? : List Char → Option (List Char × List Char)
  | [] => none
  | '"' :: rest => some (['"'], rest)
  | '\\' :: c :: rest => (closeText? rest).map fun (t, after) => ('\\' :: c :: t, after)
  | c :: rest => if c == '\\' then none else (closeText? rest).map fun (t, after) => (c :: t, after)

/-- What comes after the end of a block comment. -/
def closeComment? : List Char → Option (List Char)
  | [] => none
  | '*' :: '/' :: rest => some rest
  | _ :: rest => closeComment? rest

/-- Whether only white space stands before a closing bracket. -/
def beforeClose : List Char → Bool
  | [] => false
  | c :: rest => c == '}' || c == ']' || (Text.isBlank c && beforeClose rest)

theorem closeText?_length {cs t rest : List Char} (h : closeText? cs = some (t, rest)) :
    rest.length < cs.length := by
  fun_induction closeText? cs generalizing t rest <;> grind [Option.map_eq_some_iff]

theorem closeComment?_length {cs rest : List Char} (h : closeComment? cs = some rest) :
    rest.length < cs.length := by
  fun_induction closeComment? cs generalizing rest <;> grind

/-- A document without its comments and trailing commas. -/
def strip : List Char → List Char
  | [] => []
  | '"' :: rest =>
    match _h : closeText? rest with
    | some (t, after) => '"' :: (t ++ strip after)
    | none => '"' :: strip rest
  | '/' :: '/' :: rest => strip (rest.dropWhile (· != '\n'))
  | '/' :: '*' :: rest =>
    match _h : closeComment? rest with
    | some after => strip after
    | none => '/' :: strip ('*' :: rest)
  | ',' :: rest => if beforeClose rest then strip rest else ',' :: strip rest
  | c :: rest => c :: strip rest
termination_by cs => cs.length
decreasing_by
  all_goals simp_wf
  · have := closeText?_length _h
    omega
  · have : (rest.dropWhile (· != '\n')).length ≤ rest.length := (List.dropWhile_sublist _).length_le
    omega
  · have := closeComment?_length _h
    omega

end ExportAudit.Json
