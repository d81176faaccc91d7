import ExportAudit.Value

/-!
# Reading JSON

A document is read in two steps. `tokens?` cuts the text into punctuation, texts and words; `State.step` takes one token
at a time, with the lists and mappings that are still open on a stack, so that `value?` is a fold over the tokens. Besides
the numbers of the standard the words `NaN`, `Infinity` and `-Infinity` are accepted. Of two entries with one key the
later counts.
-/

namespace ExportAudit.Json

/-! ## Tokens -/

/-- A token of a document. A word is a number or a name. -/
inductive Token where
  | openList
  | closeList
  | openMap
  | closeMap
  | colon
  | comma
  | text (s : String)
  | word (w : List Char)
  deriving DecidableEq, Repr

/-- The value of a hexadecimal digit. -/
def hexValue? (c : Char) : Option Nat :=
  if '0' ≤ c && c ≤ '9' then some (c.toNat - '0'.toNat)
  else if 'a' ≤ c && c ≤ 'f' then some (c.toNat - 'a'.toNat + 10)
  else if 'A' ≤ c && c ≤ 'F' then some (c.toNat - 'A'.toNat + 10)
  else none

/-- The number written by four hexadecimal digits. -/
def hex4? (a b c d : Char) : Option Nat := do
  return (← hexValue? a) * 4096 + (← hexValue? b) * 256 + (← hexValue? c) * 16 + (← hexValue? d)

/-- The character after a backslash, where it stands for one character. -/
def escaped? : Char → Option Char
  | '"' => some '"'
  | '\\' => some '\\'
  | '/' => some '/'
  | 'b' => some (Char.ofNat 8)
  | 'f' => some (Char.ofNat 12)
  | 'n' => some '\n'
  | 'r' => some '\r'
  | 't' => some '\t'
  | _ => none

/-- The units of a text after its opening quote, up to and without the closing quote, and what follows. -/
def readUnits? : List Char → Option (List Nat × List Char)
  | [] => none
  | '"' :: rest => some ([], rest)
  | '\\' :: 'u' :: a :: b :: c :: d :: rest =>
    (hex4? a b c d).bind fun n => (readUnits? rest).map fun (ns, after) => (n :: ns, after)
  | '\\' :: c :: rest =>
    (escaped? c).bind fun e => (readUnits? rest).map fun (ns, after) => (e.toNat :: ns, after)
  | c :: rest =>
    if c.toNat < 0x20 || c == '\\' then none
    else (readUnits? rest).map fun (ns, after) => (c.toNat :: ns, after)

/-- The characters of a list of units: a high and a low surrogate in a row are one character, and a surrogate alone is
replaced. -/
def unitsText : List Nat → List Char
  | [] => []
  | high :: low :: rest =>
    if 0xD800 ≤ high && high < 0xDC00 && 0xDC00 ≤ low && low < 0xE000 then
      Char.ofNat (0x10000 + (high - 0xD800) * 0x400 + (low - 0xDC00)) :: unitsText rest
    else if 0xD800 ≤ high && high < 0xE000 then Char.ofNat 0xFFFD :: unitsText (low :: rest)
    else Char.ofNat high :: unitsText (low :: rest)
  | [n] => [if 0xD800 ≤ n && n < 0xE000 then Char.ofNat 0xFFFD else Char.ofNat n]

/-- Characters of words. -/
def isWordChar (c : Char) : Bool :=
  c.isAlphanum || c == '-' || c == '+' || c == '.'

/-- Space between tokens. -/
def isSpace (c : Char) : Bool :=
  c == ' ' || c == '\t' || c == '\n' || c == '\r'

/-- The token that a character of punctuation is. -/
def punctuation? : Char → Option Token
  | '[' => some .openList
  | ']' => some .closeList
  | '{' => some .openMap
  | '}' => some .closeMap
  | ':' => some .colon
  | ',' => some .comma
  | _ => none

theorem readUnits?_length {cs rest : List Char} {ns : List Nat} (h : readUnits? cs = some (ns, rest)) :
    rest.length < cs.length := by
  fun_induction readUnits? cs generalizing ns rest <;> grind [Option.map_eq_some_iff, Option.bind_eq_some_iff]

/-- The tokens of a text. -/
def tokens? : List Char → Option (List Token)
  | [] => some []
  | c :: rest =>
    if isSpace c then tokens? rest
    else if c == '"' then
      match _h : readUnits? rest with
      | some (ns, after) => (tokens? after).map (.text (String.ofList (unitsText ns)) :: ·)
      | none => none
    else if isWordChar c then
      (tokens? (rest.dropWhile isWordChar)).map (.word (c :: rest.takeWhile isWordChar) :: ·)
    else
      match punctuation? c with
      | some t => (tokens? rest).map (t :: ·)
      | none => none
termination_by cs => cs.length
decreasing_by
  all_goals simp_wf
  · have := readUnits?_length _h
    omega
  · have : (rest.dropWhile isWordChar).length ≤ rest.length := (List.dropWhile_sublist _).length_le
    omega

/-! ## Words -/

/-- A run of ASCII digits in front. -/
def takeDigits (cs : List Char) : List Char × List Char :=
  cs.span Char.isDigit

/-- The exponent at the end of a number: nothing, or a sign and digits. -/
def exponent? : List Char → Option (Option Int)
  | [] => some none
  | e :: rest =>
    if e != 'e' && e != 'E' then none
    else
      let (negative, ds) :=
        match rest with
        | '-' :: r => (true, r)
        | '+' :: r => (false, r)
        | r => (false, r)
      if ds.isEmpty || !ds.all Char.isDigit then none
      else some (some (if negative then -(digitsValue ds : Int) else digitsValue ds))

/-- An unsigned number: an integer without superfluous zeros, a fraction, an exponent. -/
def magnitude? (negative : Bool) (cs : List Char) : Option Value := do
  let (whole, rest) := takeDigits cs
  if whole.isEmpty || (whole.length > 1 && whole.head? == some '0') then none
  let (fraction, rest) ←
    match rest with
    | '.' :: r =>
      let (ds, r) := takeDigits r
      if ds.isEmpty then none else some (some ds, r)
    | r => some (none, r)
  let exponent ← exponent? rest
  match fraction, exponent with
  | none, none =>
    let n : Int := digitsValue whole
    return .int (if negative then -n else n)
  | _, _ =>
    let ds := fraction.getD []
    let x := nearestFloat (digitsValue (whole ++ ds)) (exponent.getD 0 - ds.length)
    return .float (if negative then -x else x)

/-- The value of a word. -/
def wordValue? (w : List Char) : Option Value :=
  match String.ofList w with
  | "null" => some .null
  | "true" => some (.bool true)
  | "false" => some (.bool false)
  | "NaN" => some (.float (0.0 / 0.0))
  | "Infinity" => some (.float (1.0 / 0.0))
  | "-Infinity" => some (.float (-1.0 / 0.0))
  | _ =>
    match w with
    | '-' :: rest => magnitude? true rest
    | rest => magnitude? false rest

/-! ## Documents -/

/-- A list or mapping that is still open: the items so far in reverse, or the entries so far and the present key. -/
inductive Frame where
  | inList (items : List Value)
  | inMap (entries : List (Value × Value)) (key : String)

/-- What is due next. -/
inductive State where
  /-- A value. -/
  | want (stack : List Frame)
  /-- A value or the end of the list that was just opened. -/
  | wantFirst (stack : List Frame)
  /-- A key. -/
  | wantKey (entries : List (Value × Value)) (stack : List Frame)
  /-- A key or the end of the mapping that was just opened. -/
  | wantFirstKey (stack : List Frame)
  /-- The colon after a key. -/
  | wantColon (entries : List (Value × Value)) (key : String) (stack : List Frame)
  /-- A value is complete; a comma or the end of what holds it is due. -/
  | done (v : Value) (stack : List Frame)

namespace State

/-- A value that begins with a token. -/
def begin? (stack : List Frame) : Token → Option State
  | .openList => some (.wantFirst stack)
  | .openMap => some (.wantFirstKey stack)
  | .text s => some (.done (.text s) stack)
  | .word w => (wordValue? w).map (.done · stack)
  | _ => none

/-- The state after one token. -/
def step : State → Token → Option State
  | .want stack, t => begin? stack t
  | .wantFirst stack, .closeList => some (.done (.list []) stack)
  | .wantFirst stack, t => begin? (.inList [] :: stack) t
  | .wantKey entries stack, .text key => some (.wantColon entries key stack)
  | .wantFirstKey stack, .closeMap => some (.done (.map []) stack)
  | .wantFirstKey stack, .text key => some (.wantColon [] key stack)
  | .wantColon entries key stack, .colon => some (.want (.inMap entries key :: stack))
  | .done v (.inList items :: stack), .comma => some (.want (.inList (v :: items) :: stack))
  | .done v (.inList items :: stack), .closeList => some (.done (.list (v :: items).reverse) stack)
  | .done v (.inMap entries key :: stack), .comma => some (.wantKey (Value.putEntry (.text key) v entries) stack)
  | .done v (.inMap entries key :: stack), .closeMap =>
    some (.done (.map (Value.putEntry (.text key) v entries)) stack)
  | _, _ => none

/-- The state after several tokens. -/
def run : State → List Token → Option State
  | s, [] => some s
  | s, t :: ts => (s.step t).bind (run · ts)

/-- The value of a finished document. -/
def result? : State → Option Value
  | .done v [] => some v
  | _ => none

end State

/-- The value of a token sequence. -/
def valueOfTokens? (ts : List Token) : Option Value :=
  ((State.want []).run ts).bind State.result?

/-- The value of a JSON document. -/
def value? (text : List Char) : Option Value :=
  (tokens? text).bind valueOfTokens?

end ExportAudit.Json
