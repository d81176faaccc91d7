import ExportAudit.Text.Digits

/-!
# Command-line options

`Options.read` reads the arguments of the command. Long options may be shortened to any start that only one of them has,
take their value after a blank or `=`, and may stand before or after the path; short flags may be joined. After `--` all
arguments are plain. Flags take effect in order, so a request for help wins over a mistake that comes later, but not
over an argument that is no option at all or a start that several options have.
-/

namespace ExportAudit.Command

/-- An option of the command. -/
inductive Flag where
  | help
  | output
  | config
  | watch
  | verbose
  deriving DecidableEq, Repr

namespace Flag

/-- The spellings of the options. -/
def spellings : List (String × Flag) :=
  [("-h", .help), ("--help", .help), ("--output", .output), ("--config", .config), ("--watch", .watch),
   ("--verbose", .verbose), ("-v", .verbose)]

def ofSpelling? (s : String) : Option Flag :=
  spellings.lookup s

/-- Whether an option has a value. -/
def takesValue : Flag → Bool
  | .output | .config => true
  | _ => false

end Flag

/-- An argument by its form. -/
inductive Word where
  | plain (text : String)
  /-- The mark after which all arguments are plain. -/
  | endOfOptions
  | option (flag : Flag) (isShort : Bool) (value : Option String)
  | unknown
  | ambiguous
  deriving DecidableEq, Repr

namespace Word

/-- A negative number, which is no option. -/
def isNegativeNumber (s : String) : Bool :=
  let isDigit := fun c => (Text.digitValue? c).isSome
  match s.toList with
  | '-' :: rest =>
    let fraction := rest.dropWhile isDigit
    (!rest.isEmpty && fraction.isEmpty) ||
      match fraction with
      | '.' :: digits => !digits.isEmpty && digits.all isDigit
      | _ => false
  | _ => false

/-- A text cut at its first equals sign. -/
def cutValue (s : String) : String × Option String :=
  match Text.cut? '=' s with
  | some (name, value) => (name, some value)
  | none => (s, none)

/-- The readings of an argument with two hyphens as the start of an option. -/
def longReadings (s : String) : List Word :=
  let (name, value) := cutValue s
  (Flag.spellings.filter fun (spelling, _) => Text.startsWith spelling name).map fun (_, f) => .option f false value

/-- The readings of an argument with one hyphen as a short flag with more behind it. -/
def shortReadings (s : String) : List Word :=
  match Flag.ofSpelling? (String.ofList (s.toList.take 2)) with
  | some f => [.option f true (some (Text.drop s 2))]
  | none => []

/-- An argument that is not the spelling of an option. -/
def ofOther (s : String) : Word :=
  match if Text.startsWith s "--" then longReadings s else shortReadings s with
  | [w] => w
  | _ :: _ :: _ => .ambiguous
  | [] => if isNegativeNumber s || Text.hasChar s ' ' then .plain s else .unknown

/-- An argument before the end of the options. -/
def ofText (s : String) : Word :=
  let (name, value) := cutValue s
  if !Text.startsWith s "-" then .plain s
  else
    match Flag.ofSpelling? s, value.bind fun _ => Flag.ofSpelling? name with
    | some f, _ => .option f (!Text.startsWith s "--") none
    | none, found =>
      if s.length == 1 then .plain s
      else
        match found with
        | some f => .option f (!Text.startsWith s "--") value
        | none => ofOther s

/-- The forms of all arguments. -/
def ofTexts : List String → List Word
  | [] => []
  | s :: rest => if s == "--" then .endOfOptions :: rest.map .plain else ofText s :: ofTexts rest

end Word

/-- What the arguments ask for. -/
structure Options where
  path : String := "."
  output : Option String := none
  config : Option String := none
  watch : Bool := false
  verbose : Bool := false
  deriving DecidableEq, Repr

/-- What becomes of the arguments. -/
inductive Reading where
  | help
  | misuse
  | options (o : Options)
  deriving DecidableEq, Repr

namespace Options

/-- The options with a flag that has no value. -/
def setFlag (o : Options) : Flag → Options
  | .watch => { o with watch := true }
  | .verbose => { o with verbose := true }
  | _ => o

/-- The options with an option that has a value. -/
def setValue (o : Options) (value : String) : Flag → Options
  | .output => { o with output := some value }
  | .config => { o with config := some value }
  | _ => o

/-- Flags joined to a short flag: all of them, or none if one is unknown or needs a value. -/
def joinedFlags? : List Char → Option (List Flag)
  | [] => some []
  | c :: rest => do
    let f ← Flag.ofSpelling? (String.ofList ['-', c])
    let fs ← joinedFlags? rest
    some (f :: fs)

/-- The flags that an option without a value of its own stands for. -/
def flagsOf? (f : Flag) (isShort : Bool) : Option String → Option (List Flag)
  | none => some [f]
  | some more => if isShort && !more.isEmpty then (joinedFlags? more.toList).map (f :: ·) else none

/-- The words up to the next option, and the rest. -/
def isPositional : Word → Bool
  | .plain _ | .endOfOptions => true
  | _ => false

/-- Reads a run of plain words: the first of them is the path, if there is none yet. Whether words are left over. -/
def readRun (o : Options) (hasPath : Bool) (words : List Word) : Options × Bool :=
  if hasPath then (o, !words.isEmpty)
  else
    match words.dropWhile (· == .endOfOptions) with
    | .plain path :: rest => ({ o with path := path }, !(rest.dropWhile (· == .endOfOptions)).isEmpty)
    | rest => (o, !rest.isEmpty)

/-- Reads words in order. The last argument bounds the number of steps. -/
def readWords (o : Options) (hasPath hasExtra : Bool) : Nat → List Word → Reading
  | 0, _ => .misuse
  | _ + 1, [] => if hasExtra then .misuse else .options o
  | n + 1, w :: rest =>
    match w with
    | .plain _ | .endOfOptions =>
      let words := (w :: rest).takeWhile isPositional
      let (o, isLeft) := readRun o hasPath words
      readWords o true (hasExtra || isLeft) n ((w :: rest).dropWhile isPositional)
    | .unknown | .ambiguous => readWords o hasPath true n rest
    | .option f isShort value =>
      if f.takesValue then
        match value, rest with
        | some v, _ => readWords (o.setValue v f) hasPath hasExtra n rest
        | none, .plain v :: rest => readWords (o.setValue v f) hasPath hasExtra n rest
        | none, _ => .misuse
      else
        match flagsOf? f isShort value with
        | none => .misuse
        | some flags =>
          if flags.contains .help then .help else readWords (flags.foldl setFlag o) hasPath hasExtra n rest

/-- Reads the arguments of the command. -/
def read (arguments : List String) : Reading :=
  let words := Word.ofTexts arguments
  if words.contains .ambiguous then .misuse else readWords {} false false (words.length + 1) words

end Options

/-- The text of the help. -/
def helpText : String :=
  "usage: dependency_tracker [-h] [--output OUTPUT] [--config CONFIG] [--watch]\n" ++
  "                          [--verbose]\n" ++
  "                          [path]\n\n" ++
  "Find used, unused and unresolved exports in a Next.js project.\n\n" ++
  "positional arguments:\n" ++
  "  path             project root (default: current directory)\n\n" ++
  "options:\n" ++
  "  -h, --help       show this help message and exit\n" ++
  "  --output OUTPUT  report directory (default: <root>/.dependencies)\n" ++
  "  --config CONFIG  settings file (default: <root>/.dependency-tracker.yaml)\n" ++
  "  --watch          re-run after source changes (and on the polling interval if\n" ++
  "                   enabled)\n" ++
  "  --verbose, -v    debug logging\n"

end ExportAudit.Command
