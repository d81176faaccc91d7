/-!
# Text

Small operations on strings, each stated on the list of characters: splitting at a character (`splitOn`), joining
with a separator (`join`), tests for a beginning, an end or a part (`startsWith`, `endsWith`, `occursIn`), and
removing characters at the ends (`strip`). `isBlank` is the class of white space that the settings, the JSON reader
and the environment share.
-/

namespace ExportAudit.Text

/-- White space: the ASCII blanks and separators, the next-line mark, and the Unicode space separators. -/
def isBlank (c : Char) : Bool :=
  let n := c.toNat
  (0x09 ≤ n && n ≤ 0x0D) || (0x1C ≤ n && n ≤ 0x20) || n == 0x85 || n == 0xA0 || n == 0x1680 ||
    (0x2000 ≤ n && n ≤ 0x200A) || n == 0x2028 || n == 0x2029 || n == 0x202F || n == 0x205F || n == 0x3000

/-- The parts of a text between the occurrences of a character; there is always at least one part. -/
def splitOn (sep : Char) (s : String) : List String :=
  (s.toList.splitOn sep).map String.ofList

/-- The parts with a separator between each two. -/
def join (sep : String) (parts : List String) : String :=
  String.ofList (sep.toList.intercalate (parts.map String.toList))

/-- Whether a text begins with `p`. -/
def startsWith (s p : String) : Bool :=
  p.toList.isPrefixOf s.toList

/-- Whether a text ends with `p`. -/
def endsWith (s p : String) : Bool :=
  p.toList.isSuffixOf s.toList

/-- Whether a character stands in a text. -/
def hasChar (s : String) (c : Char) : Bool :=
  s.toList.contains c

/-- Whether `part` stands somewhere in a list. -/
def occursInList (part : List Char) : List Char → Bool
  | [] => part.isEmpty
  | c :: rest => part.isPrefixOf (c :: rest) || occursInList part rest

/-- Whether `part` stands somewhere in `whole`. -/
def occursIn (part whole : String) : Bool :=
  occursInList part.toList whole.toList

/-- Every occurrence of one character replaced by another. -/
def replaceChar (old new : Char) (s : String) : String :=
  String.ofList (s.toList.map fun c => if c == old then new else c)

/-- The characters of a class removed from the beginning. -/
def stripLeft (p : Char → Bool) (s : String) : String :=
  String.ofList (s.toList.dropWhile p)

/-- The characters of a class removed from the end. -/
def stripRight (p : Char → Bool) (s : String) : String :=
  String.ofList (s.toList.reverse.dropWhile p).reverse

/-- The characters of a class removed from both ends. -/
def strip (p : Char → Bool) (s : String) : String :=
  stripRight p (stripLeft p s)

/-- What stands before and after the first occurrence of a character. -/
def cut? (sep : Char) (s : String) : Option (String × String) :=
  match s.toList.span (· != sep) with
  | (_, []) => none
  | (before, _ :: after) => some (String.ofList before, String.ofList after)

/-- A text without its first `n` characters. -/
def drop (s : String) (n : Nat) : String :=
  String.ofList (s.toList.drop n)

/-- A text without its last `n` characters. -/
def dropEnd (s : String) (n : Nat) : String :=
  String.ofList (s.toList.take (s.toList.length - n))

/-- A text without its first and its last character. -/
def inner (s : String) : String :=
  dropEnd (drop s 1) 1

/-- Line ends written with a carriage return, alone or before a line feed, become line feeds. -/
def unixLines : List Char → List Char
  | [] => []
  | '\r' :: '\n' :: rest => '\n' :: unixLines rest
  | '\r' :: rest => '\n' :: unixLines rest
  | c :: rest => c :: unixLines rest

theorem unixLines_cons {c : Char} (h : c ≠ '\r') (cs : List Char) : unixLines (c :: cs) = c :: unixLines cs := by
  rw [unixLines]
  all_goals simp_all

/-- A number in a base of at most sixteen, with zeros in front up to the given width. -/
def digits (base width n : Nat) : String :=
  let ds := Nat.toDigits base n
  String.ofList (List.replicate (width - ds.length) '0' ++ ds)

end ExportAudit.Text
