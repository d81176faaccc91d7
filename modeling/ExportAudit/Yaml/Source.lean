import ExportAudit.Text.OpenFile
import ExportAudit.Yaml.Token

/-!
# The text of a YAML file

A YAML file is read block by block while its tokens are read, and a block that is not text, or holds a character that may
not stand in YAML, is a fault only for those who read that far. So the text comes with the fault behind it (`Source`).
-/

namespace ExportAudit.Yaml

/-- The character that stands for the end of the text. -/
def endMark : Char := '\x00'

/-- A character that may stand in a YAML text. -/
def isAllowed (c : Char) : Bool :=
  let n := c.toNat
  n == 0x09 || n == 0x0A || n == 0x0D || (0x20 ≤ n && n ≤ 0x7E) || n == 0x85 || (0xA0 ≤ n && n ≤ 0xD7FF) ||
    (0xE000 ≤ n && n ≤ 0xFFFD) || 0x10000 ≤ n

/-- A text as far as it can be read, and the fault that is met behind it, if there is one. -/
structure Source where
  text : Array Char
  ends : Option Fault
  allowed : ∀ c ∈ text, isAllowed c = true

namespace Source

/-- The character at a place. Behind the text stands its fault, or nothing but end marks. -/
def charAt (s : Source) (i : Nat) : Except Fault Char :=
  match s.text[i]?, s.ends with
  | some c, _ => .ok c
  | none, some e => .error e
  | none, none => .ok endMark

/-- A source without text. -/
def blank (ends : Option Fault) : Source where
  text := #[]
  ends := ends
  allowed := by simp

/-- A source with a block in front of it. -/
def push (block : List Char) (s : Source) (h : block.all isAllowed = true) : Source where
  text := block.toArray ++ s.text
  ends := s.ends
  allowed c hc := by
    rcases Array.mem_append.mp hc with hc | hc
    · exact List.all_eq_true.mp h c (List.mem_toArray.mp hc)
    · exact s.allowed c hc

/-- The text of some blocks. -/
def ofBlocks : List (Option (List Char)) → Source
  | [] => blank none
  | none :: _ => blank (some .notText)
  | some block :: rest =>
    if h : block.all isAllowed = true then push block (ofBlocks rest) h
    else blank (some (.malformed "a character is not allowed"))

/-- The number of characters of a block. -/
def blockSize : Nat := 4096

/-- The first two blocks are read at once. -/
def joinFirst : List (Option (List Char)) → List (Option (List Char))
  | first? :: second? :: rest => (do pure ((← first?) ++ (← second?))) :: rest
  | blocks => blocks

/-- The text of a file. -/
def ofBytes (bytes : ByteArray) : Source :=
  ofBlocks (joinFirst (Text.blocks bytes blockSize))

end Source

end ExportAudit.Yaml
