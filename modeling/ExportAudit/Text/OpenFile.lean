import ExportAudit.Text.Basic
import ExportAudit.Text.Utf8

/-!
# Text files that are read block by block

The bytes of a text file are decoded in chunks, and its characters are handed out in blocks (`OpenFile.read`). A block
takes as many chunks as it needs. If one of them is not text the block is lost, also the part of it that was decoded
before, and the blocks in front of it are not.
-/

namespace ExportAudit.Text

/-- A text file that has been read up to some place. -/
structure OpenFile where
  /-- The bytes that are not decoded yet. -/
  bytes : List UInt8
  /-- The sequence that is open behind the last chunk. -/
  begun : Option OpenSequence := none
  /-- Whether a carriage return at the end of the last chunk is held back: a line feed may follow. -/
  held : Bool := false
  /-- The characters that are decoded and not handed out yet. -/
  ready : List Char := []
  /-- The bytes and the characters of the last chunk. -/
  rate : Nat × Nat := (0, 0)

namespace OpenFile

/-- The least number of bytes that are decoded at once. -/
def leastChunk : Nat := 8192

/-- The number of bytes of the next chunk: what the missing characters take if they are as long as those of the last
chunk, and not less than `leastChunk`. -/
def chunkSize (f : OpenFile) (missing : Nat) : Nat :=
  if f.rate.1 * missing ≤ leastChunk * f.rate.2 then leastChunk
  else max leastChunk (f.rate.1.toFloat / f.rate.2.toFloat * missing.toFloat).toUInt64.toNat

/-- Decodes the next chunk; the end of the file is an empty chunk. -/
def chunk (f : OpenFile) (missing : Nat) : Option OpenFile := do
  let now := f.bytes.take (f.chunkSize missing)
  let (cs, begun) ← feed f.begun now
  if now.isEmpty && begun.isSome then none
  else
    let text := if f.held then '\r' :: cs else cs
    let held := !now.isEmpty && text.getLast? == some '\r'
    let lines := unixLines (if held then text.dropLast else text)
    some
      { bytes := f.bytes.drop now.length
        begun := begun
        held := held
        ready := f.ready ++ lines
        rate := if lines.isEmpty then (0, 0) else (now.length, lines.length) }

/-- Decodes chunks until some characters are ready or the file ends. The last argument bounds the number of chunks. -/
def fill (f : OpenFile) (size : Nat) : Nat → Option OpenFile
  | 0 => some f
  | n + 1 =>
    if size ≤ f.ready.length then some f
    else
      match f.chunk (size - f.ready.length) with
      | none => none
      | some g => if f.bytes.isEmpty then some g else g.fill size n

/-- The next block: a number of characters, or those that are left. -/
def read (f : OpenFile) (size : Nat) : Option (List Char × OpenFile) :=
  (f.fill size (f.bytes.length + 1)).map fun g => (g.ready.take size, { g with ready := g.ready.drop size })

/-- The blocks of a file up to its end or up to one that cannot be had. The last argument bounds their number. -/
def blocks (f : OpenFile) (size : Nat) : Nat → List (Option (List Char))
  | 0 => []
  | n + 1 =>
    match f.read size with
    | none => [none]
    | some ([], _) => []
    | some (block, g) => some block :: g.blocks size n

end OpenFile

/-- The blocks of a text file. -/
def blocks (bytes : ByteArray) (size : Nat) : List (Option (List Char)) :=
  (OpenFile.mk bytes.toList none false [] (0, 0)).blocks size (bytes.size + 1)

end ExportAudit.Text
