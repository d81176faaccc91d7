/-!
# UTF-8

`pieces` reads bytes one at a time and yields a character for every well-formed sequence and a gap for every
ill-formed one. A gap is as long as possible: it covers the bytes of a sequence that was well formed until it broke
off. `decodeLossy` puts the replacement character in each gap, `decode?` accepts only texts without a gap. `feed` decodes
a part of a text and fails with the first byte that no text has in its place.
-/

namespace ExportAudit.Text

/-- A sequence that has begun: how many bytes are owed, the bounds of the next one, and the bits read so far. -/
structure OpenSequence where
  owed : Nat
  least : Nat
  greatest : Nat
  bits : Nat

/-- What the first byte of a sequence says. -/
inductive FirstByte where
  | whole (c : Char)
  | begun (p : OpenSequence)
  | stray

/-- The sequences that a byte can begin. -/
def firstByte (b : Nat) : FirstByte :=
  if b ≤ 0x7F then .whole (Char.ofNat b)
  else if 0xC2 ≤ b && b ≤ 0xDF then .begun ⟨1, 0x80, 0xBF, b - 0xC0⟩
  else if b == 0xE0 then .begun ⟨2, 0xA0, 0xBF, 0⟩
  else if b == 0xED then .begun ⟨2, 0x80, 0x9F, 0xD⟩
  else if 0xE1 ≤ b && b ≤ 0xEF then .begun ⟨2, 0x80, 0xBF, b - 0xE0⟩
  else if b == 0xF0 then .begun ⟨3, 0x90, 0xBF, 0⟩
  else if 0xF1 ≤ b && b ≤ 0xF3 then .begun ⟨3, 0x80, 0xBF, b - 0xF0⟩
  else if b == 0xF4 then .begun ⟨3, 0x80, 0x8F, 4⟩
  else .stray

/-- The characters and the gaps of a byte sequence, from a sequence that may have begun. -/
def pieces : Option OpenSequence → List UInt8 → List (Option Char)
  | none, [] => []
  | some _, [] => [none]
  | none, b :: rest =>
    match firstByte b.toNat with
    | .whole c => some c :: pieces none rest
    | .begun p => pieces (some p) rest
    | .stray => none :: pieces none rest
  | some p, b :: rest =>
    if p.least ≤ b.toNat && b.toNat ≤ p.greatest then
      let bits := p.bits * 64 + b.toNat % 64
      if p.owed ≤ 1 then some (Char.ofNat bits) :: pieces none rest
      else pieces (some ⟨p.owed - 1, 0x80, 0xBF, bits⟩) rest
    else
      match firstByte b.toNat with
      | .whole c => none :: some c :: pieces none rest
      | .begun q => none :: pieces (some q) rest
      | .stray => none :: none :: pieces none rest

/-- The text of a byte sequence, with U+FFFD in every gap. -/
def decodeLossy (bytes : ByteArray) : List Char :=
  (pieces none bytes.toList).map (·.getD (Char.ofNat 0xFFFD))

/-- The text of a well-formed byte sequence. -/
def decode? (bytes : ByteArray) : Option (List Char) :=
  (pieces none bytes.toList).mapM id

/-- What one byte adds to a text: the character that is complete with it, and the sequence that is open behind it. -/
def feedByte (begun : Option OpenSequence) (b : UInt8) : Option (Option Char × Option OpenSequence) :=
  match begun with
  | none =>
    match firstByte b.toNat with
    | .whole c => some (some c, none)
    | .begun p => some (none, some p)
    | .stray => none
  | some p =>
    if p.least ≤ b.toNat && b.toNat ≤ p.greatest then
      let bits := p.bits * 64 + b.toNat % 64
      if p.owed ≤ 1 then some (some (Char.ofNat bits), none)
      else some (none, some ⟨p.owed - 1, 0x80, 0xBF, bits⟩)
    else none

/-- The characters of a part of a text, and the sequence that is open behind it. -/
def feed : Option OpenSequence → List UInt8 → Option (List Char × Option OpenSequence)
  | begun, [] => some ([], begun)
  | begun, b :: rest => do
    let (c?, begun) ← feedByte begun b
    let (cs, begun) ← feed begun rest
    pure (c?.toList ++ cs, begun)

end ExportAudit.Text
