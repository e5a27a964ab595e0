/-! UTF-8, one byte at a time. The decoder refuses a byte as soon as no character can continue with
it, except that half of a surrogate pair is refused only with its last byte. -/
namespace RequestWindows.Text

def encodeUtf8 (text : List Char) : List UInt8 := text.flatMap String.utf8EncodeChar

/-- A character of which some bytes are read: the bits they gave, the number of bytes still owed,
and the bounds of the next one. Nothing is owed between characters. -/
structure PartialChar where
  value : Nat
  owed : Nat
  low : Nat
  high : Nat
deriving DecidableEq

namespace PartialChar

/-- The state between two characters. -/
def start : PartialChar := ⟨0, 0, 0, 0⟩

/-- Read the first byte of a character. -/
def lead (b : Nat) : Option (Option Char × PartialChar) :=
  if b < 0x80 then some (some (Char.ofNat b), start)
  else if 0xC2 ≤ b ∧ b ≤ 0xDF then some (none, ⟨b - 0xC0, 1, 0x80, 0xBF⟩)
  else if 0xE0 ≤ b ∧ b ≤ 0xEF then
    -- The bounds of the second byte rule out forms that are longer than they need to be.
    some (none, ⟨b - 0xE0, 2, if b = 0xE0 then 0xA0 else 0x80, 0xBF⟩)
  else if 0xF0 ≤ b ∧ b ≤ 0xF4 then
    -- Here they also rule out what is beyond the last code point.
    some (none, ⟨b - 0xF0, 3, if b = 0xF0 then 0x90 else 0x80, if b = 0xF4 then 0x8F else 0xBF⟩)
  else none

/-- The state after a byte that does not end its character, where `owed` bytes are left. No byte can
end half of a surrogate pair. -/
def continued (value owed : Nat) : PartialChar :=
  if owed = 1 ∧ 0x360 ≤ value ∧ value ≤ 0x37F then ⟨value, owed, 1, 0⟩
  else ⟨value, owed, 0x80, 0xBF⟩

/-- Read one byte: the character that it completes, if any, and the state after it. -/
def step (p : PartialChar) (b : Nat) : Option (Option Char × PartialChar) :=
  if p.owed = 0 then lead b
  else if p.low ≤ b ∧ b ≤ p.high then
    let value := p.value * 64 + (b - 0x80)
    if p.owed = 1 then some (some (Char.ofNat value), start)
    else some (none, continued value (p.owed - 1))
  else none

end PartialChar

/-- The characters that some bytes complete and the state after them, unless one is refused. -/
def decodeBytes : PartialChar → List UInt8 → Option (List Char × PartialChar)
  | p, [] => some ([], p)
  | p, b :: rest => do
    let (c?, q) ← p.step b.toNat
    let (text, r) ← decodeBytes q rest
    return (c?.toList ++ text, r)

/-- What can be read of a file: its text as far as it can be decoded, and whether that is all. -/
structure Decoded where
  text : List Char
  whole : Bool
deriving DecidableEq

/-- The text of a sequence of blocks up to the first that cannot be decoded. A character that the
last block leaves unfinished counts as undecodable. -/
def decodeBlocks : PartialChar → List (List UInt8) → Decoded
  | p, [] => ⟨[], p.owed = 0⟩
  | p, block :: rest =>
    match decodeBytes p block with
    | none => ⟨[], false⟩
    | some (text, q) =>
      let more := decodeBlocks q rest
      ⟨text ++ more.text, more.whole⟩

/-- A list cut into pieces of `size` elements, the last one possibly shorter. -/
def blocks (size : Nat) (bytes : List UInt8) : List (List UInt8) :=
  (List.range ((bytes.length + size - 1) / size)).map fun i => (bytes.drop (i * size)).take size

/-- Files are decoded in blocks of this many bytes. -/
def blockSize : Nat := 8192

/-- Decode the content of a file. -/
def decodeUtf8 (bytes : List UInt8) : Decoded := decodeBlocks .start (blocks blockSize bytes)

end RequestWindows.Text
