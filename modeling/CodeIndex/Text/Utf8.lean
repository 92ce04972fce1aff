/-!
# Bytes as text

Texts are kept in files as UTF-8.  Strict reading refuses bytes that are no text; lenient
reading shows a replacement character for each longest piece that could have started a
character.
-/

namespace CodeIndex.Text

/-- The character that stands for bytes that are no text. -/
def replacement : Char := Char.ofNat 0xfffd

/-- What the first byte of a longer character says: its payload, the number of bytes that
follow, and the range of the next one. -/
def leadByte? (b : Nat) : Option (Nat × Nat × Nat × Nat) :=
  if 0xc2 ≤ b ∧ b ≤ 0xdf then some (b - 0xc0, 1, 0x80, 0xbf)
  else if b = 0xe0 then some (0, 2, 0xa0, 0xbf)
  else if b = 0xed then some (0xd, 2, 0x80, 0x9f)
  else if 0xe1 ≤ b ∧ b ≤ 0xef then some (b - 0xe0, 2, 0x80, 0xbf)
  else if b = 0xf0 then some (0, 3, 0x90, 0xbf)
  else if 0xf1 ≤ b ∧ b ≤ 0xf3 then some (b - 0xf0, 3, 0x80, 0xbf)
  else if b = 0xf4 then some (4, 3, 0x80, 0x8f)
  else none

/-- Read the bytes that follow a first byte.  At a byte out of range the character is
replaced, and that byte is read again. -/
def followBytes : Nat → Nat → Nat → Nat → List UInt8 → Char × List UInt8
  | value, 0, _, _, rest => (Char.ofNat value, rest)
  | _, _ + 1, _, _, [] => (replacement, [])
  | value, count + 1, lo, hi, b :: rest =>
    if lo ≤ b.toNat ∧ b.toNat ≤ hi then
      followBytes (value * 64 + (b.toNat - 0x80)) count 0x80 0xbf rest
    else (replacement, b :: rest)

/-- Read bytes leniently, one character per unit of fuel. -/
def lenientFrom : Nat → List UInt8 → List Char
  | 0, _ => []
  | _, [] => []
  | fuel + 1, b :: rest =>
    if b.toNat < 0x80 then Char.ofNat b.toNat :: lenientFrom fuel rest
    else
      match leadByte? b.toNat with
      | none => replacement :: lenientFrom fuel rest
      | some (value, count, lo, hi) =>
        let (c, rest) := followBytes value count lo hi rest
        c :: lenientFrom fuel rest

/-- The text of bytes, with replacements for those that are no text. -/
def lenient (bytes : ByteArray) : String :=
  String.ofList (lenientFrom bytes.size bytes.toList)

/-- The text of bytes that are text. -/
def strict? (bytes : ByteArray) : Option String := String.fromUTF8? bytes

end CodeIndex.Text
