import SolutionGraph.Text.Basic

/-!
# UTF-8

Files hold bytes and the readers want text.

* `decode?` reads bytes as text and refuses anything that is not UTF-8;
* `decodeLossy` never fails: each longest start of a character that does not go on becomes one `U+FFFD`;
* `encode` writes text as bytes.

Both readers come from `decodeFrom`, which gives a character or nothing for each piece of the input.
-/

namespace SolutionGraph.Text

/-- A character whose bytes have begun. -/
structure PendingChar where
  /-- The value of the bits seen so far. -/
  value : Nat
  /-- How many bytes are still to come after the next one. -/
  after : Nat
  /-- The least value of the next byte. -/
  lo : Nat
  /-- The greatest value of the next byte. -/
  hi : Nat

/-- What a byte is at the start of a character. -/
inductive LeadByte where
  | whole (c : Char)
  | opens (pending : PendingChar)
  | invalid

/-- Reads a byte at the start of a character. The narrower ranges of the second byte leave out overlong forms,
surrogates and values above `U+10FFFF`. -/
def leadByte (b : UInt8) : LeadByte :=
  let n := b.toNat
  if n < 0x80 then .whole (Char.ofNat n)
  else if n < 0xC2 then .invalid
  else if n < 0xE0 then .opens ⟨n - 0xC0, 0, 0x80, 0xBF⟩
  else if n < 0xF0 then
    .opens ⟨n - 0xE0, 1, if n = 0xE0 then 0xA0 else 0x80, if n = 0xED then 0x9F else 0xBF⟩
  else if n < 0xF5 then
    .opens ⟨n - 0xF0, 2, if n = 0xF0 then 0x90 else 0x80, if n = 0xF4 then 0x8F else 0xBF⟩
  else .invalid

/-- Reads bytes into characters; a piece that is no character gives `none`. -/
def decodeFrom : Option PendingChar → List UInt8 → List (Option Char)
  | none, [] => []
  | some _, [] => [none]
  | none, b :: rest =>
    match leadByte b with
    | .whole c => some c :: decodeFrom none rest
    | .opens pending => decodeFrom (some pending) rest
    | .invalid => none :: decodeFrom none rest
  | some pending, b :: rest =>
    if pending.lo ≤ b.toNat ∧ b.toNat ≤ pending.hi then
      let value := 64 * pending.value + (b.toNat - 0x80)
      match pending.after with
      | 0 => some (Char.ofNat value) :: decodeFrom none rest
      | after + 1 => decodeFrom (some ⟨value, after, 0x80, 0xBF⟩) rest
    else
      match leadByte b with
      | .whole c => none :: some c :: decodeFrom none rest
      | .opens pending => none :: decodeFrom (some pending) rest
      | .invalid => none :: none :: decodeFrom none rest

/-- The text that the bytes spell, if they are UTF-8 throughout. -/
def decode? (bytes : List UInt8) : Option Text := (decodeFrom none bytes).mapM id

/-- The text that the bytes spell, with `U+FFFD` for each piece that is no character. -/
def decodeLossy (bytes : List UInt8) : Text :=
  (decodeFrom none bytes).map fun c => c.getD (Char.ofNat 0xFFFD)

/-- The bytes of one character. -/
def encodeChar (c : Char) : List UInt8 :=
  let n := c.toNat
  if n < 0x80 then [n.toUInt8]
  else if n < 0x800 then [(0xC0 + n / 64).toUInt8, (0x80 + n % 64).toUInt8]
  else if n < 0x10000 then
    [(0xE0 + n / 4096).toUInt8, (0x80 + n / 64 % 64).toUInt8, (0x80 + n % 64).toUInt8]
  else
    [(0xF0 + n / 262144).toUInt8, (0x80 + n / 4096 % 64).toUInt8, (0x80 + n / 64 % 64).toUInt8,
      (0x80 + n % 64).toUInt8]

/-- The bytes of a text. -/
def encode (t : Text) : List UInt8 := t.flatMap encodeChar

/-- How many bytes a text takes. -/
def byteLength (t : Text) : Nat := (encode t).length

end SolutionGraph.Text
