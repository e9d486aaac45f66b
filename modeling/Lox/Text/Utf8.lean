/-!
# Reading UTF-8

A decoder over bytes that says where and why a text breaks off. A well-formed character is one
lead byte followed by the continuation bytes that the lead calls for, the first of them in a range
that excludes overlong forms, surrogates and numbers beyond the last character. `firstChar` reads
one character; `decode` reads a whole text strictly and `decodeLossy` puts the replacement
character for each maximal piece that cannot begin a character.
-/

namespace Lox.Text

/-- What a lead byte calls for: how many bytes follow, the bits it contributes, and the range of
the byte after it. -/
structure Lead where
  following : Nat
  bits : Nat
  least : UInt8
  greatest : UInt8

/-- The lead byte's demands, or nothing for a byte that begins no character. -/
def Lead.of? (byte : UInt8) : Option Lead :=
  if byte < 0x80 then some ⟨0, byte.toNat, 0x80, 0xBF⟩
  else if byte < 0xC2 then none
  else if byte < 0xE0 then some ⟨1, byte.toNat - 0xC0, 0x80, 0xBF⟩
  else if byte < 0xF0 then
    some ⟨2, byte.toNat - 0xE0, if byte = 0xE0 then 0xA0 else 0x80,
      if byte = 0xED then 0x9F else 0xBF⟩
  else if byte < 0xF5 then
    some ⟨3, byte.toNat - 0xF0, if byte = 0xF0 then 0x90 else 0x80,
      if byte = 0xF4 then 0x8F else 0xBF⟩
  else none

/-- How reading one character ends. -/
inductive Read where
  /-- A character and the bytes after it. -/
  | char (c : Char) (rest : List UInt8)
  /-- `length` bytes that begin no character, and the bytes after them. -/
  | invalid (length : Nat) (rest : List UInt8)
  /-- The text ends inside a character. -/
  | incomplete

/-- Reads `following` continuation bytes after `length` bytes worth `bits`. -/
def continuation :
    (following length bits : Nat) → (least greatest : UInt8) → List UInt8 → Read
  | 0, _, bits, _, _, rest => .char (Char.ofNat bits) rest
  | _ + 1, _, _, _, _, [] => .incomplete
  | following + 1, length, bits, least, greatest, byte :: rest =>
      if least ≤ byte ∧ byte ≤ greatest then
        continuation following (length + 1) (64 * bits + (byte.toNat - 0x80)) 0x80 0xBF rest
      else .invalid length (byte :: rest)

/-- Reads one character from its lead byte and the bytes after it. -/
def firstChar (byte : UInt8) (rest : List UInt8) : Read :=
  match Lead.of? byte with
  | none => .invalid 1 rest
  | some lead => continuation lead.following 1 lead.bits lead.least lead.greatest rest

/-- Why bytes are not UTF-8. -/
inductive Utf8Fault where
  | invalid (length index : Nat)
  | incomplete (index : Nat)
  deriving DecidableEq, Repr

/-- The fault in words. -/
def Utf8Fault.message : Utf8Fault → String
  | .invalid length index =>
      "invalid utf-8 sequence of " ++ toString length ++ " bytes from index " ++ toString index
  | .incomplete index => "incomplete utf-8 byte sequence from index " ++ toString index

/-- Reads at most `fuel` characters, the next at byte `index`. -/
def decodeFrom :
    (fuel index : Nat) → (done : List Char) → List UInt8 → Except Utf8Fault (List Char)
  | 0, _, done, _ => .ok done.reverse
  | _ + 1, _, done, [] => .ok done.reverse
  | fuel + 1, index, done, byte :: bytes =>
      match firstChar byte bytes with
      | .char c rest => decodeFrom fuel (index + (bytes.length + 1 - rest.length)) (c :: done) rest
      | .invalid length _ => .error (.invalid length index)
      | .incomplete => .error (.incomplete index)

/-- Reads a text strictly. There are no more characters than bytes. -/
def decode (bytes : List UInt8) : Except Utf8Fault String :=
  (decodeFrom bytes.length 0 [] bytes).map String.ofList

/-- Reads at most `fuel` characters or faulty pieces. -/
def decodeLossyFrom : (fuel : Nat) → (done : List Char) → List UInt8 → List Char
  | 0, done, _ => done.reverse
  | _ + 1, done, [] => done.reverse
  | fuel + 1, done, byte :: bytes =>
      match firstChar byte bytes with
      | .char c rest => decodeLossyFrom fuel (c :: done) rest
      | .invalid _ rest => decodeLossyFrom fuel ('\uFFFD' :: done) rest
      | .incomplete => ('\uFFFD' :: done).reverse

/-- Reads a text with the replacement character wherever it is not UTF-8. -/
def decodeLossy (bytes : List UInt8) : String :=
  String.ofList (decodeLossyFrom bytes.length [] bytes)

/-- The bytes of a text. -/
def encode (text : String) : List UInt8 :=
  text.toUTF8.toList

end Lox.Text
