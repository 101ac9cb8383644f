import RubyDoc.Text.Sym

/-!
# UTF-8 with stray bytes

`encode` writes characters in UTF-8 and stray bytes as they are.  `decode` reads every byte list:
where no character's encoding starts, one byte becomes a symbol of its own and reading goes on at
the next byte.  A character is recognised by writing it again and comparing, so overlong forms,
surrogates and truncated sequences are all refused by the same test.
-/

namespace RubyDoc.Utf8

/-- The bytes of one symbol. -/
def encodeSym : Sym → List UInt8
  | .char c => String.utf8EncodeChar c
  | .byte b => [b]

/-- The bytes of a text. -/
def encode (t : Text) : List UInt8 :=
  t.flatMap encodeSym

/-- The payload of a continuation byte, zero where the bytes have run out. -/
def tailBits : List UInt8 → Nat → Nat
  | bytes, i => (bytes.getD i 0).toNat % 0x40

/-- The code point that the bytes spell if they start with a well-formed sequence. -/
def leadingCode (bytes : List UInt8) : Nat :=
  let a := (bytes.getD 0 0).toNat
  if a < 0x80 then a
  else if a < 0xE0 then a % 0x20 * 0x40 + tailBits bytes 1
  else if a < 0xF0 then (a % 0x10 * 0x40 + tailBits bytes 1) * 0x40 + tailBits bytes 2
  else ((a % 0x08 * 0x40 + tailBits bytes 1) * 0x40 + tailBits bytes 2) * 0x40 + tailBits bytes 3

/-- The character whose encoding the bytes start with, and how many bytes follow its first one. -/
def leadingChar? (bytes : List UInt8) : Option (Char × Nat) :=
  let c := Char.ofNat (leadingCode bytes)
  let code := String.utf8EncodeChar c
  if code.isPrefixOf bytes then some (c, code.length - 1) else none

/-- Reads the bytes after passing over `skip` of them. -/
def decodeFrom : List UInt8 → (skip : Nat) → Text
  | [], _ => []
  | _ :: rest, skip + 1 => decodeFrom rest skip
  | b :: rest, 0 =>
      match leadingChar? (b :: rest) with
      | some (c, more) => .char c :: decodeFrom rest more
      | none => .byte b :: decodeFrom rest 0

/-- The text that the bytes spell; a byte outside every character's encoding is a symbol. -/
def decode (bytes : List UInt8) : Text :=
  decodeFrom bytes 0

end RubyDoc.Utf8
