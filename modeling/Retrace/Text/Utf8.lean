/-!
# UTF-8

Decoding of bytes into characters. Bytes that are not UTF-8 are cut into maximal subparts: as
many bytes as can start a character, or else one byte. Each subpart stands for one character
that is missing.

`Utf8.decode?` refuses such bytes, `Utf8.decodeLossy` shows U+FFFD for each subpart.
-/

namespace Retrace.Text.Utf8

/-- A character of which some bytes are still to come. -/
structure Unfinished where
  /-- The number of bytes to come. -/
  needed : Nat
  /-- The least value of the next byte. -/
  low : UInt8
  /-- The greatest value of the next byte. -/
  high : UInt8
  /-- The bits so far. -/
  value : Nat

/-- What a first byte is: a character, the start of one, or neither. -/
inductive Lead where
  | char (c : Char)
  | start (p : Unfinished)
  | invalid

/-- The first byte of a character. The range of the second byte excludes longer forms of short
characters, surrogates, and what is beyond U+10FFFF. -/
def lead (b : UInt8) : Lead :=
  if b < 0x80 then .char (Char.ofNat b.toNat)
  else if b < 0xc2 then .invalid
  else if b < 0xe0 then .start ⟨1, 0x80, 0xbf, b.toNat % 32⟩
  else if b = 0xe0 then .start ⟨2, 0xa0, 0xbf, b.toNat % 16⟩
  else if b = 0xed then .start ⟨2, 0x80, 0x9f, b.toNat % 16⟩
  else if b < 0xf0 then .start ⟨2, 0x80, 0xbf, b.toNat % 16⟩
  else if b = 0xf0 then .start ⟨3, 0x90, 0xbf, b.toNat % 8⟩
  else if b < 0xf4 then .start ⟨3, 0x80, 0xbf, b.toNat % 8⟩
  else if b = 0xf4 then .start ⟨3, 0x80, 0x8f, b.toNat % 8⟩
  else .invalid

/-- The characters of bytes, after the bytes of an unfinished character; `none` stands for a
maximal subpart that is not UTF-8. -/
def chars (pending : Option Unfinished) : List UInt8 → List (Option Char)
  | [] => if pending.isSome then [none] else []
  | b :: rest =>
    let first (rest : Option Unfinished → List (Option Char)) : List (Option Char) :=
      match lead b with
      | .char c => some c :: rest none
      | .start p => rest (some p)
      | .invalid => none :: rest none
    match pending with
    | none => first (chars · rest)
    | some p =>
      if p.low ≤ b && b ≤ p.high then
        let value := 64 * p.value + b.toNat % 64
        if p.needed ≤ 1 then some (Char.ofNat value) :: chars none rest
        else chars (some ⟨p.needed - 1, 0x80, 0xbf, value⟩) rest
      else none :: first (chars · rest)

/-- The text that bytes encode, with U+FFFD for each part that is not UTF-8. -/
def decodeLossy (bytes : List UInt8) : String :=
  String.ofList ((chars none bytes).map (·.getD '\ufffd'))

/-- The text that bytes encode, if they are UTF-8. -/
def decode? (bytes : List UInt8) : Option String :=
  ((chars none bytes).mapM id).map String.ofList

end Retrace.Text.Utf8
