/-!
# Characters of UTF-8

Bytes are decoded into characters one by one (`Utf8.decode`).  Where the bytes form no character,
the longest beginning of one, or else a single byte, is left out and marked by `none`.
-/

namespace Kanban.Utf8

/-- How a first byte goes on: the number of further bytes, the bounds of the second byte, and what
the first byte contributes to the code. -/
structure Lead where
  further : Nat
  low : Nat := 0x80
  high : Nat := 0xBF
  bits : Nat

/-- What a byte says when it stands first. -/
def lead? (b : Nat) : Option Lead :=
  if b < 0x80 then some { further := 0, bits := b }
  else if b < 0xC2 then none
  else if b < 0xE0 then some { further := 1, bits := b - 0xC0 }
  else if b = 0xE0 then some { further := 2, low := 0xA0, bits := 0 }
  else if b = 0xED then some { further := 2, high := 0x9F, bits := 13 }
  else if b < 0xF0 then some { further := 2, bits := b - 0xE0 }
  else if b = 0xF0 then some { further := 3, low := 0x90, bits := 0 }
  else if b = 0xF4 then some { further := 3, high := 0x8F, bits := 4 }
  else if b < 0xF4 then some { further := 3, bits := b - 0xF0 }
  else none

/-- What is expected after the bytes read so far: the number of further bytes, the bounds of the
next one and the code of the bytes before it. -/
structure Pending where
  further : Nat
  low : Nat
  high : Nat
  code : Nat

/-- Decodes the bytes after the ones read so far. -/
def decodeFrom (pending : Option Pending) : List Nat → List (Option Char)
  | [] => if pending.isSome then [none] else []
  | b :: bs =>
    match pending with
    | some p =>
      if p.low ≤ b ∧ b ≤ p.high then
        let code := p.code * 64 + b % 64
        if p.further ≤ 1 then some (Char.ofNat code) :: decodeFrom none bs
        else decodeFrom (some ⟨p.further - 1, 0x80, 0xBF, code⟩) bs
      else none :: start b bs
    | none => start b bs
where
  /-- A byte that stands first. -/
  start (b : Nat) (bs : List Nat) : List (Option Char) :=
    match lead? b with
    | none => none :: decodeFrom none bs
    | some l =>
      if l.further = 0 then some (Char.ofNat l.bits) :: decodeFrom none bs
      else decodeFrom (some ⟨l.further, l.low, l.high, l.bits⟩) bs

/-- The characters of a list of bytes. -/
def decode (bytes : List Nat) : List (Option Char) := decodeFrom none bytes

/-- The text of the bytes, if they are the encoding of one. -/
def text? (bytes : List Nat) : Option (List Char) := (decode bytes).mapM id

/-- The text of the bytes, with a replacement character where they form no character. -/
def lenientText (bytes : List Nat) : List Char := (decode bytes).map (·.getD '\ufffd')

/-- The bytes of a text. -/
def encode (s : String) : List Nat := s.toUTF8.toList.map UInt8.toNat

end Kanban.Utf8
