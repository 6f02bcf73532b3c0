/-!
# UTF-8

`encode` gives the bytes of a text. `decode` reads bytes as text whether or not they are well
formed: each maximal part that starts a well-formed sequence without completing one, and each byte
that starts none, becomes one replacement character.

Decoding takes one byte at a time. Between two bytes it remembers the sequence under way, if any:
the bytes it still needs, the bounds on the next of them, and the number its bytes spell so far.
The bounds exclude overlong forms, surrogates and numbers above the last code point.
-/

namespace WasmContract.Text.Utf8

/-- A sequence that has begun and is not complete. -/
structure Unfinished where
  /-- The number of bytes still needed. -/
  needed : Nat
  /-- The least byte that may follow. -/
  low : UInt8
  /-- The greatest byte that may follow. -/
  high : UInt8
  /-- The number that the bytes so far spell. -/
  number : Nat
deriving DecidableEq, Repr, Inhabited

/-- The character that stands for bytes that are not text. -/
def replacement : Char := '\ufffd'

/-- The sequence that a leading byte begins; none for a byte that begins no sequence of two or more
bytes. -/
def begin? (b : UInt8) : Option Unfinished :=
  if b < 0xc2 then none
  else if b < 0xe0 then some ⟨1, 0x80, 0xbf, b.toNat - 0xc0⟩
  else if b = 0xe0 then some ⟨2, 0xa0, 0xbf, 0⟩
  else if b = 0xed then some ⟨2, 0x80, 0x9f, 0xd⟩
  else if b < 0xf0 then some ⟨2, 0x80, 0xbf, b.toNat - 0xe0⟩
  else if b = 0xf0 then some ⟨3, 0x90, 0xbf, 0⟩
  else if b < 0xf4 then some ⟨3, 0x80, 0xbf, b.toNat - 0xf0⟩
  else if b = 0xf4 then some ⟨3, 0x80, 0x8f, 4⟩
  else none

/-- The characters that are known once a byte has been read outside a sequence. -/
def single (b : UInt8) : List Char :=
  if b < 0x80 then [Char.ofNat b.toNat]
  else if (begin? b).isSome then []
  else [replacement]

/-- The number that a sequence spells once `b` has been added to it. -/
def Unfinished.extend (s : Unfinished) (b : UInt8) : Nat := s.number * 64 + (b.toNat - 0x80)

/-- Reads bytes as text, in the middle of a sequence or outside any. A byte that cannot continue the
sequence under way ends it as a replacement character and is then read afresh. -/
def decodeFrom : Option Unfinished → List UInt8 → List Char
  | none, [] => []
  | some _, [] => [replacement]
  | none, b :: rest => single b ++ decodeFrom (begin? b) rest
  | some s, b :: rest =>
    if s.low ≤ b ∧ b ≤ s.high then
      if s.needed ≤ 1 then Char.ofNat (s.extend b) :: decodeFrom none rest
      else decodeFrom (some ⟨s.needed - 1, 0x80, 0xbf, s.extend b⟩) rest
    else replacement :: (single b ++ decodeFrom (begin? b) rest)

/-- Reads bytes as text. -/
def decode (bytes : List UInt8) : String := String.ofList (decodeFrom none bytes)

/-- The bytes of a text. -/
def encode (text : String) : List UInt8 := text.toList.flatMap String.utf8EncodeChar

example : decode [0xf0, 0x9f, 0x98] = "\ufffd" := by decide

example : decode [0xed, 0xa0, 0x80] = "\ufffd\ufffd\ufffd" := by decide

example : decode (encode "é日😀") = "é日😀" := by decide

end WasmContract.Text.Utf8
