import WasmContract.Leb128.Unsigned

/-!
# Signed LEB128

Integers in two's complement, in groups of seven bits as in the unsigned encoding; bit 6 of the last
group is the sign, and all higher bits repeat it. `signed` reads 64-bit integers in at most ten
bytes, of which the last carries bit 63 alone. The narrower readers add limits of their own.
-/

namespace WasmContract.Leb128

/-- Bit 6 of a group is set: an integer that ends with it is negative. -/
def Negative (b : UInt8) : Prop := b &&& 0x40 ≠ 0

instance (b : UInt8) : Decidable (Negative b) := inferInstanceAs (Decidable (_ ≠ _))

/-- The sign of an integer is the second bit from the top of its last byte. -/
theorem negative_iff {b : UInt8} : Negative b ↔ 64 ≤ b.toNat % 128 := by
  have h : ∀ n : Fin 256, UInt8.ofFin n &&& 0x40 ≠ 0 ↔ 64 ≤ n.val % 128 := by decide +kernel
  exact h b.toFin

/-- Sets all bits from number `width` on; nothing when the word has no such bits. -/
def fillFrom (width : Nat) (value : UInt64) : UInt64 :=
  if width < 64 then value ||| (~~~0) <<< width.toUInt64 else value

/-- Reads the groups from number `i` on, above the groups already in `value`. The tenth byte must
repeat bit 63 in all its bits. -/
def signedFrom (i : Nat) (value : UInt64) : Reader (Int64 × Nat)
  | [] => throw .unexpectedEnd
  | b :: rest =>
    if i = 9 ∧ b ≠ 0x00 ∧ b ≠ 0x7f then throw .overflow
    else
      let value := value ||| (group b).toUInt64 <<< (7 * i).toUInt64
      if Continues b then signedFrom (i + 1) value rest
      else
        let value := if Negative b then fillFrom (7 * i + 7) value else value
        pure ((value.toInt64, i + 1), rest)

/-- Reads a signed integer of 64 bits, and gives it with the number of its bytes. -/
def signed : Reader (Int64 × Nat) := signedFrom 0 0

/-- Reads a signed integer of 64 bits. -/
def i64 : Reader Int64 := Prod.fst <$> signed

/-- Reads a signed integer of seven bits, which takes exactly one byte. -/
def i7 : Reader Int8 := do
  let (value, length) ← signed
  if length ≠ 1 then throw (.malformedEncoding .varint7 length)
  return value.toInt8

/-- Reads a signed integer of 32 bits, which takes at most five bytes. -/
def i32 : Reader Int32 := do
  let (value, length) ← signed
  if 5 < length then throw (.malformedEncoding .varint32 length)
  if value < Int32.minValue.toInt64 ∨ Int32.maxValue.toInt64 < value then throw .overflow
  return value.toInt32

example : (signed.run [0x80, 0x7f, 0x05]).toOption = some ((-128, 2), [0x05]) := by decide

example : (i32.run [0x80, 0x80, 0x80, 0x80, 0x08]).toOption = none := by decide

end WasmContract.Leb128
