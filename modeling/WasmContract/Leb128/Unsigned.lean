import WasmContract.Reader.Basic

/-!
# Unsigned LEB128

Integers in groups of seven bits, lowest group first, one group to a byte; the top bit of a byte
says that another group follows. `unsigned` reads 32-bit integers and accepts padded encodings as
long as they have at most five bytes. `encode` writes the shortest encoding, and `append` puts an
integer behind the bytes of a buffer.

The values are machine words, and groups are put in place by shifts and bitwise or.
-/

namespace WasmContract.Leb128

/-- The seven bits of a group. -/
def group (b : UInt8) : UInt8 := b &&& 0x7f

/-- Another group follows. -/
def Continues (b : UInt8) : Prop := b &&& 0x80 ≠ 0

instance (b : UInt8) : Decidable (Continues b) := inferInstanceAs (Decidable (_ ≠ _))

/-- A group is a digit to base 128. -/
theorem toNat_group (b : UInt8) : (group b).toNat = b.toNat % 128 := by
  rw [group, UInt8.toNat_and]
  exact Nat.and_two_pow_sub_one_eq_mod b.toNat 7

theorem group_lt (b : UInt8) : (group b).toNat < 128 := by
  rw [toNat_group]
  exact Nat.mod_lt _ (by decide)

/-- A byte announces another one by its top bit. -/
theorem continues_iff {b : UInt8} : Continues b ↔ 128 ≤ b.toNat := by
  have h : ∀ n : Fin 256, UInt8.ofFin n &&& 0x80 ≠ 0 ↔ 128 ≤ n.val := by decide +kernel
  exact h b.toFin

/-- Reads the groups from number `i` on, above the groups already in `value`. The fifth byte may
carry only the four bits left over by the first four. -/
def unsignedFrom (i : Nat) (value : UInt32) : Reader (UInt32 × Nat)
  | [] => throw .unexpectedEnd
  | b :: rest =>
    if i = 4 ∧ 0x0f < b then throw .overflow
    else
      let value := value ||| (group b).toUInt32 <<< (7 * i).toUInt32
      if Continues b then unsignedFrom (i + 1) value rest
      else pure ((value, i + 1), rest)

/-- Reads an unsigned integer of 32 bits, and gives it with the number of its bytes. -/
def unsigned : Reader (UInt32 × Nat) := unsignedFrom 0 0

/-- Reads an unsigned integer of 32 bits. -/
def u32 : Reader UInt32 := Prod.fst <$> unsigned

/-- Reads an unsigned integer of seven bits, which takes exactly one byte. -/
def u7 : Reader UInt8 := do
  let (value, length) ← unsigned
  if length ≠ 1 then throw (.malformedEncoding .varuint7 length)
  return value.toUInt8

/-- Reads a truth value, written as the integer 0 or 1 in one byte. -/
def u1 : Reader Bool := do
  match ← u7 with
  | 0 => return false
  | 1 => return true
  | _ => throw .overflow

/-- The groups of an integer, lowest first, of which at most `more` are followed by another. -/
def encodeGroups : (more : Nat) → UInt32 → List UInt8
  | 0, value => [group value.toUInt8]
  | more + 1, value =>
    if value >>> 7 = 0 then [group value.toUInt8]
    else (group value.toUInt8 ||| 0x80) :: encodeGroups more (value >>> 7)

/-- The shortest encoding of an integer. Five groups hold 35 bits, so the bound of four followed
groups never cuts an integer short. -/
def encode (value : UInt32) : List UInt8 := encodeGroups 4 value

/-- Taking away the lowest group is dividing by 128. -/
theorem toNat_shiftRight_seven (value : UInt32) : (value >>> 7).toNat = value.toNat / 128 := by
  rw [UInt32.toNat_shiftRight]
  exact Nat.shiftRight_eq_div_pow value.toNat 7

theorem shiftRight_seven_eq_zero_iff {value : UInt32} : value >>> 7 = 0 ↔ value.toNat < 128 := by
  rw [← UInt32.toNat_inj, toNat_shiftRight_seven]
  change value.toNat / 128 = 0 ↔ _
  omega

/-- Puts the groups of an integer behind the bytes of a buffer, lowest first, until nothing is left
of the integer. -/
def appendGroups (buffer : List UInt8) (value : UInt32) : List UInt8 :=
  if value >>> 7 = 0 then buffer ++ [group value.toUInt8]
  else appendGroups (buffer ++ [group value.toUInt8 ||| 0x80]) (value >>> 7)
termination_by value.toNat
decreasing_by
  rename_i hmore
  rw [shiftRight_seven_eq_zero_iff] at hmore
  rw [toNat_shiftRight_seven]
  omega

/-- Appends an integer to a buffer, and gives the number of bytes by which the buffer has grown. -/
def append (buffer : List UInt8) (value : UInt32) : List UInt8 × Nat :=
  let extended := appendGroups buffer value
  (extended, extended.length - buffer.length)

example : encode 300 = [0xac, 0x02] := by decide

example : encode 0xffffffff = [0xff, 0xff, 0xff, 0xff, 0x0f] := by decide

end WasmContract.Leb128
