import WasmContract.Proofs.Section.Entries

/-!
# Checked readers

Shifts, subtractions, slices and conversions between machine numbers are defined only within a
range. A checked computation looks before each of them whether its operands are in range, and has no
result at all if they are not. So a checked computation that always has the result of an unchecked
one shows two things: the operations are in range, whatever the input, and they do the same.

This module has the checked operations and the readers of integers and of counted and sized items
that are made with them, each with the equation that it is the unchecked reader
(`Reader.inRange`).
-/

namespace WasmContract

/-! ### Checked operations -/

/-- A computation that may end in an error, and that has no result if an operation goes out of
range. -/
abbrev Checked (ε α : Type) := ExceptT ε Option α

namespace Checked

variable {α β ε : Type}

/-- Shifts a word of 32 bits, by less than its width. -/
def shiftLeft32? (value : UInt32) (amount : Nat) : Option UInt32 :=
  if amount < 32 then some (value <<< amount.toUInt32) else none

/-- Shifts a word of 64 bits, by less than its width. -/
def shiftLeft64? (value : UInt64) (amount : Nat) : Option UInt64 :=
  if amount < 64 then some (value <<< amount.toUInt64) else none

/-- Subtracts a number that is not greater. -/
def sub? (m n : Nat) : Option Nat := if n ≤ m then some (m - n) else none

/-- The slice of the first `n` bytes, of at least so many. -/
def take? (n : Nat) (bytes : List UInt8) : Option (List UInt8) :=
  if n ≤ bytes.length then some (bytes.take n) else none

/-- The slice behind the first `n` bytes, of at least so many. -/
def drop? (n : Nat) (bytes : List UInt8) : Option (List UInt8) :=
  if n ≤ bytes.length then some (bytes.drop n) else none

/-- Converts a number to a narrower type, from which it can be had back. -/
def narrow? [DecidableEq α] (narrow : α → β) (widen : β → α) (a : α) : Option β :=
  if widen (narrow a) = a then some (narrow a) else none

/-- Converts a number to a byte. -/
def toUInt8? (n : Nat) : Option UInt8 := narrow? Nat.toUInt8 UInt8.toNat n

/-- Converts a number to a word of 32 bits. -/
def toUInt32? (n : Nat) : Option UInt32 := narrow? Nat.toUInt32 UInt32.toNat n

/-- A number below 256 can be had back from a byte. -/
theorem toUInt8?_of_lt {n : Nat} (h : n < 2 ^ 8) : toUInt8? n = some n.toUInt8 := by
  have hback : n.toUInt8.toNat = n := by
    rw [Nat.toUInt8_eq, UInt8.toNat_ofNat', Nat.mod_eq_of_lt h]
  rw [toUInt8?, narrow?, if_pos hback]

/-- A number below `2 ^ 32` can be had back from a word. -/
theorem toUInt32?_of_lt {n : Nat} (h : n < 2 ^ 32) : toUInt32? n = some n.toUInt32 := by
  rw [toUInt32?, narrow?, if_pos (Leb128.toNat_toUInt32 h)]

theorem sub?_add (m n : Nat) : sub? (m + n) n = some m := by
  rw [sub?, if_pos (Nat.le_add_left n m), Nat.add_sub_cancel]

theorem take?_append (front rest : List UInt8) :
    take? front.length (front ++ rest) = some front := by
  rw [take?, if_pos (by simp), List.take_left]

theorem drop?_append (front rest : List UInt8) :
    drop? front.length (front ++ rest) = some rest := by
  rw [drop?, if_pos (by simp), List.drop_left]

/-- A result that is reached with all operations in range. -/
def ofExcept (x : Except ε α) : Checked ε α := ExceptT.mk (some x)

@[simp] theorem ok_bind (a : α) (f : α → Checked ε β) : ofExcept (.ok a) >>= f = f a := rfl

@[simp] protected theorem some_bind (a : α) (f : α → Checked ε β) :
    (liftM (some a) : Checked ε α) >>= f = f a := rfl

end Checked

/-- A reader with checked operations. -/
abbrev CheckedReader (α : Type) := StateT (List UInt8) (Checked DecodeError) α

namespace Reader

variable {α β : Type} {r item : Reader α} {f : α → Reader β}

/-- The reader as a checked one, whose operations are all in range. -/
def inRange (r : Reader α) : CheckedReader α := fun input => .ofExcept (r input)

@[simp] theorem inRange_pure (a : α) : (pure a : Reader α).inRange = pure a := rfl

@[simp] theorem inRange_throw (e : DecodeError) : (throw e : Reader α).inRange = throw e := rfl

/-- A checked reader goes on in range from every item that can be read. -/
theorem inRange_bind_of_ok {g : α → CheckedReader β} (h : ∀ input a rest,
    r input = .ok (a, rest) → g a rest = (f a).inRange rest) :
    r.inRange >>= g = (r >>= f).inRange := by
  funext input
  change (Checked.ofExcept (r input) >>= fun p => g p.1 p.2) = .ofExcept ((r >>= f) input)
  rw [bind_apply]
  cases hread : r input with
  | error e => rfl
  | ok p => exact h input p.1 p.2 hread

/-- Readers one after the other are in range if each of them is. -/
@[simp] theorem inRange_bind (r : Reader α) (f : α → Reader β) :
    (r >>= f).inRange = r.inRange >>= fun a => (f a).inRange :=
  (inRange_bind_of_ok fun _ _ _ _ => rfl).symm

@[simp] theorem inRange_map (g : α → β) (r : Reader α) : (g <$> r).inRange = g <$> r.inRange := by
  rw [map_eq_bind, inRange_bind]
  rfl

@[simp] theorem inRange_ite (p : Prop) [Decidable p] (r r' : Reader α) :
    (if p then r else r').inRange = if p then r.inRange else r'.inRange :=
  apply_ite inRange p r r'

@[simp] protected theorem some_bind (a : α) (f : α → CheckedReader β) :
    (liftM (some a) : CheckedReader α) >>= f = f a := rfl

end Reader

/-! ### Integers -/

namespace Leb128

open Checked Reader

/-- Reads the groups of an integer from number `i` on. What is left of the input is the slice behind
the groups. -/
def checkedUnsignedFrom (input : List UInt8) :
    (i : Nat) → (value : UInt32) → List UInt8 → Checked DecodeError ((UInt32 × Nat) × List UInt8)
  | _, _, [] => throw .unexpectedEnd
  | i, value, b :: later => do
    if i = 4 ∧ 0x0f < b then throw .overflow
    let bits ← shiftLeft32? (group b).toUInt32 (7 * i)
    let value := value ||| bits
    if Continues b then checkedUnsignedFrom input (i + 1) value later
    else
      let rest ← drop? (i + 1) input
      return ((value, i + 1), rest)

/-- Reads an unsigned integer of 32 bits, with the number of its bytes. -/
def checkedUnsigned : CheckedReader (UInt32 × Nat) := fun input =>
  checkedUnsignedFrom input 0 0 input

/-- A fifth group ends an integer, so no group is shifted by more than 28 bits. -/
theorem checkedUnsignedFrom_eq (front later : List UInt8) (value : UInt32)
    (h : front.length ≤ 4) :
    checkedUnsignedFrom (front ++ later) front.length value later =
      .ofExcept (unsignedFrom front.length value later) := by
  induction later generalizing front value with
  | nil => rfl
  | cons b later ih =>
    rw [unsignedFrom_cons, checkedUnsignedFrom]
    have hnext : front ++ b :: later = (front ++ [b]) ++ later := by rw [List.append_cons]
    have hlength : (front ++ [b]).length = front.length + 1 := List.length_append
    by_cases hover : front.length = 4 ∧ 0x0f < b
    · rw [if_pos hover, if_pos hover]
      rfl
    · have hshift : shiftLeft32? (group b).toUInt32 (7 * front.length) =
          some ((group b).toUInt32 <<< (7 * front.length).toUInt32) := if_pos (by omega)
      rw [if_neg hover, if_neg hover, hshift, Checked.some_bind, hnext]
      by_cases hmore : Continues b
      · have hfour := lt_four_of_continues h hover hmore
        have hlater := ih (front ++ [b]) (putUnsigned front.length value b) (hlength ▸ hfour)
        rw [hlength] at hlater
        rw [if_pos hmore, if_pos hmore]
        exact hlater
      · rw [if_neg hmore, if_neg hmore, ← hlength, drop?_append]
        rfl

theorem checkedUnsigned_eq : checkedUnsigned = unsigned.inRange :=
  funext fun input => checkedUnsignedFrom_eq [] input 0 (Nat.zero_le 4)

/-- Reads an unsigned integer of 32 bits. -/
def checkedU32 : CheckedReader UInt32 := Prod.fst <$> checkedUnsigned

@[simp] theorem checkedU32_eq : checkedU32 = u32.inRange := by
  rw [checkedU32, checkedUnsigned_eq, u32, inRange_map]

/-- Reads an unsigned integer of seven bits, which is converted to a byte. -/
def checkedU7 : CheckedReader UInt8 := do
  let (value, length) ← checkedUnsigned
  if length ≠ 1 then throw (.malformedEncoding .varuint7 length)
  narrow? UInt32.toUInt8 UInt8.toUInt32 value

/-- An integer of one byte has no more than seven bits, so its conversion keeps it. -/
@[simp] theorem checkedU7_eq : checkedU7 = u7.inRange := by
  rw [checkedU7, checkedUnsigned_eq]
  refine inRange_bind_of_ok fun input ⟨value, length⟩ rest h => ?_
  obtain ⟨bytes, -, -, rfl, -, hvalue⟩ := unsigned_eq_ok_iff.mp h
  dsimp only
  by_cases hlength : bytes.length ≠ 1
  · rw [if_pos hlength, if_pos hlength]
    rfl
  · -- one group spells a number below 128
    have hsmall := natValue_lt bytes
    rw [not_not.mp hlength, ← hvalue] at hsmall
    have hback : value.toUInt8.toUInt32 = value := by
      rw [← UInt32.toNat_inj, UInt8.toNat_toUInt32, UInt32.toNat_toUInt8]
      omega
    rw [if_neg hlength, if_neg hlength, narrow?, if_pos hback]
    rfl

/-- Reads a truth value. -/
def checkedU1 : CheckedReader Bool := do
  match ← checkedU7 with
  | 0 => return false
  | 1 => return true
  | _ => throw .overflow

@[simp] theorem checkedU1_eq : checkedU1 = u1.inRange := by
  rw [checkedU1, checkedU7_eq, u1, inRange_bind]
  refine bind_congr fun value => ?_
  split
  · rfl
  · rfl
  · simp

/-- Sets all bits from number `width` on; nothing when the word has no such bits. -/
def fillFrom? (width : Nat) (value : UInt64) : Option UInt64 :=
  if width < 64 then (shiftLeft64? (~~~0) width).map (value ||| ·) else some value

/-- Nothing is shifted when the word has no bits above the width. -/
theorem fillFrom?_eq (width : Nat) (value : UInt64) :
    fillFrom? width value = some (fillFrom width value) := by
  rw [fillFrom?, fillFrom]
  split
  · rw [shiftLeft64?, if_pos ‹_›, Option.map_some]
  · rfl

/-- The last group of an integer, with its sign in the bits above it. -/
def finish? (i : Nat) (value : UInt64) (b : UInt8) : Option UInt64 :=
  if Negative b then fillFrom? (7 * i + 7) value else some value

/-- Reads the groups of a signed integer from number `i` on. -/
def checkedSignedFrom (input : List UInt8) :
    (i : Nat) → (value : UInt64) → List UInt8 → Checked DecodeError ((Int64 × Nat) × List UInt8)
  | _, _, [] => throw .unexpectedEnd
  | i, value, b :: later => do
    if i = 9 ∧ b ≠ 0x00 ∧ b ≠ 0x7f then throw .overflow
    let bits ← shiftLeft64? (group b).toUInt64 (7 * i)
    let value := value ||| bits
    if Continues b then checkedSignedFrom input (i + 1) value later
    else
      let value ← finish? i value b
      let rest ← drop? (i + 1) input
      return ((value.toInt64, i + 1), rest)

/-- Reads a signed integer of 64 bits, with the number of its bytes. -/
def checkedSigned : CheckedReader (Int64 × Nat) := fun input => checkedSignedFrom input 0 0 input

theorem finish?_putGroup (i : Nat) (value : UInt64) (b : UInt8) :
    finish? i (putGroup i value b) b = some (finish i value b) := by
  rw [finish?, fillFrom?_eq, finish]
  split <;> rfl

/-- A tenth group ends an integer, so no group is shifted by more than 63 bits. -/
theorem checkedSignedFrom_eq (front later : List UInt8) (value : UInt64) (h : front.length ≤ 9) :
    checkedSignedFrom (front ++ later) front.length value later =
      .ofExcept (signedFrom front.length value later) := by
  induction later generalizing front value with
  | nil => rfl
  | cons b later ih =>
    rw [signedFrom_cons, checkedSignedFrom]
    have hnext : front ++ b :: later = (front ++ [b]) ++ later := by rw [List.append_cons]
    have hlength : (front ++ [b]).length = front.length + 1 := List.length_append
    by_cases hover : front.length = 9 ∧ b ≠ 0x00 ∧ b ≠ 0x7f
    · rw [if_pos hover, if_pos hover]
      rfl
    · have hshift : shiftLeft64? (group b).toUInt64 (7 * front.length) =
          some ((group b).toUInt64 <<< (7 * front.length).toUInt64) := if_pos (by omega)
      rw [if_neg hover, if_neg hover, hshift, Checked.some_bind, hnext]
      by_cases hmore : Continues b
      · have hnine := lt_nine_of_continues h hover hmore
        have hlater := ih (front ++ [b]) (putGroup front.length value b) (hlength ▸ hnine)
        rw [hlength] at hlater
        rw [if_pos hmore, if_pos hmore]
        exact hlater
      · have hfinish := finish?_putGroup front.length value b
        rw [putGroup] at hfinish
        rw [if_neg hmore, if_neg hmore, hfinish, Checked.some_bind, ← hlength, drop?_append]
        rfl

theorem checkedSigned_eq : checkedSigned = signed.inRange :=
  funext fun input => checkedSignedFrom_eq [] input 0 (Nat.zero_le 9)

/-- Reads a signed integer of 64 bits. -/
def checkedI64 : CheckedReader Int64 := Prod.fst <$> checkedSigned

@[simp] theorem checkedI64_eq : checkedI64 = i64.inRange := by
  rw [checkedI64, checkedSigned_eq, i64, inRange_map]

/-- Reads a signed integer of seven bits, which is converted to a signed byte. -/
def checkedI7 : CheckedReader Int8 := do
  let (value, length) ← checkedSigned
  if length ≠ 1 then throw (.malformedEncoding .varint7 length)
  narrow? Int64.toInt8 Int8.toInt64 value

/-- An integer of one byte lies between -64 and 63, so its conversion keeps it. -/
@[simp] theorem checkedI7_eq : checkedI7 = i7.inRange := by
  rw [checkedI7, checkedSigned_eq]
  refine inRange_bind_of_ok fun input ⟨value, length⟩ rest h => ?_
  obtain ⟨bytes, -, -, rfl, -, hvalue⟩ := signed_eq_ok_iff.mp h
  dsimp only
  by_cases hlength : bytes.length ≠ 1
  · rw [if_pos hlength, if_pos hlength]
    rfl
  · -- one group counts from -64 to 63
    obtain ⟨b, rfl⟩ := List.length_eq_one_iff.mp (not_not.mp hlength)
    have hgroup := group_lt b
    rw [intValue_singleton] at hvalue
    have hrange : -2 ^ 7 ≤ value.toInt ∧ value.toInt < 2 ^ 7 := by
      split at hvalue <;> omega
    have hback : value.toInt8.toInt64 = value := by
      rw [← Int64.toInt_inj, Int8.toInt_toInt64, Int64.toInt_toInt8]
      exact Int.bmod_eq_of_le hrange.1 hrange.2
    rw [if_neg hlength, if_neg hlength, narrow?, if_pos hback]
    rfl

/-- Reads a signed integer of 32 bits. Its conversion is made after a comparison, and cannot be out
of range. -/
def checkedI32 : CheckedReader Int32 := do
  let (value, length) ← checkedSigned
  if 5 < length then throw (.malformedEncoding .varint32 length)
  if value < Int32.minValue.toInt64 ∨ Int32.maxValue.toInt64 < value then throw .overflow
  return value.toInt32

@[simp] theorem checkedI32_eq : checkedI32 = i32.inRange := by
  rw [checkedI32, checkedSigned_eq, i32, inRange_bind]
  simp only [inRange_ite, inRange_bind, inRange_throw, inRange_pure]

end Leb128

/-! ### Counted and sized items -/

namespace Reader

open Checked Leb128

variable {α β : Type} {r item : Reader α}

/-- Reads `n` items one after the other. -/
def checkedMany (item : CheckedReader α) : Nat → CheckedReader (List α)
  | 0 => pure []
  | n + 1 => do
    let first ← item
    let others ← checkedMany item n
    return first :: others

@[simp] theorem checkedMany_inRange (item : Reader α) (n : Nat) :
    checkedMany item.inRange n = (many item n).inRange := by
  induction n with
  | zero => rfl
  | succ n ih => simp only [checkedMany, many, ih, inRange_bind, inRange_pure]

/-- Reads the number of entries, then the entries. -/
def checkedVec (item : CheckedReader α) : CheckedReader (List α) := do
  let count ← checkedU32
  checkedMany item count.toNat

@[simp] theorem checkedVec_inRange (item : Reader α) :
    checkedVec item.inRange = (vec item).inRange := by
  simp only [checkedVec, vec, checkedU32_eq, checkedMany_inRange, inRange_bind]

/-- Reads a size, then that many bytes. -/
def checkedSized : CheckedReader (List UInt8) := do
  let size ← checkedU32
  (bytes size.toNat).inRange

@[simp] theorem checkedSized_eq : checkedSized = sized.inRange := by
  simp only [checkedSized, sized, checkedU32_eq, inRange_bind]

/-- Reads a size, then that many bytes as text. -/
def checkedName : CheckedReader String := Text.Utf8.decode <$> checkedSized

@[simp] theorem checkedName_eq : checkedName = name.inRange := by
  rw [checkedName, checkedSized_eq, name, inRange_map]

/-- Reads from a slice of its own, and gives what was read with what is left of the slice. -/
def checkedWithin (slice : List UInt8) (item : CheckedReader α) : CheckedReader (α × List UInt8) :=
  fun input => do
    let inner ← item slice
    pure (inner, input)

@[simp] theorem checkedWithin_inRange (slice : List UInt8) (item : Reader α) :
    checkedWithin slice item.inRange = (within slice item).inRange := by
  funext input
  change (Checked.ofExcept (item slice) >>= fun inner => pure (inner, input)) =
    .ofExcept (within slice item input)
  unfold within
  cases item slice <;> rfl

/-- Reads an item and gives it together with the slice of the input that it was read from. -/
def checkedCaptured (item : CheckedReader α) : CheckedReader (α × List UInt8) := fun input => do
  let (a, rest) ← item input
  let length ← sub? input.length rest.length
  let used ← take? length input
  pure ((a, used), rest)

/-- What a reader leaves is an end of its input, so it is no longer than the input. -/
theorem checkedCaptured_inRange (hr : Lawful r) :
    checkedCaptured r.inRange = (captured r).inRange := by
  funext input
  change (Checked.ofExcept (r input) >>= fun p => _) = .ofExcept (captured r input)
  cases hread : r input with
  | error e => rw [captured_eq_error_iff.mpr hread]; rfl
  | ok p =>
    obtain ⟨used, rfl, hused⟩ := hr.ok hread
    rw [hused.captured]
    change (liftM (sub? (used ++ p.2).length p.2.length) >>= fun length =>
      liftM (take? length (used ++ p.2)) >>= fun used =>
        pure ((p.1, used), p.2) : Checked DecodeError _) = _
    rw [List.length_append, sub?_add, Checked.some_bind, take?_append, Checked.some_bind]
    rfl

end Reader

end WasmContract
