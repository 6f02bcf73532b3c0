import WasmContract.Proofs.Condensed

/-!
# The shortest encoding

Of all encodings that are read as an integer, `encode` writes the shortest, and there is only one of
its length (`encode_eq_iff_length`). It can be told from the bytes alone: an encoding is the
shortest if it is a single byte or does not end with an empty group (`encode_eq_iff_getElem`).
`shortest_encoding` puts this together with the way back through the reader and with `append`, which
writes the groups behind the bytes of a buffer.
-/

namespace WasmContract.Leb128

variable {buffer bytes : List UInt8} {value : UInt32}

/-! ### Appending to a buffer -/

/-- The loop ends with the groups that `encodeGroups` allows for. -/
theorem appendGroups_eq {more : Nat} (h : value.toNat < 128 ^ (more + 1)) :
    appendGroups buffer value = buffer ++ encodeGroups more value := by
  induction more generalizing buffer value with
  | zero =>
    rw [appendGroups, if_pos (shiftRight_seven_eq_zero_iff.mpr (by omega)), encodeGroups]
  | succ more ih =>
    rw [appendGroups, encodeGroups]
    split
    · rfl
    · rw [ih (shiftRight_seven_lt_iff.mpr h), List.append_assoc, List.singleton_append]

theorem append_eq (buffer : List UInt8) (value : UInt32) :
    append buffer value = (buffer ++ encode value, (encode value).length) := by
  have hvalue : value.toNat < 128 ^ (4 + 1) := Nat.lt_trans value.toNat_lt (by decide)
  rw [append, appendGroups_eq hvalue, encode, List.length_append, Nat.add_sub_cancel_left]

/-! ### Other encodings of an integer -/

theorem natValue_append (front back : List UInt8) :
    natValue (front ++ back) = natValue front + 128 ^ front.length * natValue back := by
  induction front with
  | nil => simp [natValue]
  | cons b later ih =>
    rw [List.cons_append, natValue, natValue, ih, List.length_cons, Nat.pow_succ]
    ring

/-- A run of groups ends with a byte after which none follows. -/
theorem Terminated.exists_eq_append_singleton (h : Terminated bytes) :
    ∃ front b, bytes = front ++ [b] ∧ ¬Continues b := by
  induction h with
  | @last b hlast => exact ⟨[], b, rfl, hlast⟩
  | @next c later _ _ ih =>
    obtain ⟨front, b, rfl, hlast⟩ := ih
    exact ⟨c :: front, b, rfl, hlast⟩

/-- The last group is empty if the number has fewer digits than there are groups. -/
theorem natValue_append_singleton_lt_iff (front : List UInt8) {b : UInt8} (h : ¬Continues b) :
    natValue (front ++ [b]) < 128 ^ front.length ↔ b = 0 := by
  have hfront := natValue_lt front
  have hb : b.toNat < 128 := Nat.lt_of_not_le (mt continues_iff.mpr h)
  rw [natValue_append, natValue, natValue, toNat_group, Nat.mod_eq_of_lt hb, Nat.mul_zero,
    Nat.add_zero, ← UInt8.toNat_inj]
  constructor
  · intro hlt
    by_contra hne
    have hle := Nat.le_mul_of_pos_right (128 ^ front.length) (Nat.pos_of_ne_zero hne)
    omega
  · intro hzero
    rw [hzero]
    exact hfront

section Run

variable (hrun : Terminated bytes) (hvalue : natValue bytes = value.toNat)
include hrun hvalue

/-- An encoding of the same length is the same. -/
theorem encode_eq_iff_length : encode value = bytes ↔ bytes.length ≤ (encode value).length := by
  have hcondenses := condenses_encode hrun hvalue
  exact ⟨fun heq => by rw [heq],
    fun hle => hcondenses.eq_of_length_eq (Nat.le_antisymm hcondenses.length_le hle)⟩

/-- **The shortest encoding** is a single byte, or does not end with an empty group. -/
theorem encode_eq_iff_getElem :
    encode value = bytes ↔ bytes.length = 1 ∨ bytes[bytes.length - 1]? ≠ some 0 := by
  rw [encode_eq_iff_length hrun hvalue]
  obtain ⟨front, b, rfl, hlast⟩ := hrun.exists_eq_append_singleton
  have hpos := (terminated_encode value).length_pos
  have hgroup := natValue_append_singleton_lt_iff front hlast
  rw [hvalue] at hgroup
  simp only [List.length_append, List.length_singleton, Nat.add_sub_cancel,
    List.getElem?_concat_length, ne_eq, Option.some.injEq]
  rw [← hgroup]
  cases hlength : front.length with
  | zero => exact iff_of_true hpos (.inl rfl)
  | succ n =>
    -- the encoding has all groups unless the number fits into fewer
    rw [← length_encode_le_iff]
    omega

end Run

/-- **Integers have one shortest encoding.** Appending an integer leaves the buffer in front and
puts the encoding behind it, of one to five bytes, from which the integer is read back, whatever
follows. No encoding from which it is read has fewer bytes, and no other has as few; an encoding
that is read is the shortest if it is a single byte or its last byte is not zero. -/
theorem shortest_encoding :
    (∀ buffer value, append buffer value = (buffer ++ encode value, (encode value).length)) ∧
    (∀ value, 1 ≤ (encode value).length ∧ (encode value).length ≤ 5 ∧
      ∀ rest, unsigned (encode value ++ rest) = .ok ((value, (encode value).length), rest)) ∧
    ∀ input value n rest, unsigned input = .ok ((value, n), rest) →
      (encode value).length ≤ n ∧
      (n = (encode value).length → input.take n = encode value) ∧
      (encode value = input.take n ↔ n = 1 ∨ input[n - 1]? ≠ some 0) := by
  refine ⟨append_eq, fun value => ⟨?_, length_encode_le value, reads_encode value⟩, ?_⟩
  · exact (terminated_encode value).length_pos
  · intro input value n rest h
    obtain ⟨bytes, rfl, hrun, rfl, -, hv⟩ := unsigned_eq_ok_iff.mp h
    have hlast : (bytes ++ rest)[bytes.length - 1]? = bytes[bytes.length - 1]? :=
      List.getElem?_append_left (Nat.sub_lt hrun.length_pos Nat.one_pos)
    rw [List.take_left, hlast]
    exact ⟨(condenses_encode hrun hv.symm).length_le,
      fun hlength => ((encode_eq_iff_length hrun hv.symm).mpr (Nat.le_of_eq hlength)).symm,
      encode_eq_iff_getElem hrun hv.symm⟩

/-- 300 in four groups, of which the last two are empty, and in the two that it needs. -/
theorem shortest_encoding_padded :
    let padded : List UInt8 := [0xac, 0x82, 0x80, 0x00, 0x07]
    let short : List UInt8 := [0xac, 0x02, 0x07]
    unsigned padded = .ok ((300, 4), [0x07]) ∧ (encode 300).length ≤ 4 ∧
      encode 300 ≠ padded.take 4 ∧ unsigned short = .ok ((300, 2), [0x07]) ∧
      2 = (encode 300).length ∧ short.take 2 = encode 300 := by
  intro padded short
  have hpadded : unsigned padded = .ok ((300, 4), [0x07]) := by decide +kernel
  have hshort : unsigned short = .ok ((300, 2), [0x07]) := by decide +kernel
  have hlength : 2 = (encode 300).length := by decide
  obtain ⟨hle, -, hiff⟩ := shortest_encoding.2.2 padded 300 4 [0x07] hpadded
  obtain ⟨-, hunique, -⟩ := shortest_encoding.2.2 short 300 2 [0x07] hshort
  refine ⟨hpadded, hle, fun heq => ?_, hshort, hlength, hunique hlength⟩
  exact absurd (hiff.mp heq) (by decide)

end WasmContract.Leb128
