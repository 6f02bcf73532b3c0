import WasmContract.Proofs.Leb128.Runs
import WasmContract.Proofs.Reader.Lawful

/-!
# Unsigned LEB128 in streams

`lawful_unsigned` says that an unsigned integer is read from its own bytes alone, and
`unsigned_eq_ok_iff` which runs of groups are read: at most five groups that spell a number of 32
bits, padded or not; the number they spell is the exact `natValue`. The shortest encoding is such a
run, so every integer is read back from it (`reads_encode`); it takes a byte for each digit to base
128 (`length_encode_le_iff`).
-/

namespace WasmContract.Leb128

open Reader

/-! ### Lawfulness -/

/-- Each byte fails, ends the integer, or puts a group above those already read. -/
theorem lawful_unsignedFrom (i : Nat) (value : UInt32) : Lawful (unsignedFrom i value) := by
  have hnil : ∀ s : Nat × UInt32, unsignedFrom s.1 s.2 [] = .error .unexpectedEnd := fun _ => rfl
  refine Lawful.bytewise hnil ?_ (i, value)
  rintro ⟨i, value⟩ b
  simp only [unsignedFrom]
  by_cases hover : i = 4 ∧ 0x0f < b
  · exact .inl ⟨.overflow, trivial, fun rest => if_pos hover⟩
  · by_cases hmore : Continues b
    · exact .inr (.inr ⟨(i + 1, _), fun rest => (if_neg hover).trans (if_pos hmore)⟩)
    · exact .inr (.inl ⟨_, fun rest => (if_neg hover).trans (if_neg hmore)⟩)

/-- An unsigned integer is read from its own bytes alone. -/
theorem lawful_unsigned : Lawful unsigned := lawful_unsignedFrom 0 0

theorem lawful_u32 : Lawful u32 := lawful_unsigned.map Prod.fst

/-- An unsigned integer of seven bits is read from its own bytes alone; that it takes one byte is
checked behind it. -/
theorem lawful_u7 : Lawful u7 :=
  lawful_unsigned.bind fun _ => .check trivial (.pure _)

/-! ### Reading a run of groups -/

theorem toNat_toUInt32 {n : Nat} (h : n < 2 ^ 32) : n.toUInt32.toNat = n := by
  rw [Nat.toUInt32_eq, UInt32.toNat_ofNat', Nat.mod_eq_of_lt h]

/-- The word of the groups read so far, once group number `i` is put above them. -/
def putUnsigned (i : Nat) (value : UInt32) (b : UInt8) : UInt32 :=
  value ||| (group b).toUInt32 <<< (7 * i).toUInt32

/-- Putting a group above the groups already read adds it at its place. -/
theorem toNat_putUnsigned {i : Nat} {value : UInt32} {b : UInt8} (hi : i ≤ 4)
    (hvalue : value.toNat < 128 ^ i) (hfits : value.toNat + 128 ^ i * (group b).toNat < 2 ^ 32) :
    (putUnsigned i value b).toNat = value.toNat + 128 ^ i * (group b).toNat := by
  have hpow : 128 ^ i = 2 ^ (7 * i) := by rw [Nat.pow_mul]
  have hshift : (7 * i).toUInt32.toNat % 32 = 7 * i := by
    rw [Nat.toUInt32_eq, UInt32.toNat_ofNat']
    omega
  rw [hpow] at hvalue hfits ⊢
  -- the shift loses no bits, and the bits below it are free
  have hgroup : (group b).toNat <<< (7 * i) < 2 ^ 32 := by
    rw [Nat.shiftLeft_eq, Nat.mul_comm]
    omega
  rw [putUnsigned, UInt32.toNat_or, UInt32.toNat_shiftLeft, hshift, UInt8.toNat_toUInt32,
    Nat.mod_eq_of_lt hgroup, Nat.or_comm, ← Nat.shiftLeft_add_eq_or_of_lt hvalue,
    Nat.shiftLeft_eq, Nat.mul_comm, Nat.add_comm]

/-- A group that is not refused leaves the number in range. -/
theorem toNat_putUnsigned_of_not_over {i : Nat} {value : UInt32} {b : UInt8} (hi : i ≤ 4)
    (hvalue : value.toNat < 128 ^ i) (hover : ¬(i = 4 ∧ 0x0f < b)) :
    (putUnsigned i value b).toNat = value.toNat + 128 ^ i * (group b).toNat := by
  refine toNat_putUnsigned hi hvalue ?_
  rcases Nat.eq_or_lt_of_le hi with rfl | hi
  · have hb : ¬15 < b.toNat := fun hlt => hover ⟨rfl, UInt8.lt_iff_toNat_lt.mpr hlt⟩
    rw [toNat_group]
    omega
  · have hbelow := add_group_lt hvalue b
    have htop : 128 ^ (i + 1) ≤ 128 ^ 4 := Nat.pow_le_pow_right (by decide) hi
    omega

/-- One step of the loop, with the word that it goes on with or ends in. -/
theorem unsignedFrom_cons (i : Nat) (value : UInt32) (b : UInt8) (rest : List UInt8) :
    unsignedFrom i value (b :: rest) =
      if i = 4 ∧ 0x0f < b then .error .overflow
      else if Continues b then unsignedFrom (i + 1) (putUnsigned i value b) rest
      else .ok ((putUnsigned i value b, i + 1), rest) := rfl

/-- Only groups before the fifth are followed by another. -/
theorem lt_four_of_continues {i : Nat} {b : UInt8} (hi : i ≤ 4) (hover : ¬(i = 4 ∧ 0x0f < b))
    (hmore : Continues b) : i < 4 := by
  refine Nat.lt_of_le_of_ne hi fun htop => hover ⟨htop, UInt8.lt_iff_toNat_lt.mpr ?_⟩
  exact Nat.lt_of_lt_of_le (by decide) (continues_iff.mp hmore)

/-- Above the groups already read, an integer is read from each run of groups that ends in time and
keeps the integer in range; `i` is the number of groups already read. -/
theorem unsignedFrom_eq_ok_iff {input rest : List UInt8} {i n : Nat} {value v : UInt32}
    (hi : i ≤ 4) (hvalue : value.toNat < 128 ^ i) :
    unsignedFrom i value input = .ok ((v, n), rest) ↔
      ∃ bytes, input = bytes ++ rest ∧ Terminated bytes ∧ n = i + bytes.length ∧ n ≤ 5 ∧
        v.toNat = value.toNat + 128 ^ i * natValue bytes := by
  induction input generalizing i value with
  | nil => exact iff_of_false nofun not_exists_run_nil
  | cons b left ih =>
    rw [unsignedFrom_cons]
    by_cases hover : i = 4 ∧ 0x0f < b
    · -- a fifth group of more than four bits takes every run out of range
      rw [if_pos hover, exists_run_cons_iff]
      refine ⟨nofun, ?_⟩
      have hb : 15 < b.toNat := UInt8.lt_iff_toNat_lt.mp hover.2
      rintro (⟨hlast, -, -, -, hv⟩ | ⟨-, later, -, hlater, hn, hfive, -⟩)
      · have hv' := v.toNat_lt
        rw [continues_iff] at hlast
        rw [hover.1, natValue, natValue, toNat_group] at hv
        omega
      · have hpos := hlater.length_pos
        rw [List.length_cons] at hn
        omega
    · have hput := toNat_putUnsigned_of_not_over hi hvalue hover
      rw [if_neg hover]
      by_cases hmore : Continues b
      · have hfour := lt_four_of_continues hi hover hmore
        rw [if_pos hmore, ih (by omega) (hput ▸ add_group_lt hvalue b),
          exists_run_cons_iff_of_continues hmore]
        refine exists_congr fun later => and_congr_right fun _ => and_congr_right fun _ => ?_
        rw [hput, natValue, List.length_cons, Nat.add_right_comm, Nat.add_assoc i, pow_succ,
          mul_add, mul_assoc, add_assoc]
      · rw [if_neg hmore, exists_run_cons_iff_of_last hmore]
        simp only [Except.ok.injEq, Prod.mk.injEq, List.length_singleton]
        rw [← UInt32.toNat_inj, hput, natValue, natValue, Nat.mul_zero, Nat.add_zero]
        constructor
        · rintro ⟨⟨hv, rfl⟩, rfl⟩
          exact ⟨rfl, rfl, by omega, hv.symm⟩
        · rintro ⟨rfl, rfl, -, hv⟩
          exact ⟨⟨hv.symm, rfl⟩, rfl⟩

/-- **The unsigned integers that are read**: a run of at most five groups in front of the input that
spells a number of 32 bits. -/
theorem unsigned_eq_ok_iff {input rest : List UInt8} {v : UInt32} {n : Nat} :
    unsigned input = .ok ((v, n), rest) ↔
      ∃ bytes, input = bytes ++ rest ∧ Terminated bytes ∧ n = bytes.length ∧ n ≤ 5 ∧
        v.toNat = natValue bytes := by
  rw [unsigned, unsignedFrom_eq_ok_iff (by decide) (by decide)]
  simp

/-- An unsigned integer is read from every run of at most five groups that spells it. -/
theorem reads_unsigned {bytes : List UInt8} (hrun : Terminated bytes) (hlength : bytes.length ≤ 5)
    {v : UInt32} (hv : v.toNat = natValue bytes) : unsigned.Reads bytes (v, bytes.length) :=
  fun _ => unsigned_eq_ok_iff.mpr ⟨bytes, rfl, hrun, rfl, hlength, hv⟩

/-- The unsigned integers that are read, without the number of their bytes. -/
theorem u32_eq_ok_iff {input rest : List UInt8} {v : UInt32} : u32 input = .ok (v, rest) ↔
    ∃ bytes, input = bytes ++ rest ∧ Terminated bytes ∧ bytes.length ≤ 5 ∧
      v.toNat = natValue bytes := by
  rw [u32, map_eq_bind, bind_eq_ok_iff]
  constructor
  · rintro ⟨⟨v', n⟩, middle, h, hpure⟩
    cases hpure
    obtain ⟨bytes, happend, hrun, rfl, hlength, hv⟩ := unsigned_eq_ok_iff.mp h
    exact ⟨bytes, happend, hrun, hlength, hv⟩
  · rintro ⟨bytes, happend, hrun, hlength, hv⟩
    exact ⟨(v, bytes.length), rest,
      unsigned_eq_ok_iff.mpr ⟨bytes, happend, hrun, rfl, hlength, hv⟩, rfl⟩

/-! ### The shortest encoding -/

theorem toNat_group_toUInt8 (value : UInt32) : (group value.toUInt8).toNat = value.toNat % 128 := by
  rw [toNat_group, UInt32.toNat_toUInt8]
  omega

/-- The groups above the lowest take one group less. -/
theorem shiftRight_seven_lt_iff {value : UInt32} {m : Nat} :
    (value >>> 7).toNat < 128 ^ m ↔ value.toNat < 128 ^ (m + 1) := by
  rw [toNat_shiftRight_seven, Nat.div_lt_iff_lt_mul (by decide), ← Nat.pow_succ]

/-- Setting the top bit of a byte leaves its group as it is. -/
theorem group_or (b : UInt8) : group (b ||| 0x80) = group b := by
  have h : ∀ n : Fin 256, group (UInt8.ofFin n ||| 0x80) = group (UInt8.ofFin n) := by
    decide +kernel
  exact h b.toFin

theorem group_group (b : UInt8) : group (group b) = group b := by
  rw [group, group, UInt8.and_assoc, UInt8.and_self]

theorem continues_or (b : UInt8) : Continues (b ||| 0x80) := by
  have h : ∀ n : Fin 256, Continues (UInt8.ofFin n ||| 0x80) := by decide +kernel
  exact h b.toFin

theorem not_continues_group (b : UInt8) : ¬Continues (group b) := by
  rw [continues_iff]
  have := group_lt b
  omega

/-- The groups of an integer are a run: all but the last announce another one. -/
theorem terminated_encodeGroups (more : Nat) (value : UInt32) :
    Terminated (encodeGroups more value) := by
  induction more generalizing value with
  | zero => exact .last (not_continues_group _)
  | succ more ih =>
    rw [encodeGroups]
    split
    · exact .last (not_continues_group _)
    · exact .next (continues_or _) (ih _)

/-- The groups spell the integer, if there are enough of them for its digits. -/
theorem natValue_encodeGroups {more : Nat} {value : UInt32} (h : value.toNat < 128 ^ (more + 1)) :
    natValue (encodeGroups more value) = value.toNat := by
  induction more generalizing value with
  | zero =>
    simp only [encodeGroups, natValue, group_group, toNat_group_toUInt8]
    omega
  | succ more ih =>
    rw [encodeGroups]
    split
    · rename_i hlast
      have := shiftRight_seven_eq_zero_iff.mp hlast
      simp only [natValue, group_group, toNat_group_toUInt8]
      omega
    · rw [natValue, group_or, group_group, toNat_group_toUInt8,
        ih (shiftRight_seven_lt_iff.mpr h), toNat_shiftRight_seven]
      omega

/-- An integer of one group takes no more bytes than any. -/
private theorem one_le_iff {m n : Nat} (h : n < 128) : 1 ≤ m + 1 ↔ n < 128 ^ (m + 1) :=
  iff_of_true (Nat.le_add_left 1 m) (Nat.lt_of_lt_of_le h (Nat.le_pow (Nat.zero_lt_succ m)))

/-- As many groups are written as the integer has digits to base 128, if so many are allowed. -/
theorem length_encodeGroups_le_iff {more m : Nat} {value : UInt32}
    (h : value.toNat < 128 ^ (more + 1)) :
    (encodeGroups more value).length ≤ m + 1 ↔ value.toNat < 128 ^ (m + 1) := by
  induction more generalizing m value with
  | zero => exact one_le_iff (by omega)
  | succ more ih =>
    rw [encodeGroups]
    split
    · exact one_le_iff (shiftRight_seven_eq_zero_iff.mp ‹_›)
    · rename_i hmore
      rw [List.length_cons, Nat.add_le_add_iff_right]
      cases m with
      | zero =>
        have hpos := (terminated_encodeGroups more (value >>> 7)).length_pos
        rw [shiftRight_seven_eq_zero_iff] at hmore
        exact iff_of_false (by omega) (by omega)
      | succ m =>
        rw [ih (shiftRight_seven_lt_iff.mpr h), shiftRight_seven_lt_iff]

/-- The shortest encoding is a run of groups. -/
theorem terminated_encode (value : UInt32) : Terminated (encode value) :=
  terminated_encodeGroups 4 value

/-- Five groups are enough for every word, so the shortest encoding spells the integer. -/
theorem natValue_encode (value : UInt32) : natValue (encode value) = value.toNat := by
  have := value.toNat_lt
  exact natValue_encodeGroups (by omega)

/-- An integer takes no more bytes than it has digits to base 128. -/
theorem length_encode_le_iff {value : UInt32} {m : Nat} :
    (encode value).length ≤ m + 1 ↔ value.toNat < 128 ^ (m + 1) := by
  have := value.toNat_lt
  exact length_encodeGroups_le_iff (by omega)

/-- No integer of 32 bits takes more than five bytes. -/
theorem length_encode_le (value : UInt32) : (encode value).length ≤ 5 := by
  have := value.toNat_lt
  exact length_encode_le_iff.mpr (by omega)

/-- **An integer is read back from its shortest encoding.** -/
theorem reads_encode (value : UInt32) :
    unsigned.Reads (encode value) (value, (encode value).length) :=
  reads_unsigned (terminated_encode value) (length_encode_le value) (natValue_encode value).symm

theorem reads_u32_encode (value : UInt32) : u32.Reads (encode value) value :=
  (reads_encode value).map Prod.fst

/-- An integer below 128 is written in one byte, its own value. -/
theorem encode_of_lt {value : UInt32} (h : value.toNat < 128) : encode value = [value.toUInt8] := by
  rw [encode, encodeGroups, if_pos (shiftRight_seven_eq_zero_iff.mpr h), List.cons.injEq]
  refine ⟨UInt8.toNat_inj.mp ?_, rfl⟩
  rw [toNat_group_toUInt8, UInt32.toNat_toUInt8]
  omega

/-- A size that fits into one byte is written as that byte. -/
theorem encode_toUInt32 {n : Nat} (h : n < 128) :
    encode n.toUInt32 = [n.toUInt8] := by
  have hvalue : n.toUInt32.toNat = n := toNat_toUInt32 (by omega)
  rw [encode_of_lt (by omega), List.cons.injEq]
  refine ⟨UInt8.toNat_inj.mp ?_, rfl⟩
  rw [UInt32.toNat_toUInt8, hvalue, Nat.toUInt8_eq, UInt8.toNat_ofNat']

theorem reads_u7 {b : UInt8} (h : b.toNat < 128) : u7.Reads [b] b := by
  have hencode : encode b.toUInt32 = [b] := by
    rw [encode_of_lt (by simpa using h), UInt8.toUInt8_toUInt32]
  have hread := reads_encode b.toUInt32
  rw [hencode] at hread
  intro rest
  refine bind_eq_ok_iff.mpr ⟨(b.toUInt32, 1), rest, hread rest, ?_⟩
  simp

end WasmContract.Leb128
