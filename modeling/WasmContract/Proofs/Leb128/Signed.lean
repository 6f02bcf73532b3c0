import Mathlib.Tactic.Ring
import WasmContract.Leb128.Signed
import WasmContract.Proofs.Leb128.Runs
import WasmContract.Proofs.Leb128.Unsigned

/-!
# Signed LEB128 in streams

Signed integers of every width are read from their own bytes alone. `signed_eq_ok_iff` says which
runs of groups are read: at most ten groups that spell a number of 64 bits, padded or not; the
number they spell is the exact `intValue`. `i64_eq_ok_iff` and `i32_eq_ok_iff` say the same of the
narrower readers.
-/

namespace WasmContract.Leb128

open Reader

/-- Each byte fails, ends the integer, or puts a group above those already read. -/
theorem lawful_signedFrom (i : Nat) (value : UInt64) : Lawful (signedFrom i value) := by
  have hnil : ∀ s : Nat × UInt64, signedFrom s.1 s.2 [] = .error .unexpectedEnd := fun _ => rfl
  refine Lawful.bytewise hnil ?_ (i, value)
  rintro ⟨i, value⟩ b
  simp only [signedFrom]
  by_cases hover : i = 9 ∧ b ≠ 0x00 ∧ b ≠ 0x7f
  · exact .inl ⟨.overflow, trivial, fun rest => if_pos hover⟩
  · by_cases hmore : Continues b
    · exact .inr (.inr ⟨(i + 1, _), fun rest => (if_neg hover).trans (if_pos hmore)⟩)
    · exact .inr (.inl ⟨_, fun rest => (if_neg hover).trans (if_neg hmore)⟩)

/-- A signed integer is read from its own bytes alone. -/
theorem lawful_signed : Lawful signed := lawful_signedFrom 0 0

theorem lawful_i64 : Lawful i64 := lawful_signed.map Prod.fst

theorem lawful_i7 : Lawful i7 := lawful_signed.bind fun _ => .check trivial (.pure _)

/-- A signed integer of 32 bits is read from its own bytes alone; its length and its size are
checked behind them. -/
theorem lawful_i32 : Lawful i32 :=
  lawful_signed.bind fun _ => .check trivial (.check trivial (.pure _))

/-! ### Words -/

theorem toInt_toInt64 (v : UInt64) :
    v.toInt64.toInt = if v.toNat < 2 ^ 63 then (v.toNat : Int) else v.toNat - 2 ^ 64 := by
  have h : v.toInt64.toInt = v.toBitVec.toInt := rfl
  rw [h, BitVec.toInt_eq_toNat_cond, UInt64.toNat_toBitVec]
  split <;> split <;> omega

/-- The word of the groups read so far, once group number `i` is put above them. -/
def putGroup (i : Nat) (value : UInt64) (b : UInt8) : UInt64 :=
  value ||| (group b).toUInt64 <<< (7 * i).toUInt64

/-- Putting a group above the groups already read adds it at its place. -/
theorem toNat_putGroup {i : Nat} {value : UInt64} {b : UInt8} (hi : i ≤ 9)
    (hvalue : value.toNat < 128 ^ i) (hfits : value.toNat + 128 ^ i * (group b).toNat < 2 ^ 64) :
    (putGroup i value b).toNat = value.toNat + 128 ^ i * (group b).toNat := by
  have hpow : 128 ^ i = 2 ^ (7 * i) := by rw [Nat.pow_mul]
  have hshift : (7 * i).toUInt64.toNat % 64 = 7 * i := by
    rw [Nat.toUInt64_eq, UInt64.toNat_ofNat']
    omega
  rw [hpow] at hvalue hfits ⊢
  -- the shift loses no bits, and the bits below it are free
  have hgroup : (group b).toNat <<< (7 * i) < 2 ^ 64 := by
    rw [Nat.shiftLeft_eq, Nat.mul_comm]
    omega
  rw [putGroup, UInt64.toNat_or, UInt64.toNat_shiftLeft, hshift, UInt8.toNat_toUInt64,
    Nat.mod_eq_of_lt hgroup, Nat.or_comm, ← Nat.shiftLeft_add_eq_or_of_lt hvalue,
    Nat.shiftLeft_eq, Nat.mul_comm, Nat.add_comm]

/-- The first nine groups fit below the top bit. -/
theorem toNat_putGroup_of_lt {i : Nat} {value : UInt64} (hi : i < 9)
    (hvalue : value.toNat < 128 ^ i) (b : UInt8) :
    (putGroup i value b).toNat = value.toNat + 128 ^ i * (group b).toNat ∧
      (putGroup i value b).toNat < 128 ^ (i + 1) := by
  have hbelow := add_group_lt hvalue b
  have htop : 128 ^ (i + 1) ≤ 128 ^ 9 := Nat.pow_le_pow_right (by decide) hi
  have hput := toNat_putGroup (b := b) (by omega) hvalue (by omega)
  exact ⟨hput, hput ▸ hbelow⟩

/-- The tenth group gives the sign alone. -/
theorem toNat_putGroup_nine {value : UInt64} {b : UInt8} (hvalue : value.toNat < 128 ^ 9)
    (hb : b = 0x00 ∨ b = 0x7f) :
    (putGroup 9 value b).toNat = value.toNat + if Negative b then 2 ^ 63 else 0 := by
  rcases hb with rfl | rfl
  · rw [toNat_putGroup (by decide) hvalue (by simp [group]; omega), if_neg (by decide)]
    rfl
  · -- the shift drops all bits but the lowest
    have hone : putGroup 9 value 0x7f = putGroup 9 value 0x01 := by
      have h : (group 0x7f).toUInt64 <<< (7 * 9).toUInt64 =
        (group 0x01).toUInt64 <<< (7 * 9).toUInt64 := by decide
      rw [putGroup, putGroup, h]
    have hgroup : (group 0x01).toNat = 1 := by decide
    rw [hone, toNat_putGroup (by decide) hvalue (by rw [hgroup]; omega), if_pos (by decide), hgroup]
    rfl

/-- Setting all bits from number `width` on takes `2 ^ width` away, modulo the size of a word. -/
theorem toNat_fillFrom {width : Nat} {value : UInt64} (hwidth : width < 64)
    (hvalue : value.toNat < 2 ^ width) :
    (fillFrom width value).toNat = value.toNat + (2 ^ 64 - 2 ^ width) := by
  have hones : ∀ w : Fin 64, ((~~~0 : UInt64) <<< w.val.toUInt64).toNat =
      (2 ^ (64 - w.val) - 1) <<< w.val := by decide +kernel
  have hpow : 2 ^ 64 = 2 ^ (64 - width) * 2 ^ width := by
    rw [← Nat.pow_add, Nat.sub_add_cancel (Nat.le_of_lt hwidth)]
  rw [fillFrom, if_pos hwidth, UInt64.toNat_or, hones ⟨width, hwidth⟩, Nat.or_comm,
    ← Nat.shiftLeft_add_eq_or_of_lt hvalue, Nat.shiftLeft_eq, Nat.add_comm, hpow, Nat.sub_mul,
    Nat.one_mul]

/-- The word of a complete integer, whose last group has number `i`. -/
def finish (i : Nat) (value : UInt64) (b : UInt8) : UInt64 :=
  if Negative b then fillFrom (7 * i + 7) (putGroup i value b) else putGroup i value b

/-- **The word of a complete integer** stands for the value of its groups. -/
theorem toInt_finish {i : Nat} {value : UInt64} {b : UInt8} (hi : i ≤ 9)
    (hvalue : value.toNat < 128 ^ i) (htenth : i = 9 → b = 0x00 ∨ b = 0x7f) :
    (finish i value b).toInt64.toInt = value.toNat + 128 ^ i * intValue [b] := by
  rw [finish, intValue_singleton, toInt_toInt64]
  rcases Nat.eq_or_lt_of_le hi with rfl | hi
  · have hput := toNat_putGroup_nine hvalue (htenth rfl)
    -- there are no bits above the tenth group
    have hfill : ∀ word, fillFrom (7 * 9 + 7) word = word := fun _ => rfl
    rw [hfill, ite_self, hput]
    rcases htenth rfl with rfl | rfl
    · simp [negative_iff, group]; omega
    · simp [negative_iff, group]; omega
  · -- below the tenth group the bits above the number are filled with its sign
    obtain ⟨hput, hbelow⟩ := toNat_putGroup_of_lt hi hvalue b
    have hpow : 2 ^ (7 * i + 7) = 128 ^ (i + 1) := by
      rw [← Nat.mul_succ, Nat.pow_mul]
    have htop : 128 ^ (i + 1) ≤ 128 ^ 9 := Nat.pow_le_pow_right (by decide) hi
    have hfill : ((2 ^ 64 - 128 ^ (i + 1) : Nat) : Int) = 2 ^ 64 - 128 ^ i * 128 := by
      rw [Nat.cast_sub (by omega), Nat.pow_succ]
      push_cast
      rfl
    by_cases hneg : Negative b
    · rw [if_pos hneg, if_pos hneg, toNat_fillFrom (by omega) (hpow ▸ hbelow), hpow,
        if_neg (by omega), hput, Nat.cast_add, hfill]
      push_cast
      ring
    · rw [if_neg hneg, if_neg hneg, if_pos (by omega), hput]
      push_cast
      rfl

/-! ### The integers that are read -/

/-- One step of the loop, with the word that it goes on with or ends in. -/
theorem signedFrom_cons (i : Nat) (value : UInt64) (b : UInt8) (rest : List UInt8) :
    signedFrom i value (b :: rest) =
      if i = 9 ∧ b ≠ 0x00 ∧ b ≠ 0x7f then .error .overflow
      else if Continues b then signedFrom (i + 1) (putGroup i value b) rest
      else .ok (((finish i value b).toInt64, i + 1), rest) := rfl

/-- If ten groups spell an integer in range, then the last of them is all sign. -/
theorem tenth_of_inRange {value : UInt64} {b : UInt8} (hvalue : value.toNat < 128 ^ 9)
    (hlast : ¬Continues b) (v : Int64) (hv : v.toInt = value.toNat + 128 ^ 9 * intValue [b]) :
    b = 0x00 ∨ b = 0x7f := by
  have hlow := v.le_toInt
  have hhigh := v.toInt_lt
  rw [continues_iff] at hlast
  simp only [intValue_singleton, negative_iff, toNat_group] at hv
  have hb : b.toNat = 0 ∨ b.toNat = 127 := by
    split at hv <;> omega
  exact hb.imp (fun h => UInt8.toNat_inj.mp h) fun h => UInt8.toNat_inj.mp h

/-- Only groups before the tenth are followed by another. -/
theorem lt_nine_of_continues {i : Nat} {b : UInt8} (hi : i ≤ 9)
    (hover : ¬(i = 9 ∧ b ≠ 0x00 ∧ b ≠ 0x7f)) (hmore : Continues b) : i < 9 := by
  refine Nat.lt_of_le_of_ne hi fun htop => hover ⟨htop, ?_, ?_⟩
  · rintro rfl
    exact absurd hmore (by decide)
  · rintro rfl
    exact absurd hmore (by decide)

/-- Above the groups already read, an integer is read from each run of groups that ends in time and
keeps the integer in range; `i` is the number of groups already read. -/
theorem signedFrom_eq_ok_iff {input rest : List UInt8} {i n : Nat} {value : UInt64} {v : Int64}
    (hi : i ≤ 9) (hvalue : value.toNat < 128 ^ i) :
    signedFrom i value input = .ok ((v, n), rest) ↔
      ∃ bytes, input = bytes ++ rest ∧ Terminated bytes ∧ n = i + bytes.length ∧ n ≤ 10 ∧
        v.toInt = value.toNat + 128 ^ i * intValue bytes := by
  induction input generalizing i value with
  | nil => exact iff_of_false nofun not_exists_run_nil
  | cons b left ih =>
    rw [signedFrom_cons]
    by_cases hover : i = 9 ∧ b ≠ 0x00 ∧ b ≠ 0x7f
    · -- a tenth group that is not a sign takes every run out of range
      rw [if_pos hover, exists_run_cons_iff]
      refine ⟨nofun, ?_⟩
      rintro (⟨hlast, -, -, -, hv⟩ | ⟨-, later, -, hlater, hn, hten, -⟩)
      · rw [hover.1] at hvalue hv
        exact absurd (tenth_of_inRange hvalue hlast v hv) (not_or.mpr hover.2)
      · have hpos := hlater.length_pos
        rw [List.length_cons] at hn
        omega
    · rw [if_neg hover]
      by_cases hmore : Continues b
      · have hnine := lt_nine_of_continues hi hover hmore
        obtain ⟨hput, hbelow⟩ := toNat_putGroup_of_lt hnine hvalue b
        rw [if_pos hmore, ih (by omega) hbelow, exists_run_cons_iff_of_continues hmore]
        refine exists_congr fun later => and_congr_right fun _ => and_congr_right fun hlater => ?_
        rw [hput, intValue_cons b hlater.ne_nil, List.length_cons, Nat.add_right_comm,
          Nat.add_assoc i]
        push_cast
        rw [pow_succ, mul_add, mul_assoc, add_assoc]
      · have hfinish := toInt_finish (b := b) hi hvalue fun htop => by
          by_contra hb
          exact hover ⟨htop, not_or.mp hb⟩
        rw [if_neg hmore, exists_run_cons_iff_of_last hmore]
        simp only [Except.ok.injEq, Prod.mk.injEq, List.length_singleton]
        rw [← Int64.toInt_inj, hfinish]
        constructor
        · rintro ⟨⟨hv, rfl⟩, rfl⟩
          exact ⟨rfl, rfl, by omega, hv.symm⟩
        · rintro ⟨rfl, rfl, -, hv⟩
          exact ⟨⟨hv.symm, rfl⟩, rfl⟩

variable {input rest : List UInt8}

/-- **The signed integers that are read**: a run of at most ten groups in front of the input that
spells a number of 64 bits. -/
theorem signed_eq_ok_iff {v : Int64} {n : Nat} : signed input = .ok ((v, n), rest) ↔
    ∃ bytes, input = bytes ++ rest ∧ Terminated bytes ∧ n = bytes.length ∧ n ≤ 10 ∧
      v.toInt = intValue bytes := by
  rw [signed, signedFrom_eq_ok_iff (by decide) (by decide)]
  simp

/-- The signed integers of 64 bits that are read, without the number of their bytes. -/
theorem i64_eq_ok_iff {v : Int64} : i64 input = .ok (v, rest) ↔
    ∃ bytes, input = bytes ++ rest ∧ Terminated bytes ∧ bytes.length ≤ 10 ∧
      v.toInt = intValue bytes := by
  rw [i64, map_eq_bind, bind_eq_ok_iff]
  constructor
  · rintro ⟨⟨v', n⟩, middle, h, hpure⟩
    cases hpure
    obtain ⟨bytes, happend, hrun, rfl, hten, hv⟩ := signed_eq_ok_iff.mp h
    exact ⟨bytes, happend, hrun, hten, hv⟩
  · rintro ⟨bytes, happend, hrun, hten, hv⟩
    exact ⟨(v, bytes.length), rest, signed_eq_ok_iff.mpr ⟨bytes, happend, hrun, rfl, hten, hv⟩, rfl⟩

/-- A word is out of range for a reader of 32 bits when it is out of the range of such words. -/
theorem outOfRange_iff {w : Int64} :
    (w < Int32.minValue.toInt64 ∨ Int32.maxValue.toInt64 < w) ↔
      ¬(-2 ^ 31 ≤ w.toInt ∧ w.toInt < 2 ^ 31) := by
  have hmin : Int32.minValue.toInt64.toInt = -2 ^ 31 := by decide
  have hmax : Int32.maxValue.toInt64.toInt = 2 ^ 31 - 1 := by decide
  rw [Int64.lt_iff_toInt_lt, Int64.lt_iff_toInt_lt, hmin, hmax]
  omega

theorem toInt_toInt32_of_inRange {w : Int64} (h : -2 ^ 31 ≤ w.toInt ∧ w.toInt < 2 ^ 31) :
    w.toInt32.toInt = w.toInt := by
  rw [Int64.toInt_toInt32]
  exact Int.bmod_eq_of_le h.1 h.2

/-- **The signed integers of 32 bits that are read**: a run of at most five groups that spells a
number in their range. That the number is in range need not be said, since `v` is such a word. -/
theorem i32_eq_ok_iff {v : Int32} : i32 input = .ok (v, rest) ↔
    ∃ bytes, input = bytes ++ rest ∧ Terminated bytes ∧ bytes.length ≤ 5 ∧
      v.toInt = intValue bytes := by
  rw [i32, bind_eq_ok_iff]
  constructor
  · rintro ⟨⟨w, n⟩, middle, h, hcheck⟩
    obtain ⟨bytes, happend, hrun, rfl, -, hw⟩ := signed_eq_ok_iff.mp h
    dsimp only at hcheck
    split at hcheck
    · cases hcheck
    · rename_i hfive
      split at hcheck
      · cases hcheck
      · rename_i hrange
        cases hcheck
        rw [outOfRange_iff, not_not] at hrange
        exact ⟨bytes, happend, hrun, Nat.le_of_not_lt hfive,
          (toInt_toInt32_of_inRange hrange).trans hw⟩
  · rintro ⟨bytes, happend, hrun, hfive, hv⟩
    have hw : v.toInt64.toInt = v.toInt := Int32.toInt_toInt64 v
    have hrange : -2 ^ 31 ≤ v.toInt64.toInt ∧ v.toInt64.toInt < 2 ^ 31 :=
      hw ▸ ⟨v.le_toInt, v.toInt_lt⟩
    refine ⟨(v.toInt64, bytes.length), rest,
      signed_eq_ok_iff.mpr ⟨bytes, happend, hrun, rfl, by omega, hw.trans hv⟩, ?_⟩
    dsimp only
    rw [if_neg (Nat.not_lt.mpr hfive), if_neg (mt outOfRange_iff.mp (not_not.mpr hrange)),
      Int32.toInt32_toInt64]
    rfl

end WasmContract.Leb128
