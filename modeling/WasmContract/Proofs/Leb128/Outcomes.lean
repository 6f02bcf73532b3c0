import WasmContract.Proofs.Leb128.Signed

/-!
# What becomes of an encoded integer

A reader of integers has one of three outcomes. It reads the run of groups at the front of the input
if the run is short enough and the integer that it spells is in range; else all groups that it may
take are followed by others, and either the input ends within them (`unexpectedEnd`) or it goes on
behind them (`overflow`). `Groupwise` describes the loops for which this holds, and
`Groupwise.outcome` is the induction along the groups. `unsigned_reads_exactly` and
`signed_reads_exactly` say it of the two readers, with the exact integers that groups spell.

For signed integers the reader of 32 bits is a second look at what was read in 64 bits
(`i32_eq_error_iff`), and every integer has an encoding that is read (`exists_reads_signed`).
-/

namespace WasmContract.Leb128

open Reader

variable {α σ : Type} {limit i : Nat} {r : Nat → σ → Reader α} {s : σ} {input rest : List UInt8}
  {e : DecodeError}

/-! ### Loops over groups -/

/-- A loop over the groups of an integer, from number `i` on: the groups before number `limit` may
be followed by others, and group number `limit` is taken only if it is the last. -/
structure Groupwise (limit : Nat) (r : Nat → σ → Reader α) : Prop where
  /-- The input must not end before the integer. -/
  nil : ∀ i s, r i s [] = .error .unexpectedEnd
  /-- A group goes before another one, or ends the integer, or is refused. -/
  cons : ∀ {i : Nat} (s : σ) (b : UInt8), i ≤ limit →
    (i < limit ∧ Continues b ∧ ∃ s', ∀ rest, r i s (b :: rest) = r (i + 1) s' rest) ∨
      (∃ a, ∀ rest, r i s (b :: rest) = .ok (a, rest)) ∨
      (i = limit ∧ ∀ rest, r i s (b :: rest) = .error .overflow)

/-- An integer that is not read goes on behind the last group that may be taken, or is cut short
before it. -/
theorem Groupwise.outcome (h : Groupwise limit r) (hi : i ≤ limit) (s : σ) (input : List UInt8) :
    (∃ p, r i s input = .ok p) ∨
      (r i s input = .error .overflow ∧ limit < i + input.length ∧
        ∀ b ∈ input.take (limit - i), Continues b) ∨
      (r i s input = .error .unexpectedEnd ∧ i + input.length ≤ limit ∧
        ∀ b ∈ input, Continues b) := by
  induction input generalizing i s with
  | nil => exact .inr (.inr ⟨h.nil i s, hi, List.forall_mem_nil _⟩)
  | cons b later ih =>
    rw [List.length_cons]
    rcases h.cons s b hi with ⟨hlt, hmore, s', hstep⟩ | ⟨a, hstep⟩ | ⟨rfl, hstep⟩
    · -- the group is followed by others, and what becomes of them becomes of the integer
      have htake : (b :: later).take (limit - i) = b :: later.take (limit - (i + 1)) := by
        rw [← List.take_succ_cons, Nat.sub_add_eq, Nat.sub_add_cancel (Nat.sub_pos_of_lt hlt)]
      rw [hstep, htake]
      rcases ih hlt s' with hok | ⟨he, hlength, hall⟩ | ⟨he, hlength, hall⟩
      · exact .inl hok
      · exact .inr (.inl ⟨he, by omega, List.forall_mem_cons.mpr ⟨hmore, hall⟩⟩)
      · exact .inr (.inr ⟨he, by omega, List.forall_mem_cons.mpr ⟨hmore, hall⟩⟩)
    · exact .inl ⟨_, hstep later⟩
    · exact .inr (.inl ⟨hstep later, by omega, by simp⟩)

/-- **The failures of a loop over groups.** -/
theorem Groupwise.eq_error_iff (h : Groupwise limit r) :
    r 0 s input = .error e ↔ (¬∃ p, r 0 s input = .ok p) ∧
      ((e = .overflow ∧ limit + 1 ≤ input.length ∧ ∀ b ∈ input.take limit, Continues b) ∨
        (e = .unexpectedEnd ∧ input.length < limit + 1 ∧ ∀ b ∈ input, Continues b)) := by
  have houtcome := h.outcome (Nat.zero_le limit) s input
  rw [Nat.zero_add, Nat.sub_zero] at houtcome
  constructor
  · intro he
    have hnone : ¬∃ p, r 0 s input = .ok p := by
      rintro ⟨p, hok⟩
      cases he.symm.trans hok
    refine ⟨hnone, ?_⟩
    rcases houtcome with hok | ⟨hover, hlength, hall⟩ | ⟨hend, hlength, hall⟩
    · exact absurd hok hnone
    · cases he.symm.trans hover
      exact .inl ⟨rfl, hlength, hall⟩
    · cases he.symm.trans hend
      exact .inr ⟨rfl, Nat.lt_succ_of_le hlength, hall⟩
  · rintro ⟨hnone, hfailure⟩
    rcases houtcome with hok | ⟨hover, hlong, -⟩ | ⟨hend, hshort, -⟩
    · exact absurd hok hnone
    · rcases hfailure with ⟨rfl, -⟩ | ⟨-, hlength, -⟩
      · exact hover
      · omega
    · rcases hfailure with ⟨-, hlength, -⟩ | ⟨rfl, -⟩
      · omega
      · exact hend

/-! ### Unsigned integers -/

/-- Reading an unsigned integer takes at most five groups. -/
theorem groupwise_unsignedFrom : Groupwise 4 unsignedFrom where
  nil _ _ := rfl
  cons := by
    intro i value b hi
    simp only [unsignedFrom_cons]
    by_cases hover : i = 4 ∧ 0x0f < b
    · exact .inr (.inr ⟨hover.1, fun _ => if_pos hover⟩)
    · simp only [if_neg hover]
      by_cases hmore : Continues b
      · exact .inl ⟨lt_four_of_continues hi hover hmore, hmore, _, fun _ => if_pos hmore⟩
      · exact .inr (.inl ⟨_, fun _ => if_neg hmore⟩)

/-- A run of at most five groups is read if it spells a number of 32 bits. -/
theorem exists_unsigned_eq_ok_iff : (∃ p, unsigned input = .ok p) ↔
    ∃ bytes rest, input = bytes ++ rest ∧ Terminated bytes ∧ bytes.length ≤ 5 ∧
      natValue bytes < 2 ^ 32 := by
  constructor
  · rintro ⟨⟨⟨v, n⟩, rest⟩, h⟩
    obtain ⟨bytes, happend, hrun, rfl, hfive, hv⟩ := unsigned_eq_ok_iff.mp h
    exact ⟨bytes, rest, happend, hrun, hfive, hv ▸ v.toNat_lt⟩
  · rintro ⟨bytes, rest, happend, hrun, hfive, hv⟩
    exact ⟨_, unsigned_eq_ok_iff.mpr ⟨bytes, happend, hrun, rfl, hfive, toNat_toUInt32 hv⟩⟩

/-- **Unsigned integers are read from exactly the encodings in range**: from a run of at most five
groups that spells a number of 32 bits, padded or not. Any other input is too long for an integer or
cut short: its first four bytes all announce another group and there is a fifth byte, or it has at
most four bytes and all of them do. -/
theorem unsigned_reads_exactly (input : List UInt8) :
    (∀ v n rest, unsigned input = .ok ((v, n), rest) ↔
      ∃ bytes, input = bytes ++ rest ∧ Terminated bytes ∧ n = bytes.length ∧ n ≤ 5 ∧
        natValue bytes < 2 ^ 32 ∧ v.toNat = natValue bytes) ∧
    ∀ e, unsigned input = .error e ↔
      (¬∃ bytes rest, input = bytes ++ rest ∧ Terminated bytes ∧ bytes.length ≤ 5 ∧
        natValue bytes < 2 ^ 32) ∧
      ((e = .overflow ∧ 5 ≤ input.length ∧ ∀ b ∈ input.take 4, Continues b) ∨
        (e = .unexpectedEnd ∧ input.length < 5 ∧ ∀ b ∈ input, Continues b)) := by
  refine ⟨fun v n rest => ?_, fun e => ?_⟩
  · rw [unsigned_eq_ok_iff]
    refine exists_congr fun bytes => and_congr_right fun _ => and_congr_right fun _ =>
      and_congr_right fun _ => and_congr_right fun _ => ?_
    exact ⟨fun hv => ⟨hv ▸ v.toNat_lt, hv⟩, And.right⟩
  · rw [← exists_unsigned_eq_ok_iff]
    exact groupwise_unsignedFrom.eq_error_iff

/-! ### Signed integers -/

/-- Reading a signed integer takes at most ten groups. -/
theorem groupwise_signedFrom : Groupwise 9 signedFrom where
  nil _ _ := rfl
  cons := by
    intro i value b hi
    simp only [signedFrom_cons]
    by_cases hover : i = 9 ∧ b ≠ 0x00 ∧ b ≠ 0x7f
    · exact .inr (.inr ⟨hover.1, fun _ => if_pos hover⟩)
    · simp only [if_neg hover]
      by_cases hmore : Continues b
      · exact .inl ⟨lt_nine_of_continues hi hover hmore, hmore, _, fun _ => if_pos hmore⟩
      · exact .inr (.inl ⟨_, fun _ => if_neg hmore⟩)

/-- A run of at most ten groups is read if it spells a number of 64 bits. -/
theorem exists_signed_eq_ok_iff : (∃ p, signed input = .ok p) ↔
    ∃ bytes rest, input = bytes ++ rest ∧ Terminated bytes ∧ bytes.length ≤ 10 ∧
      -2 ^ 63 ≤ intValue bytes ∧ intValue bytes < 2 ^ 63 := by
  constructor
  · rintro ⟨⟨⟨v, n⟩, rest⟩, h⟩
    obtain ⟨bytes, happend, hrun, rfl, hten, hv⟩ := signed_eq_ok_iff.mp h
    exact ⟨bytes, rest, happend, hrun, hten, hv ▸ v.le_toInt, hv ▸ v.toInt_lt⟩
  · rintro ⟨bytes, rest, happend, hrun, hten, hlow, hhigh⟩
    exact ⟨_, signed_eq_ok_iff.mpr
      ⟨bytes, happend, hrun, rfl, hten, Int64.toInt_ofInt_of_le hlow hhigh⟩⟩

/-- A signed integer of 32 bits is refused for the reason for which it is refused in 64 bits, or for
its length, or else for its size. -/
theorem i32_eq_error_iff : i32 input = .error e ↔
    signed input = .error e ∨ ∃ v n rest, signed input = .ok ((v, n), rest) ∧
      ((5 < n ∧ e = .malformedEncoding .varint32 n) ∨
        (n ≤ 5 ∧ ¬(-2 ^ 31 ≤ v.toInt ∧ v.toInt < 2 ^ 31) ∧ e = .overflow)) := by
  rw [i32, bind_eq_error_iff]
  simp only [Prod.exists]
  refine or_congr_right (exists_congr fun v => exists_congr fun n => exists_congr fun rest =>
    and_congr_right fun _ => ?_)
  rw [← outOfRange_iff, check_eq_error_iff, check_eq_error_iff]
  simp only [pure_apply, reduceCtorEq, and_false, or_false, Nat.not_lt]

/-- A number from -64 to 63 is spelled by its lowest seven bits, as a last group. -/
theorem intValue_last {v : Int} (hlow : -64 ≤ v) (hhigh : v < 64) :
    ¬Continues (.ofNat (v % 128).toNat) ∧ intValue [.ofNat (v % 128).toNat] = v := by
  have hmod : (v % 128).toNat < 128 := by omega
  have hbyte : (UInt8.ofNat (v % 128).toNat).toNat = (v % 128).toNat :=
    UInt8.toNat_ofNat_of_lt' (by show _ < 256; omega)
  rw [continues_iff, intValue_singleton]
  simp only [negative_iff, toNat_group, hbyte, Nat.mod_eq_of_lt hmod]
  refine ⟨by omega, ?_⟩
  split <;> omega

/-- Every number in the range of some groups is spelled by so many groups. -/
theorem exists_intValue_eq (more : Nat) {v : Int} (hlow : -(64 * 128 ^ more) ≤ v)
    (hhigh : v < 64 * 128 ^ more) :
    ∃ bytes, Terminated bytes ∧ bytes.length = more + 1 ∧ intValue bytes = v := by
  induction more generalizing v with
  | zero =>
    obtain ⟨hlast, hvalue⟩ := intValue_last (v := v) (by simpa using hlow) (by simpa using hhigh)
    exact ⟨_, .last hlast, rfl, hvalue⟩
  | succ more ih =>
    -- the lowest digit goes into the first group, and the others spell the quotient
    rw [pow_succ, ← mul_assoc] at hlow hhigh
    obtain ⟨later, hrun, hlength, hvalue⟩ := ih (v := v / 128)
      (by rw [Int.le_ediv_iff_mul_le (by decide)]; omega) (Int.ediv_lt_of_lt_mul (by decide) hhigh)
    have hbyte : (UInt8.ofNat ((v % 128).toNat + 128)).toNat = (v % 128).toNat + 128 :=
      UInt8.toNat_ofNat_of_lt' (by show _ < 256; omega)
    refine ⟨.ofNat ((v % 128).toNat + 128) :: later, .next ?_ hrun,
      congrArg Nat.succ hlength, ?_⟩
    · rw [continues_iff, hbyte]
      omega
    · rw [intValue_cons _ hrun.ne_nil, hvalue, toNat_group, hbyte]
      omega

/-- Every number of 64 bits has an encoding of ten groups, from which it is read. -/
theorem exists_reads_signed (v : Int64) : ∃ bytes, signed.Reads bytes (v, bytes.length) := by
  have hlow := v.le_toInt
  have hhigh := v.toInt_lt
  obtain ⟨bytes, hrun, hlength, hvalue⟩ :=
    exists_intValue_eq 9 (v := v.toInt) (by omega) (by omega)
  exact ⟨bytes, fun _ => signed_eq_ok_iff.mpr
    ⟨bytes, rfl, hrun, rfl, Nat.le_of_eq hlength, hvalue.symm⟩⟩

/-- Every number of 32 bits has an encoding of five groups, from which it is read. -/
theorem exists_reads_i32 (v : Int32) : ∃ bytes, i32.Reads bytes v := by
  have hlow := v.le_toInt
  have hhigh := v.toInt_lt
  obtain ⟨bytes, hrun, hlength, hvalue⟩ :=
    exists_intValue_eq 4 (v := v.toInt) (by omega) (by omega)
  exact ⟨bytes, fun _ => i32_eq_ok_iff.mpr
    ⟨bytes, rfl, hrun, Nat.le_of_eq hlength, hvalue.symm⟩⟩

/-- **Signed integers are read from exactly the encodings in range**: from a run of at most ten
groups that spells a number of 64 bits, and for the narrower reader from one of at most five that
spells a number of 32 bits. Any other input is too long for an integer or cut short, or is an
integer that takes too many bytes or is too large for the narrower reader. Every integer of either
width has an encoding that is read, whatever follows it. -/
theorem signed_reads_exactly :
    (∀ input v n rest, signed input = .ok ((v, n), rest) ↔
      ∃ bytes, input = bytes ++ rest ∧ Terminated bytes ∧ n = bytes.length ∧ n ≤ 10 ∧
        (-2 ^ 63 ≤ intValue bytes ∧ intValue bytes < 2 ^ 63) ∧ v.toInt = intValue bytes) ∧
    (∀ input e, signed input = .error e ↔
      (¬∃ bytes rest, input = bytes ++ rest ∧ Terminated bytes ∧ bytes.length ≤ 10 ∧
        -2 ^ 63 ≤ intValue bytes ∧ intValue bytes < 2 ^ 63) ∧
      ((e = .overflow ∧ 10 ≤ input.length ∧ ∀ b ∈ input.take 9, Continues b) ∨
        (e = .unexpectedEnd ∧ input.length < 10 ∧ ∀ b ∈ input, Continues b))) ∧
    (∀ input v rest, i32 input = .ok (v, rest) ↔
      ∃ bytes, input = bytes ++ rest ∧ Terminated bytes ∧ bytes.length ≤ 5 ∧
        (-2 ^ 31 ≤ intValue bytes ∧ intValue bytes < 2 ^ 31) ∧ v.toInt = intValue bytes) ∧
    (∀ input e, i32 input = .error e ↔
      signed input = .error e ∨ ∃ v n rest, signed input = .ok ((v, n), rest) ∧
        ((5 < n ∧ e = .malformedEncoding .varint32 n) ∨
          (n ≤ 5 ∧ ¬(-2 ^ 31 ≤ v.toInt ∧ v.toInt < 2 ^ 31) ∧ e = .overflow))) ∧
    (∀ v : Int64, ∃ bytes, signed.Reads bytes (v, bytes.length)) ∧
    ∀ v : Int32, ∃ bytes, i32.Reads bytes v := by
  refine ⟨fun input v n rest => ?_, fun input e => ?_, fun input v rest => ?_,
    fun _ _ => i32_eq_error_iff, exists_reads_signed, exists_reads_i32⟩
  · rw [signed_eq_ok_iff]
    refine exists_congr fun bytes => and_congr_right fun _ => and_congr_right fun _ =>
      and_congr_right fun _ => and_congr_right fun _ => ?_
    exact ⟨fun hv => ⟨⟨hv ▸ v.le_toInt, hv ▸ v.toInt_lt⟩, hv⟩, And.right⟩
  · rw [← exists_signed_eq_ok_iff]
    exact groupwise_signedFrom.eq_error_iff
  · rw [i32_eq_ok_iff]
    refine exists_congr fun bytes => and_congr_right fun _ => and_congr_right fun _ =>
      and_congr_right fun _ => ?_
    exact ⟨fun hv => ⟨⟨hv ▸ v.le_toInt, hv ▸ v.toInt_lt⟩, hv⟩, And.right⟩

end WasmContract.Leb128
