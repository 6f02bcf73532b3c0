import Mathlib.Tactic.Ring
import WasmContract.Leb128.Value

/-!
# Runs of groups

How a run of groups and the integer that it spells are put together from the first group and the
rest.
-/

namespace WasmContract.Leb128

theorem Terminated.ne_nil {bytes : List UInt8} (h : Terminated bytes) : bytes ≠ [] := by
  rintro rfl
  cases h

theorem Terminated.length_pos {bytes : List UInt8} (h : Terminated bytes) : 0 < bytes.length :=
  List.length_pos_iff.mpr h.ne_nil

/-- A number of `i` groups, with another group above them, is one of `i + 1` groups. -/
theorem add_group_lt {i value : Nat} (h : value < 128 ^ i) (b : UInt8) :
    value + 128 ^ i * (group b).toNat < 128 ^ (i + 1) := by
  have hle : 128 ^ i * ((group b).toNat + 1) ≤ 128 ^ i * 128 := Nat.mul_le_mul_left _ (group_lt b)
  rw [Nat.pow_succ]
  rw [Nat.mul_succ] at hle
  omega

/-- No run of groups is empty. -/
theorem not_exists_run_nil {P : List UInt8 → Prop} {rest : List UInt8} :
    ¬∃ bytes, [] = bytes ++ rest ∧ Terminated bytes ∧ P bytes := by
  rintro ⟨bytes, hnil, hrun, -⟩
  exact hrun.ne_nil (List.append_eq_nil_iff.mp hnil.symm).1

/-- The run of groups at the front of some bytes ends with the first group, or goes on behind it. -/
theorem exists_run_cons_iff {P : List UInt8 → Prop} {b : UInt8} {left rest : List UInt8} :
    (∃ bytes, b :: left = bytes ++ rest ∧ Terminated bytes ∧ P bytes) ↔
      (¬Continues b ∧ left = rest ∧ P [b]) ∨
      (Continues b ∧ ∃ later, left = later ++ rest ∧ Terminated later ∧ P (b :: later)) := by
  constructor
  · rintro ⟨bytes, happend, hrun, hP⟩
    cases hrun with
    | last hlast =>
      cases happend
      exact .inl ⟨hlast, rfl, hP⟩
    | @next _ later hmore hlater =>
      cases happend
      exact .inr ⟨hmore, later, rfl, hlater, hP⟩
  · rintro (⟨hlast, rfl, hP⟩ | ⟨hmore, later, rfl, hlater, hP⟩)
    · exact ⟨[b], rfl, .last hlast, hP⟩
    · exact ⟨b :: later, rfl, .next hmore hlater, hP⟩

/-- A byte that another one follows is the first of a longer run. -/
theorem exists_run_cons_iff_of_continues {P : List UInt8 → Prop} {b : UInt8}
    {left rest : List UInt8} (h : Continues b) :
    (∃ bytes, b :: left = bytes ++ rest ∧ Terminated bytes ∧ P bytes) ↔
      ∃ later, left = later ++ rest ∧ Terminated later ∧ P (b :: later) := by
  simp only [exists_run_cons_iff, h, not_true_eq_false, false_and, true_and, false_or]

/-- A byte that none follows is a run by itself. -/
theorem exists_run_cons_iff_of_last {P : List UInt8 → Prop} {b : UInt8} {left rest : List UInt8}
    (h : ¬Continues b) :
    (∃ bytes, b :: left = bytes ++ rest ∧ Terminated bytes ∧ P bytes) ↔ left = rest ∧ P [b] := by
  simp only [exists_run_cons_iff, h, not_false_eq_true, true_and, false_and, or_false]

/-- A byte is its group and whether another one follows. -/
theorem eq_of_group_eq {b c : UInt8} (h : group b = group c) (hmore : Continues b ↔ Continues c) :
    b = c := by
  rw [continues_iff, continues_iff] at hmore
  rw [← UInt8.toNat_inj, toNat_group, toNat_group] at h
  have hb := b.toNat_lt
  have hc := c.toNat_lt
  exact UInt8.toNat_inj.mp (by omega)

/-- A number is spelled by one run of groups of each length. -/
theorem Terminated.eq_of_natValue_eq {bytes bytes' : List UInt8} (h : Terminated bytes)
    (h' : Terminated bytes') (hlength : bytes.length = bytes'.length)
    (hvalue : natValue bytes = natValue bytes') : bytes = bytes' := by
  induction h generalizing bytes' with
  | @last b hlast =>
    cases h' with
    | @last c hlast' =>
      have hgroup : group b = group c := by simpa [natValue, UInt8.toNat_inj] using hvalue
      rw [eq_of_group_eq hgroup (iff_of_false hlast hlast')]
    | next _ hlater =>
      exact absurd (List.length_eq_zero_iff.mp (Nat.succ.inj hlength).symm) hlater.ne_nil
  | @next b later hmore hlater ih =>
    cases h' with
    | last => exact absurd (List.length_eq_zero_iff.mp (Nat.succ.inj hlength)) hlater.ne_nil
    | @next c later' hmore' hlater' =>
      have hb := group_lt b
      have hc := group_lt c
      rw [natValue, natValue] at hvalue
      have hgroup : group b = group c := UInt8.toNat_inj.mp (by omega)
      rw [eq_of_group_eq hgroup (iff_of_true hmore hmore'),
        ih hlater' (Nat.succ.inj hlength) (by omega)]

/-- A last group counts from -64 to 63. -/
theorem intValue_singleton (b : UInt8) :
    intValue [b] = if Negative b then ((group b).toNat : Int) - 128 else (group b).toNat := by
  have h : EndsNegative [b] ↔ Negative b := by simp [EndsNegative]
  simp [intValue, h, natValue]

/-- Groups above the first count 128 times as much; the sign is theirs alone. -/
theorem intValue_cons {later : List UInt8} (b : UInt8) (h : later ≠ []) :
    intValue (b :: later) = (group b).toNat + 128 * intValue later := by
  have hlast : EndsNegative (b :: later) ↔ EndsNegative later := by
    obtain ⟨c, others, rfl⟩ := List.exists_cons_of_ne_nil h
    simp [EndsNegative]
  simp only [intValue, hlast, natValue, List.length_cons]
  split <;> push_cast <;> ring

end WasmContract.Leb128
