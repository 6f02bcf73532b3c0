import Mathlib.Algebra.BigOperators.Group.List.Basic
import Mathlib.Algebra.GroupWithZero.Nat
import WasmContract.Text.Numeral
import WasmContract.Text.Quoted

/-!
# Line breaks in texts

`Text.lineBreaks` counts the line breaks of a text. A text that is put together has those of its
parts; numerals and quoted texts have none.
-/

namespace WasmContract.Text

/-- The number of line breaks in a text. -/
def lineBreaks (text : String) : Nat := text.toList.count '\n'

/-- Lines as one text, each ended by a line break. -/
def ofLines (lines : List String) : String := String.join (lines.map (· ++ "\n"))

variable {text : String} {base n : Nat} {c : Char}

theorem lineBreaks_eq_zero_iff : lineBreaks text = 0 ↔ '\n' ∉ text.toList :=
  List.count_eq_zero

@[simp]
theorem lineBreaks_append (first second : String) :
    lineBreaks (first ++ second) = lineBreaks first + lineBreaks second := by
  rw [lineBreaks, String.toList_append, List.count_append]
  rfl

/-- A text stands for itself where other values are written out. -/
@[simp]
theorem lineBreaks_toString (text : String) : lineBreaks (toString text) = lineBreaks text := rfl

theorem lineBreaks_join (texts : List String) :
    lineBreaks (String.join texts) = (texts.map lineBreaks).sum := by
  rw [lineBreaks, String.toList_join, List.count_flatMap]
  rfl

/-- Lines have a line break each, besides those within them. -/
theorem lineBreaks_ofLines (lines : List String) :
    lineBreaks (ofLines lines) = lines.length + (lines.map lineBreaks).sum := by
  rw [ofLines, lineBreaks_join, List.map_map]
  induction lines with
  | nil => rfl
  | cons line later ih =>
    have hbreak : lineBreaks "\n" = 1 := by decide
    rw [List.map_cons, List.sum_cons, ih, Function.comp_apply, lineBreaks_append, hbreak,
      List.map_cons, List.sum_cons, List.length_cons]
    omega

theorem sum_lineBreaks_eq_zero_iff {texts : List String} :
    (texts.map lineBreaks).sum = 0 ↔ ∀ text ∈ texts, '\n' ∉ text.toList := by
  simp only [List.sum_eq_zero_iff_forall_eq_nat, List.forall_mem_map, lineBreaks_eq_zero_iff]

/-! ### Texts without line breaks -/

/-- Digits are no line breaks, to any base. -/
theorem newline_notMem_toDigits (hbase : 1 < base) (n : Nat) : '\n' ∉ Nat.toDigits base n := by
  induction n using Nat.strongRecOn with
  | ind n ih =>
    have hdigit (k : Nat) : '\n' ∉ [k.digitChar] := by
      rw [List.mem_singleton]
      exact (Nat.digitChar_ne '\n' (by decide)).symm
    rw [Nat.toDigits_eq_if hbase]
    split
    · exact hdigit n
    · rw [List.mem_append, not_or]
      exact ⟨ih (n / base) (Nat.div_lt_self (by omega) hbase), hdigit (n % base)⟩

@[simp]
theorem lineBreaks_repr (n : Nat) : lineBreaks n.repr = 0 := by
  rw [lineBreaks_eq_zero_iff, Nat.repr_eq_ofList_toDigits, String.toList_ofList]
  exact newline_notMem_toDigits (by decide) n

theorem lineBreaks_padLeft (hfill : c ≠ '\n') (width : Nat) (text : String) :
    lineBreaks (padLeft width c text) = lineBreaks text := by
  rw [padLeft, lineBreaks_append, lineBreaks_eq_zero_iff.mpr, Nat.zero_add]
  rw [String.toList_ofList]
  exact fun h => hfill (List.eq_of_mem_replicate h).symm

@[simp]
theorem lineBreaks_column (width n : Nat) : lineBreaks (column width n) = 0 :=
  (lineBreaks_padLeft (by decide) width (toString n)).trans (lineBreaks_repr n)

/-- Within quotes, no character stands as a line break. -/
theorem newline_notMem_quotedChar (c : Char) : '\n' ∉ quotedChar c := by
  unfold quotedChar
  split
  case h_7 _ _ _ _ hbreak _ _ =>
    split
    case isTrue =>
      rw [numbered, List.mem_append, List.mem_append, not_or, not_or]
      exact ⟨⟨by decide, newline_notMem_toDigits (by decide : 1 < 16) c.toNat⟩, by decide⟩
    case isFalse => exact fun h => hbreak (List.mem_singleton.mp h).symm
  all_goals decide

/-- **A quoted text is on one line.** -/
@[simp]
theorem lineBreaks_quoted (text : String) : lineBreaks (quoted text) = 0 := by
  rw [lineBreaks_eq_zero_iff, quoted, String.toList_ofList, List.cons_append, List.mem_cons,
    List.mem_append, List.mem_flatMap]
  rintro (h | ⟨c, -, h⟩ | h)
  · exact absurd h (by decide)
  · exact newline_notMem_quotedChar c h
  · exact absurd h (by decide)

end WasmContract.Text
