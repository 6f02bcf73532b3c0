/-!
# Ranges of code points

A class of characters as a table of ranges of code points. `InRanges` says which characters belong
to the class, and `Ascending` that the table is in order.
-/

namespace WasmContract.Text

/-- A character lies in one of the ranges of code points, whose ends are included. -/
def InRanges (ranges : List (Nat × Nat)) (c : Char) : Prop :=
  ∃ range ∈ ranges, range.1 ≤ c.toNat ∧ c.toNat ≤ range.2

instance (ranges : List (Nat × Nat)) (c : Char) : Decidable (InRanges ranges c) :=
  inferInstanceAs (Decidable (∃ _ ∈ _, _))

/-- No range is empty, and each range ends before the next one starts, without touching it. -/
def Ascending (ranges : List (Nat × Nat)) : Prop :=
  (∀ range ∈ ranges, range.1 ≤ range.2) ∧
    ∀ neighbours ∈ ranges.zip ranges.tail, neighbours.1.2 + 1 < neighbours.2.1

instance (ranges : List (Nat × Nat)) : Decidable (Ascending ranges) :=
  inferInstanceAs (Decidable (_ ∧ _))

end WasmContract.Text
