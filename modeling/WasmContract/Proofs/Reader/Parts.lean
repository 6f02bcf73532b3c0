import Mathlib.Data.List.Forall2
import WasmContract.Proofs.Leb128.Unsigned

/-!
# The parts of what was read

The bytes that an item was read from fall into those of its parts. This is the converse of reading
written items: `Reads` passes through the combinators in both directions.
-/

namespace WasmContract.Reader.Reads

variable {α β : Type} {r item : Reader α} {f : α → Reader β} {g : α → β} {used : List UInt8}
  {a a' : α} {b : β} {entries : List α}

theorem eq_of_pure (h : (pure a : Reader α).Reads used a') : used = [] ∧ a' = a := by
  have hread := h []
  rw [List.append_nil] at hread
  cases hread
  exact ⟨rfl, rfl⟩

theorem eq_of_bytes {n : Nat} {front : List UInt8} (h : (bytes n).Reads used front) :
    used = front ∧ front.length = n := by
  have hread := h []
  rw [List.append_nil] at hread
  unfold bytes at hread
  split at hread
  · rename_i hn
    simp only [pure, Except.pure, Except.ok.injEq, Prod.mk.injEq] at hread
    obtain ⟨rfl, hrest⟩ := hread
    have hlength : used.length ≤ n := List.drop_eq_nil_iff.mp hrest
    rw [List.take_of_length_le hlength]
    exact ⟨rfl, Nat.le_antisymm hlength hn⟩
  · cases hread

/-- Bytes that two readers in a row take fall into those of the first and those of the second. -/
theorem exists_of_bind (hr : Lawful r) (hf : ∀ a, Lawful (f a)) (h : (r >>= f).Reads used b) :
    ∃ a first later, used = first ++ later ∧ r.Reads first a ∧ (f a).Reads later b := by
  have hread := h []
  rw [List.append_nil] at hread
  obtain ⟨a, middle, h₁, h₂⟩ := bind_eq_ok_iff.mp hread
  obtain ⟨first, rfl, hfirst⟩ := hr.ok h₁
  obtain ⟨later, rfl, hlater⟩ := (hf a).ok h₂
  exact ⟨a, first, later, congrArg _ (List.append_nil later), hfirst, hlater⟩

/-- When the last part is the only one that takes bytes, it takes all of them. -/
theorem exists_of_last (hr : Lawful r) (h : (r >>= fun a => pure (g a)).Reads used b) :
    ∃ a, b = g a ∧ r.Reads used a := by
  obtain ⟨a, first, later, rfl, hfirst, hlater⟩ := h.exists_of_bind hr fun a => .pure (g a)
  obtain ⟨rfl, rfl⟩ := hlater.eq_of_pure
  rw [List.append_nil]
  exact ⟨a, rfl, hfirst⟩

/-- The slice that is kept of an item consists of its bytes. -/
theorem of_captured {found : List UInt8} (hr : Lawful r)
    (h : (captured r).Reads used (a, found)) : r.Reads used a ∧ found = used := by
  obtain ⟨hread, happend⟩ := hr.captured_eq_ok_iff.mp (h [])
  obtain ⟨front, hfront, hreads⟩ := hr.ok hread
  obtain rfl := List.append_cancel_right happend
  obtain rfl := List.append_cancel_right hfront
  exact ⟨hreads, rfl⟩

/-- An unsigned integer of seven bits is its own encoding. -/
theorem eq_of_u7 {b : UInt8} (h : Leb128.u7.Reads used b) : used = [b] := by
  have hread := h []
  rw [List.append_nil] at hread
  obtain ⟨⟨v, length⟩, middle, hread, hcheck⟩ := bind_eq_ok_iff.mp hread
  obtain ⟨run, rfl, hrun, rfl, -, hv⟩ := Leb128.unsigned_eq_ok_iff.mp hread
  dsimp only at hcheck
  split at hcheck
  · cases hcheck
  · rename_i hlength
    cases hcheck
    obtain ⟨c, rfl⟩ := List.length_eq_one_iff.mp (not_not.mp hlength)
    cases hrun with
    | last hlast =>
      -- a run of one group: the byte has no top bit, so it is the number that it spells
      have hc : c.toNat < 128 := Nat.lt_of_not_le (mt Leb128.continues_iff.mpr hlast)
      rw [Leb128.natValue, Leb128.natValue, Leb128.toNat_group, Nat.mod_eq_of_lt hc] at hv
      have hvalue : v.toUInt8 = c := by
        rw [← UInt8.toNat_inj, UInt32.toNat_toUInt8]
        omega
      rw [hvalue, List.append_nil]
    | next _ hlater => cases hlater

/-- The bytes of a number of items fall into those of the single items. -/
theorem exists_of_many {n : Nat} (hitem : Lawful item) (h : (many item n).Reads used entries) :
    entries.length = n ∧
      ∃ pieces, used = pieces.flatten ∧ List.Forall₂ item.Reads pieces entries := by
  induction n generalizing used entries with
  | zero =>
    obtain ⟨rfl, rfl⟩ := h.eq_of_pure
    exact ⟨rfl, [], rfl, .nil⟩
  | succ n ih =>
    obtain ⟨a, first, later, rfl, hfirst, hlater⟩ :=
      h.exists_of_bind hitem fun a => (Lawful.many hitem n).bind fun others => .pure (a :: others)
    obtain ⟨others, rfl, hothers⟩ := hlater.exists_of_last (.many hitem n)
    obtain ⟨rfl, pieces, rfl, hpieces⟩ := ih hothers
    exact ⟨rfl, first :: pieces, rfl, .cons hfirst hpieces⟩

/-- The bytes of a vector fall into those of its count and of its entries. -/
theorem exists_of_vec (hitem : Lawful item) (h : (vec item).Reads used entries) :
    ∃ n count pieces, used = count ++ List.flatten pieces ∧ Leb128.u32.Reads count n ∧
      entries.length = n.toNat ∧ List.Forall₂ item.Reads pieces entries := by
  obtain ⟨n, count, later, rfl, hcount, hlater⟩ :=
    h.exists_of_bind Leb128.lawful_u32 fun _ => .many hitem _
  obtain ⟨hlength, pieces, rfl, hpieces⟩ := hlater.exists_of_many hitem
  exact ⟨n, count, pieces, rfl, hcount, hlength, hpieces⟩

end WasmContract.Reader.Reads
