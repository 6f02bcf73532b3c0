import WasmContract.Proofs.Reader.Parts
import WasmContract.Writer

/-!
# Condensed bytes

What is written takes as few bytes as it can. `Condenses short long` compares bytes with those that
they stand in for: they are the same, or there are fewer of them. It passes through the way in which
bytes are put together, so a comparison of whole sections comes down to one of integers, and the
shortest encoding of an integer condenses every other (`Leb128.condenses_encode`).
-/

namespace WasmContract

/-- The bytes `short` are the bytes `long`, or fewer. -/
def Condenses (short long : List UInt8) : Prop := short = long ∨ short.length < long.length

namespace Condenses

variable {short long short' long' : List UInt8}

protected theorem refl (bytes : List UInt8) : Condenses bytes bytes := .inl rfl

protected theorem nil (long : List UInt8) : Condenses [] long := by
  cases long with
  | nil => exact .refl []
  | cons b later => exact .inr (Nat.succ_pos _)

/-- Condensed bytes are no more than before. -/
theorem length_le (h : Condenses short long) : short.length ≤ long.length := by
  rcases h with rfl | h
  · exact Nat.le_refl _
  · exact Nat.le_of_lt h

/-- Bytes that condense others and are as many are the same bytes. -/
theorem eq_of_length_eq (h : Condenses short long) (hlength : short.length = long.length) :
    short = long := by
  rcases h with h | h
  · exact h
  · exact absurd hlength (Nat.ne_of_lt h)

/-- What is condensed part by part is condensed as a whole. -/
protected theorem append (h : Condenses short long) (h' : Condenses short' long') :
    Condenses (short ++ short') (long ++ long') := by
  have hle := h.length_le
  have hle' := h'.length_le
  rcases h with rfl | h
  · rcases h' with rfl | h'
    · exact .refl _
    · exact .inr (by simp only [List.length_append]; omega)
  · exact .inr (by simp only [List.length_append]; omega)

/-- Bytes that condense others part by part are the same only if they are so in each part. -/
theorem append_eq_append_iff (h : Condenses short long) (h' : Condenses short' long') :
    short ++ short' = long ++ long' ↔ short = long ∧ short' = long' := by
  refine ⟨fun heq => ?_, fun ⟨heq, heq'⟩ => heq ▸ heq' ▸ rfl⟩
  have hlength := congrArg List.length heq
  have hle := h.length_le
  have hle' := h'.length_le
  rw [List.length_append, List.length_append] at hlength
  exact ⟨h.eq_of_length_eq (by omega), h'.eq_of_length_eq (by omega)⟩

/-- Where the later part is shorter, the earlier one need only be as short. -/
theorem append_of_lt (hle : short.length ≤ long.length) (hlt : short'.length < long'.length) :
    Condenses (short ++ short') (long ++ long') :=
  .inr (by simp only [List.length_append]; omega)

end Condenses

/-! ### Integers -/

namespace Leb128

variable {bytes : List UInt8} {value other : UInt32}

/-- **The shortest encoding** condenses every run of groups that spells the same number. -/
theorem condenses_encode (hrun : Terminated bytes) (hvalue : natValue bytes = value.toNat) :
    Condenses (encode value) bytes := by
  obtain ⟨m, hm⟩ := Nat.exists_eq_add_of_le' hrun.length_pos
  have hle : (encode value).length ≤ bytes.length := by
    rw [hm, length_encode_le_iff, ← hm, ← hvalue]
    exact natValue_lt bytes
  rcases Nat.eq_or_lt_of_le hle with heq | hlt
  · exact .inl <| (terminated_encode value).eq_of_natValue_eq hrun heq <|
      (natValue_encode value).trans hvalue.symm
  · exact .inr hlt

/-- A smaller number takes no more bytes. -/
theorem length_encode_mono (h : value.toNat ≤ other.toNat) :
    (encode value).length ≤ (encode other).length := by
  obtain ⟨m, hm⟩ := Nat.exists_eq_add_of_le' (terminated_encode other).length_pos
  have hother := length_encode_le_iff.mp (Nat.le_of_eq hm)
  rw [hm]
  exact length_encode_le_iff.mpr (Nat.lt_of_le_of_lt h hother)

end Leb128

/-! ### Counted and sized items -/

open Reader

variable {size bytes payload rest : List UInt8} {n : UInt32}

/-- Writing an integer that was read takes no more bytes than reading it did. -/
theorem Reader.condenses_of_u32 (h : Leb128.u32 (size ++ rest) = .ok (n, rest)) :
    Condenses (Leb128.encode n) size := by
  obtain ⟨found, happend, hrun, -, hn⟩ := Leb128.u32_eq_ok_iff.mp h
  obtain rfl := List.append_cancel_right happend
  exact Leb128.condenses_encode hrun hn.symm

/-- An announced number may become smaller where what it announces becomes shorter. -/
theorem condenses_announced {short long : List UInt8} {m : Nat}
    (hsize : Condenses (Leb128.encode n) size) (hm : m ≤ n.toNat) (h : Condenses short long)
    (hlt : m < n.toNat → short.length < long.length) :
    Condenses (Leb128.encode m.toUInt32 ++ short) (size ++ long) := by
  have hvalue : m.toUInt32.toNat = m :=
    Leb128.toNat_toUInt32 (Nat.lt_of_le_of_lt hm n.toNat_lt)
  -- a smaller number may take as many bytes, but then what it announces is shorter
  rcases Nat.eq_or_lt_of_le hm with heq | hm
  · have hn : m.toUInt32 = n := UInt32.toNat_inj.mp (hvalue.trans heq)
    rw [hn]
    exact hsize.append h
  · refine .append_of_lt ?_ (hlt hm)
    exact Nat.le_trans (Leb128.length_encode_mono (by omega)) hsize.length_le

/-! ### Readers of condensed items -/

/-- What is written of an item condenses any bytes that the item is read from. -/
def Reader.Condensing {α : Type} (r : Reader α) (write : α → List UInt8) : Prop :=
  ∀ ⦃used a⦄, r.Reads used a → Condenses (write a) used

namespace Reader

variable {α : Type} {item : Reader α} {write : α → List UInt8} {pieces : List (List UInt8)}
  {entries short : List α}

theorem condensing_u32 : Leb128.u32.Condensing Leb128.encode := fun _ _ h => condenses_of_u32 (h [])

/-- A payload that condenses another does so with its size in front, which is no greater. -/
theorem condenses_sized {used payload short : List UInt8} (h : sized.Reads used payload)
    (hshort : Condenses short payload) : Condenses (Writer.sized short) used := by
  obtain ⟨n, size, later, rfl, hsize, hbytes⟩ :=
    h.exists_of_bind Leb128.lawful_u32 fun _ => .bytes _
  obtain ⟨rfl, hlength⟩ := hbytes.eq_of_bytes
  have hle := hshort.length_le
  exact condenses_announced (condensing_u32 hsize) (by omega) hshort (by omega)

theorem condensing_sized : sized.Condensing Writer.sized := fun _ _ h => condenses_sized h (.refl _)

/-- Some of the items take no more bytes than all of them were read from, and fewer if an item is
left out. -/
theorem Condensing.flatMap_sublist (h : item.Condensing write) (hnil : ∃ e, item [] = .error e)
    (hpieces : List.Forall₂ item.Reads pieces entries) (hsub : short.Sublist entries) :
    Condenses (short.flatMap write) pieces.flatten ∧
      (short.length < entries.length → (short.flatMap write).length < pieces.flatten.length) := by
  induction hsub generalizing pieces with
  | slnil =>
    cases hpieces
    exact ⟨.refl [], fun hlt => absurd hlt (Nat.lt_irrefl _)⟩
  | @cons others _ a _ ih =>
    obtain ⟨piece, later, hfirst, hlater, rfl⟩ := List.forall₂_cons_right_iff.mp hpieces
    have hle := (ih hlater).1.length_le
    -- the item that is left out was read from some byte
    have hpos := List.length_pos_iff.mpr (hfirst.ne_nil hnil)
    have hlt : (others.flatMap write).length < (List.flatten (piece :: later)).length := by
      rw [List.flatten_cons, List.length_append]
      omega
    exact ⟨.inr hlt, fun _ => hlt⟩
  | cons_cons a _ ih =>
    obtain ⟨piece, later, hfirst, hlater, rfl⟩ := List.forall₂_cons_right_iff.mp hpieces
    obtain ⟨hcondenses, hlt⟩ := ih hlater
    refine ⟨(h hfirst).append hcondenses, fun hlength => ?_⟩
    have hle := (h hfirst).length_le
    have hlt := hlt (Nat.lt_of_succ_lt_succ hlength)
    rw [List.flatMap_cons, List.flatten_cons, List.length_append, List.length_append]
    omega

/-- A vector of some of the entries condenses the vector that all were read from. -/
theorem Condensing.vec_sublist (h : item.Condensing write) (hitem : Lawful item)
    (hnil : ∃ e, item [] = .error e) {used : List UInt8} (hread : (vec item).Reads used entries)
    (hsub : short.Sublist entries) : Condenses (Writer.vec write short) used := by
  obtain ⟨n, count, pieces, rfl, hcount, hlength, hpieces⟩ := hread.exists_of_vec hitem
  obtain ⟨hcondenses, hlt⟩ := h.flatMap_sublist hnil hpieces hsub
  rw [hlength] at hlt
  exact condenses_announced (condensing_u32 hcount) (hlength ▸ hsub.length_le) hcondenses hlt

end Reader

end WasmContract
