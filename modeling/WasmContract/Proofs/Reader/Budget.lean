import Mathlib.Algebra.BigOperators.Group.List.Basic
import WasmContract.Proofs.Section.Decoded

/-!
# Items are paid for with bytes

Whatever a reader makes of its input takes bytes to read, and no byte is used twice. So an item is
never larger than the bytes it was read from, for any measure of its size that charges at most one
unit to a byte (`Reader.Pays`). In this way the entries of a vector are paid for one by one: it is
the bytes that are there, and not the number that is announced, which bound the vector and the work
on it (`Reader.exists_manyCounted_eq_error`).

The characters of a text are paid for as well, even those that stand for bytes that are no text.
-/

namespace WasmContract

open Reader

/-! ### Texts -/

namespace Text.Utf8

/-- A byte outside a sequence completes a character or begins a sequence. -/
theorem length_single (b : UInt8) : (single b).length + (begin? b).toList.length = 1 := by
  unfold single
  split
  · rename_i hascii
    have hnone : begin? b = none := if_pos (UInt8.lt_trans hascii (by decide))
    rw [hnone]
    rfl
  · cases begin? b <;> rfl

/-- Every character takes a byte; a sequence that is under way has taken one before. -/
theorem length_decodeFrom (state : Option Unfinished) (bytes : List UInt8) :
    (decodeFrom state bytes).length ≤ bytes.length + state.toList.length := by
  fun_induction decodeFrom state bytes with
  | case1 => exact Nat.le_refl 0
  | case2 => exact Nat.le_refl 1
  | case3 b rest ih =>
    have hsingle := length_single b
    rw [List.length_append, List.length_cons]
    omega
  | case4 s b rest hrange hlast ih => exact Nat.le_succ_of_le (Nat.succ_le_succ ih)
  | case5 s b rest hrange hmore ih => exact Nat.le_succ_of_le ih
  | case6 s b rest hrange ih =>
    have hsingle := length_single b
    rw [List.length_cons, List.length_append, List.length_cons, Option.toList_some,
      List.length_singleton]
    omega

/-- A text has no more characters than the bytes it is read from. -/
theorem length_decode (bytes : List UInt8) : (decode bytes).length ≤ bytes.length := by
  rw [decode, String.length_ofList]
  exact length_decodeFrom none bytes

end Text.Utf8

namespace Reader

/-- The entries of a list, each of which counts one and what is in it. -/
def weigh {α : Type} (weight : α → Nat) (entries : List α) : Nat :=
  (entries.map fun a => 1 + weight a).sum

section Weigh

variable {α : Type} {weight : α → Nat} {entries : List α}

@[simp] theorem weigh_cons (a : α) :
    weigh weight (a :: entries) = 1 + weight a + weigh weight entries :=
  List.sum_cons

/-- Entries with nothing in them are counted. -/
theorem weigh_zero (entries : List α) : weigh (fun _ => 0) entries = entries.length := by
  induction entries with
  | nil => rfl
  | cons a others ih => rw [weigh_cons, ih, List.length_cons, Nat.add_comm]

end Weigh

variable {α β : Type} {r item : Reader α} {f : α → Reader β} {credit : Nat} {v : α → Nat}
  {w : β → Nat}

/-- Items of the reader are paid for: what they weigh takes as many bytes, except for a credit that
has been paid before. -/
def Pays (r : Reader α) (credit : Nat) (weight : α → Nat) : Prop :=
  ∀ ⦃input rest a⦄, r input = .ok (a, rest) → weight a + rest.length ≤ input.length + credit

namespace Pays

/-- What an item weighs and what is left of the input are together no more than there was. -/
theorem le {input rest : List UInt8} {a : α} (hr : r.Pays credit v)
    (h : r input = .ok (a, rest)) : v a + rest.length ≤ input.length + credit :=
  hr h

/-- An item that takes no bytes is paid for from the credit. -/
protected theorem pure {a : α} (h : v a ≤ credit) : (pure a : Reader α).Pays credit v := by
  intro input rest _ hread
  cases hread
  omega

/-- What the first part has paid is a credit for the second. -/
protected theorem bind (hr : r.Pays credit v) (hf : ∀ a, (f a).Pays (v a) w) :
    (r >>= f).Pays credit w := by
  intro input rest b h
  obtain ⟨a, middle, hfirst, hlater⟩ := bind_eq_ok_iff.mp h
  have := hr.le hfirst
  have := (hf a).le hlater
  omega

/-- Whatever is added to the credit may be added to the weight. -/
theorem charge (hr : r.Pays credit v) (more : Nat) :
    r.Pays (more + credit) fun a => more + v a := by
  intro input rest a h
  have := hr.le h
  dsimp only
  omega

/-- The first part is paid for by itself, and adds to the credit. -/
theorem next (hr : r.Pays 0 v) (hf : ∀ a, (f a).Pays (credit + v a) w) : (r >>= f).Pays credit w :=
  (hr.charge credit).bind hf

theorem mono {v' : α → Nat} (hr : r.Pays credit v) (h : ∀ a, v' a ≤ v a) : r.Pays credit v' := by
  intro input rest a hread
  have := hr.le hread
  have := h a
  omega

protected theorem map {g : α → β} (hr : r.Pays credit v) (h : ∀ a, w (g a) ≤ v a) :
    (g <$> r).Pays credit w :=
  hr.bind fun a => .pure (h a)

protected theorem check {p : Prop} [Decidable p] {e : DecodeError} {k : Unit → Reader α}
    (hk : (k ()).Pays credit v) : (if p then throw e >>= k else k ()).Pays credit v := by
  intro input rest a h
  split at h
  · cases h
  · exact hk h

/-- A reader that reads nothing from nothing takes a byte for each item. -/
theorem one (hr : Lawful r) (hnil : ∃ e, r [] = .error e) : r.Pays 0 fun _ => 1 := by
  intro input rest a h
  obtain ⟨used, rfl, hused⟩ := hr.ok h
  have := List.length_pos_iff.mpr (hused.ne_nil hnil)
  dsimp only
  rw [List.length_append]
  omega

protected theorem u32 : Leb128.u32.Pays 0 fun _ => 1 := one Leb128.lawful_u32 ⟨_, rfl⟩

protected theorem bytes (n : Nat) : (bytes n).Pays 0 List.length := by
  intro input rest front h
  obtain ⟨used, rfl, hused⟩ := (Lawful.bytes n).ok h
  obtain ⟨rfl, -⟩ := hused.eq_of_bytes
  rw [List.length_append, Nat.add_zero]

/-- The size pays for one more. -/
protected theorem sized : sized.Pays 0 fun front => 1 + front.length :=
  Pays.u32.next fun n => ((Pays.bytes n.toNat).charge 1)

/-- A text has no more characters than bytes, and its size pays for one more. -/
protected theorem name : name.Pays 0 fun text => 1 + text.length :=
  Pays.sized.map fun bytes => Nat.add_le_add_left (Text.Utf8.length_decode bytes) 1

/-- The slice of an item is paid for with its own bytes. -/
protected theorem captured (hr : Lawful r) : (captured r).Pays 0 fun p => p.2.length := by
  rintro input rest ⟨a, used⟩ h
  obtain ⟨-, rfl⟩ := hr.captured_eq_ok_iff.mp h
  rw [List.length_append, Nat.add_zero]

/-- What is read from a slice is paid for with the slice, which has been taken before. -/
protected theorem within (hr : r.Pays 0 v) (slice : List UInt8) :
    (within slice r).Pays slice.length fun p => v p.1 + p.2.length := by
  intro input rest p h
  obtain ⟨inner, hread, hpure⟩ := Except.bind_eq_ok_iff.mp h
  cases hpure
  have := hr.le hread
  dsimp only
  omega

/-- **Each entry pays for itself**, so a number of them does. -/
protected theorem many (h : item.Pays 0 fun a => 1 + v a) (n : Nat) :
    (many item n).Pays 0 (weigh v) := by
  induction n with
  | zero => exact .pure (Nat.le_refl 0)
  | succ n ih =>
    exact h.next fun a => ih.next fun others => .pure (by rw [weigh_cons]; omega)

/-- The count of a vector pays for one more. -/
protected theorem vec (h : item.Pays 0 fun a => 1 + v a) :
    (vec item).Pays 0 fun entries => 1 + weigh v entries :=
  Pays.u32.next fun n => (h.many n.toNat).charge 1

/-- Entries of which only the number matters. -/
theorem vec_length (h : item.Pays 0 fun _ => 1) :
    (vec item).Pays 0 fun entries => 1 + entries.length :=
  (Pays.vec (v := fun _ => 0) h).mono fun entries => by rw [weigh_zero]

end Pays

/-! ### Numbers that are not to be had -/

/-- Reads `n` items one after the other, and counts the items that it sets out to read. -/
def manyCounted (item : Reader α) :
    Nat → List UInt8 → Nat × Except DecodeError (List α × List UInt8)
  | 0, input => (0, .ok ([], input))
  | n + 1, input =>
    match item input with
    | .error e => (1, .error e)
    | .ok (first, middle) =>
      let (attempts, later) := manyCounted item n middle
      (attempts + 1, later.map fun p => (first :: p.1, p.2))

/-- Counting has no influence on what is read. -/
theorem manyCounted_snd (item : Reader α) (n : Nat) (input : List UInt8) :
    (manyCounted item n input).2 = many item n input := by
  induction n generalizing input with
  | zero => rfl
  | succ n ih =>
    rw [manyCounted, many, bind_apply]
    cases hfirst : item input with
    | error e => rfl
    | ok p =>
      rw [Except.ok_bind, bind_apply]
      dsimp only
      rw [ih]
      cases many item n p.2 <;> rfl

/-- Each attempt but the last takes a byte. -/
theorem manyCounted_fst_le (h : item.Pays 0 fun _ => 1) (n : Nat) (input : List UInt8) :
    (manyCounted item n input).1 ≤ input.length + 1 := by
  induction n generalizing input with
  | zero => exact Nat.zero_le _
  | succ n ih =>
    rw [manyCounted]
    cases hfirst : item input with
    | error e => exact Nat.le_add_left 1 _
    | ok p =>
      have hpaid := h.le hfirst
      have hlater := ih p.2
      dsimp only
      omega

/-- **More items than there are bytes** cannot be read, whatever number is announced, and this is
found out with at most one attempt more than there are bytes. -/
theorem exists_manyCounted_eq_error (h : item.Pays 0 fun _ => 1) {n : Nat} {input : List UInt8}
    (hn : input.length < n) :
    ∃ attempts e, manyCounted item n input = (attempts, .error e) ∧ many item n input = .error e ∧
      attempts ≤ input.length + 1 := by
  have hsnd := manyCounted_snd item n input
  cases hread : many item n input with
  | ok p =>
    have hpaid := (Pays.many (v := fun _ => 0) h n).le hread
    have hlength := ((Ensures.trivial item).many n hread).1
    rw [weigh_zero] at hpaid
    omega
  | error e =>
    exact ⟨_, e, Prod.ext rfl (hsnd.trans hread), rfl, manyCounted_fst_le h n input⟩

end Reader

end WasmContract
