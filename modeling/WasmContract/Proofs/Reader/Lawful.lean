import WasmContract.Proofs.Except
import WasmContract.Reader.Counted

/-!
# The laws of readers

What a reader does with the front of its input must not depend on what lies behind it: sections are
read out of streams that go on, and are put together to new streams. Two notions say so.

* `Reads r used a`: from the bytes `used`, whatever follows them, `r` reads `a` and leaves exactly
  what follows. This is the form in which written items are shown to be read back.
* `Lawful r`: every success of `r` is of this form, every failure but a shortage of input is final,
  so no further bytes can change it, and the causes of failure are those of malformed bytes.

Both pass through the combinators that readers are made of, so a compound reader has them as soon as
its parts do.
-/

namespace WasmContract

/-- The bytes themselves are at fault: the error is none of those that arise about bytes left over,
about entries to be written, or about the parsing machinery. -/
def DecodeError.OfBytes : DecodeError → Prop
  | trailingBytes .. | exportBound .. | parser _ => False
  | _ => True

namespace Reader

variable {α β : Type} {r : Reader α} {f : α → Reader β} {input used rest : List UInt8} {a : α}
  {b : β} {e : DecodeError}

/-! ### Opening compound readers -/

theorem bind_apply (r : Reader α) (f : α → Reader β) (input : List UInt8) :
    (r >>= f) input = (r input).bind fun p => f p.1 p.2 := rfl

theorem bind_eq_ok_iff : (r >>= f) input = .ok (b, rest) ↔
    ∃ a middle, r input = .ok (a, middle) ∧ f a middle = .ok (b, rest) := by
  rw [bind_apply, Except.bind_eq_ok_iff, Prod.exists]

theorem bind_eq_error_iff : (r >>= f) input = .error e ↔
    r input = .error e ∨ ∃ a middle, r input = .ok (a, middle) ∧ f a middle = .error e := by
  rw [bind_apply, Except.bind_eq_error_iff, Prod.exists]

theorem byte_eq_ok_iff {c : UInt8} : byte input = .ok (c, rest) ↔ input = c :: rest := by
  cases input with
  | nil => simp
  | cons d later => simp

theorem captured_eq_error_iff : captured r input = .error e ↔ r input = .error e := by
  unfold captured
  cases r input <;> simp [bind, Except.bind, pure, Except.pure]

theorem map_eq_bind (g : α → β) (r : Reader α) : g <$> r = r >>= fun a => pure (g a) := rfl

@[simp] theorem throw_apply (e : DecodeError) (input : List UInt8) :
    (throw e : Reader α) input = .error e := rfl

@[simp] theorem pure_apply (a : α) (input : List UInt8) :
    (pure a : Reader α) input = .ok (a, input) := rfl

/-- A check fails by itself, or the reading goes on and fails later. -/
theorem check_eq_error_iff {p : Prop} [Decidable p] {e' : DecodeError} {k : Unit → Reader α} :
    (if p then throw e' >>= k else k ()) input = .error e ↔
      (p ∧ e = e') ∨ (¬p ∧ k () input = .error e) := by
  split
  · rename_i hp
    have hthrow : (throw e' >>= k : Reader α) input = .error e' := rfl
    simp [hthrow, hp, eq_comm]
  · rename_i hp
    simp [hp]

/-! ### Reading one item whatever follows -/

/-- From the bytes `used`, whatever follows them, the reader reads `a` and leaves what follows. -/
def Reads (r : Reader α) (used : List UInt8) (a : α) : Prop :=
  ∀ rest, r (used ++ rest) = .ok (a, rest)

protected theorem Reads.pure (a : α) : (pure a : Reader α).Reads [] a := fun _ => rfl

/-- Parts that are read from bytes one behind the other are read from these in a row. -/
protected theorem Reads.bind {later : List UInt8} (h : r.Reads used a)
    (hf : (f a).Reads later b) : (r >>= f).Reads (used ++ later) b := by
  intro rest
  rw [bind_eq_ok_iff]
  refine ⟨a, later ++ rest, ?_, hf rest⟩
  rw [List.append_assoc]
  exact h (later ++ rest)

protected theorem Reads.map (g : α → β) (h : r.Reads used a) : (g <$> r).Reads used (g a) := by
  rw [map_eq_bind, ← List.append_nil used]
  exact h.bind (.pure (g a))

protected theorem Reads.byte (b : UInt8) : byte.Reads [b] b := fun _ => rfl

protected theorem Reads.bytes (front : List UInt8) : (bytes front.length).Reads front front :=
  fun rest => bytes_append rfl rest

/-- Items written one after the other are read one after the other. -/
protected theorem Reads.many {item : Reader α} {write : α → List UInt8} {entries : List α}
    (h : ∀ a ∈ entries, item.Reads (write a) a) :
    (many item entries.length).Reads (entries.flatMap write) entries := by
  induction entries with
  | nil => exact .pure []
  | cons a others ih =>
    have hfirst : item.Reads (write a) a := h a (by simp)
    have hothers := ih fun b hb => h b (by simp [hb])
    rw [List.length_cons, many, List.flatMap_cons]
    refine hfirst.bind ?_
    rw [← List.append_nil (others.flatMap write)]
    exact hothers.bind (.pure (a :: others))

/-- The slice of an item is what the item was read from. -/
protected theorem Reads.captured (h : r.Reads used a) : (captured r).Reads used (a, used) := by
  intro rest
  simp [Reader.captured, h rest, bind, Except.bind, pure, Except.pure]

/-- An item takes bytes if none is read from nothing. -/
theorem Reads.ne_nil (h : r.Reads used a) (hnil : ∃ e, r [] = .error e) : used ≠ [] := by
  rintro rfl
  obtain ⟨e, he⟩ := hnil
  have hread : r [] = .ok (a, []) := h []
  rw [he] at hread
  cases hread

/-- The bytes of an item do not begin those of another one. -/
theorem Reads.eq_of_isPrefix {used' : List UInt8} {a' : α} (h : r.Reads used a)
    (h' : r.Reads used' a') (hbegins : used <+: used') : used = used' ∧ a = a' := by
  obtain ⟨rest, rfl⟩ := hbegins
  have hread := h' []
  rw [List.append_nil, h rest] at hread
  cases hread
  exact ⟨(List.append_nil used).symm, rfl⟩

/-- The last part of an item, which is put together from it and what was read before. -/
protected theorem Reads.last (h : r.Reads used a) (g : α → β) :
    (r >>= fun a => pure (g a)).Reads used (g a) :=
  h.map g

/-- A check that is passed. -/
protected theorem Reads.check {p : Prop} [Decidable p] {k : Unit → Reader α} (hp : ¬p)
    (hk : (k ()).Reads used a) : (if p then throw e >>= k else k ()).Reads used a := by
  rwa [if_neg hp]

/-! ### Lawful readers -/

/-- What follows the bytes of an item has no influence on the reader. -/
structure Lawful (r : Reader α) : Prop where
  /-- An item is read from a front of the input, and from this front whatever follows it. -/
  ok : ∀ {input rest : List UInt8} {a : α}, r input = .ok (a, rest) →
    ∃ used, input = used ++ rest ∧ r.Reads used a
  /-- A failure that is no shortage of input is final. -/
  error : ∀ {input : List UInt8} {e : DecodeError}, r input = .error e → e ≠ .unexpectedEnd →
    ∀ later, r (input ++ later) = .error e
  /-- A failure is the fault of the bytes. -/
  cause : ∀ {input : List UInt8} {e : DecodeError}, r input = .error e → e.OfBytes

namespace Lawful

protected theorem pure (a : α) : Lawful (pure a : Reader α) where
  ok := by
    rintro input rest _ h
    simp only [pure_apply, Except.ok.injEq, Prod.mk.injEq] at h
    obtain ⟨rfl, rfl⟩ := h
    exact ⟨[], rfl, .pure a⟩
  error := by simp
  cause := by simp

/-- A reader that always fails is lawful if it blames the bytes. -/
protected theorem throw {e : DecodeError} (he : e.OfBytes) : Lawful (throw e : Reader α) where
  ok := by simp
  error := by
    intro input e' h _ later
    simpa using h
  cause := by
    intro input e' h
    cases h
    exact he

/-- **Lawful readers in a row** are lawful. The second one reads what the first one leaves, and this
goes on when the input does; so what is final for either of them is final for both. -/
protected theorem bind (hr : Lawful r) (hf : ∀ a, Lawful (f a)) : Lawful (r >>= f) where
  ok := by
    intro input rest b h
    obtain ⟨a, middle, h₁, h₂⟩ := bind_eq_ok_iff.mp h
    obtain ⟨used, rfl, hused⟩ := hr.ok h₁
    obtain ⟨later, rfl, hlater⟩ := (hf a).ok h₂
    exact ⟨used ++ later, (List.append_assoc ..).symm, hused.bind hlater⟩
  error := by
    intro input e h he later
    rw [bind_eq_error_iff] at h ⊢
    rcases h with h | ⟨a, middle, h₁, h₂⟩
    · exact .inl (hr.error h he later)
    · -- the first part reads the same with more input, and the failure of the second is final
      obtain ⟨used, rfl, hused⟩ := hr.ok h₁
      refine .inr ⟨a, middle ++ later, ?_, (hf a).error h₂ he later⟩
      rw [List.append_assoc]
      exact hused _
  cause := by
    intro input e h
    rcases bind_eq_error_iff.mp h with h | ⟨a, middle, -, h⟩
    · exact hr.cause h
    · exact (hf a).cause h

protected theorem map (g : α → β) (hr : Lawful r) : Lawful (g <$> r) :=
  hr.bind fun a => .pure (g a)

/-- A check that throws before the reading goes on. -/
protected theorem check {p : Prop} [Decidable p] {e : DecodeError} {k : Unit → Reader α}
    (he : e.OfBytes) (hk : Lawful (k ())) : Lawful (if p then throw e >>= k else k ()) := by
  split
  · exact Lawful.throw (α := α) he
  · exact hk

/-- Readers that go from byte to byte with a state: on each byte they fail, or end with a value, or
go on in another state. -/
theorem bytewise {σ : Type} {r : σ → Reader α} (hnil : ∀ s, r s [] = .error .unexpectedEnd)
    (hcons : ∀ s b, (∃ e : DecodeError, e.OfBytes ∧ ∀ rest, r s (b :: rest) = .error e) ∨
      (∃ a, ∀ rest, r s (b :: rest) = .ok (a, rest)) ∨ ∃ s', ∀ rest, r s (b :: rest) = r s' rest)
    (s : σ) : Lawful (r s) where
  ok := by
    intro input rest a h
    -- each byte may change the state, so the induction is for all states at once
    induction input generalizing s with
    | nil =>
      rw [hnil] at h
      cases h
    | cons b left ih =>
      rcases hcons s b with ⟨e, -, hstep⟩ | ⟨a', hstep⟩ | ⟨s', hstep⟩
      · rw [hstep] at h
        cases h
      · rw [hstep] at h
        cases h
        exact ⟨[b], rfl, hstep⟩
      · rw [hstep] at h
        obtain ⟨used, rfl, hused⟩ := ih s' h
        exact ⟨b :: used, rfl, fun rest => (hstep _).trans (hused rest)⟩
  error := by
    intro input e h he later
    induction input generalizing s with
    | nil =>
      rw [hnil] at h
      cases h
      exact absurd rfl he
    | cons b left ih =>
      rw [List.cons_append]
      rcases hcons s b with ⟨e', -, hstep⟩ | ⟨a, hstep⟩ | ⟨s', hstep⟩
      · rw [hstep] at h ⊢
        exact h
      · rw [hstep] at h
        cases h
      · rw [hstep] at h ⊢
        exact ih s' h
  cause := by
    intro input e h
    induction input generalizing s with
    | nil =>
      rw [hnil] at h
      cases h
      trivial
    | cons b left ih =>
      rcases hcons s b with ⟨e', he', hstep⟩ | ⟨a, hstep⟩ | ⟨s', hstep⟩
      · rw [hstep] at h
        cases h
        exact he'
      · rw [hstep] at h
        cases h
      · rw [hstep] at h
        exact ih s' h

protected theorem byte : Lawful byte :=
  bytewise (r := fun _ : Unit => byte) (fun _ => rfl) (fun _ b => .inr (.inl ⟨b, fun _ => rfl⟩)) ()

protected theorem bytes (n : Nat) : Lawful (bytes n) where
  ok := by
    intro input rest front h
    unfold bytes at h
    split at h
    · rename_i hn
      simp only [pure, Except.pure, Except.ok.injEq, Prod.mk.injEq] at h
      obtain ⟨rfl, rfl⟩ := h
      refine ⟨input.take n, (List.take_append_drop n input).symm, fun rest => ?_⟩
      exact bytes_append (List.length_take_of_le hn) rest
    · cases h
  error := by
    intro input e h he
    exact absurd (bytes_eq_error_iff.mp h).2 he
  cause := by
    intro input e h
    rw [(bytes_eq_error_iff.mp h).2]
    trivial

/-- Items in a row are read lawfully, by induction on their number. -/
protected theorem many {item : Reader α} (h : Lawful item) : ∀ n, Lawful (many item n)
  | 0 => .pure []
  | n + 1 => h.bind fun a => (Lawful.many h n).bind fun others => .pure (a :: others)

/-- The slice of an item is what the rest of the input has lost, and it can be told from both. -/
theorem captured_eq_ok_iff (hr : Lawful r) : captured r input = .ok ((a, used), rest) ↔
    r input = .ok (a, rest) ∧ input = used ++ rest := by
  constructor
  · intro h
    cases hread : r input with
    | error e => simp [captured, hread, bind, Except.bind] at h
    | ok inner =>
      obtain ⟨front, rfl, -⟩ := hr.ok hread
      simp only [captured, hread, bind, Except.bind, pure, Except.pure, Except.ok.injEq,
        Prod.mk.injEq] at h
      obtain ⟨⟨rfl, rfl⟩, rfl⟩ := h
      simp
  · rintro ⟨hread, rfl⟩
    simp [captured, hread, bind, Except.bind, pure, Except.pure]

/-- Reading from a slice takes nothing from the input. -/
protected theorem within {item : Reader α} (h : Lawful item) (slice : List UInt8) :
    Lawful (within slice item) := by
  unfold within
  cases hread : item slice with
  | error e => exact Lawful.throw (α := α × List UInt8) (h.cause hread)
  | ok inner => exact .pure inner

/-- A lawful reader stays lawful when the slice is kept. -/
protected theorem captured (hr : Lawful r) : Lawful (captured r) where
  ok := by
    rintro input rest ⟨a, used⟩ h
    obtain ⟨hread, rfl⟩ := hr.captured_eq_ok_iff.mp h
    obtain ⟨used', heq, hused⟩ := hr.ok hread
    obtain rfl := List.append_cancel_right heq
    exact ⟨used, rfl, hused.captured⟩
  error := by
    intro input e h he later
    rw [captured_eq_error_iff] at h ⊢
    exact hr.error h he later
  cause h := hr.cause (captured_eq_error_iff.mp h)

/-- **Bytes of an item that are cut short** end unexpectedly, wherever they are cut. -/
theorem eq_error_of_take {n : Nat} (hr : Lawful r) (h : r.Reads used a) (hn : n < used.length) :
    r (used.take n) = .error .unexpectedEnd := by
  have hwhole := h []
  rw [List.append_nil, ← List.take_append_drop n used] at hwhole
  cases hfront : r (used.take n) with
  | ok p =>
    -- the same item would be read from all bytes, and would leave those cut off
    obtain ⟨front, hfront, hreads⟩ := hr.ok hfront
    rw [hfront, List.append_assoc, hreads, Except.ok.injEq, Prod.mk.injEq] at hwhole
    obtain ⟨-, hback⟩ := List.append_eq_nil_iff.mp hwhole.2
    exact absurd (List.drop_eq_nil_iff.mp hback) (Nat.not_le_of_lt hn)
  | error e =>
    by_cases he : e = .unexpectedEnd
    · rw [he]
    · cases hwhole.symm.trans (hr.error hfront he _)

end Lawful

end Reader

end WasmContract
