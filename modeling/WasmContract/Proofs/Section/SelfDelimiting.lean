import Mathlib.Data.Nat.Find
import WasmContract.Proofs.Section.Spelled

/-!
# Payloads that arrive in pieces

A payload shows by itself where the declared content of its section ends, unless the section is a
custom section, whose content takes up whatever there is. So a section that has been decoded stays
as it is when more bytes arrive, and so does a failure that is no shortage of input
(`Section.payloads_are_self_delimiting`).

It follows that the bytes need not be there all at once. As they arrive, a reader asks for more up
to one point, and its answer is settled from there on (`Reader.DecidedAt`); the point is the same
however the bytes are cut into pieces.
-/

namespace WasmContract

open Reader

/-! ### Inputs that grow -/

namespace Reader

variable {α : Type} {r : Reader α} {input used front : List UInt8} {a : α} {e : DecodeError}

/-- As the bytes of an input arrive, the reader asks for more of them before the point, and its
answer is settled from there on. -/
structure DecidedAt (r : Reader α) (input : List UInt8) (point : Nat) : Prop where
  /-- The point lies within the input. -/
  le_length : point ≤ input.length
  /-- Before the point there are not enough bytes. -/
  before : ∀ n < point, r (input.take n) = .error .unexpectedEnd
  /-- From the point on, the reader gives the same item and leaves all bytes behind the point, or
  fails with the same error. -/
  settled : (∃ a, ∀ n ≥ point, r (input.take n) = .ok (a, (input.take n).drop point)) ∨
    ∃ e ≠ .unexpectedEnd, ∀ n ≥ point, r (input.take n) = .error e

namespace Lawful

/-- A proper beginning of the bytes of an item ends unexpectedly. -/
theorem eq_error_of_isPrefix (hr : Lawful r) (h : r.Reads used a) (hfront : front <+: used)
    (hne : front ≠ used) : r front = .error .unexpectedEnd := by
  have hlength : front.length < used.length :=
    Nat.lt_of_le_of_ne hfront.length_le (mt hfront.eq_of_length hne)
  rw [List.prefix_iff_eq_take.mp hfront]
  exact hr.eq_error_of_take h hlength

/-- An item is decided at the end of its bytes. -/
theorem decidedAt_of_reads (hr : Lawful r) (h : r.Reads used a) (unread : List UInt8) :
    r.DecidedAt (used ++ unread) used.length where
  le_length := by
    rw [List.length_append]
    exact Nat.le_add_right ..
  before n hn := by
    rw [List.take_append_of_le_length (Nat.le_of_lt hn)]
    exact hr.eq_error_of_take h hn
  settled := by
    refine .inl ⟨a, fun n hn => ?_⟩
    rw [List.take_append, List.take_of_length_le hn, List.drop_left]
    exact h _

/-- Where an input fails, its beginnings fail as well: by a shortage of input or in the same way. -/
theorem eq_error_take (hr : Lawful r) (h : r input = .error e) (n : Nat) :
    r (input.take n) = .error .unexpectedEnd ∨ r (input.take n) = .error e := by
  rw [← List.take_append_drop n input] at h
  cases hfront : r (input.take n) with
  | ok p =>
    obtain ⟨used, htake, hused⟩ := hr.ok hfront
    rw [htake, List.append_assoc, hused] at h
    cases h
  | error e' =>
    refine or_iff_not_imp_left.mpr fun hne => ?_
    rw [← hr.error hfront (fun he => hne (congrArg _ he)) (input.drop n), h]

/-- A failure that is no shortage of input is decided where it first occurs. -/
theorem exists_decidedAt_of_error (hr : Lawful r) (h : r input = .error e)
    (he : e ≠ .unexpectedEnd) : ∃ point, r.DecidedAt input point := by
  classical
  have hfails : ∃ n, r (input.take n) = .error e := ⟨input.length, by rwa [List.take_length]⟩
  refine ⟨Nat.find hfails, ?_, fun n hn => ?_, .inr ⟨e, he, fun n hn => ?_⟩⟩
  · exact Nat.find_min' hfails (by rwa [List.take_length])
  · exact (hr.eq_error_take h n).resolve_right (Nat.find_min hfails hn)
  · obtain ⟨later, hlater⟩ := List.take_prefix_take_left (l := input) hn
    rw [← hlater]
    exact hr.error (Nat.find_spec hfails) he later

/-- **A reader decides at one point**, or asks for more bytes as long as there are any. -/
theorem exists_decidedAt (hr : Lawful r) (input : List UInt8) :
    (∀ n, r (input.take n) = .error .unexpectedEnd) ∨ ∃ point, r.DecidedAt input point := by
  cases h : r input with
  | ok p =>
    obtain ⟨used, rfl, hused⟩ := hr.ok h
    exact .inr ⟨used.length, hr.decidedAt_of_reads hused p.2⟩
  | error e =>
    by_cases he : e = .unexpectedEnd
    · subst he
      exact .inl fun n => or_self_iff.mp (hr.eq_error_take h n)
    · exact .inr (hr.exists_decidedAt_of_error h he)

end Lawful

end Reader

/-! ### Payloads -/

namespace Section

variable {id : UInt8}

/-- Payloads are decoded lawfully, except for those of custom sections: every other kind of section
has a lawful reader, and an identifier of no kind is refused whatever the payload. -/
theorem lawful_ofPayload (h : id ≠ SectionKind.custom.code) :
    Lawful fun payload => (ofPayload id payload).outcome := by
  unfold ofPayload
  cases hkind : SectionKind.ofCode? id.toNat with
  | none => exact Lawful.throw (α := Section) (e := .invalidSectionId id) trivial
  | some kind =>
    rw [SectionKind.ofCode?_eq_some_iff, Int.natCast_inj, UInt8.toNat_inj] at hkind
    obtain ⟨reader, hreader⟩ := Option.ne_none_iff_exists'.mp
      (mt reader?_eq_none_iff.mp fun hcustom => h (hkind.trans (congrArg _ hcustom)))
    simp only [hreader]
    exact lawful_of_reader? hreader

/-- **Payloads are self-delimiting**, except for those of custom sections. A section that is decoded
from a payload has used up a front of it. From this front the same section is decoded whatever
follows it, all of which is then left unread, and a proper beginning of the front ends unexpectedly.
If a payload cannot be decoded for any other reason than a shortage of input, it fails for the same
reason whatever follows it. -/
theorem payloads_are_self_delimiting (h : id ≠ SectionKind.custom.code) :
    (∀ payload s unread, (ofPayload id payload).outcome = .ok (s, unread) →
      ∃ used, payload = used ++ unread ∧
        (∀ later, (ofPayload id (used ++ later)).outcome = .ok (s, later)) ∧
        ∀ front, front <+: used → front ≠ used →
          (ofPayload id front).outcome = .error .unexpectedEnd) ∧
    ∀ payload e, (ofPayload id payload).outcome = .error e → e ≠ .unexpectedEnd →
      ∀ later, (ofPayload id (payload ++ later)).outcome = .error e := by
  have hlawful := lawful_ofPayload h
  refine ⟨fun payload s unread hread => ?_, fun payload e herror he => hlawful.error herror he⟩
  obtain ⟨used, rfl, hused⟩ := hlawful.ok hread
  exact ⟨used, rfl, hused, fun front => hlawful.eq_error_of_isPrefix hused⟩

/-- A table that is imported with a maximum, which is written in two bytes, and an import of a kind
that does not exist. The cut lies before the maximum that the flags announce. -/
theorem payloads_are_self_delimiting_table_maximum :
    let used : List UInt8 := [0x01, 0x01, 0x65, 0x01, 0x74, 0x01, 0x70, 0x01, 0x02, 0x83, 0x00]
    let table := imports [⟨"e", "t", .table ⟨.anyFunc, ⟨1, 2, some 3⟩⟩⟩]
    let foreign : List UInt8 := [0x02, 0x00, 0x00, 0x04]
    let decode payload := (ofPayload SectionKind.imports.code payload).outcome
    SectionKind.imports.code ≠ SectionKind.custom.code ∧
      decode (used ++ [0x0b]) = .ok (table, [0x0b]) ∧
      (∀ later, decode (used ++ later) = .ok (table, later)) ∧
      used.take 9 <+: used ∧ used.take 9 ≠ used ∧
      decode (used.take 9) = .error .unexpectedEnd ∧
      decode foreign = .error (.invalidExternalKind 4) ∧
      DecodeError.invalidExternalKind 4 ≠ .unexpectedEnd ∧
      ∀ later, decode (foreign ++ later) = .error (.invalidExternalKind 4) := by
  intro used table foreign decode
  have himports : SectionKind.imports.code ≠ SectionKind.custom.code := by decide
  have htable : decode (used ++ [0x0b]) = .ok (table, [0x0b]) := by decide +kernel
  have hforeign : decode foreign = .error (.invalidExternalKind 4) := by decide +kernel
  have hkind : DecodeError.invalidExternalKind 4 ≠ .unexpectedEnd := by decide
  have hbegins : used.take 9 <+: used := List.take_prefix 9 used
  have hproper : used.take 9 ≠ used := by decide
  obtain ⟨hdecoded, hfailed⟩ := payloads_are_self_delimiting himports
  obtain ⟨front, hfront, hstays, hcut⟩ := hdecoded _ _ _ htable
  obtain rfl : used = front := List.append_cancel_right hfront
  exact ⟨himports, htable, hstays, hbegins, hproper, hcut _ hbegins hproper, hforeign, hkind,
    hfailed _ _ hforeign hkind⟩

/-- A shortage of input may be there to stay: here the local variables of a function need more bytes
than the size of its body grants them. -/
example (later : List UInt8) :
    (ofPayload SectionKind.bodies.code ([0x01, 0x01, 0x01] ++ later)).outcome =
      .error .unexpectedEnd := rfl

/-- A custom section does not end before its payload does. -/
example (later : List UInt8) :
    (ofPayload SectionKind.custom.code ([0x01, 0x78] ++ later)).outcome =
      .ok (custom (.raw "x" later), []) := rfl

/-- **A payload is decided at one point.** As the bytes of a payload arrive, its decoder asks for
more of them up to this point; from there on it gives the same section, or fails for the same
reason. -/
theorem exists_decidedAt (h : id ≠ SectionKind.custom.code) (payload : List UInt8) :
    (∀ n, (ofPayload id (payload.take n)).outcome = .error .unexpectedEnd) ∨
      ∃ point, DecidedAt (fun front => (ofPayload id front).outcome) payload point :=
  (lawful_ofPayload h).exists_decidedAt payload

end Section

end WasmContract
