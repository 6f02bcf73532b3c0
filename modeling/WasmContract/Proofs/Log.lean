import WasmContract.Proofs.Section.Payload

/-!
# Records about sections

Both ways to read a module report bytes that the subsections of a name section leave over, in the
midst of what they report about whole sections. `Logged.sectionRecords` sets these records aside.

Decoding the payload of a section makes no other records (`Section.sectionRecords_ofPayload`), so
what remains of a log is what the step functions of a traversal report themselves.
-/

namespace WasmContract

/-- A record about a subsection of a name section. -/
def Record.OfSubsection : Record → Prop
  | subsectionSkipped .. => True
  | _ => False

instance : DecidablePred Record.OfSubsection
  | .subsectionSkipped .. => .isTrue trivial
  | .skipped .. | .decoded .. | .unread .. | .dropped .. | .valid .. | .wrote .. => .isFalse id

namespace Logged

variable {ε ε' α β : Type}

/-- The records that are not about subsections of name sections. -/
def sectionRecords (x : Logged ε α) : List Record := x.records.filter fun r => ¬r.OfSubsection

@[simp] theorem sectionRecords_mapError (f : ε → ε') (x : Logged ε α) :
    (x.mapError f).sectionRecords = x.sectionRecords := rfl

section Bind

variable {x : Logged ε α} {a : α} {e : ε}

theorem sectionRecords_bind_of_ok (h : x.outcome = .ok a) (f : α → Logged ε β) :
    (x >>= f).sectionRecords = x.sectionRecords ++ (f a).sectionRecords := by
  rw [sectionRecords, records_bind_of_ok h, List.filter_append]
  rfl

theorem sectionRecords_bind_of_error (h : x.outcome = .error e) (f : α → Logged ε β) :
    (x >>= f).sectionRecords = x.sectionRecords := by
  rw [sectionRecords, records_bind_of_error h]
  rfl

/-- What follows makes no difference if it makes no records about sections. -/
theorem sectionRecords_bind_of_eq_nil {f : α → Logged ε β} (hf : ∀ a, (f a).sectionRecords = []) :
    (x >>= f).sectionRecords = x.sectionRecords := by
  cases h : x.outcome with
  | error e => rw [sectionRecords_bind_of_error h]
  | ok a => rw [sectionRecords_bind_of_ok h, hf, List.append_nil]

/-- A computation makes no records about sections if none of its parts does. -/
theorem sectionRecords_bind_eq_nil {f : α → Logged ε β} (hx : x.sectionRecords = [])
    (hf : ∀ a, (f a).sectionRecords = []) : (x >>= f).sectionRecords = [] :=
  (sectionRecords_bind_of_eq_nil hf).trans hx

end Bind

end Logged

/-! ### Payloads -/

open Logged

namespace NameSection

theorem sectionRecords_reportUnread (subsection : Frame) (unread : List UInt8) :
    (reportUnread subsection unread).sectionRecords = [] := by
  unfold reportUnread
  split <;> rfl

/-- What a subsection is reported for is not about the section. -/
theorem sectionRecords_absorb (names : NameSection) (subsection : Frame) :
    (absorb names subsection).sectionRecords = [] := by
  unfold absorb
  split
  · exact sectionRecords_bind_eq_nil rfl fun _ =>
      sectionRecords_bind_eq_nil (sectionRecords_reportUnread ..) fun _ => rfl
  · exact sectionRecords_bind_eq_nil rfl fun _ =>
      sectionRecords_bind_eq_nil (sectionRecords_reportUnread ..) fun _ => rfl
  · rfl

theorem sectionRecords_foldlM (names : NameSection) (subsections : List Frame) :
    (subsections.foldlM absorb names).sectionRecords = [] := by
  induction subsections generalizing names with
  | nil => rfl
  | cons subsection later ih =>
    rw [List.foldlM_cons]
    exact sectionRecords_bind_eq_nil (sectionRecords_absorb names subsection) fun _ => ih _

/-- A name section is decoded without a record about the section as a whole. -/
theorem sectionRecords_ofPayload (content : List UInt8) :
    (ofPayload content).sectionRecords = [] := by
  rw [ofPayload]
  refine sectionRecords_bind_eq_nil (sectionRecords_foldlM ..) fun names => ?_
  split <;> rfl

end NameSection

theorem CustomSection.sectionRecords_ofPayload (payload : List UInt8) :
    (ofPayload payload).sectionRecords = [] := by
  rw [ofPayload]
  refine sectionRecords_bind_eq_nil rfl fun found => ?_
  dsimp only
  split
  · exact sectionRecords_bind_eq_nil (NameSection.sectionRecords_ofPayload found.2) fun _ => rfl
  · rfl

/-- Decoding a payload makes no records about the section that it belongs to. -/
theorem Section.sectionRecords_ofPayload (id : UInt8) (payload : List UInt8) :
    (ofPayload id payload).sectionRecords = [] := by
  unfold ofPayload
  split
  · rfl
  · split
    · rfl
    · exact sectionRecords_bind_eq_nil (CustomSection.sectionRecords_ofPayload payload) fun _ => rfl

end WasmContract
