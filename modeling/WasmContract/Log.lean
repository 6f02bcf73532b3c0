import WasmContract.SectionKind
import WasmContract.Text.Numeral
import WasmContract.Text.Quoted

/-!
# Log records

What the library and its commands report while they work. A `Record` is one report, with a level and
a text. A `Logged` computation makes records as it goes and may fail; records made before a failure
are kept.
-/

namespace WasmContract

/-- How much attention a record deserves. -/
inductive Level where
  /-- Something was passed over. -/
  | warn
  /-- A result is there. -/
  | info
  /-- A step was taken. -/
  | debug
deriving DecidableEq, Repr, Inhabited

/-- The name of a level. -/
def Level.name : Level → String
  | warn => "WARN"
  | info => "INFO"
  | debug => "DEBUG"

/-- A report on one step of reading or validating a module, or on what came of it. -/
inductive Record where
  /-- A section was decoded with bytes left over, and these are passed over. -/
  | skipped (kind : SectionKind) (count offset : Nat)
  /-- A section was decoded. -/
  | decoded (kind : SectionKind) (offset entries : Nat)
  /-- A subsection of the names was read with bytes left over, and these are passed over. -/
  | subsectionSkipped (id : UInt8) (count size : Nat)
  /-- A section has bytes left over, which is an error. -/
  | unread (kind : SectionKind) (count : Nat)
  /-- A custom section is left out of the canonical bytes. -/
  | dropped (name : String)
  /-- A module is valid. -/
  | valid (imports functions : Nat)
  /-- The canonical bytes of a file have been written to another one. -/
  | wrote (size inputSize : Nat) (destination : String)
deriving DecidableEq, Repr, Inhabited

namespace Record

/-- The level of a record. -/
def level : Record → Level
  | skipped .. | subsectionSkipped .. | unread .. => .warn
  | wrote .. => .info
  | decoded .. | dropped .. | valid .. => .debug

/-- The text of a record. -/
def text : Record → String
  | skipped kind count offset =>
    s!"{count} bytes unread in {kind.name} section at offset {Text.hex offset}, skipping"
  | decoded kind offset entries =>
    s!"decoded {kind.name} section at offset {Text.hex offset}: {entries} entries"
  | subsectionSkipped id count size =>
    s!"{count}/{size} bytes unread in name subsection {id.toNat}, skipping"
  | unread kind count => s!"{count} bytes unread in {kind.name} section"
  | dropped name => s!"dropping custom section {Text.quoted name}"
  | valid imports functions => s!"module valid: {imports} imports, {functions} functions"
  | wrote size inputSize destination =>
    s!"wrote {size} bytes ({inputSize} in) to {destination}"

/-- A record on one line: its level, then its text. -/
def line (r : Record) : String := s!"{r.level.name} {r.text}"

end Record

/-- A computation that makes records and ends in a value or an error. -/
structure Logged (ε α : Type) where
  /-- The records made, in order. -/
  records : List Record
  /-- The value, or the error that ended the computation. -/
  outcome : Except ε α

namespace Logged

variable {ε ε' α β : Type}

/-- A value with nothing to report. -/
protected def pure (a : α) : Logged ε α := ⟨[], .ok a⟩

/-- Goes on with the value of a computation, and keeps the records of both parts; after an error
there is nothing to go on with. -/
protected def bind (x : Logged ε α) (f : α → Logged ε β) : Logged ε β :=
  match x.outcome with
  | .ok a => ⟨x.records ++ (f a).records, (f a).outcome⟩
  | .error e => ⟨x.records, .error e⟩

instance : Monad (Logged ε) where
  pure := Logged.pure
  bind := Logged.bind

/-- An error with nothing to report. -/
def fail (e : ε) : Logged ε α := ⟨[], .error e⟩

/-- Makes a record. -/
def report (r : Record) : Logged ε Unit := ⟨[r], .ok ()⟩

/-- A result with nothing to report. -/
def ofExcept (result : Except ε α) : Logged ε α := ⟨[], result⟩

/-- Replaces the error, if there is one, and keeps the records. -/
def mapError (f : ε → ε') (x : Logged ε α) : Logged ε' α := ⟨x.records, x.outcome.mapError f⟩

/-! ### Records and outcomes of compound computations -/

@[simp] theorem outcome_pure (a : α) : (pure a : Logged ε α).outcome = .ok a := rfl

@[simp] theorem outcome_fail (e : ε) : (fail e : Logged ε α).outcome = .error e := rfl

@[simp] theorem outcome_report (r : Record) : (report r : Logged ε Unit).outcome = .ok () := rfl

@[simp] theorem outcome_ofExcept (result : Except ε α) : (ofExcept result).outcome = result := rfl

/-- The outcome is that of the parts, and records have no influence on it. -/
@[simp] theorem outcome_bind (x : Logged ε α) (f : α → Logged ε β) :
    (x >>= f).outcome = x.outcome.bind fun a => (f a).outcome := by
  change (Logged.bind x f).outcome = _
  unfold Logged.bind
  split <;> simp_all [Except.bind]

/-- The second part makes its records behind those of the first. -/
theorem records_bind_of_ok {x : Logged ε α} {a : α} (h : x.outcome = .ok a)
    (f : α → Logged ε β) : (x >>= f).records = x.records ++ (f a).records := by
  change (Logged.bind x f).records = _
  simp [Logged.bind, h]

theorem records_bind_of_error {x : Logged ε α} {e : ε} (h : x.outcome = .error e)
    (f : α → Logged ε β) : (x >>= f).records = x.records := by
  change (Logged.bind x f).records = _
  simp [Logged.bind, h]

@[simp] theorem outcome_mapError (f : ε → ε') (x : Logged ε α) :
    (x.mapError f).outcome = x.outcome.mapError f := rfl

end Logged

end WasmContract
