import WasmContract.Contract.Canonical
import WasmContract.Proofs.Contract.Bytes
import WasmContract.Proofs.Contract.Size
import WasmContract.Proofs.Contract.Verdict

/-!
# Canonicalisation

A byte stream has a canonical form when it is read strictly and its module has no faults, and the
canonical bytes are their own canonical form under all options.
-/

namespace WasmContract

variable {c : Contract} {m : Module} {bytes : List UInt8} {options : Options}

theorem Contract.outcome_validateLogged (c : Contract) (options : Options) :
    (c.validateLogged options).outcome = c.check options := by
  rw [validateLogged, Logged.outcome_bind, Logged.outcome_ofExcept]
  cases c.check options <;> rfl

/-- Reading strictly, then checking, then giving the bytes; an error says which of the two it is
from. -/
theorem canonicalize_eq (options : Options) (bytes : List UInt8) :
    canonicalize options bytes = ((Contract.read bytes).mapError .decode).bind fun c =>
      ((c.check options).mapError .validation).bind fun _ => .ok c.bytes := by
  rw [canonicalize, canonicalizeLogged, Logged.outcome_bind, Logged.outcome_mapError,
    ← Contract.read]
  simp only [Logged.outcome_bind, Logged.outcome_mapError, Contract.outcome_validateLogged,
    Logged.outcome_pure]

/-- **The verdict of canonicalisation.** A stream that cannot be read strictly has no canonical
form. Any other has one unless there is a fault of its module, and the first fault is reported. -/
theorem canonicalize_verdict (options : Options) (bytes : List UInt8) :
    (∀ e, Contract.read bytes = .error e → canonicalize options bytes = .error (.decode e)) ∧
    ∀ c, Contract.read bytes = .ok c → ∃ m, Module.decode bytes = .ok m ∧
      canonicalize options bytes =
        match (m.faults options).head? with
        | some fault => .error (.validation fault)
        | none => .ok c.bytes := by
  constructor
  · intro e hread
    rw [canonicalize_eq, hread]
    rfl
  · intro c hread
    obtain ⟨m, hdecode, hc⟩ := Contract.eq_ofModule_of_read hread
    refine ⟨m, hdecode, ?_⟩
    rw [canonicalize_eq, hread, Except.ok_mapError, Except.ok_bind, hc, Contract.check_ofModule]
    cases m.faults options <;> rfl

/-- A stream that is cut short, and a contract with a custom section, which is a fault unless it is
allowed. -/
theorem canonicalize_verdict_custom_section :
    let canonical : List UInt8 := [0x00, 0x61, 0x73, 0x6d, 0x01, 0x00, 0x00, 0x00,
      0x01, 0x04, 0x01, 0x60, 0x00, 0x00, 0x03, 0x02, 0x01, 0x00, 0x05, 0x03, 0x01, 0x00, 0x01,
      0x07, 0x11, 0x02, 0x04, 0x6d, 0x61, 0x69, 0x6e, 0x00, 0x00,
      0x06, 0x6d, 0x65, 0x6d, 0x6f, 0x72, 0x79, 0x02, 0x00, 0x0a, 0x04, 0x01, 0x02, 0x00, 0x0b]
    let bytes := canonical ++ [0x00, 0x02, 0x01, 0x61]
    let c : Contract := { types := [{}], functions := [0], hasCustom := true, bytes := canonical
                          exports := [⟨"main", .func, 0⟩, ⟨"memory", .memory, 0⟩] }
    Contract.read (bytes.take 7) = .error (.inHeader .unexpectedEnd) ∧
      canonicalize {} (bytes.take 7) = .error (.decode (.inHeader .unexpectedEnd)) ∧
      Contract.read bytes = .ok c ∧
      canonicalize {} bytes = .error (.validation .hasCustom) ∧
      canonicalize { allowCustom := true } bytes = .ok canonical := by
  intro canonical bytes c
  let m : Module := { sections := [.types [{}], .functions [0], .memories [⟨⟨0, 1, none⟩⟩],
    .exports [⟨"main", .func, 0⟩, ⟨"memory", .memory, 0⟩], .bodies [⟨[], [0x0b]⟩],
    .custom (.raw "a" [])] }
  have hcut : Contract.read (bytes.take 7) = .error (.inHeader .unexpectedEnd) := by
    decide +kernel
  have hread : Contract.read bytes = .ok c := by decide +kernel
  have hm : Module.decode bytes = .ok m := by decide +kernel
  have hfaults : m.faults {} = [.hasCustom] := by decide +kernel
  have hallowed : m.faults { allowCustom := true } = [] := by decide +kernel
  obtain ⟨_, hdecode, hverdict⟩ := (canonicalize_verdict {} bytes).2 c hread
  obtain ⟨_, hdecode', hverdict'⟩ :=
    (canonicalize_verdict { allowCustom := true } bytes).2 c hread
  cases hm.symm.trans hdecode
  cases hm.symm.trans hdecode'
  rw [hfaults] at hverdict
  rw [hallowed] at hverdict'
  exact ⟨hcut, (canonicalize_verdict {} (bytes.take 7)).1 _ hcut, hread, hverdict, hverdict'⟩

/-- Canonical bytes are those of a contract that was read strictly and passes the check. -/
theorem canonicalize_eq_ok_iff {canonical : List UInt8} :
    canonicalize options bytes = .ok canonical ↔
      ∃ c, Contract.read bytes = .ok c ∧ c.check options = .ok () ∧ c.bytes = canonical := by
  rw [canonicalize_eq]
  cases Contract.read bytes with
  | error e => simp
  | ok c =>
    simp only [Except.ok_mapError, Except.ok_bind, Except.ok.injEq, exists_eq_left']
    cases c.check options <;> simp

/-- A contract without start and custom sections is valid under all options if it is under some. -/
theorem Contract.check_of_check {options' : Options} (h : c.check options = .ok ()) :
    { c with hasStart := false, hasCustom := false }.check options' = .ok () := by
  rw [check_eq] at h ⊢
  obtain ⟨-, -, h⟩ := Except.bind_eq_ok_iff.mp h
  obtain ⟨-, -, h⟩ := Except.bind_eq_ok_iff.mp h
  exact h

/-- Canonical bytes are never longer than the bytes whose canonical form they are. -/
theorem length_le_of_canonicalize {canonical : List UInt8}
    (h : canonicalize options bytes = .ok canonical) : canonical.length ≤ bytes.length := by
  obtain ⟨c, hread, -, rfl⟩ := canonicalize_eq_ok_iff.mp h
  obtain ⟨stream, hstream, rfl⟩ := Contract.read_eq_ok_iff.mp hread
  exact (Contract.condenses_canonical hstream).length_le

/-- Canonical bytes are their own canonical form under all options. -/
theorem canonicalize_of_canonicalize {canonical : List UInt8}
    (h : canonicalize options bytes = .ok canonical) (options' : Options) :
    canonicalize options' canonical = .ok canonical := by
  obtain ⟨c, hread, hcheck, rfl⟩ := canonicalize_eq_ok_iff.mp h
  exact canonicalize_eq_ok_iff.mpr
    ⟨_, Contract.read_bytes hread, Contract.check_of_check hcheck, rfl⟩

/-- **Canonicalisation is idempotent.** The canonical bytes are read to the same contract, without
start and custom sections. So the canonical bytes of a valid contract are their own canonical bytes,
whatever the options. -/
theorem canonicalize_idempotent (bytes : List UInt8) :
    (∀ c, Contract.read bytes = .ok c →
      Contract.read c.bytes = .ok { c with hasStart := false, hasCustom := false }) ∧
    ∀ options canonical, canonicalize options bytes = .ok canonical →
      ∀ options', canonicalize options' canonical = .ok canonical := by
  constructor
  · intro c hread
    exact Contract.read_bytes hread
  · intro options canonical h options'
    exact canonicalize_of_canonicalize h options'

/-- A contract with a start and a custom section, and a valid one with a custom section alone. Both
have the same canonical bytes, which are read without these sections and are valid under the strict
options as well. -/
theorem canonicalize_idempotent_custom_section :
    let header : List UInt8 := [0x00, 0x61, 0x73, 0x6d, 0x01, 0x00, 0x00, 0x00]
    let front : List UInt8 := [0x01, 0x04, 0x01, 0x60, 0x00, 0x00, 0x03, 0x02, 0x01, 0x00]
    let start : List UInt8 := [0x08, 0x01, 0x00]
    let custom : List UInt8 := [0x00, 0x02, 0x01, 0x61]
    let exports : List UInt8 := [0x07, 0x11, 0x02, 0x04, 0x6d, 0x61, 0x69, 0x6e, 0x00, 0x00,
      0x06, 0x6d, 0x65, 0x6d, 0x6f, 0x72, 0x79, 0x02, 0x00]
    let canonical := header ++ front ++ exports
    let c : Contract := { types := [{}], functions := [0], bytes := canonical
                          exports := [⟨"main", .func, 0⟩, ⟨"memory", .memory, 0⟩]
                          hasStart := true, hasCustom := true }
    Contract.read (header ++ front ++ start ++ exports ++ custom) = .ok c ∧
      Contract.read canonical = .ok { c with hasStart := false, hasCustom := false } ∧
      canonicalize { allowCustom := true } (header ++ custom ++ front ++ exports) =
        .ok canonical ∧
      canonicalize {} canonical = .ok canonical := by
  intro header front start custom exports canonical c
  have hread : Contract.read (header ++ front ++ start ++ exports ++ custom) = .ok c := by
    decide +kernel
  have hcanonical : canonicalize { allowCustom := true }
      (header ++ custom ++ front ++ exports) = .ok canonical := by decide +kernel
  exact ⟨hread, (canonicalize_idempotent _).1 c hread, hcanonical,
    (canonicalize_idempotent _).2 _ _ hcanonical {}⟩

end WasmContract
