import WasmContract.Module.WellFormed
import WasmContract.Proofs.Condensed
import WasmContract.Proofs.Section.Payload

/-!
# Decoded sections

Whatever a section was decoded from, it is well formed, and the numbers of entries in it and the
sizes of the bytes that it keeps can be announced (`Section.Countable`). Texts are no such bytes: a
name may take more bytes than the one it was read from, since a byte that is no part of a text is
read as a replacement character of three.
-/

namespace WasmContract

open Reader

namespace Reader

variable {α β : Type} {r item : Reader α} {f : α → Reader β} {P : α → Prop} {Q : β → Prop}

/-- Every item that is read has the property. -/
def Ensures (r : Reader α) (P : α → Prop) : Prop :=
  ∀ ⦃input rest a⦄, r input = .ok (a, rest) → P a

namespace Ensures

protected theorem trivial (r : Reader α) : r.Ensures fun _ => True := fun _ _ _ _ => trivial

protected theorem pure {a : α} (h : P a) : (pure a : Reader α).Ensures P := by
  intro input rest _ hread
  cases hread
  exact h

/-- What the first part ensures may be used for the second. -/
protected theorem bind (hr : r.Ensures P) (hf : ∀ a, P a → (f a).Ensures Q) :
    (r >>= f).Ensures Q := by
  intro input rest b h
  obtain ⟨a, middle, hfirst, hlater⟩ := bind_eq_ok_iff.mp h
  exact hf a (hr hfirst) hlater

protected theorem map {g : α → β} (hr : r.Ensures P) (hg : ∀ a, P a → Q (g a)) :
    (g <$> r).Ensures Q :=
  hr.bind fun a ha => .pure (hg a ha)

protected theorem check {p : Prop} [Decidable p] {e : DecodeError} {k : Unit → Reader α}
    (hk : ¬p → (k ()).Ensures P) : (if p then throw e >>= k else k ()).Ensures P := by
  intro input rest a h
  split at h
  · cases h
  · exact hk ‹_› h

protected theorem many (h : item.Ensures P) (n : Nat) :
    (many item n).Ensures fun entries => entries.length = n ∧ ∀ a ∈ entries, P a := by
  induction n with
  | zero => exact .pure ⟨rfl, List.forall_mem_nil _⟩
  | succ n ih =>
    exact h.bind fun a ha => ih.bind fun others hothers =>
      .pure ⟨congrArg Nat.succ hothers.1, List.forall_mem_cons.mpr ⟨ha, hothers.2⟩⟩

/-- The number of entries was announced in 32 bits. -/
protected theorem vec (h : item.Ensures P) : (vec item).Ensures fun entries =>
    entries.length < 2 ^ 32 ∧ ∀ a ∈ entries, P a := by
  refine Ensures.bind (.trivial Leb128.u32) fun n _ => ?_
  intro input rest entries hread
  obtain ⟨hlength, hP⟩ := h.many n.toNat hread
  exact ⟨hlength ▸ n.toNat_lt, hP⟩

protected theorem bytes (n : Nat) : (bytes n).Ensures fun front => front.length = n := by
  intro input rest front h
  unfold bytes at h
  split at h
  · cases h
    exact List.length_take_of_le ‹_›
  · cases h

protected theorem sized : sized.Ensures fun bytes => bytes.length < 2 ^ 32 := by
  refine Ensures.bind (.trivial Leb128.u32) fun n _ => ?_
  intro input rest front hread
  exact Ensures.bytes n.toNat hread ▸ n.toNat_lt

protected theorem captured (h : r.Ensures P) : (captured r).Ensures fun p => P p.1 := by
  intro input rest p hread
  obtain ⟨⟨a, left⟩, hr, hpure⟩ := Except.bind_eq_ok_iff.mp hread
  cases hpure
  exact h hr

end Ensures

end Reader

/-! ### Types -/

/-- A function type has the usual constructor and at most one result, as both are checked. -/
theorem FuncType.ensures :
    FuncType.reader.Ensures fun t => t.WellFormed ∧ t.params.length < 2 ^ 32 := by
  refine Ensures.bind (.trivial _) fun _ _ => .check fun _ => ?_
  refine (Ensures.trivial ValueType.reader).vec.bind fun params hparams => ?_
  refine Ensures.bind (.trivial _) fun results _ => .check fun hresults => ?_
  exact .pure ⟨⟨rfl, Nat.le_of_not_lt hresults⟩, hparams.1⟩

/-- Limits have a maximum if their flags say so. -/
theorem Limits.ensures : Limits.reader.Ensures Limits.WellFormed := by
  refine Ensures.bind (.trivial _) fun flags _ => Ensures.bind (.trivial _) fun initial _ => ?_
  split
  · exact Ensures.bind (.trivial _) fun size _ => .pure (by simpa [Limits.WellFormed])
  · exact .pure (by simpa [Limits.WellFormed])

theorem TableType.ensures : TableType.reader.Ensures fun t => t.limits.WellFormed :=
  Ensures.bind (.trivial _) fun _ _ => Limits.ensures.bind fun _ hlimits => .pure hlimits

theorem MemoryType.ensures : MemoryType.reader.Ensures fun t => t.limits.WellFormed :=
  Limits.ensures.bind fun _ hlimits => .pure hlimits

/-! ### Constant initialisers -/

namespace InitExpr

variable {input rest : List UInt8} {opcode : Opcode} {value : Int64}

/-- A constant instruction that was read and the end of the expression make an initialiser. -/
theorem exists_of_constant (h : constant input = .ok ((opcode, value), rest)) :
    ∃ operand, input = opcode.code :: operand ++ rest ∧
      WellFormed ⟨opcode, value, opcode.code :: operand ++ [Opcode.finish.code]⟩ := by
  obtain ⟨code, left, hbyte, hoperand⟩ := bind_eq_ok_iff.mp h
  obtain rfl := byte_eq_ok_iff.mp hbyte
  cases hcode : Opcode.ofCode? code.toNat with
  | none =>
    rw [hcode] at hoperand
    cases hoperand
  | some found =>
    have hfound := Opcode.ofCode?_eq_some_iff.mp hcode
    rw [Int.natCast_inj, UInt8.toNat_inj] at hfound
    subst hfound
    rw [hcode] at hoperand
    cases found with
    | finish => cases hoperand
    | i32Const =>
      -- the operand is read as a number of 32 bits, which the initialiser keeps in 64
      obtain ⟨v, middle, hread, hpure⟩ := bind_eq_ok_iff.mp hoperand
      cases hpure
      obtain ⟨operand, rfl, hrun, hlength, hv⟩ := Leb128.i32_eq_ok_iff.mp hread
      have hwiden : v.toInt64.toInt = v.toInt := Int32.toInt_toInt64 v
      refine ⟨operand, rfl, operand, rfl, hrun, hv.symm.trans hwiden.symm, hlength, ?_⟩
      rw [hwiden]
      exact ⟨v.le_toInt, v.toInt_lt⟩
    | i64Const =>
      obtain ⟨v, middle, hread, hpure⟩ := bind_eq_ok_iff.mp hoperand
      cases hpure
      obtain ⟨operand, rfl, hrun, hlength, hv⟩ := Leb128.i64_eq_ok_iff.mp hread
      exact ⟨operand, rfl, operand, rfl, hrun, hv.symm, hlength⟩

/-- **An initialiser that was read is well formed.** -/
theorem ensures : InitExpr.reader.Ensures InitExpr.WellFormed := by
  intro input rest e h
  obtain ⟨⟨⟨opcode, value⟩, raw⟩, middle, hcaptured, hpure⟩ := bind_eq_ok_iff.mp h
  cases hpure
  obtain ⟨hread, rfl⟩ := lawful_expression.captured_eq_ok_iff.mp hcaptured
  obtain ⟨instruction, left, hconstant, hread⟩ := bind_eq_ok_iff.mp hread
  obtain ⟨code, left', hbyte, hcheck⟩ := bind_eq_ok_iff.mp hread
  split at hcheck
  · cases hcheck
  · rename_i hcode
    cases hcheck
    obtain ⟨operand, happend, hwell⟩ := exists_of_constant hconstant
    rw [byte_eq_ok_iff.mp hbyte, not_not.mp hcode] at happend
    have hraw : raw = opcode.code :: operand ++ [Opcode.finish.code] :=
      List.append_cancel_right (happend.trans (by simp))
    rwa [hraw]

end InitExpr

/-! ### Entries -/

theorem GlobalVariable.ensures : GlobalVariable.reader.Ensures fun g => g.init.WellFormed :=
  Ensures.bind (.trivial _) fun _ _ => InitExpr.ensures.bind fun _ hinit => .pure hinit

/-- Of what may be imported, tables and memories have limits to be well formed. -/
theorem ImportDesc.ensures (kind : ExternalKind) :
    (ImportDesc.reader kind).Ensures ImportDesc.WellFormed := by
  cases kind with
  | func => exact Ensures.map (.trivial _) fun _ _ => trivial
  | table => exact TableType.ensures.map fun _ htype => htype
  | memory => exact MemoryType.ensures.map fun _ htype => htype
  | global => exact Ensures.map (.trivial _) fun _ _ => trivial

theorem Import.ensures : Import.reader.Ensures fun i => i.desc.WellFormed :=
  Ensures.bind (.trivial _) fun _ _ => Ensures.bind (.trivial _) fun _ _ =>
    Ensures.bind (.trivial _) fun kind _ => (ImportDesc.ensures kind).bind fun _ hdesc =>
      .pure hdesc

theorem ElementSegment.ensures : ElementSegment.reader.Ensures fun e =>
    e.offset.WellFormed ∧ e.functions.length < 2 ^ 32 :=
  Ensures.bind (.trivial _) fun _ _ => InitExpr.ensures.bind fun _ hoffset =>
    (Ensures.trivial Leb128.u32).vec.bind fun _ hfunctions => .pure ⟨hoffset, hfunctions.1⟩

theorem DataSegment.ensures : DataSegment.reader.Ensures fun d =>
    d.offset.WellFormed ∧ d.data.length < 2 ^ 32 :=
  Ensures.bind (.trivial _) fun _ _ => InitExpr.ensures.bind fun _ hoffset =>
    Ensures.sized.bind fun _ hdata => .pure ⟨hoffset, hdata⟩

/-! ### Function bodies -/

theorem Leb128.exists_of_i7 {input rest : List UInt8} {n : Int8}
    (h : i7 input = .ok (n, rest)) : ∃ b, input = b :: rest := by
  obtain ⟨⟨v, length⟩, middle, hread, hcheck⟩ := bind_eq_ok_iff.mp h
  obtain ⟨bytes, rfl, -, rfl, -⟩ := signed_eq_ok_iff.mp hread
  dsimp only at hcheck
  split at hcheck
  · cases hcheck
  · rename_i hlength
    cases hcheck
    obtain ⟨b, rfl⟩ := List.length_eq_one_iff.mp (not_not.mp hlength)
    exact ⟨b, rfl⟩

/-- The one byte of a value type is the one that is written. -/
theorem ValueType.condensing : ValueType.reader.Condensing ValueType.encode := by
  have hall : ∀ n : Fin 256, ∀ p ∈ (ValueType.reader [.ofFin n]).toOption,
      p.1.encode = [.ofFin n] := by
    decide +kernel
  intro used t h
  -- seven bits are one byte, so there are 256 cases
  have hread := h []
  rw [List.append_nil] at hread
  obtain ⟨code, middle, hcode, hmatch⟩ := bind_eq_ok_iff.mp hread
  obtain ⟨b, rfl⟩ := Leb128.exists_of_i7 hcode
  cases hfound : ValueType.ofCode? code.toInt with
  | none =>
    rw [hfound] at hmatch
    cases hmatch
  | some found =>
    rw [hfound] at hmatch
    cases hmatch
    exact .inl (hall b.toFin (t, []) (by rw [UInt8.ofFin_toFin, hread]; rfl))

theorem LocalGroup.condensing : LocalGroup.reader.Condensing LocalGroup.encode := by
  intro used g h
  obtain ⟨n, first, later, rfl, hcount, hlater⟩ :=
    h.exists_of_bind Leb128.lawful_u32 fun _ => ValueType.lawful_reader.bind fun _ => .pure _
  obtain ⟨t, rfl, htype⟩ := hlater.exists_of_last ValueType.lawful_reader
  exact (condensing_u32 hcount).append (ValueType.condensing htype)

/-- The size of a body was announced in 32 bits. What is written of the local variables takes no
more bytes than they were read from, so the size of what is written can be announced as well. -/
theorem FunctionBody.ensures : FunctionBody.reader.Ensures fun b =>
    b.locals.length < 2 ^ 32 ∧
      (Writer.vec LocalGroup.encode b.locals ++ b.code).length < 2 ^ 32 := by
  intro input rest b h
  obtain ⟨body, middle, hbody, hwithin⟩ := bind_eq_ok_iff.mp h
  obtain ⟨⟨locals, code⟩, left, hwithin, hpure⟩ := bind_eq_ok_iff.mp hwithin
  cases hpure
  obtain ⟨⟨locals', code'⟩, hread, hpure⟩ := Except.bind_eq_ok_iff.mp hwithin
  cases hpure
  obtain ⟨used, rfl, hlocals⟩ := (lawful_vec LocalGroup.lawful_reader).ok hread
  have hsize : (used ++ code).length < 2 ^ 32 := Ensures.sized hbody
  -- the groups of variables are written in no more bytes than they were read from
  have hle := (LocalGroup.condensing.vec_sublist LocalGroup.lawful_reader ⟨_, rfl⟩ hlocals
    (.refl locals)).length_le
  refine ⟨((Ensures.trivial LocalGroup.reader).vec hread).1, ?_⟩
  dsimp only
  rw [List.length_append] at hsize ⊢
  omega

/-! ### Sections -/

/-- Every number of entries can be announced in 32 bits, and so can the size of whatever a section
keeps as bytes. -/
def Section.Countable (s : Section) : Prop :=
  s.size < 2 ^ 32 ∧
    match s with
    | custom (.names names) => names.functionNames.length < 2 ^ 32
    | custom (.raw _ content) => content.length < 2 ^ 32
    | types entries => ∀ t ∈ entries, t.params.length < 2 ^ 32
    | elements entries => ∀ e ∈ entries, e.functions.length < 2 ^ 32
    | bodies entries => ∀ b ∈ entries, b.locals.length < 2 ^ 32 ∧
        (Writer.vec LocalGroup.encode b.locals ++ b.code).length < 2 ^ 32
    | data entries => ∀ d ∈ entries, d.data.length < 2 ^ 32
    | _ => True

namespace NameSection

/-- The names of functions that a subsection gives can be counted in 32 bits. -/
theorem length_functionNames_of_absorb {names names' : NameSection} {subsection : Frame}
    (hnames : names.functionNames.length < 2 ^ 32)
    (h : (absorb names subsection).outcome = .ok names') :
    names'.functionNames.length < 2 ^ 32 := by
  by_cases hname : subsection.id = 0
  · rw [outcome_absorb_moduleName hname, Except.map_eq_ok_iff] at h
    obtain ⟨p, -, rfl⟩ := h
    exact hnames
  · by_cases hfunctions : subsection.id = 1
    · rw [outcome_absorb_functionNames hfunctions, Except.map_eq_ok_iff] at h
      obtain ⟨p, hread, rfl⟩ := h
      exact ((Ensures.trivial FunctionName.reader).vec hread).1
    · rw [outcome_absorb_other hname hfunctions] at h
      cases h
      exact hnames

/-- The names of functions can be counted in 32 bits after a number of subsections, be they given by
the last of these or kept from before. -/
theorem length_functionNames_of_foldlM {names names' : NameSection} {subsections : List Frame}
    (hnames : names.functionNames.length < 2 ^ 32)
    (h : (subsections.foldlM absorb names).outcome = .ok names') :
    names'.functionNames.length < 2 ^ 32 := by
  induction subsections generalizing names with
  | nil =>
    cases h
    exact hnames
  | cons subsection later ih =>
    rw [List.foldlM_cons, Logged.outcome_bind, Except.bind_eq_ok_iff] at h
    obtain ⟨next, hnext, hlater⟩ := h
    exact ih (length_functionNames_of_absorb hnames hnext) hlater

/-- The names of functions in a name section can be counted in 32 bits. -/
theorem length_functionNames_of_ofPayload {names : NameSection} {payload : List UInt8}
    (h : (ofPayload payload).outcome = .ok names) : names.functionNames.length < 2 ^ 32 := by
  obtain ⟨subsections, -, hfound⟩ := outcome_ofPayload_eq_ok_iff.mp h
  have hnone : ({} : NameSection).functionNames.length < 2 ^ 32 := by decide
  exact length_functionNames_of_foldlM hnone hfound

end NameSection

/-- A custom section that was decoded has names exactly if it has their name. -/
theorem CustomSection.ensures {payload : List UInt8} {c : CustomSection}
    (hpayload : payload.length < 2 ^ 32) (h : (CustomSection.ofPayload payload).outcome = .ok c) :
    (Section.custom c).WellFormed ∧ (Section.custom c).Countable := by
  obtain ⟨name, content, hname, ⟨-, names, hnames, rfl⟩ | ⟨hother, rfl⟩⟩ :=
    outcome_ofPayload_eq_ok_iff.mp h
  · have hlength := NameSection.length_functionNames_of_ofPayload hnames
    exact ⟨trivial, Nat.one_lt_two_pow (by decide), hlength⟩
  · obtain ⟨used, rfl, -⟩ := lawful_name.ok hname
    rw [List.length_append] at hpayload
    exact ⟨hother, Nat.one_lt_two_pow (by decide), by dsimp only; omega⟩

namespace Section

/-- **Whatever is read as a section is well formed**, by the cases of its kind. -/
theorem ensures_of_reader? {kind : SectionKind} {reader : Reader Section}
    (h : reader? kind = some reader) : reader.Ensures fun s => s.WellFormed ∧ s.Countable := by
  cases kind <;> simp only [reader?, reduceCtorEq, Option.some.injEq] at h <;> subst h
  case types =>
    exact FuncType.ensures.vec.map fun _ h =>
      ⟨fun t ht => (h.2 t ht).1, h.1, fun t ht => (h.2 t ht).2⟩
  case imports => exact Import.ensures.vec.map fun _ h => ⟨h.2, h.1, trivial⟩
  case functions =>
    exact (Ensures.trivial Leb128.u32).vec.map fun _ h => ⟨trivial, h.1, trivial⟩
  case tables => exact TableType.ensures.vec.map fun _ h => ⟨h.2, h.1, trivial⟩
  case memories => exact MemoryType.ensures.vec.map fun _ h => ⟨h.2, h.1, trivial⟩
  case globals => exact GlobalVariable.ensures.vec.map fun _ h => ⟨h.2, h.1, trivial⟩
  case exports =>
    exact (Ensures.trivial Export.reader).vec.map fun _ h => ⟨trivial, h.1, trivial⟩
  case start =>
    exact (Ensures.trivial Leb128.u32).map fun _ _ =>
      ⟨trivial, Nat.one_lt_two_pow (by decide), trivial⟩
  case elements =>
    exact ElementSegment.ensures.vec.map fun _ h =>
      ⟨fun e he => (h.2 e he).1, h.1, fun e he => (h.2 e he).2⟩
  case bodies => exact FunctionBody.ensures.vec.map fun _ h => ⟨trivial, h.1, h.2⟩
  case data =>
    exact DataSegment.ensures.vec.map fun _ h =>
      ⟨fun d hd => (h.2 d hd).1, h.1, fun d hd => (h.2 d hd).2⟩

end Section

namespace Frame

/-- The size of a payload was announced in 32 bits. -/
theorem ensures_reader : Frame.reader.Ensures fun f => f.payload.length < 2 ^ 32 := by
  refine Ensures.bind (Ensures.captured (P := fun p => p.2.length < 2 ^ 32) ?_) fun p hp => .pure hp
  exact Ensures.bind (.trivial _) fun _ _ => Ensures.sized.bind fun _ hpayload => .pure hpayload

theorem Intact.length_payload_lt {frame : Frame} (h : frame.Intact) :
    frame.payload.length < 2 ^ 32 :=
  ensures_reader (h [])

/-- **A section that was decoded is well formed**, and what it counts can be announced. -/
theorem wellFormed_of_decode {frame : Frame} {s : Section} {unread : List UInt8}
    (hintact : frame.Intact) (h : frame.decode = .ok (s, unread)) :
    s.WellFormed ∧ s.Countable := by
  unfold decode Section.ofPayload at h
  split at h
  · cases h
  · split at h
    · rename_i reader hreader
      exact Section.ensures_of_reader? hreader h
    · rw [Logged.outcome_bind, Except.bind_eq_ok_iff] at h
      obtain ⟨c, hc, hpure⟩ := h
      cases hpure
      exact CustomSection.ensures hintact.length_payload_lt hc

end Frame

end WasmContract
