import WasmContract.Proofs.Contract.Reading
import WasmContract.Proofs.Module.Sections

/-!
# Streams put together

A module may be decoded in parts: the sections of a stream that goes on are those of its front and
those of its back, and an error in the back is the error of the back alone, at its place in the
whole (`Module.decode_append_eq`). Where decoding fails for another reason than a shortage of input,
more input does not help, and this holds of strict reading as well.
-/

namespace WasmContract

/-- The bytes of a header: eight, of which the first four are the fixed ones. -/
structure IsHeader (bytes : List UInt8) : Prop where
  /-- The number of bytes. -/
  length : bytes.length = Header.size
  /-- The bytes that open every module. -/
  magic : bytes.take 4 = Header.magic

/-- Any version is accepted, so a header is read from the bytes of a header. -/
theorem IsHeader.exists_reads {bytes : List UInt8} (h : IsHeader bytes) :
    ∃ header, Header.reader.Reads bytes header := by
  obtain ⟨b₀, b₁, b₂, b₃, hversion⟩ : ∃ b₀ b₁ b₂ b₃, bytes.drop 4 = [b₀, b₁, b₂, b₃] := by
    have hlength : (bytes.drop 4).length = 4 := by
      rw [List.length_drop, h.length]
      rfl
    match hdrop : bytes.drop 4, hlength with
    | [b₀, b₁, b₂, b₃], _ => exact ⟨b₀, b₁, b₂, b₃, rfl⟩
  have hword : Reader.word32.Reads [b₀, b₁, b₂, b₃]
      (b₀.toUInt32 ||| b₁.toUInt32 <<< 8 ||| b₂.toUInt32 <<< 16 ||| b₃.toUInt32 <<< 24) :=
    fun _ => rfl
  rw [← List.take_append_drop 4 bytes, h.magic, hversion]
  exact ⟨_, (Reader.Reads.bytes Header.magic).bind (.check (by simp) (hword.last _))⟩

variable {front back opening : List UInt8} {m m' : Module} {e : ModuleError}

namespace Module

theorem size_le_length_of_decode (h : decode front = .ok m) : Header.size ≤ front.length := by
  rw [decode_eq, Except.map_eq_ok_iff] at h
  obtain ⟨⟨header, parts⟩, hstream, -⟩ := h
  obtain ⟨hreads, -, -⟩ := framing_of_decodeStream hstream
  have hlength := Header.length_of_reads hreads
  rw [List.length_take] at hlength
  omega

/-- What follows a module is decoded as its sections would be behind a header of their own. -/
theorem decode_append_eq (h : decode front = .ok m) (hopening : IsHeader opening)
    (back : List UInt8) :
    ∃ header, decode (opening ++ back) =
        (decodeSections Frame.decodeLeniently Header.size back).map (fun parts =>
          { header, sections := parts.map (·.content) }) ∧
      decode (front ++ back) =
        ((decodeSections Frame.decodeLeniently Header.size back).mapError
          (.shift (front.length - Header.size))).map fun parts =>
            { m with sections := m.sections ++ parts.map (·.content) } := by
  obtain ⟨header, hreads⟩ := hopening.exists_reads
  have hlength := size_le_length_of_decode h
  rw [decode_eq, Except.map_eq_ok_iff] at h
  obtain ⟨⟨header', parts⟩, hstream, rfl⟩ := h
  have hshift : decodeSections Frame.decodeLeniently front.length back =
      (decodeSections Frame.decodeLeniently Header.size back).mapError
        (.shift (front.length - Header.size)) := by
    rw [← decodeSections_add, Nat.sub_add_cancel hlength]
  refine ⟨header, ?_, ?_⟩
  · rw [decode_eq, decodeStream_of_reads hreads]
    cases decodeSections Frame.decodeLeniently Header.size back <;> rfl
  · rw [decode_eq, decodeStream_append hstream, hshift]
    cases decodeSections Frame.decodeLeniently Header.size back <;> simp [ofStream]

/-- The lenient decoder fails in the same way when more follows, unless it ran out of input. -/
theorem decode_append_of_error (h : decode front = .error e) (he : e.rootCause ≠ .unexpectedEnd)
    (back : List UInt8) : decode (front ++ back) = .error e := by
  rw [decode_eq, Except.map_eq_error_iff] at h
  rw [decode_eq, decodeStream_append_of_error h he, Except.error_map]

end Module

/-- The strict reader fails in the same way when more follows, unless it ran out of input. -/
theorem Contract.read_append_of_error (h : Contract.read front = .error e)
    (he : e.rootCause ≠ .unexpectedEnd) (back : List UInt8) :
    Contract.read (front ++ back) = .error e := by
  rw [read_eq, Except.map_eq_error_iff] at h
  rw [read_eq, decodeStream_append_of_error h he, Except.error_map]

/-- **Decoding composes over the stream.** What follows a module is decoded as it would be behind
any header: its sections join those of the module, and an error arises at the place that the length
of the module gives. A failure that is no shortage of input is final, for the lenient decoder and
for the strict reader. -/
theorem decoding_composes :
    (∀ front m, Module.decode front = .ok m → Header.size ≤ front.length ∧
      ∀ opening, IsHeader opening → ∀ back,
        (∀ m', Module.decode (opening ++ back) = .ok m' →
          Module.decode (front ++ back) = .ok { m with sections := m.sections ++ m'.sections }) ∧
        (∀ id offset cause, Module.decode (opening ++ back) = .error (.inSection id offset cause) →
          Module.decode (front ++ back) =
            .error (.inSection id (front.length - Header.size + offset) cause)) ∧
        ∀ cause, Module.decode (opening ++ back) ≠ .error (.inHeader cause)) ∧
    (∀ bytes e, Module.decode bytes = .error e → e.rootCause ≠ .unexpectedEnd →
      ∀ more, Module.decode (bytes ++ more) = .error e) ∧
    ∀ bytes e, Contract.read bytes = .error e → e.rootCause ≠ .unexpectedEnd →
      ∀ more, Contract.read (bytes ++ more) = .error e := by
  refine ⟨fun front m h => ⟨Module.size_le_length_of_decode h, fun opening hopening back => ?_⟩,
    fun _ _ h he => Module.decode_append_of_error h he,
    fun _ _ h he => Contract.read_append_of_error h he⟩
  obtain ⟨header, halone, happend⟩ := Module.decode_append_eq h hopening back
  rw [halone, happend]
  cases hback : decodeSections Frame.decodeLeniently Header.size back with
  | ok parts =>
    refine ⟨fun m' hm' => ?_, fun _ _ _ herror => ?_, fun _ herror => ?_⟩
    · cases hm'
      rfl
    · cases herror
    · cases herror
  | error e =>
    obtain ⟨id, place, cause, rfl⟩ := exists_of_decodeSections_eq_error hback
    refine ⟨fun _ hm' => ?_, fun id' offset cause' herror => ?_, fun _ herror => ?_⟩
    · cases hm'
    · cases herror
      rfl
    · cases herror

/-- A start section whose size is written in two bytes, and behind it another one and a section of
no kind, whose error stays whatever follows. -/
theorem decoding_composes_unknown_section :
    let front : List UInt8 := Header.magic ++ [0x01, 0x00, 0x00, 0x00, 0x08, 0x81, 0x00, 0x05]
    let opening : List UInt8 := Header.magic ++ [0x02, 0x00, 0x00, 0x00]
    let start : List UInt8 := [0x08, 0x01, 0x03]
    let unknown : List UInt8 := [0x0c, 0x00]
    let e : ModuleError := .inSection 0x0c 15 (.invalidSectionId 0x0c)
    Module.decode front = .ok { sections := [.start 5] } ∧ IsHeader opening ∧
      Module.decode (opening ++ start) =
        .ok { header := { version := 2 }, sections := [.start 3] } ∧
      Module.decode (front ++ start) = .ok { sections := [.start 5, .start 3] } ∧
      Module.decode (opening ++ (start ++ unknown)) =
        .error (.inSection 0x0c 11 (.invalidSectionId 0x0c)) ∧
      Module.decode (front ++ (start ++ unknown)) = .error e ∧
      e.rootCause ≠ .unexpectedEnd ∧
      (∀ more, Module.decode (front ++ (start ++ unknown) ++ more) = .error e) ∧
      Contract.read (front ++ (start ++ unknown)) = .error e ∧
      ∀ more, Contract.read (front ++ (start ++ unknown) ++ more) = .error e := by
  intro front opening start unknown e
  obtain ⟨hcomposes, hfinal, hfinal'⟩ := decoding_composes
  have hfront : Module.decode front = .ok { sections := [.start 5] } := by decide +kernel
  have hopening : IsHeader opening := ⟨rfl, rfl⟩
  have hstart : Module.decode (opening ++ start) =
      .ok { header := { version := 2 }, sections := [.start 3] } := by
    decide +kernel
  have herror : Module.decode (opening ++ (start ++ unknown)) =
      .error (.inSection 0x0c 11 (.invalidSectionId 0x0c)) := by
    decide +kernel
  have hread : Contract.read (front ++ (start ++ unknown)) = .error e := by decide +kernel
  have happend := (hcomposes front _ hfront).2 opening hopening
  have he := (happend (start ++ unknown)).2.1 _ _ _ herror
  have hcause : e.rootCause ≠ .unexpectedEnd := by decide
  exact ⟨hfront, hopening, hstart, (happend start).1 _ hstart, herror, he, hcause,
    hfinal _ e he hcause, hread, hfinal' _ e hread hcause⟩

end WasmContract
