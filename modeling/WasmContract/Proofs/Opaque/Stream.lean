import Mathlib.Data.List.Forall2
import WasmContract.Proofs.Opaque.Section

/-!
# Streams with opaque bytes

`Module.roles` gives the role of each byte of a stream: those of the frames, one after the other,
behind a header that belongs to the format. A stream is overwritten frame by frame
(`FramedSection.Overwritten`), so its module is decoded as before, with the new bytes in the place
of the old ones (`Module.decode_of_overwrites`).
-/

namespace WasmContract

/-- What holds of the items of one list holds of those related to them. -/
theorem forall_mem_of_forall₂ {α β : Type} {R : α → β → Prop} {P : α → Prop} {Q : β → Prop}
    {as : List α} {bs : List β} (h : List.Forall₂ R as bs) (hR : ∀ a b, R a b → P a → Q b)
    (has : ∀ a ∈ as, P a) : ∀ b ∈ bs, Q b := by
  induction h with
  | nil => exact List.forall_mem_nil _
  | cons hab _ ih =>
    obtain ⟨ha, hlater⟩ := List.forall_mem_cons.mp has
    exact List.forall_mem_cons.mpr ⟨hR _ _ hab ha, ih hlater⟩

/-- The roles of the bytes of a frame that holds a section. -/
def Frame.roles (f : Frame) : List Role := Role.endingIn f.bytes.length f.payloadRoles

namespace FramedSection

/-- A section in its frame whose bytes are overwritten by those of another one. The two sections
differ in the bytes that they keep. -/
structure Overwritten (p p' : FramedSection) : Prop where
  /-- Every byte of the frame has a role. -/
  length_roles : p.frame.roles.length = p.frame.bytes.length
  /-- The bytes of the format are the same. -/
  overwrites : Overwrites p.frame.roles p.frame.bytes p'.frame.bytes
  /-- The other frame can stand in a stream. -/
  intact : p'.frame.Intact
  /-- The other section is decoded, and leaves as many bytes unread. -/
  decode : ∃ unread unread', p.frame.decode = .ok (p.content, unread) ∧
    p'.frame.decode = .ok (p'.content, unread') ∧ unread'.length = unread.length
  /-- The sections agree in all but the bytes that they keep. -/
  blank : p'.content.blank = p.content.blank
  /-- The other section keeps the new bytes. -/
  contents : ∀ role, role.IsKept →
    pick role p.frame.roles p'.frame.bytes = p'.content.contents role

variable {p p' : FramedSection} {parts parts' : List FramedSection} {new : List UInt8}

/-- A section in its frame survives overwriting, and the frame does as well. -/
theorem exists_overwritten (hintact : p.frame.Intact)
    (hdecode : p.frame.decodeLeniently = .ok p.content) :
    p.frame.roles.length = p.frame.bytes.length ∧
      ∀ new, Overwrites p.frame.roles p.frame.bytes new →
        ∃ p', p'.frame.bytes = new ∧ Overwritten p p' := by
  obtain ⟨unread, hread⟩ := Frame.decodeLeniently_eq_ok_iff.mp hdecode
  have hsurvives := Frame.survives_of_decode hread
  have hroles := hsurvives.length_payloadRoles
  have hlength : p.frame.roles.length = p.frame.bytes.length :=
    Role.length_endingIn (hroles ▸ hintact.length_payload_le)
  refine ⟨hlength, fun new hnew => ?_⟩
  obtain ⟨payload, hintact', hpayload, hpick⟩ := hintact.exists_of_overwrites hroles hnew
  obtain ⟨s', unread', hread', hunread, hblank, hcontents⟩ := hsurvives.overwritten payload hpayload
  refine ⟨⟨{ p.frame with payload, bytes := new }, s'⟩, rfl, hlength, hnew, hintact',
    ⟨unread, unread', hread, hread' new, hunread⟩, hblank, fun role hrole => ?_⟩
  exact (hpick role hrole.ne_format).trans (hcontents role hrole)

namespace Overwritten

/-- A section in its frame can be overwritten by itself. -/
protected theorem refl (hintact : p.frame.Intact)
    (hdecode : p.frame.decodeLeniently = .ok p.content) : Overwritten p p := by
  obtain ⟨p', hbytes, h⟩ :=
    (exists_overwritten hintact hdecode).2 _ (Overwrites.refl p.frame.roles p.frame.bytes)
  have hframe := h.intact.eq_of_bytes_eq hintact hbytes
  obtain ⟨unread, unread', hread, hread', -⟩ := h.decode
  rw [hframe, hread] at hread'
  obtain ⟨frame, content⟩ := p
  obtain ⟨frame', content'⟩ := p'
  cases hframe
  cases hread'
  exact h

theorem decodeLeniently (h : Overwritten p p') :
    p'.frame.decodeLeniently = .ok p'.content := by
  obtain ⟨_, unread', -, hread', -⟩ := h.decode
  exact Frame.decodeLeniently_eq_ok_iff.mpr ⟨unread', hread'⟩

/-- If nothing was left unread, then there are still no such bytes. -/
theorem exact (h : Overwritten p p') (hp : p.Exact) : p'.Exact := by
  obtain ⟨unread, unread', hread, hread', hlength⟩ := h.decode
  rw [hp.decode] at hread
  cases hread
  rw [List.length_nil, List.length_eq_zero_iff] at hlength
  exact ⟨h.intact, hlength ▸ hread'⟩

end Overwritten

/-- The roles of the bytes of frames that follow one another. -/
def roles (parts : List FramedSection) : List Role := parts.flatMap fun p => p.frame.roles

/-- Frames that follow one another are overwritten frame by frame. -/
theorem exists_overwritten_of_join
    (hall : ∀ p ∈ parts, p.frame.Intact ∧ p.frame.decodeLeniently = .ok p.content) :
    (roles parts).length = (join parts).length ∧
      ∀ new, Overwrites (roles parts) (join parts) new →
        ∃ parts', new = join parts' ∧ List.Forall₂ Overwritten parts parts' := by
  induction parts with
  | nil => exact ⟨rfl, fun new hnew => ⟨[], List.eq_nil_of_length_eq_zero hnew.length_eq, .nil⟩⟩
  | cons p later ih =>
    obtain ⟨⟨hintact, hdecode⟩, hlater⟩ := List.forall_mem_cons.mp hall
    obtain ⟨hlength, hover⟩ := exists_overwritten hintact hdecode
    obtain ⟨hlengths, hovers⟩ := ih hlater
    rw [roles, List.flatMap_cons, join_cons, ← roles]
    refine ⟨by rw [List.length_append, hlength, hlengths, List.length_append], fun new hnew => ?_⟩
    obtain ⟨front, back, rfl, hfront, hback⟩ := (Overwrites.append_iff hlength).mp hnew
    obtain ⟨p', rfl, hp⟩ := hover front hfront
    obtain ⟨parts', rfl, hparts⟩ := hovers back hback
    exact ⟨p' :: parts', (join_cons p' parts').symm, .cons hp hparts⟩

/-- Frames that are overwritten one by one are overwritten together. -/
theorem overwrites_join (h : List.Forall₂ Overwritten parts parts') :
    Overwrites (roles parts) (join parts) (join parts') := by
  induction h with
  | nil => exact .refl _ _
  | cons hp _ ih =>
    rw [roles, List.flatMap_cons, join_cons, join_cons, Overwrites.append_iff hp.length_roles]
    exact ⟨_, _, rfl, hp.overwrites, ih⟩

/-- Sections together keep the new bytes of all frames. -/
theorem pick_join (h : List.Forall₂ Overwritten parts parts') {role : Role} (hrole : role.IsKept) :
    pick role (roles parts) (join parts') =
      (parts'.map (·.content)).flatMap (Section.contents role) := by
  induction h with
  | nil => rfl
  | cons hp _ ih =>
    rw [roles, List.flatMap_cons, join_cons,
      pick_append (hp.length_roles.trans hp.overwrites.length_eq.symm), hp.contents role hrole,
      ← roles, ih, List.map_cons, List.flatMap_cons]

theorem map_blank_of_forall₂ (h : List.Forall₂ Overwritten parts parts') :
    (parts'.map (·.content)).map Section.blank = (parts.map (·.content)).map Section.blank := by
  induction h with
  | nil => rfl
  | cons hp _ ih => rw [List.map_cons, List.map_cons, hp.blank, ih, List.map_cons, List.map_cons]

end FramedSection

/-! ### Modules -/

namespace Module

/-- The roles of the bytes of a stream. The header belongs to the format. -/
def roles (bytes : List UInt8) : List Role :=
  Role.endingIn bytes.length
    ((Framing.ofBytes (bytes.drop Header.size)).frames.flatMap Frame.roles)

/-- A module with zeros for code, for data, and for the content of custom sections that has no
meaning. -/
def blank (m : Module) : Module := { m with sections := m.sections.map Section.blank }

/-- The bytes of a role that the sections of a module keep, in the order of the stream. -/
def contents (role : Role) (m : Module) : List UInt8 := m.entries (Section.kept? role)

variable {decode : Frame → Except DecodeError Section} {bytes bytes' : List UInt8}
  {header : Header} {parts parts' : List FramedSection} {m m' : Module}

theorem roles_of_decodeStream (h : decodeStream decode bytes = .ok (header, parts)) :
    roles bytes = Role.endingIn bytes.length (FramedSection.roles parts) := by
  obtain ⟨-, hframing, -⟩ := framing_of_decodeStream h
  rw [roles, hframing, List.flatMap_map, FramedSection.roles]

theorem contents_ofStream (role : Role) (stream : Header × List FramedSection) :
    (ofStream stream).contents role =
      (stream.2.map (·.content)).flatMap (Section.contents role) := rfl

/-- Modules are told apart by the bytes that they keep, and by all else. -/
theorem eq_of_blank_eq (hblank : m.blank = m'.blank)
    (hcontents : ∀ role, role.IsKept → m.contents role = m'.contents role) : m = m' := by
  obtain ⟨hheader, hsections⟩ := Module.mk.inj hblank
  cases m
  cases m'
  rw [Module.mk.injEq]
  exact ⟨hheader, Section.eq_of_map_blank_eq hsections hcontents⟩

/-- Modules of sections that are overwritten agree in all but the bytes that they keep. -/
theorem blank_of_forall₂ (h : List.Forall₂ FramedSection.Overwritten parts parts') :
    (ofStream (header, parts')).blank = (ofStream (header, parts)).blank :=
  congrArg (Module.mk header) (FramedSection.map_blank_of_forall₂ h)

/-- A stream whose sections are overwritten one by one is overwritten, and its module keeps the new
bytes. -/
theorem overwrites_of_forall₂
    (h : decodeStream Frame.decodeLeniently bytes = .ok (header, parts))
    (hparts : List.Forall₂ FramedSection.Overwritten parts parts')
    (hbytes' : bytes' = bytes.take Header.size ++ FramedSection.join parts') :
    Overwrites (roles bytes) bytes bytes' ∧ ∀ role, role.IsKept →
      pick role (roles bytes) bytes' = (ofStream (header, parts')).contents role := by
  obtain ⟨-, hbytes, hall⟩ := decodeStream_eq_ok_iff.mp h
  have hlength := (FramedSection.exists_overwritten_of_join hall).1
  have hjoin := FramedSection.overwrites_join hparts
  have hroles := roles_of_decodeStream h
  generalize bytes.take Header.size = front at hbytes hbytes'
  subst hbytes hbytes'
  rw [hroles]
  have hover : Overwrites (Role.endingIn _ (FramedSection.roles parts))
      (front ++ FramedSection.join parts) (front ++ FramedSection.join parts') :=
    (Overwrites.endingIn_iff hlength).mpr ⟨_, rfl, hjoin⟩
  refine ⟨hover, fun role hrole => ?_⟩
  rw [pick_endingIn hrole.ne_format (hlength.trans hjoin.length_eq.symm) hover.length_eq,
    FramedSection.pick_join hparts hrole, contents_ofStream]

/-- **Overwriting a stream.** It consists of the same header and of overwritten sections. -/
theorem exists_of_overwrites (h : decodeStream Frame.decodeLeniently bytes = .ok (header, parts))
    (hnew : Overwrites (roles bytes) bytes bytes') :
    ∃ parts', List.Forall₂ FramedSection.Overwritten parts parts' ∧
      bytes' = bytes.take Header.size ++ FramedSection.join parts' ∧
      decodeStream Frame.decodeLeniently bytes' = .ok (header, parts') := by
  obtain ⟨hheader, hbytes, hall⟩ := decodeStream_eq_ok_iff.mp h
  have hfront := Header.length_of_reads hheader
  obtain ⟨hlength, hover⟩ := FramedSection.exists_overwritten_of_join hall
  rw [roles_of_decodeStream h, hbytes, Overwrites.endingIn_iff hlength] at hnew
  obtain ⟨_, rfl, hback⟩ := hnew
  obtain ⟨parts', rfl, hparts⟩ := hover _ hback
  refine ⟨parts', hparts, rfl, decodeStream_eq_ok_iff.mpr ?_⟩
  rw [List.take_left' hfront]
  exact ⟨hheader, rfl, forall_mem_of_forall₂ hparts
    (fun p p' hp _ => ⟨hp.intact, hp.decodeLeniently⟩) hall⟩

/-- **Overwriting a module.** The same module is decoded, with the new bytes in the place of the old
ones. -/
theorem decode_of_overwrites (h : Module.decode bytes = .ok m)
    (hnew : Overwrites (roles bytes) bytes bytes') :
    ∃ m', Module.decode bytes' = .ok m' ∧ m'.blank = m.blank ∧
      ∀ role, role.IsKept → m'.contents role = pick role (roles bytes) bytes' := by
  rw [decode_eq, Except.map_eq_ok_iff] at h
  obtain ⟨⟨header, parts⟩, hstream, rfl⟩ := h
  obtain ⟨parts', hparts, hbytes', hstream'⟩ := exists_of_overwrites hstream hnew
  refine ⟨ofStream (header, parts'), ?_, blank_of_forall₂ hparts, fun role hrole => ?_⟩
  · rw [decode_eq, hstream', Except.ok_map]
  · exact ((overwrites_of_forall₂ hstream hparts hbytes').2 role hrole).symm

/-- A module keeps the bytes of the stream that have these roles. -/
theorem contents_of_decode (h : Module.decode bytes = .ok m) {role : Role} (hrole : role.IsKept) :
    m.contents role = pick role (roles bytes) bytes := by
  obtain ⟨m', hdecode, -, hcontents⟩ := decode_of_overwrites h (.refl _ _)
  cases h.symm.trans hdecode
  exact hcontents role hrole

end Module

end WasmContract
